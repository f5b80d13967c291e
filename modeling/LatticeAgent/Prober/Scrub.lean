import LatticeAgent.Lib.Replace
import LatticeAgent.Prober.Monitor

/-! # Secrets in error texts

`scrubText` replaces the secrets of a monitor in an error text one after another. A secret is
replaced as a whole exactly if none of those replaced before it is a part of it
(`scrubText_whole_iff`); a user name that is part of a header value leaves the rest of that value
in the text (`scrubText_leaves_part`). -/

namespace LatticeAgent.Prober

open Replace

variable (lib : UrlLib)

/-! ### The code -/

/-- The least length of a text that is scrubbed. -/
def minScrubLen : Nat := 4

/-- What replaces a secret. -/
def redacted : Bytes := utf8 "[redacted]"

/-- The secrets of a target, in the order they are replaced. -/
def targetSecrets (u : URL) : List Bytes :=
  let ofUser := match u.user with
    | none => []
    | some user => [lib.userString user, user.username] ++ user.password.toList
  let ofQuery :=
    if u.rawQuery ≠ [] then
      [utf8 "?" ++ u.rawQuery, u.rawQuery] ++ (lib.queryUnescape u.rawQuery).toList
    else []
  ofUser ++ ofQuery

/-- One replacement; short texts are left alone. -/
def scrub (text s : Bytes) : Bytes :=
  if minScrubLen ≤ s.length then replaceAll s redacted text else text

def scrubText (text : Bytes) (m : Monitor) : Bytes :=
  let text := match lib.parse (lib.trimSpace m.target) with
    | some u => (targetSecrets lib u).foldl scrub text
    | none => text
  m.headers.foldl (fun text h => scrub text h.value) text

/-- A URL without user info, query and fragment. -/
def redactURL (raw : Bytes) : Bytes :=
  match lib.parse raw with
  | none => utf8 "target"
  | some u => lib.string { u with
      user := none, rawQuery := [], forceQuery := false, fragment := [], rawFragment := [] }

/-- The text of a request's error. -/
def redactHTTPError (err : Err) (m : Monitor) : Bytes :=
  let text := match err.url with
    | some uerr =>
      uerr.op ++ utf8 " " ++ lib.quote (redactURL lib uerr.url) ++ utf8 ": " ++ uerr.err
    | none => err.text
  scrubText lib text m

/-- The secrets of a monitor, in the order they are replaced. -/
def secrets (m : Monitor) : List Bytes :=
  let ofTarget := ((lib.parse (lib.trimSpace m.target)).map (targetSecrets lib)).getD []
  (ofTarget ++ m.headers.map (·.value)).filter (minScrubLen ≤ ·.length)

theorem ne_nil_of_mem_secrets {m : Monitor} {s : Bytes} (h : s ∈ secrets lib m) : s ≠ [] := by
  have hlength := (List.mem_filter.1 h).2
  rintro rfl
  simp [minScrubLen] at hlength

theorem foldl_scrub (texts : List Bytes) (text : Bytes) :
    texts.foldl scrub text =
      replaceEach (texts.filter (minScrubLen ≤ ·.length)) redacted text := by
  rw [replaceEach, List.foldl_filter]
  simp only [decide_eq_true_eq]
  rfl

theorem scrubText_eq (text : Bytes) (m : Monitor) :
    scrubText lib text m = replaceEach (secrets lib m) redacted text := by
  rw [secrets, ← foldl_scrub, List.foldl_append, List.foldl_map, scrubText]
  cases lib.parse (lib.trimSpace m.target) with
  | none | some => rfl

/-! ### Whole secrets -/

/-- No secret that is replaced before `s` is a part of it. -/
def FirstOfItsParts (m : Monitor) (s : Bytes) : Prop :=
  ∀ t ∈ (secrets lib m).takeWhile (· ≠ s), ¬ t <:+: s

instance (m : Monitor) (s : Bytes) : Decidable (FirstOfItsParts lib m s) :=
  inferInstanceAs (Decidable (∀ t ∈ (secrets lib m).takeWhile (· ≠ s), ¬ t <:+: s))

/-- **A secret of a text in which all secrets lie inside it.**  It is replaced as a whole if no
secret replaced before it is a part of it, and, where no secret ever overlaps the marker, only
then. -/
theorem scrubText_whole_iff (m : Monitor) {x s y : Bytes} (hs : s ∈ secrets lib m)
    (hinside : ∀ t ∈ secrets lib m, Inside x s y t) :
    ((∀ t ∈ secrets lib m, Clear x redacted y t) → FirstOfItsParts lib m s →
      scrubText lib (x ++ s ++ y) m = x ++ redacted ++ y) ∧
    ((∀ t ∈ secrets lib m, Apart t redacted) →
      (scrubText lib (x ++ s ++ y) m = x ++ redacted ++ y ↔ FirstOfItsParts lib m s)) := by
  have hne : ∀ t ∈ secrets lib m, t ≠ [] := fun _ => ne_nil_of_mem_secrets lib
  have hmark : redacted ≠ [] := by decide
  rw [scrubText_eq]
  have hwhole : (∀ t ∈ secrets lib m, Clear x redacted y t) → FirstOfItsParts lib m s →
      replaceEach (secrets lib m) redacted (x ++ s ++ y) = x ++ redacted ++ y :=
    replaceEach_whole hs hne hinside
  refine ⟨hwhole, fun hapart => ⟨?_, ?_⟩⟩
  · exact not_infix_of_replaceEach_whole hmark hs hne hinside hapart
  · exact hwhole fun t ht => hapart t ht x y

/-- A target with a user name. -/
def userTarget : Bytes := utf8 "https://user@host/"

def userLib : UrlLib where
  trimSpace := id
  quote := id
  parse raw := if raw = userTarget then
      some { scheme := utf8 "https", user := some { username := utf8 "user" },
             host := utf8 "host", path := utf8 "/" }
    else none
  string _ := []
  userString user := user.username
  hostname u := u.host
  queryUnescape := some

/-- A check whose user name is part of a header value. -/
def userMonitor : Monitor where
  type := .http
  target := userTarget
  headers := [{ name := utf8 "Authorization", value := utf8 "Bearer user-secret-token" }]

theorem secrets_userMonitor : secrets userLib userMonitor =
    [utf8 "user", utf8 "user", utf8 "Bearer user-secret-token"] := by decide +kernel

theorem apart_redacted {c : UInt8} {cs : Bytes} (hc : c ∉ redacted) (hcs : 91 ∉ c :: cs) :
    Apart (c :: cs) redacted := by
  have hmark : redacted = 91 :: redacted.tail := by decide
  rw [hmark] at hc ⊢
  exact .of_head hc hcs

theorem userMonitor_apart : ∀ t ∈ secrets userLib userMonitor, Apart t redacted := by
  have huser : Apart (utf8 "user") redacted := apart_redacted (by decide) (by decide)
  have hvalue : Apart (utf8 "Bearer user-secret-token") redacted :=
    apart_redacted (by decide) (by decide)
  rw [secrets_userMonitor]
  simp [huser, hvalue]

/-- The user name is replaced first, and what is around it in the header value stays. -/
theorem scrubText_leaves_part :
    let x := utf8 "refused "
    let s := utf8 "Bearer user-secret-token"
    s ∈ secrets userLib userMonitor ∧
      (∀ t ∈ secrets userLib userMonitor, Inside x s [] t) ∧
      (∀ t ∈ secrets userLib userMonitor, Apart t redacted) ∧
      scrubText userLib (x ++ s ++ []) userMonitor =
        utf8 "refused Bearer [redacted]-secret-token" ∧
      scrubText userLib (x ++ s ++ []) userMonitor ≠ x ++ redacted ++ [] := by
  refine ⟨by decide +kernel, ?_, userMonitor_apart, by decide +kernel, by decide +kernel⟩
  have hplaces : ∀ t ∈ secrets userLib userMonitor,
      ∀ i ≤ (utf8 "refused Bearer user-secret-token").length,
        t <+: (utf8 "refused Bearer user-secret-token").drop i →
          8 ≤ i ∧ i + t.length ≤ 8 + 24 := by decide +kernel
  exact fun t ht => inside_of_drop (hplaces t ht)

/-- The user name alone is replaced as a whole. -/
theorem scrubText_whole_iff_user :
    let x := utf8 "no route for "
    let y := utf8 " today"
    scrubText userLib (x ++ utf8 "user" ++ y) userMonitor = x ++ redacted ++ y ∧
      FirstOfItsParts userLib userMonitor (utf8 "user") := by
  have hmem : utf8 "user" ∈ secrets userLib userMonitor := by decide +kernel
  have hplaces : ∀ t ∈ secrets userLib userMonitor,
      ∀ i ≤ (utf8 "no route for user today").length,
        t <+: (utf8 "no route for user today").drop i →
          13 ≤ i ∧ i + t.length ≤ 13 + 4 := by decide +kernel
  have hiff := (scrubText_whole_iff userLib userMonitor hmem
    (x := utf8 "no route for ") (y := utf8 " today")
    fun t ht => inside_of_drop (hplaces t ht)).2 userMonitor_apart
  have hfirst : FirstOfItsParts userLib userMonitor (utf8 "user") := by decide +kernel
  exact ⟨hiff.2 hfirst, hfirst⟩

end LatticeAgent.Prober
