import LatticeAgent.Lib.Decimal
import LatticeAgent.Sshwatch.Records

/-! # The expressions on sshd's records

An expression takes for the user the longest text behind which its rest matches. So it is
enough that the rest matches where sshd's own words begin and nowhere later
(`Regex.greedy_last`, `Ends`): behind the user the record does not name a source again
(`from_once`), and behind the address no port (`port_once`). -/

namespace LatticeAgent.Sshwatch

open List Rejection Decimal Nat Text
open Text (lit)
open Regex

variable {g : List (Field × Str)} {net : Net} {addr : Str}

/-- What an expression finds: its groups and the rest. -/
def found (g : List (Field × Str)) (rest : Str) : Option (List (Field × Str) × Str) := some (g, rest)

/-- An address is a word, and not the word `from`. -/
structure Address (addr : Str) : Prop where
  ne : addr ≠ []
  word : ∀ c ∈ addr, nonSpace c = true
  other : 'r' ∉ addr

variable {c : Char} {invalid preauth : Bool} {port : Nat} {r : Regex Field}
  {rest : List (Regex Field)} {v w : Str}

theorem nonSpace_of_isDigit (h : c.isDigit) : nonSpace c := by
  by_contra hspace
  simp only [nonSpace, space, mem_cons, List.not_mem_nil, or_false, Bool.not_eq_true',
    decide_eq_false_iff_not, not_not] at hspace
  rcases hspace with rfl | rfl | rfl | rfl | rfl <;> exact absurd h (by decide)

theorem address_of_parseIP (h : (net.parseIP addr).isSome) : Address addr := by
  obtain ⟨hne, hchars⟩ := net.parseIP_text h
  refine ⟨hne, fun c hc => ?_, fun hr => ?_⟩
  · rcases hchars c hc with hdigit | hin
    · exact nonSpace_of_isDigit hdigit
    · have hall : "abcdefABCDEF:.".toList.all nonSpace := by decide
      exact all_eq_true.mp hall c hin
  · exact absurd (hchars 'r' hr) (by decide)

theorem blank_not_mem (h : ∀ c ∈ w, nonSpace c) : ' ' ∉ w := fun hin =>
  absurd (h ' ' hin) (by decide)

/-! ### Behind the user -/

theorem run_fromPort (ha : Address addr) (port : Nat) (t : Str) :
    (fromPort (r :: rest)).run g (fromText addr port t) found
      = (cat (r :: rest)).run ((.addr, addr) :: g) t found := by
  have hssh : Breaks Char.isDigit (lit " ssh2") := ⟨' ', lit "ssh2", by simp, by decide⟩
  have hport : Breaks nonSpace (lit " port ") := ⟨' ', lit "port ", by simp, by decide⟩
  have hdigits := fun c hc => isDigit_toDigits (n := port) (c := c) hc
  change (seq (text (lit " from ")) (seq (group .addr (plus nonSpace)) (seq (text (lit " port "))
    (seq (plus Char.isDigit) (seq (text (lit " ssh2")) (cat (r :: rest))))))).run g _ found = _
  rw [fromText, run, run_text_append, run_group_plus_text hport _ _ ha.ne ha.word,
    run_plus_text hssh _ toDigits_ne_nil hdigits]

/-- The rest of an expression that begins with a text matches nowhere without it. -/
theorem run_fromPort_none {s : Str} (h : ¬ lit " from " <+: s) :
    (fromPort rest).run g s found = none := by
  exact run_seq_text_none _ h

theorem not_prefix_digits (hc : c.isDigit = false) (t : Str) (port : Nat) (rest : Str) :
    ¬ c :: t <+: toDigits 10 port ++ rest := by
  intro hp
  cases hd : toDigits 10 port with
  | nil => exact toDigits_ne_nil hd
  | cons d digits =>
    have hdigit : d.isDigit :=
      isDigit_toDigits (n := port) (by rw [hd]; exact mem_cons_self)
    rw [hd] at hp
    rw [← (cons_prefix_cons.mp hp).1, hc] at hdigit
    cases hdigit

theorem no_from_port (port : Nat) {rest : Str} (h : ¬ lit " from " <:+: rest) :
    ¬ lit " from " <:+: lit " port " ++ (toDigits 10 port ++ rest) := by
  have hport : lit " port " ++ (toDigits 10 port ++ rest)
      = ' ' :: (lit "port" ++ ' ' :: (toDigits 10 port ++ rest)) := by simp
  have hlit : lit " from " = ' ' :: lit "from " := by simp
  rw [hport, hlit, cons_infix_cons, infix_skip (by simp), cons_infix_cons,
    infix_skip (not_mem_toDigits (by decide)), ← hlit]
  simp only [not_or]
  have hfrom : lit "from " = 'f' :: lit "rom " := by simp
  refine ⟨by simp, ?_, h⟩
  rw [hfrom]
  exact not_prefix_digits (by decide) _ port rest

theorem from_once (ha : Address addr) {rest : Str} (hblank : ∀ c s, rest = c :: s → c = ' ')
    (h : ¬ lit " from " <:+: rest) : ¬ lit " from " <:+: (lit " from " ++ (addr ++ rest)).tail := by
  have htail : (lit " from " ++ (addr ++ rest)).tail = lit "from" ++ ' ' :: (addr ++ rest) := by simp
  have hlit : lit " from " = ' ' :: lit "from " := by simp
  rw [htail, hlit, infix_skip (by simp), cons_infix_cons,
    infix_skip (blank_not_mem ha.word), ← hlit, not_or]
  refine ⟨?_, h⟩
  -- an address does not begin with the word, for it has no `r`
  have hne := ha.ne
  have hr := ha.other
  match addr, rest with
  | [], _ => exact absurd rfl hne
  | [c], [] => simp
  | [c], d :: rest => simp [hblank d rest rfl]
  | c :: d :: addr, _ => simp_all [eq_comm]

theorem run_preauthEnd (preauth : Bool) : preauthEnd.run g (preauthText preauth) found = some (g, []) := by
  cases preauth <;> simp [preauthEnd, preauthText, cat, run, isPrefixOf?, found]

theorem run_keyEnd {key : Option Str} (h : ∀ k, key = some k → '\n' ∉ k) :
    (cat [opt (cat [text (lit ": "), many dot]), preauthEnd]).run g (keyText key) found
      = some (g, []) := by
  cases key with
  | none => simp [cat, run, keyText, preauthEnd, isPrefixOf?, found]
  | some key =>
    have hdot : ∀ c ∈ key, dot c = true := by
      intro c hc
      simp only [dot, decide_eq_true_eq]
      rintro rfl
      exact h key rfl hc
    have hall : greedy dot (key ++ []) (fun r => preauthEnd.run g r found) = some (g, []) :=
      greedy_last hdot (run_preauthEnd false) fun r hr hne => absurd (suffix_nil.mp hr) hne
    rw [append_nil] at hall
    simp only [cat, run_seq, run_opt, run_many, keyText, run_text_append, hall, Option.some_or]

/-! ### The user -/

/-- An expression that finds an address in the words behind the user, and nowhere later. -/
structure Ends (tail : Regex Field) (v addr : Str) : Prop where
  here : ∀ g, tail.run g v found = some ((.addr, addr) :: g, [])
  later : ∀ g r, r <:+ v → r ≠ v → tail.run g r found = none

theorem ends_fromPort (ha : Address addr) (port : Nat) {t : Str}
    (hrest : ∀ g, (cat (r :: rest)).run g t found = some (g, [])) (honce : ¬ lit " from " <:+: t) :
    Ends (fromPort (r :: rest)) (fromText addr port t) addr := by
  have hport : ¬ lit " from " <:+: lit " port " ++ (toDigits 10 port ++ (lit " ssh2" ++ t)) := by
    have hssh : lit " ssh2" ++ t = ' ' :: (lit "ssh2" ++ t) := by simp
    have hlit : lit " from " = ' ' :: lit "from " := by simp
    refine no_from_port port ?_
    rw [hssh, hlit, cons_infix_cons, infix_skip (by simp), ← hlit, not_or]
    exact ⟨by simp, honce⟩
  refine ⟨fun g => by rw [run_fromPort ha, hrest], fun g s hs hne => run_fromPort_none fun hp => ?_⟩
  exact from_once ha (by simp) hport (hp.isInfix.trans (suffix_tail hs hne).isInfix)

variable {tail : Regex Field}

theorem Ends.run_user (h : Ends tail v addr) (hw : '\n' ∉ w) (g : List (Field × Str)) :
    (seq (group .user (many dot)) tail).run g (w ++ v) found
      = some ((.addr, addr) :: (.user, w) :: g, []) := by
  have hdot : ∀ c ∈ w, dot c = true := by
    intro c hc
    simp only [dot, decide_eq_true_eq]
    rintro rfl
    exact hw hc
  refine greedy_last hdot ?_ fun r hr hne => h.later _ r hr hne
  refine (h.here _).trans ?_
  rw [length_append, Nat.add_sub_cancel, take_left]

theorem Ends.run_user_none {s : Str} (h : Ends tail v addr) (hs : s <:+ v) (hne : s ≠ v) :
    (seq (group .user (many dot)) tail).run g s found = none := by
  refine greedy_none fun r hr => h.later _ r (hr.trans hs) ?_
  rintro rfl
  exact hne (hs.eq_of_length_le hr.length_le)

/-- The word for an invalid user may be part of the user; the address stays the same. -/
theorem Ends.run_userBefore (h : Ends tail v addr) (hw : '\n' ∉ w) (g : List (Field × Str)) :
    ∃ g', (userBefore tail).run g (w ++ v) found = some ((.addr, addr) :: g', []) := by
  have hskip := h.run_user hw g
  change ∃ g', (((seq (group .invalid (text (lit "invalid"))) (text (lit " user "))).run g (w ++ v)
    fun g s => (seq (group .user (many dot)) tail).run g s found).or
      ((seq (group .user (many dot)) tail).run g (w ++ v) found)) = some ((.addr, addr) :: g', [])
  cases hword : (seq (group .invalid (text (lit "invalid"))) (text (lit " user "))).run g (w ++ v)
      fun g s => (seq (group .user (many dot)) tail).run g s found with
  | none => exact ⟨_, hskip⟩
  | some x =>
    obtain ⟨g₁, s, hs, hx⟩ := run_sound _ hword
    -- behind the word there is still all that sshd wrote, or nothing is found there
    have hv : v <:+ s := by
      rcases suffix_or_suffix_of_suffix hs (suffix_append w v) with hsv | hsv
      · by_contra hno
        rw [h.run_user_none hsv fun heq => hno (heq ▸ suffix_rfl)] at hx
        cases hx
      · exact hsv
    obtain ⟨w₁, rfl⟩ := hv
    obtain ⟨u, hu⟩ := hs
    rw [← append_assoc] at hu
    have hw₁ : '\n' ∉ w₁ := fun hin => hw (append_cancel_right hu ▸ mem_append_right u hin)
    rw [h.run_user hw₁] at hx
    exact ⟨_, by rw [← hx]; rfl⟩

variable {user : Str}

theorem invalidWord_line (invalid : Bool) (h : '\n' ∉ user) :
    '\n' ∉ invalidWord invalid ++ user := by
  cases invalid <;> simp [invalidWord, h]

/-! ### The expressions -/

theorem find_failedRe {method user : Str} {key : Option Str}
    (h : (failed method invalid user addr port key).Written net) :
    ∃ g, failedRe.find (failed method invalid user addr port key).text
      = some ((.addr, addr) :: g, []) := by
  obtain ⟨huser, haddr, ⟨hne, hword⟩, hkey⟩ := h
  have hfor : Breaks nonSpace (lit " for ") := ⟨' ', lit "for ", by simp, by decide⟩
  have honce : ¬ lit " from " <:+: keyText key := by
    cases key with
    | none => simp [keyText]
    | some k =>
      obtain ⟨-, hin, hstart⟩ := hkey k rfl
      have hcolon : keyText (some k) = [':'] ++ ' ' :: k := by simp [keyText]
      have hlit : lit " from " = ' ' :: lit "from " := by simp
      rw [hcolon, hlit, infix_skip (by decide), cons_infix_cons, ← hlit, not_or]
      exact ⟨hstart, hin⟩
  have hends : Ends failedTail (fromText addr port (keyText key)) addr :=
    ends_fromPort (address_of_parseIP haddr) port (fun g => run_keyEnd fun k hk => (hkey k hk).1) honce
  obtain ⟨g, hg⟩ := hends.run_userBefore (invalidWord_line invalid huser) [(.method, method)]
  refine ⟨g, ?_⟩
  change (seq (text (lit "Failed ")) (seq (group .method (plus nonSpace)) (seq (text (lit " for "))
    (userBefore failedTail)))).run [] _ found = _
  rw [Rejection.text, run_seq, run_text_append, run_group_plus_text hfor _ _ hne hword, ← hg,
    append_assoc]

theorem find_exceededRe (h : (exceeded invalid user addr port preauth).Written net) :
    ∃ g, exceededRe.find (exceeded invalid user addr port preauth).text
      = some ((.addr, addr) :: g, []) := by
  obtain ⟨huser, haddr⟩ := h
  have honce : ¬ lit " from " <:+: preauthText preauth := by
    cases preauth <;> (simp [preauthText]; try decide)
  have hends : Ends exceededTail (fromText addr port (preauthText preauth)) addr :=
    ends_fromPort (address_of_parseIP haddr) port (fun g => run_preauthEnd preauth) honce
  obtain ⟨g, hg⟩ := hends.run_userBefore (invalidWord_line invalid huser) []
  refine ⟨g, ?_⟩
  change (seq (text _) (userBefore exceededTail)).run [] _ found = _
  rw [Rejection.text, run_seq, run_text_append, ← hg, append_assoc]

theorem blank_of_portText {port : Option Nat} {r : Str} (h : portText port = c :: r) : c = ' ' := by
  cases port with
  | none => cases h
  | some n => simp_all [portText, eq_comm]

theorem blank_of_preauthText {r : Str} (h : preauthText preauth = c :: r) : c = ' ' := by
  cases preauth with
  | false => cases h
  | true => simp_all [preauthText, eq_comm]

theorem run_portEnd (port : Option Nat) : portEnd.run g (portText port) found = some (g, []) := by
  cases port with
  | none => simp [portEnd, portText, cat, run, isPrefixOf?, found]
  | some n =>
    have hdigits := run_plus (g := g) (v := []) (k := fun g s => (stop : Regex Field).run g s found)
      (toDigits_ne_nil (n := n)) (fun c hc => isDigit_toDigits hc) (by simp)
      (by simp [run])
    rw [append_nil] at hdigits
    simp only [portEnd, run_seq, run_opt, cat, portText, run_text_append, hdigits]
    rfl

theorem ends_invalidTail (ha : Address addr) (port : Option Nat) :
    Ends invalidTail (lit " from " ++ (addr ++ portText port)) addr := by
  have hword : ∀ g c r, nonSpace c = true → portEnd.run g (c :: r) found = none := by
    intro g c r hc
    have hblank : Breaks nonSpace (lit " port ") := ⟨' ', lit "port ", by simp, by decide⟩
    simp only [portEnd, run_seq, run_opt, cat, hblank.run_text hc]
    rfl
  constructor
  · intro g
    have hend := run_group_plus (g := g) (k := fun g s => portEnd.run g s found) Field.addr ha.ne ha.word
      (v := portText port) (fun c s hc => by rw [blank_of_portText hc]; decide) hword
    simp only [invalidTail, cat, run_seq, run_text_append, hend, run_portEnd]
  · intro g r hr hne
    have hno : ¬ lit " from " <:+: portText port := by
      cases port with
      | none => simp [portText]
      | some n => simpa [portText] using no_from_port n (show ¬ lit " from " <:+: [] by simp)
    refine run_seq_text_none _ fun hp => ?_
    exact from_once ha (fun c s => blank_of_portText) hno
      (hp.isInfix.trans (suffix_tail hr hne).isInfix)

theorem find_invalidRe {port : Option Nat} (h : (invalidUser user addr port).Written net) :
    invalidRe.find (invalidUser user addr port).text
      = some ([(.addr, addr), (.user, user)], []) := by
  obtain ⟨huser, haddr⟩ := h
  have hends := ends_invalidTail (address_of_parseIP haddr) port
  change (seq (text (lit "Invalid user ")) (seq (group .user (many dot)) invalidTail)).run [] _ found = _
  rw [Rejection.text, run_seq, run_text_append, hends.run_user huser]

theorem run_droppedTail_none {s : Str} (h : ¬ lit " port " <:+: s) :
    droppedTail.run g (' ' :: s) found = none := by
  by_contra hne
  obtain ⟨x, hx⟩ := Option.ne_none_iff_exists'.mp hne
  have hblank : (' ' :: s) = [' '] ++ s := rfl
  rw [hblank] at hx
  simp only [droppedTail, cat, run_seq, run_text_append] at hx
  obtain ⟨g', s', hs', hport⟩ := run_sound _ hx
  by_cases hp : lit " port " <+: s'
  · exact h (hp.isInfix.trans hs'.isInfix)
  · rw [run_text_none hp] at hport
    cases hport

theorem port_once (port : Nat) (preauth : Bool) :
    ¬ lit " port " <:+: lit "port" ++ ' ' :: (toDigits 10 port ++ preauthText preauth) := by
  have hlit : lit " port " = ' ' :: lit "port " := by simp
  have hword : lit "port " = 'p' :: lit "ort " := by simp
  rw [hlit, infix_skip (by simp), cons_infix_cons,
    infix_skip (not_mem_toDigits (by decide)), not_or]
  constructor
  · rw [hword]
    exact not_prefix_digits (by decide) _ port _
  · cases preauth <;> (simp [preauthText]; try decide)

theorem ends_droppedTail (ha : Address addr) (port : Nat) (preauth : Bool) :
    Ends droppedTail (droppedText addr port preauth) addr := by
  have hport : Breaks nonSpace (lit " port ") := ⟨' ', lit "port ", by simp, by decide⟩
  have hblank : Breaks Char.isDigit (lit " [preauth]") := ⟨' ', lit "[preauth]", by simp, by decide⟩
  constructor
  · intro g
    have hend : ∀ g c r, Char.isDigit c = true → preauthEnd.run g (c :: r) found = none := by
      intro g c r hc
      simp only [preauthEnd, cat, run_seq, run_opt, hblank.run_text hc]
      rfl
    have hdigits := fun g => run_plus (g := g) (v := preauthText preauth)
      (k := fun g s => preauthEnd.run g s found) (toDigits_ne_nil (n := port))
      (fun c hc => isDigit_toDigits hc)
      (fun c s hc => by rw [blank_of_preauthText hc]; decide) (hend g)
    change (seq (text [' ']) (seq (group .addr (plus nonSpace)) (seq (text (lit " port "))
      (seq (plus Char.isDigit) preauthEnd)))).run g _ found = _
    rw [droppedText, run_seq, run_text_append, run_group_plus_text hport _ _ ha.ne ha.word, run_seq,
      hdigits, run_preauthEnd]
  · intro g r hr hne
    cases r with
    | nil => exact run_seq_text_none _ (by simp)
    | cons c r =>
      by_cases hc : ' ' = c
      · subst hc
        -- a blank behind the address: the one before the port, or a later one
        have hsuffix := suffix_skip (blank_not_mem ha.word) (suffix_tail hr hne)
        have hsplit : lit " port " ++ (toDigits 10 port ++ preauthText preauth)
            = ' ' :: (lit "port" ++ ' ' :: (toDigits 10 port ++ preauthText preauth)) := by simp
        rw [hsplit] at hsuffix
        refine run_droppedTail_none fun hin => port_once port preauth (hin.trans ?_)
        rcases suffix_cons_iff.mp hsuffix with heq | hlater
        · rw [(List.cons.inj heq).2]
        · exact ((suffix_cons ' ' r).trans hlater).isInfix
      · exact run_seq_text_none _ fun hp => hc (cons_prefix_cons.mp hp).1

section
variable {k : List (Field × Str) → Str → Option (List (Field × Str) × Str)} {s : Str}

theorem run_departure {x : List (Field × Str) × Str} (hx : k g s = some x) (how : Departure) :
    departureRe.run g (how.text ++ s) k = some x := by
  cases how <;> simp [departureRe, Departure.text, cat, run, isPrefixOf?, hx]

theorem run_account {x : List (Field × Str) → List (Field × Str) × Str}
    (hx : ∀ g, k g s = some (x g)) (invalid : Bool) :
    ∃ g', accountRe.run g ((if invalid then lit "invalid" else lit "authenticating") ++ s) k
      = some (x g') := by
  cases invalid with
  | true => exact ⟨_, by simp [accountRe, run, isPrefixOf?, hx]; rfl⟩
  | false => exact ⟨g, by simp [accountRe, run, isPrefixOf?, hx]⟩

end

theorem find_droppedRe {how : Departure}
    (h : (dropped how invalid user addr port preauth).Written net) :
    ∃ g, droppedRe.find (dropped how invalid user addr port preauth).text
      = some ((.addr, addr) :: g, []) := by
  obtain ⟨huser, haddr⟩ := h
  have hends := fun g =>
    (ends_droppedTail (address_of_parseIP haddr) port preauth).run_user (w := user) huser g
  obtain ⟨g, hg⟩ := run_account (g := []) (s := lit " user " ++ (user ++ droppedText addr port preauth))
    (k := fun g s => (seq (text (lit " user ")) (seq (group .user (many dot)) droppedTail)).run g s found)
    (fun g => by rw [run_seq, run_text_append]; exact hends g) invalid
  refine ⟨(.user, user) :: g, ?_⟩
  change (seq departureRe (seq (text [' ']) (seq accountRe (seq (text (lit " user "))
    (seq (group .user (many dot)) droppedTail))))).run [] _ found = _
  rw [Rejection.text, run_seq, run_departure]
  rw [run_seq, run_text_append, run_seq]
  exact hg

end LatticeAgent.Sshwatch
