import Mathlib.Algebra.Order.Ring.Int
import Mathlib.Data.List.Basic
import Mathlib.Data.List.DropRight
import Mathlib.Data.List.Infix

/-! # Go's library as the agent uses it

Strings, digests' inputs and checks in the words of the Go packages the modelled code
calls. A `time.Time` is a count of nanoseconds whose zero value is the zero time, a
`time.Duration` a count of nanoseconds; an `error` is its text. -/

namespace LatticeAgent

open List

/-- `time.Time`, in nanoseconds from the zero time. -/
abbrev Time := Int

/-- `time.Duration`, in nanoseconds. -/
abbrev Duration := Int

/-- `time.Time.IsZero`. -/
def Time.isZero (t : Time) : Bool := t == 0

/-- `time.Time.Sub`: a difference outside the range of an `int64` saturates. -/
def Time.sub (t u : Time) : Duration := max (-2 ^ 63) (min (2 ^ 63 - 1) (t - u))

theorem Time.sub_le_sub {u v : Time} (h : u ≤ v) (t : Time) : t.sub v ≤ t.sub u := by
  unfold Time.sub
  lia

/-- A difference that is not negative does not exceed the real one. -/
theorem Time.sub_le {t u : Time} (h : 0 ≤ t.sub u) : t.sub u ≤ t - u := by
  unfold Time.sub at h ⊢
  lia

/-- `time.Time.Unix`. -/
def Time.unix (t : Time) : Int := t / 1000000000 - 62135596800

/-- `time.Second`. -/
def second : Duration := 1000000000

/-- `time.Unix(0, 0)`. -/
def unixEpoch : Time := 62135596800 * second

/-- `time.Duration(n) * time.Millisecond`, in `int64` arithmetic. -/
def milliseconds (n : Int) : Duration := Int.bmod (n * 1000000) (2 ^ 64)

/-- The result of an `int64` operation: its low 64 bits. -/
def int64 (n : Int) : Int := Int.bmod n (2 ^ 64)

theorem int64_le {n : Int} (h : 0 ≤ n) : int64 n ≤ n := by
  simp only [int64, Int.bmod]
  push_cast
  split <;> omega

theorem int64_add_left (a b : Int) : int64 (int64 a + b) = int64 (a + b) := by
  simp [int64]

/-- The contents of a file or of a Go byte slice. -/
abbrev Bytes := List UInt8

/-- `[]byte(s)`. -/
def utf8 (s : String) : Bytes := s.toList.flatMap String.utf8EncodeChar

/-- `unicode.IsSpace`. -/
def isSpace (c : Char) : Bool :=
  c ∈ ['\t', '\n', '\u000b', '\u000c', '\r', ' ', '\u0085', '\u00a0', '\u1680', '\u2028',
    '\u2029', '\u202f', '\u205f', '\u3000'] || ('\u2000' ≤ c && c ≤ '\u200a')

theorem isSpace_range {c : Char} (h : isSpace c) : c.toNat ≤ 32 ∨ 133 ≤ c.toNat := by
  simp only [isSpace, Bool.or_eq_true, Bool.and_eq_true, decide_eq_true_eq, mem_cons,
    List.not_mem_nil, or_false] at h
  rcases h with h | ⟨h, -⟩
  · rcases h with rfl | rfl | rfl | rfl | rfl | rfl | rfl | rfl | rfl | rfl | rfl | rfl | rfl | rfl <;>
      decide
  · exact .inr (le_trans (by decide) (show '\u2000'.toNat ≤ c.toNat from h))

theorem isSpace_digit {c : Char} (h : c.isDigit) : isSpace c = false := by
  rw [Char.isDigit, Bool.and_eq_true, decide_eq_true_eq, decide_eq_true_eq] at h
  have hlow : 48 ≤ c.toNat := h.1
  have hhigh : c.toNat ≤ 57 := h.2
  by_contra hspace
  rcases isSpace_range (Bool.of_not_eq_false hspace) with h | h <;> omega

/-- `strings.TrimSpace`. -/
def trimSpace (s : String) : String :=
  String.ofList (((s.toList.dropWhile isSpace).reverse.dropWhile isSpace).reverse)

theorem trimSpace_trimSpace (s : String) : trimSpace (trimSpace s) = trimSpace s := by
  unfold trimSpace
  rw [String.toList_ofList]
  set m := s.toList.dropWhile isSpace with hm
  have hfront : (m.rdropWhile isSpace).dropWhile isSpace = m.rdropWhile isSpace := by
    rw [dropWhile_eq_self_iff]
    intro hl
    have hp : m.rdropWhile isSpace <+: m := rdropWhile_prefix isSpace m
    have hl' : 0 < m.length := lt_of_lt_of_le hl hp.length_le
    rw [hp.getElem hl]
    have := dropWhile_get_zero_not isSpace s.toList (by rw [← hm]; exact hl')
    simpa [← hm] using this
  change String.ofList (((m.rdropWhile isSpace).dropWhile isSpace).rdropWhile isSpace) = _
  rw [hfront, rdropWhile_idempotent]
  rfl

/-- `strings.Contains`. -/
def contains (s sub : String) : Bool := decide (sub.toList <:+: s.toList)

/-- `if bad { return fmt.Errorf(msg) }`. -/
def refuse (bad : Bool) (msg : String) : Except String Unit :=
  if bad then .error msg else .ok ()

variable {msg : String} {α : Type}

@[simp] theorem refuse_bind_eq_ok {bad : Bool} {f : Unit → Except String α} {a : α} :
    (refuse bad msg >>= f) = .ok a ↔ bad = false ∧ f () = .ok a := by
  cases bad <;> simp [refuse, bind, Except.bind]

@[simp] theorem refuse_eq_ok {bad : Bool} {u : Unit} : refuse bad msg = .ok u ↔ bad = false := by
  cases bad <;> simp [refuse]

theorem bind_eq_ok {β : Type} {x : Except String α} {f : α → Except String β} {b : β} :
    (x >>= f) = .ok b ↔ ∃ a, x = .ok a ∧ f a = .ok b := by
  cases x <;> simp [bind, Except.bind]

section

variable {β : Type} {f : α → Except String β} {l : List α} {ys : List β}

theorem mapM_cons_eq_ok {x : α} : (x :: l).mapM f = .ok ys ↔
    ∃ y ys', f x = .ok y ∧ l.mapM f = .ok ys' ∧ ys = y :: ys' := by
  simp [mapM_cons, bind_eq_ok, pure, Except.pure, eq_comm (a := ys)]

/-- A loop that fails at its first failing element: what it collected. -/
theorem mem_of_mapM_eq_ok (h : l.mapM f = .ok ys) :
    (∀ y ∈ ys, ∃ x ∈ l, f x = .ok y) ∧ ∀ x ∈ l, ∃ y ∈ ys, f x = .ok y := by
  induction l generalizing ys with
  | nil => cases h; simp
  | cons x l ih =>
    obtain ⟨y, ys', hy, hys', rfl⟩ := mapM_cons_eq_ok.mp h
    obtain ⟨ih₁, ih₂⟩ := ih hys'
    refine ⟨fun z hz => ?_, fun z hz => ?_⟩
    · rcases mem_cons.mp hz with rfl | hz
      · exact ⟨x, mem_cons_self, hy⟩
      · obtain ⟨w, hw, hf⟩ := ih₁ z hz
        exact ⟨w, mem_cons_of_mem _ hw, hf⟩
    · rcases mem_cons.mp hz with rfl | hz
      · exact ⟨y, mem_cons_self, hy⟩
      · obtain ⟨w, hw, hf⟩ := ih₂ z hz
        exact ⟨w, mem_cons_of_mem _ hw, hf⟩

theorem map_of_mapM_eq_ok {g : β → α} (h : l.mapM f = .ok ys)
    (hg : ∀ x y, f x = .ok y → g y = x) : ys.map g = l := by
  induction l generalizing ys with
  | nil => cases h; rfl
  | cons x l ih =>
    obtain ⟨y, ys', hy, hys', rfl⟩ := mapM_cons_eq_ok.mp h
    rw [map_cons, hg x y hy, ih hys']

end

end LatticeAgent
