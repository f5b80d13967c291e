import Mathlib.Data.List.DropRight
import Mathlib.Data.List.Infix

/-! # Texts

Texts as lists of characters: trimmed at their ends, cut at the first or the last
occurrence of a separator, and taken apart into words. `cut_append` says when the cut of
`pre ++ sep ++ post` is `(pre, post)`: no occurrence of `sep` may begin inside `pre`, not
even one that ends inside the separator itself. For a separator none of whose proper ends
is also its beginning it is enough that `pre` does not contain it (`cut_of_unbordered`). -/

namespace Text

open List

variable {p : Char → Bool} {c : Char} {s sep pre post : List Char}

/-- The characters of a literal. It is unfolded by `lit_eq` only, so that a definition with
many literals in it is unfolded without them. -/
@[irreducible] def lit (s : String) : List Char := s.toList

@[simp] theorem lit_eq (s : String) : lit s = s.toList := by
  unfold lit
  rfl

/-- Without the characters of a kind at both ends. -/
def trim (p : Char → Bool) (s : List Char) : List Char := (s.dropWhile p).rdropWhile p

theorem trim_eq_self (hhead : ∀ c, s.head? = some c → p c = false)
    (hlast : ∀ c, s.getLast? = some c → p c = false) : trim p s = s := by
  have hdrop : s.dropWhile p = s := by
    cases s with
    | nil => rfl
    | cons c s => simp [hhead c rfl]
  rw [trim, hdrop, rdropWhile_eq_self_iff]
  intro hne
  rw [hlast _ (getLast?_eq_some_getLast hne)]
  exact Bool.false_ne_true

/-! ### The first occurrence of a separator -/

/-- The texts before and after the first occurrence of a separator. -/
def cut (sep : List Char) : List Char → Option (List Char × List Char)
  | [] => if sep = [] then some ([], []) else none
  | c :: s =>
    if sep.isPrefixOf (c :: s) then some ([], (c :: s).drop sep.length)
    else (cut sep s).map fun r => (c :: r.1, r.2)

theorem cut_eq_none_iff : cut sep s = none ↔ ¬ sep <:+: s := by
  induction s with
  | nil => simp [cut]
  | cons c s ih =>
    rw [cut, infix_cons_iff, not_or, ← ih, ← isPrefixOf_iff_prefix]
    split <;> simp_all

theorem append_of_cut (h : cut sep s = some (pre, post)) : s = pre ++ (sep ++ post) := by
  induction s generalizing pre with
  | nil =>
    rw [cut] at h
    split at h <;> simp_all
  | cons c s ih =>
    rw [cut] at h
    split at h
    · rename_i hp
      obtain ⟨t, ht⟩ := isPrefixOf_iff_prefix.mp hp
      obtain ⟨rfl, rfl⟩ := Prod.mk.inj (Option.some.inj h)
      rw [← ht, drop_left, nil_append]
    · obtain ⟨r, hr, heq⟩ := Option.map_eq_some_iff.mp h
      obtain ⟨rfl, rfl⟩ := Prod.mk.inj heq
      rw [cons_append, ← ih hr]

/-- What is cut off is shorter than the text, by the separator at least. -/
theorem length_of_cut (h : cut sep s = some (pre, post)) : post.length + sep.length ≤ s.length := by
  rw [append_of_cut h]
  simp only [length_append]
  omega

/-- The separator written after `pre` is the first one, if none begins inside `pre`. -/
theorem cut_append (post : List Char) (h : ¬ sep <:+: pre ++ sep.dropLast) :
    cut sep (pre ++ (sep ++ post)) = some (pre, post) := by
  have hne : sep ≠ [] := fun hnil => h (hnil ▸ nil_infix)
  induction pre with
  | nil =>
    obtain ⟨c, t, rfl⟩ := exists_cons_of_ne_nil hne
    have hp : (c :: t).isPrefixOf (c :: (t ++ post)) :=
      isPrefixOf_iff_prefix.mpr (prefix_append (c :: t) post)
    simp [cut, hp]
  | cons c pre ih =>
    have hno : sep.isPrefixOf (c :: (pre ++ (sep ++ post))) = false := by
      rw [← Bool.not_eq_true, isPrefixOf_iff_prefix]
      intro hp
      -- an occurrence here would lie within `pre` and all but the end of the separator
      have hq : c :: pre ++ sep.dropLast <+: c :: (pre ++ (sep ++ post)) := by
        refine prefix_append_right_inj (c :: pre) |>.mpr ?_
        exact ( dropLast_prefix sep).trans (prefix_append sep post)
      refine h (prefix_of_prefix_length_le hp hq ?_).isInfix
      simp only [length_append, length_cons, length_dropLast]
      omega
    rw [cons_append, cut, hno, ih fun hin => h (hin.trans (suffix_cons c _).isInfix)]
    rfl

/-- No proper end of the text is also its beginning. -/
def Unbordered (sep : List Char) : Prop := ∀ k < sep.length, 0 < k → ¬ sep.drop k <+: sep

instance (sep : List Char) : Decidable (Unbordered sep) :=
  inferInstanceAs (Decidable (∀ k < sep.length, 0 < k → ¬ sep.drop k <+: sep))

theorem Unbordered.not_infix (hu : Unbordered sep) (h : ¬ sep <:+: pre) :
    ¬ sep <:+: pre ++ sep.dropLast := by
  have hne : 0 < sep.length := by
    rw [length_pos_iff]
    rintro rfl
    exact h nil_infix
  rintro ⟨a, b, heq⟩
  rw [append_assoc] at heq
  have hlen := congrArg List.length heq
  simp only [length_append, length_dropLast] at hlen
  rcases append_eq_append_iff.mp heq with ⟨x, rfl, hx⟩ | ⟨x, rfl, -⟩
  · rcases append_eq_append_iff.mp hx with ⟨y, rfl, -⟩ | ⟨y, rfl, hy⟩
    · exact h ⟨a, y, by simp⟩
    · -- the occurrence ends inside the separator: what lies there is its end and its beginning
      have hx0 : 0 < x.length := by
        rw [length_pos_iff]
        rintro rfl
        have := congrArg List.length hy
        simp only [nil_append, length_dropLast, length_append] at this hne
        omega
      have hy0 : 0 < y.length := by
        rw [length_pos_iff]
        rintro rfl
        exact h ⟨a, [], by simp⟩
      refine hu x.length (by rw [length_append]; omega) hx0 ?_
      rw [drop_left]
      exact (prefix_append y b).trans (hy ▸ dropLast_prefix (x ++ y))
  · rw [length_append] at hlen
    omega

theorem cut_of_unbordered (post : List Char) (hu : Unbordered sep) (h : ¬ sep <:+: pre) :
    cut sep (pre ++ (sep ++ post)) = some (pre, post) := cut_append post (hu.not_infix h)

theorem cut_char (post : List Char) (h : c ∉ pre) :
    cut [c] (pre ++ c :: post) = some (pre, post) := by
  have hno : ¬ [c] <:+: pre ++ [c].dropLast := by simpa [singleton_infix_iff] using h
  exact cut_append post hno

theorem infix_skip {x y t : List Char} (h : c ∉ x) : c :: t <:+: x ++ y ↔ c :: t <:+: y := by
  induction x with
  | nil => rfl
  | cons d x ih =>
    rw [mem_cons, not_or] at h
    rw [cons_append, infix_cons_iff, cons_prefix_cons, ih h.2]
    exact or_iff_right fun hd => h.1 hd.1

theorem suffix_skip {x y t : List Char} (h : c ∉ x) (hs : c :: t <:+ x ++ y) : c :: t <:+ y := by
  induction x with
  | nil => exact hs
  | cons d x ih =>
    rw [mem_cons, not_or] at h
    rcases suffix_cons_iff.mp hs with heq | hs
    · exact absurd (List.cons.inj heq).1 h.1
    · exact ih h.2 hs

theorem cons_infix_cons {y t : List Char} : c :: t <:+: c :: y ↔ t <+: y ∨ c :: t <:+: y := by
  rw [infix_cons_iff, cons_prefix_cons, and_iff_right rfl]

/-! ### The last occurrence of a separator -/

/-- The texts before and after the last occurrence of a separator. -/
def cutLast (sep s : List Char) : Option (List Char × List Char) :=
  (cut sep.reverse s.reverse).map fun r => (r.2.reverse, r.1.reverse)

theorem cutLast_append (pre : List Char) (h : ¬ sep <:+: sep.tail ++ post) :
    cutLast sep (pre ++ (sep ++ post)) = some (pre, post) := by
  have hrev : ¬ sep.reverse <:+: post.reverse ++ sep.reverse.dropLast := by
    rwa [dropLast_reverse, ← reverse_append, reverse_infix]
  rw [cutLast, reverse_append, reverse_append, append_assoc,
    cut_append pre.reverse hrev]
  simp

theorem cutLast_char (pre : List Char) (h : c ∉ post) :
    cutLast [c] (pre ++ c :: post) = some (pre, post) := by
  have hno : ¬ [c] <:+: [c].tail ++ post := by simpa [singleton_infix_iff] using h
  exact cutLast_append pre hno

theorem append_of_cutLast (h : cutLast [c] s = some (pre, post)) : s = pre ++ c :: post := by
  obtain ⟨⟨x, y⟩, hr, heq⟩ := Option.map_eq_some_iff.mp h
  obtain ⟨rfl, rfl⟩ := Prod.mk.inj heq
  rw [← reverse_reverse s, append_of_cut hr]
  simp

theorem cutLast_eq_none_iff : cutLast sep s = none ↔ ¬ sep <:+: s := by
  rw [cutLast, Option.map_eq_none_iff, cut_eq_none_iff, reverse_infix]

/-- The words of a text: its longest runs without a character of the kind. -/
def words (p : Char → Bool) (s : List Char) : List (List Char) :=
  (s.splitOnP p).filter (· ≠ [])

/-- Words written with one character of the kind between them are read back. -/
theorem words_intercalate (hp : p c) {ws : List (List Char)} (hne : ∀ w ∈ ws, w ≠ [])
    (hws : ∀ w ∈ ws, ∀ d ∈ w, p d = false) : words p ([c].intercalate ws) = ws := by
  unfold words
  induction ws with
  | nil => simp
  | cons w ws ih =>
    have hw := hne w mem_cons_self
    have hd := hws w mem_cons_self
    have htail := ih (fun v hv => hne v (mem_cons_of_mem w hv))
      fun v hv => hws v (mem_cons_of_mem w hv)
    cases ws with
    | nil => simp [splitOnP_eq_singleton hd, hw]
    | cons v ws =>
      rw [intercalate_cons_cons, append_assoc, singleton_append,
        splitOnP_append_cons_of_forall_mem hd c hp, filter_cons, htail]
      simp [hw]

end Text
