import Mathlib.Algebra.Order.Ring.Int
import Mathlib.Data.List.Basic
import Mathlib.Data.List.DropRight
import Mathlib.Data.List.Infix

/-! # Cutting a stream into frames

A stream of symbols is cut after each separator. Where `limit` symbols come with no separator
among them, they are cut off as they are. `cut` reads the stream symbol by symbol and so depends
on nothing but the stream; `cut_append` says that a stream may be cut piecewise at the ends of its
frames, and `cut_lines`, `cut_chunk` and `cut_short` what a reader makes of one window of at most
`limit` symbols. -/

namespace Framing

open List

variable {α : Type}

/-- What stands before a separator, or `limit` symbols without one. -/
inductive Frame (α : Type) where
  | line (body : List α)
  | chunk (body : List α)
deriving DecidableEq, Repr

/-- How many symbols of the stream a frame takes. -/
def Frame.size : Frame α → Nat
  | .line body => body.length + 1
  | .chunk body => body.length

def Frame.body : Frame α → List α
  | .line body => body
  | .chunk body => body

/-- The symbols of the stream that a frame takes. -/
def Frame.raw (sep : α) : Frame α → List α
  | .line body => body ++ [sep]
  | .chunk body => body

@[simp] theorem Frame.length_raw (sep : α) (fr : Frame α) : (fr.raw sep).length = fr.size := by
  cases fr <;> simp [raw, size]

/-- Frames that follow each other from a place on, each with its own place. -/
def locate (start : Nat) : List (Frame α) → List (Nat × Frame α)
  | [] => []
  | fr :: fs => (start, fr) :: locate (start + fr.size) fs

@[simp] theorem locate_snd (start : Nat) (fs : List (Frame α)) :
    (locate start fs).map Prod.snd = fs := by
  induction fs generalizing start with
  | nil => rfl
  | cons fr fs ih => rw [locate, map_cons, ih]

variable {fs : List (Frame α)} {s : List α}

theorem raw_of_mem_locate {sep : α} {start : Nat}
    (hs : (fs.map (Frame.raw sep)).flatten <+: s.drop start) {p : Nat × Frame α}
    (hp : p ∈ locate start fs) : p.2.raw sep <+: s.drop p.1 := by
  induction fs generalizing start with
  | nil => exact absurd hp List.not_mem_nil
  | cons fr fs ih =>
    rw [map_cons, flatten_cons] at hs
    rcases mem_cons.mp hp with rfl | hp
    · exact (prefix_append _ _).trans hs
    · refine ih ?_ hp
      obtain ⟨rest, hrest⟩ := hs
      rw [← drop_drop, ← hrest, append_assoc, ← Frame.length_raw sep fr, drop_left]
      exact prefix_append _ _

theorem exists_mem_locate {start : Nat} {x : Nat} (hstart : start ≤ x)
    (hx : x < start + (fs.map Frame.size).sum) :
    ∃ p ∈ locate start fs, p.1 ≤ x ∧ x < p.1 + p.2.size := by
  induction fs generalizing start with
  | nil =>
    rw [map_nil, sum_nil] at hx
    omega
  | cons fr fs ih =>
    rw [map_cons, sum_cons] at hx
    by_cases hfr : x < start + fr.size
    · exact ⟨(start, fr), mem_cons_self, hstart, hfr⟩
    · obtain ⟨p, hp, hcover⟩ := ih (Nat.not_lt.mp hfr) (by omega)
      exact ⟨p, mem_cons_of_mem _ hp, hcover⟩

/-! ### Cutting -/

variable [DecidableEq α]

/-- One symbol more, after some frames and the symbols of the open one. -/
def feed (sep : α) (limit : Nat) (st : List (Frame α) × List α) (x : α) : List (Frame α) × List α :=
  if x = sep then (st.1 ++ [.line st.2], [])
  else if st.2.length + 1 = limit then (st.1 ++ [.chunk (st.2 ++ [x])], [])
  else (st.1, st.2 ++ [x])

/-- The frames of a stream, and what is left of the last, open one. -/
def cut (sep : α) (limit : Nat) (s : List α) : List (Frame α) × List α :=
  s.foldl (feed sep limit) ([], [])

variable {sep : α} {limit : Nat}

theorem foldl_feed (s : List α) (fs : List (Frame α)) (t : List α) :
    s.foldl (feed sep limit) (fs, t) =
      (fs ++ (s.foldl (feed sep limit) ([], t)).1, (s.foldl (feed sep limit) ([], t)).2) := by
  induction s generalizing fs t with
  | nil => simp
  | cons x s ih =>
    simp only [foldl_cons, feed]
    split
    · rw [ih, ih ([] ++ _)]
      simp
    · split
      · rw [ih, ih ([] ++ _)]
        simp
      · exact ih fs _

theorem cut_append (h : cut sep limit s = (fs, [])) (t : List α) :
    cut sep limit (s ++ t) = (fs ++ (cut sep limit t).1, (cut sep limit t).2) := by
  unfold cut at h ⊢
  rw [foldl_append, h, foldl_feed]

theorem cut_concat (s : List α) (x : α) :
    cut sep limit (s ++ [x]) = feed sep limit (cut sep limit s) x := by
  simp [cut]

/-- No symbol is lost: the frames and what is left make up the stream. -/
theorem cut_flatten (sep : α) (limit : Nat) (s : List α) :
    ((cut sep limit s).1.map (Frame.raw sep)).flatten ++ (cut sep limit s).2 = s := by
  induction s using reverseRecOn with
  | nil => rfl
  | append_singleton s x ih =>
    rw [cut_concat]
    conv_rhs => rw [← ih]
    unfold feed
    split
    · rename_i hx
      simp [Frame.raw, hx]
    · split <;> simp [Frame.raw]

theorem sep_not_mem_cut (sep : α) (limit : Nat) (s : List α) :
    (∀ fr ∈ (cut sep limit s).1, sep ∉ fr.body) ∧ sep ∉ (cut sep limit s).2 := by
  induction s using reverseRecOn with
  | nil => simp [cut]
  | append_singleton s x ih =>
    obtain ⟨hframes, hopen⟩ := ih
    rw [cut_concat]
    unfold feed
    split
    · refine ⟨fun fr hfr => ?_, List.not_mem_nil⟩
      rcases mem_append.mp hfr with hfr | hfr
      · exact hframes fr hfr
      · rw [mem_singleton.mp hfr]
        exact hopen
    · rename_i hx
      have hnext : sep ∉ (cut sep limit s).2 ++ [x] := by simp [hopen, Ne.symm hx]
      split
      · refine ⟨fun fr hfr => ?_, List.not_mem_nil⟩
        rcases mem_append.mp hfr with hfr | hfr
        · exact hframes fr hfr
        · rw [mem_singleton.mp hfr]
          exact hnext
      · exact ⟨hframes, hnext⟩

theorem size_of_cut (h : cut sep limit s = (fs, [])) : (fs.map Frame.size).sum = s.length := by
  have hflat := congrArg List.length (cut_flatten sep limit s)
  rw [h, append_nil, length_flatten, map_map] at hflat
  rw [← hflat]
  exact congrArg List.sum (map_congr_left fun fr _ => (Frame.length_raw sep fr).symm)

/-! ### Windows -/

theorem feed_open (s t : List α) (hs : sep ∉ s) (hlimit : t.length + s.length < limit) :
    s.foldl (feed sep limit) ([], t) = ([], t ++ s) := by
  induction s generalizing t with
  | nil => simp
  | cons x s ih =>
    obtain ⟨hx, hs⟩ := not_or.mp fun h => hs (mem_cons.mpr h)
    rw [length_cons] at hlimit
    rw [foldl_cons, feed, if_neg (Ne.symm hx), if_neg (show ¬ t.length + 1 = limit by omega),
      ih (t ++ [x]) hs (by rw [length_append, length_singleton]; omega)]
    simp

/-- Fewer than `limit` symbols and no separator: the frame stays open. -/
theorem cut_short (hs : sep ∉ s) (hlimit : s.length < limit) : cut sep limit s = ([], s) :=
  feed_open s [] hs (by simpa using hlimit)

/-- As many symbols as the limit and no separator: they are cut off. -/
theorem cut_chunk (hs : sep ∉ s) (hlimit : s.length = limit) (hpos : 0 < limit) :
    cut sep limit s = ([.chunk s], []) := by
  obtain ⟨s, x, rfl⟩ : ∃ t x, s = t ++ [x] := by
    refine ⟨s.dropLast, s.getLast ?_, (dropLast_append_getLast _).symm⟩
    rintro rfl
    rw [← hlimit] at hpos
    exact Nat.lt_irrefl 0 hpos
  rw [length_append, length_singleton] at hlimit
  have hx : x ≠ sep := fun h => hs (by simp [h])
  have hopen : cut sep limit s = ([], s) := cut_short (fun h => hs (by simp [h])) (by omega)
  unfold cut at hopen ⊢
  rw [foldl_append, hopen]
  simp [feed, hx, hlimit]

theorem cut_line (hs : sep ∉ s) (hlimit : s.length < limit) :
    cut sep limit (s ++ [sep]) = ([.line s], []) := by
  have hopen := cut_short hs hlimit
  unfold cut at hopen ⊢
  rw [foldl_append, hopen]
  simp [feed]

theorem cut_lines (s : List α) (hlimit : s.length < limit) :
    cut sep limit (s ++ [sep]) = ((s.splitOn sep).map .line, []) := by
  induction hn : s.length using Nat.strong_induction_on generalizing s with
  | _ n ih =>
    by_cases hs : sep ∈ s
    · -- the first line, then the rest
      obtain ⟨a, b, rfl, ha⟩ := eq_append_cons_of_mem hs
      rw [length_append, length_cons] at hlimit hn
      have hfirst : cut sep limit (a ++ [sep]) = ([.line a], []) := cut_line ha (by omega)
      have hrest := ih b.length (by omega) b (by omega) rfl
      rw [splitOn_append_cons_self_of_not_mem ha,
        show a ++ sep :: b ++ [sep] = (a ++ [sep]) ++ (b ++ [sep]) by simp, cut_append hfirst, hrest]
      rfl
    · rw [splitOn_eq_singleton hs]
      exact cut_line hs hlimit

theorem rdropWhile_of_mem {w : List α} (h : sep ∈ w) :
    ∃ s t, w = s ++ sep :: t ∧ sep ∉ t ∧ w.rdropWhile (· ≠ sep) = s ++ [sep] := by
  induction w using reverseRecOn with
  | nil => exact absurd h List.not_mem_nil
  | append_singleton w x ih =>
    by_cases hx : x = sep
    · subst hx
      refine ⟨w, [], rfl, List.not_mem_nil, ?_⟩
      rw [rdropWhile_concat_neg]
      simp
    · have hw : sep ∈ w := by
        rcases mem_append.mp h with hw | hw
        · exact hw
        · exact absurd (mem_singleton.mp hw).symm hx
      obtain ⟨s, t, rfl, ht, hdrop⟩ := ih hw
      refine ⟨s, t ++ [x], by simp, ?_, ?_⟩
      · simp [ht, Ne.symm hx]
      · rw [rdropWhile_concat_pos _ _ _ (by simpa using hx), hdrop]

theorem rdropWhile_of_not_mem {w : List α} (h : sep ∉ w) : w.rdropWhile (· ≠ sep) = [] := by
  rw [rdropWhile_eq_nil_iff]
  intro x hx
  simpa using fun he : x = sep => h (he ▸ hx)

theorem rdropWhile_append_of_not_mem (s : List α) {t : List α} (h : sep ∉ t) :
    (s ++ t).rdropWhile (· ≠ sep) = s.rdropWhile (· ≠ sep) := by
  unfold rdropWhile
  rw [reverse_append, dropWhile_append_of_pos]
  intro x hx
  simpa using fun he : x = sep => h (he ▸ mem_reverse.mp hx)

/-- What ends with a separator has more frames than any part of it that is shorter and ends with a
frame. -/
theorem length_cut_lt {u : List α} (h : cut sep limit s = (fs, [])) :
    fs.length < (cut sep limit (s ++ (u ++ [sep]))).1.length := by
  rw [cut_append h, cut_concat, feed, if_pos rfl]
  simp

end Framing
