import Mathlib.Data.List.Rotate

/-! # The most recent elements

A memory of at most so many elements, the oldest of which is forgotten first; an element that is
still remembered is not taken again and keeps its place (`Recent.add`).

A ring of slots with a position, overwritten one after the other, holds such a memory: read from
the position on, it is the elements in the order they came in (`rotate_set`). -/

namespace Recent

open List

variable {α : Type}

/-- The element is remembered, and at most so many were taken after it. -/
def Behind (n : Nat) (x : α) (q : List α) : Prop :=
  ∃ older newer, q = older ++ x :: newer ∧ newer.length ≤ n

section Place

variable {q : List α} {x : α}

theorem Behind.mem {n : Nat} (h : Behind n x q) : x ∈ q := by
  obtain ⟨older, newer, rfl, -⟩ := h
  simp

theorem Behind.mono {m n : Nat} (h : Behind m x q) (hle : m ≤ n) : Behind n x q := by
  obtain ⟨older, newer, heq, hlen⟩ := h
  exact ⟨older, newer, heq, hlen.trans hle⟩

theorem behind_of_getLast? (h : q.getLast? = some x) : Behind 0 x q := by
  obtain ⟨q', rfl⟩ := getLast?_eq_some_iff.mp h
  exact ⟨q', [], rfl, le_rfl⟩

/-- Overwriting the slot at the position and moving on is forgetting the oldest and taking a new
one. -/
theorem rotate_set {ring : List α} {pos : Nat} (h : pos < ring.length) (x : α) :
    (ring.set pos x).rotate ((pos + 1) % ring.length) = (ring.rotate pos).tail ++ [x] := by
  have hlen : (ring.set pos x).length = ring.length := length_set
  rw [← hlen, rotate_mod, rotate_eq_drop_append_take (by omega),
    rotate_eq_drop_append_take h.le, drop_set_of_lt (Nat.lt_succ_self pos),
    drop_eq_getElem_cons h, cons_append, tail_cons,
    take_succ_eq_append_getElem (by omega), take_set_of_le le_rfl,
    getElem_set_self, append_assoc]

end Place

variable [DecidableEq α]

/-- Takes an element unless it is remembered, and forgets the oldest if there is no room. -/
def add (cap : Nat) (q : List α) (x : α) : List α :=
  if x ∈ q then q else (q ++ [x]).drop (q.length + 1 - cap)

variable {cap : Nat} {q : List α} {x y : α}

theorem add_of_mem (h : x ∈ q) : add cap q x = q := if_pos h

theorem add_of_lt (h : x ∉ q) (hroom : q.length < cap) : add cap q x = q ++ [x] := by
  rw [add, if_neg h, Nat.sub_eq_zero_of_le hroom, drop_zero]

theorem add_of_full (h : x ∉ q) (hfull : q.length = cap) (hpos : 0 < cap) :
    add cap q x = q.tail ++ [x] := by
  rw [add, if_neg h, hfull, Nat.add_sub_cancel_left]
  cases q with
  | nil => simp at hfull; omega
  | cons y q => rfl

theorem behind_add_self (h : x ∉ q) (hpos : 0 < cap) : Behind 0 x (add cap q x) := by
  apply behind_of_getLast?
  rw [add, if_neg h, getLast?_drop]
  have hlen : ¬ (q ++ [x]).length ≤ q.length + 1 - cap := by
    rw [length_append, length_singleton]
    omega
  rw [if_neg hlen, getLast?_append_cons, getLast?_singleton]

/-- Another element moves this one on by at most one place, and does not push it out before its
turn. -/
theorem Behind.add {n : Nat} (h : Behind n x q) (hn : n + 1 < cap) (hroom : q.length ≤ cap)
    (y : α) : Behind (n + 1) x (Recent.add cap q y) := by
  by_cases hy : y ∈ q
  · rw [add_of_mem hy]
    exact h.mono (Nat.le_succ n)
  · obtain ⟨older, newer, rfl, hlen⟩ := h
    have hsplit : (older ++ x :: newer) ++ [y] = older ++ x :: (newer ++ [y]) := by simp
    have hle : (older ++ x :: newer).length + 1 - cap ≤ older.length := by
      simp only [length_append, length_cons] at hroom ⊢
      omega
    rw [Recent.add, if_neg hy, hsplit, drop_append_of_le_length hle]
    refine ⟨_, newer ++ [y], rfl, ?_⟩
    rw [length_append, length_singleton]
    omega

theorem length_add_le (h : q.length ≤ cap) (y : α) : (Recent.add cap q y).length ≤ cap := by
  unfold Recent.add
  split
  · exact h
  · rw [length_drop, length_append, length_singleton]
    omega

/-- **How long an element is remembered**: fewer others than there is room for do not push it
out. -/
theorem Behind.foldl {n : Nat} (h : Behind n x q) (hroom : q.length ≤ cap) (ys : List α)
    (hfew : n + ys.countP (· ≠ x) < cap) :
    Behind (n + ys.countP (· ≠ x)) x (ys.foldl (Recent.add cap) q) := by
  induction ys generalizing q n with
  | nil => exact h
  | cons y ys ih =>
    rw [foldl_cons]
    by_cases hy : y = x
    · rw [countP_cons_of_neg (by simp [hy])] at hfew ⊢
      rw [hy, add_of_mem h.mem]
      exact ih h hroom hfew
    · rw [countP_cons_of_pos (by simp [hy]), ← Nat.add_assoc, Nat.add_right_comm] at hfew ⊢
      exact ih (h.add (by omega) hroom y) (length_add_le hroom y) hfew

end Recent
