import LatticeAgent.Lib.Recent
import LatticeAgent.Trace.Guard

/-! # The marks of shed connections

The ring of `traceshed.Guard` is a bounded first-in first-out queue of marks. A mark that is
removed leaves its slot behind, and an id that is added again has several; which slot a mark stands
for is told by its sequence number. `recent` is the content of the ring, newest slot first: its
slots are numbered down from the last add (`Tracks.seqs`), and the slot of a mark is in the place
of the mark's age (`Tracks.marked`, `Tracks.kept`). -/

namespace LatticeAgent.Trace.ShedRing

open List

/-- `shedRing.len`. -/
def len (r : ShedRing) : Nat := r.ids.keys.length

inductive Call where
  | add (id : UInt32)
  | remove (id : UInt32)
  | reset

def call (r : ShedRing) : Call → ShedRing
  | .add id => r.add id
  | .remove id => r.remove id
  | .reset => r.reset

/-- The ring of `newShedRing` after a sequence of calls. -/
def after (capacity : Nat) (calls : List Call) : ShedRing := calls.foldl call { cap := capacity }

def Call.isAdd : Call → Bool
  | .add _ => true
  | _ => false

def adds (calls : List Call) : Nat := calls.countP Call.isAdd

/-- The age of the mark of an id after one call more. -/
def aged (id : UInt32) : Option Nat → Call → Option Nat
  | n, .add j => if j = id then some 0 else n.map (· + 1)
  | n, .remove j => if j = id then none else n
  | _, .reset => none

/-- How many adds followed the last add of an id; none if it was never added, or if since then it
was removed or the ring was reset. -/
def age (id : UInt32) (calls : List Call) : Option Nat := calls.foldl (aged id) none

theorem age_concat (id : UInt32) (calls : List Call) (c : Call) :
    age id (calls ++ [c]) = aged id (age id calls) c := by
  rw [age, foldl_concat, age]

variable {capacity : Nat} {calls : List Call} {r : ShedRing}

def recent (r : ShedRing) : List ShedSlot := (r.ring.rotate r.pos).reverse

theorem length_recent (r : ShedRing) : r.recent.length = r.ring.length := by
  simp [recent]

/-- The slots are used one after the other. -/
structure Ordered (capacity : Nat) (r : ShedRing) : Prop where
  cap : r.cap = capacity
  pos : r.pos < capacity
  size : r.ring.length ≤ capacity
  room : r.ring.length < capacity → r.pos = 0

/-- An add takes a new slot; a full ring loses the oldest one, and the mark that stands for it. -/
theorem Ordered.add (h : Ordered capacity r) (j : UInt32) :
    Ordered capacity (r.add j) ∧ (r.add j).seq = r.seq + 1 ∧
      (r.add j).recent = ⟨j, r.seq + 1⟩ :: r.recent.take (capacity - 1) ∧
      ∃ ids, (r.add j).ids = AList.insert j (r.seq + 1) ids ∧ ∀ id q, ids.lookup id = some q ↔
        r.ids.lookup id = some q ∧ r.recent[capacity - 1]? ≠ some ⟨id, q⟩ := by
  obtain ⟨rfl, hpos, hsize, hroom⟩ := h
  have hlen := length_recent r
  by_cases hlt : r.ring.length < r.cap
  · have heq : r.add j = { r with
        ring := r.ring ++ [⟨j, r.seq + 1⟩], seq := r.seq + 1, ids := r.ids.insert j (r.seq + 1) } :=
      if_pos hlt
    have hnone : r.recent[r.cap - 1]? = none := getElem?_eq_none (by omega)
    rw [heq]
    refine ⟨⟨rfl, hpos, ?_, fun _ => hroom hlt⟩, rfl, ?_, r.ids, rfl, fun id q => ?_⟩
    · rw [length_append, length_singleton]
      exact hlt
    · rw [take_of_length_le (by omega)]
      simp [recent, hroom hlt]
    · simp [hnone]
  · have hfull : r.ring.length = r.cap := le_antisymm hsize (Nat.le_of_not_lt hlt)
    have hin : r.pos < r.ring.length := hfull ▸ hpos
    have heq : r.add j = { r with
        ring := r.ring.set r.pos ⟨j, r.seq + 1⟩, pos := (r.pos + 1) % r.cap, seq := r.seq + 1
        ids := (if (r.ids.lookup (r.ring.getD r.pos {}).id).getD 0 = (r.ring.getD r.pos {}).seq
          then r.ids.erase (r.ring.getD r.pos {}).id else r.ids).insert j (r.seq + 1) } :=
      if_neg hlt
    have hold : r.recent[r.cap - 1]? = some (r.ring.getD r.pos {}) := by
      rw [← hfull, ← hlen, ← getLast?_eq_getElem?, recent, getLast?_reverse, head?_rotate hin,
        getD_eq_getElem?_getD, getElem?_eq_getElem hin]
      rfl
    rw [heq]
    refine ⟨⟨rfl, Nat.mod_lt _ (by omega), ?_, fun hc => ?_⟩, rfl, ?_, _, rfl, fun id q => ?_⟩
    · exact (length_set ..).le.trans hsize
    · rw [length_set] at hc
      exact absurd hc hlt
    · rw [recent, ← hfull, Recent.rotate_set hin, reverse_append, ← dropLast_reverse, ← hlen,
        ← dropLast_eq_take]
      rfl
    · generalize r.ring.getD r.pos {} = old at hold
      rw [hold]
      split
      · rename_i hevict
        by_cases hid : id = old.id
        · subst hid
          refine iff_of_false (by simp) fun ⟨hq, hne⟩ => hne ?_
          rw [hq, Option.getD_some] at hevict
          rw [hevict]
        · rw [AList.lookup_erase_ne hid]
          refine ⟨fun hq => ⟨hq, fun hc => hid ?_⟩, And.left⟩
          rw [Option.some.inj hc]
      · rename_i hkeep
        refine ⟨fun hq => ⟨hq, fun hc => hkeep ?_⟩, And.left⟩
        rw [Option.some.inj hc, hq, Option.getD_some]

/-! ### The marks after any calls -/

structure Tracks (capacity : Nat) (calls : List Call) (r : ShedRing) : Prop
    extends Ordered capacity r where
  seq : r.seq.toNat = adds calls
  seqs : ∀ n slot, r.recent[n]? = some slot → slot.seq.toNat + n = adds calls
  marked : ∀ id q, r.ids.lookup id = some q →
    ∃ n < capacity, age id calls = some n ∧ r.recent[n]? = some ⟨id, q⟩
  kept : ∀ id n, n < capacity → age id calls = some n →
    ∃ q, r.ids.lookup id = some q ∧ r.recent[n]? = some ⟨id, q⟩

theorem Tracks.new (hcap : 1 ≤ capacity) : Tracks capacity [] { cap := capacity } :=
  ⟨⟨rfl, hcap, Nat.zero_le _, fun _ => rfl⟩, rfl, by simp [recent], by simp, by simp [age]⟩

theorem Tracks.add (h : Tracks capacity calls r) (hadds : adds calls + 1 < 2 ^ 64) (j : UInt32) :
    Tracks capacity (calls ++ [.add j]) (r.add j) := by
  obtain ⟨hord, hseq, hrecent, ids, hids, hevict⟩ := h.toOrdered.add j
  have hn : adds (calls ++ [.add j]) = adds calls + 1 := by simp [adds, Call.isAdd]
  have hnew : (r.seq + 1).toNat = adds calls + 1 := by
    rw [UInt64.toNat_add, h.seq, UInt64.toNat_one, Nat.mod_eq_of_lt hadds]
  refine ⟨hord, by rw [hseq, hn, hnew], fun n slot hslot => ?_, fun id q hq => ?_,
    fun id n hlt hage => ?_⟩
  · rw [hrecent] at hslot
    rw [hn]
    cases n with
    | zero =>
      obtain rfl := Option.some.inj hslot
      exact hnew
    | succ n =>
      rw [getElem?_cons_succ, getElem?_take] at hslot
      split at hslot
      · rw [← Nat.add_assoc, h.seqs n slot hslot]
      · cases hslot
  · rw [hids] at hq
    by_cases hj : id = j
    · rw [hj, AList.lookup_insert, Option.some.injEq] at hq
      refine ⟨0, Nat.zero_lt_of_lt h.pos, by simp [age_concat, aged, hj], ?_⟩
      rw [hrecent, hj, ← hq]
      rfl
    · rw [AList.lookup_insert_ne hj, hevict] at hq
      obtain ⟨n, hlt, hage, hslot⟩ := h.marked id q hq.1
      have hne : n ≠ capacity - 1 := fun hc => hq.2 (hc ▸ hslot)
      refine ⟨n + 1, by omega, by simp [age_concat, aged, hage, Ne.symm hj], ?_⟩
      rw [hrecent, getElem?_cons_succ, getElem?_take_of_lt (by omega), hslot]
  · rw [hids, hrecent]
    rw [age_concat, aged] at hage
    split at hage
    · rename_i hj
      obtain rfl := Option.some.inj hage
      exact ⟨r.seq + 1, by rw [hj, AList.lookup_insert], by rw [hj]; rfl⟩
    · rename_i hj
      obtain ⟨m, hm, rfl⟩ := Option.map_eq_some_iff.mp hage
      obtain ⟨q, hq, hslot⟩ := h.kept id m (by omega) hm
      refine ⟨q, ?_, by rw [getElem?_cons_succ, getElem?_take_of_lt (by omega), hslot]⟩
      rw [AList.lookup_insert_ne (Ne.symm hj), hevict]
      -- no two slots have the same number
      refine ⟨hq, fun hc => ?_⟩
      have hlast := h.seqs _ _ hc
      have := h.seqs m _ hslot
      omega

theorem Tracks.remove (h : Tracks capacity calls r) (j : UInt32) :
    Tracks capacity (calls ++ [.remove j]) (r.remove j) := by
  have hn : adds (calls ++ [.remove j]) = adds calls := by simp [adds, Call.isAdd]
  refine ⟨⟨h.cap, h.pos, h.size, h.room⟩, hn ▸ h.seq, hn ▸ h.seqs, fun id q hq => ?_,
    fun id n hlt hage => ?_⟩
  · have hj : id ≠ j := by
      rintro rfl
      simp [ShedRing.remove] at hq
    rw [ShedRing.remove, AList.lookup_erase_ne hj] at hq
    rw [age_concat, aged, if_neg (Ne.symm hj)]
    exact h.marked id q hq
  · rw [age_concat, aged] at hage
    split at hage
    · cases hage
    · rename_i hj
      rw [ShedRing.remove, AList.lookup_erase_ne (Ne.symm hj)]
      exact h.kept id n hlt hage

theorem Tracks.reset (h : Tracks capacity calls r) :
    Tracks capacity (calls ++ [.reset]) r.reset := by
  have hn : adds (calls ++ [.reset]) = adds calls := by simp [adds, Call.isAdd]
  exact ⟨⟨h.cap, Nat.zero_lt_of_lt h.pos, Nat.zero_le _, fun _ => rfl⟩, hn ▸ h.seq,
    by simp [ShedRing.reset, recent], by simp [ShedRing.reset], by simp [age_concat, aged]⟩

theorem tracks_after (hcap : 1 ≤ capacity) (hadds : adds calls < 2 ^ 64) :
    Tracks capacity calls (after capacity calls) := by
  induction calls using reverseRecOn with
  | nil => exact .new hcap
  | append_singleton calls c ih =>
    rw [adds, countP_append, countP_singleton] at hadds
    have h := ih (by unfold adds; omega)
    rw [after, foldl_concat]
    cases c with
    | add j => exact h.add hadds j
    | remove j => exact h.remove j
    | reset => exact h.reset

theorem Tracks.len_le (h : Tracks capacity calls r) : r.len ≤ capacity := by
  have hsub : r.ids.keys ⊆ r.recent.map (·.id) := by
    intro id hid
    obtain ⟨q, hq⟩ := Option.isSome_iff_exists.mp (AList.lookup_isSome.mpr hid)
    obtain ⟨n, -, -, hslot⟩ := h.marked id q hq
    exact mem_map.mpr ⟨⟨id, q⟩, mem_of_getElem? hslot, rfl⟩
  have hle := (subperm_of_subset r.ids.keys_nodup hsub).length_le
  rw [length_map, length_recent] at hle
  exact hle.trans h.size

/-- **The ring is an exact bounded queue**: an id is marked exactly as long as fewer adds than the
capacity followed its last one and it was not removed, and there are never more marks than the
capacity. -/
theorem has_iff_age_lt (hcap : 1 ≤ capacity) (hadds : adds calls < 2 ^ 64) :
    (∀ id, (after capacity calls).has id = true ↔ ∃ n < capacity, age id calls = some n) ∧
      (after capacity calls).len ≤ capacity := by
  have h := tracks_after hcap hadds
  refine ⟨fun id => ?_, h.len_le⟩
  rw [has, Option.isSome_iff_exists]
  constructor
  · rintro ⟨q, hq⟩
    obtain ⟨n, hlt, hage, -⟩ := h.marked id q hq
    exact ⟨n, hlt, hage⟩
  · rintro ⟨n, hlt, hage⟩
    obtain ⟨q, hq, -⟩ := h.kept id n hlt hage
    exact ⟨q, hq⟩

/-- In a ring of two, a mark that was removed and set again outlives its first slot. -/
theorem has_iff_age_lt_renewed :
    (after 2 [.add 1, .remove 1, .add 1, .add 2]).has 1 = true :=
  ((has_iff_age_lt (by decide) (by decide)).1 1).mpr ⟨1, by decide, by decide⟩

end LatticeAgent.Trace.ShedRing
