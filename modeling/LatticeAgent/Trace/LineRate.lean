import LatticeAgent.Go
import Mathlib.Algebra.BigOperators.Fin
import Mathlib.Data.Fintype.Basic

/-! # The rate of arriving lines

`tracesource.go` counts arriving lines per second in a ring with one slot more than the window
that `linesPerSecLocked` averages. A slot is shared by the seconds of one residue and reset
when a line of another second meets it. The division, a float, is left out. -/

namespace LatticeAgent.Trace

open Function List

/-- `traceLinesWindow`, in seconds. -/
def traceLinesWindow : Nat := 10

/-- `lineSecs` and `lineCounts` of the collector. -/
structure LineRing where
  lineSecs : Fin (traceLinesWindow + 1) → Int := fun _ => 0
  lineCounts : Fin (traceLinesWindow + 1) → UInt32 := fun _ => 0

namespace LineRing

/-- `sec % int64(len(c.lineSecs))`. -/
def slot (sec : Int) : Fin (traceLinesWindow + 1) :=
  Fin.ofNat _ (sec.tmod (traceLinesWindow + 1 : Nat)).toNat

/-- `countLineLocked`. -/
def countLine (r : LineRing) (now : Time) : LineRing :=
  let sec := now.unix
  let i := slot sec
  let r := if r.lineSecs i ≠ sec then
      { lineSecs := Function.update r.lineSecs i sec
        lineCounts := Function.update r.lineCounts i 0 : LineRing }
    else r
  { r with lineCounts := Function.update r.lineCounts i (r.lineCounts i + 1) }

/-- A second is one of the whole seconds before the one in progress. -/
def inWindow (now : Time) (sec : Int) : Bool :=
  decide (sec ≥ now.unix - traceLinesWindow) && decide (sec < now.unix)

/-- The sum of `linesPerSecLocked`. -/
def linesSum (r : LineRing) (now : Time) : UInt64 :=
  (List.finRange (traceLinesWindow + 1)).foldl
    (fun sum i => if inWindow now (r.lineSecs i) then sum + (r.lineCounts i).toUInt64 else sum) 0

variable {r : LineRing} {ts : List Time} {t now : Time}

theorem countLine_lineSecs (r : LineRing) (now : Time) :
    (r.countLine now).lineSecs = update r.lineSecs (slot now.unix) now.unix := by
  unfold countLine
  by_cases h : r.lineSecs (slot now.unix) = now.unix
  · have hsame := update_eq_self (slot now.unix) r.lineSecs
    rw [h] at hsame
    simp [h, hsame]
  · simp [h]

theorem countLine_lineCounts (r : LineRing) (now : Time) :
    (r.countLine now).lineCounts = update r.lineCounts (slot now.unix)
      ((if r.lineSecs (slot now.unix) = now.unix then r.lineCounts (slot now.unix) else 0) + 1) := by
  unfold countLine
  by_cases h : r.lineSecs (slot now.unix) = now.unix <;> simp [h]

theorem eq_of_slot_eq {s u : Int} (hs : 0 ≤ s) (hsu : s ≤ u) (hnear : u ≤ s + traceLinesWindow)
    (h : slot s = slot u) : s = u := by
  have hmod := congrArg Fin.val h
  simp only [slot, Fin.val_ofNat, Int.tmod_eq_emod_of_nonneg hs,
    Int.tmod_eq_emod_of_nonneg (hs.trans hsu)] at hmod
  unfold traceLinesWindow at *
  omega

structure Counts (ts : List Time) (r : LineRing) : Prop where
  count : ∀ i, (r.lineCounts i).toNat =
    ts.countP fun t => decide (slot t.unix = i) && decide (t.unix = r.lineSecs i)
  last : ∀ t ∈ ts, t.unix ≤ r.lineSecs (slot t.unix)
  le : ∀ i u, 0 ≤ u → (∀ t ∈ ts, t.unix ≤ u) → r.lineSecs i ≤ u
  held : ∀ i, 0 ≤ r.lineSecs i ∧ (r.lineSecs i = 0 ∨ slot (r.lineSecs i) = i)

theorem Counts.countLine (h : Counts ts r) (hpos : 0 ≤ t.unix) (hlast : ∀ s ∈ ts, s.unix ≤ t.unix)
    (hrate : (ts ++ [t]).countP (fun s => decide (s.unix = t.unix)) < 2 ^ 32) :
    Counts (ts ++ [t]) (r.countLine t) := by
  have hslot := h.le (slot t.unix) t.unix hpos hlast
  refine ⟨?_, ?_, ?_, ?_⟩ <;> rw [countLine_lineSecs]
  · intro i
    rw [countLine_lineCounts, countP_append, countP_singleton]
    by_cases hi : i = slot t.unix
    · subst hi
      -- the lines of this second so far: the count, or none if the slot was another second's
      have hbefore : (if r.lineSecs (slot t.unix) = t.unix then
            r.lineCounts (slot t.unix) else 0).toNat =
          ts.countP fun s => decide (slot s.unix = slot t.unix) &&
            decide (s.unix = t.unix) := by
        split
        · rename_i heq
          rw [h.count, heq]
        · rename_i hne
          refine (countP_eq_zero.mpr fun s hs hsame => hne ?_).symm
          simp only [Bool.and_eq_true, decide_eq_true_eq] at hsame
          have := h.last s hs
          rw [hsame.1] at this
          omega
      have hbound : (ts.countP fun s => decide (slot s.unix = slot t.unix) &&
          decide (s.unix = t.unix)) ≤ ts.countP fun s => decide (s.unix = t.unix) :=
        countP_mono_left fun s _ => by simp
      rw [countP_append, countP_singleton] at hrate
      simp only [update_self, UInt32.toNat_add, hbefore, UInt32.toNat_one]
      simp only [decide_true, if_true, Bool.and_self] at hrate ⊢
      exact Nat.mod_eq_of_lt (by omega)
    · simp [update_of_ne hi, h.count, Ne.symm hi]
  · intro s hs
    by_cases hi : slot s.unix = slot t.unix
    · rw [hi, update_self]
      rcases mem_append.mp hs with hs | hs
      · exact hlast s hs
      · rw [mem_singleton.mp hs]
    · rw [update_of_ne hi]
      rcases mem_append.mp hs with hs | hs
      · exact h.last s hs
      · exact absurd (by rw [mem_singleton.mp hs]) hi
  · intro i u hu hle
    by_cases hi : i = slot t.unix
    · rw [hi, update_self]
      exact hle t (by simp)
    · rw [update_of_ne hi]
      exact h.le i u hu fun s hs => hle s (by simp [hs])
  · intro i
    by_cases hi : i = slot t.unix
    · rw [hi, update_self]
      exact ⟨hpos, .inr rfl⟩
    · rw [update_of_ne hi]
      exact h.held i

theorem counts_foldl (hmono : ts.Pairwise (· ≤ ·)) (hpos : ∀ t ∈ ts, 0 ≤ t.unix)
    (hrate : ∀ sec : Int, (ts.countP fun t => decide (t.unix = sec)) < 2 ^ 32) :
    Counts ts (ts.foldl countLine {}) := by
  induction ts using reverseRecOn with
  | nil => exact ⟨by simp, by simp, fun _ _ hu _ => hu, fun _ => ⟨le_rfl, .inl rfl⟩⟩
  | append_singleton ts t ih =>
    rw [pairwise_append] at hmono
    rw [foldl_append, foldl_cons, foldl_nil]
    refine (ih hmono.1 (fun s hs => hpos s (by simp [hs])) fun sec => ?_).countLine
      (hpos t (by simp)) (fun s hs => ?_) (hrate t.unix)
    · have := hrate sec
      rw [countP_append] at this
      omega
    · have : s ≤ t := hmono.2.2 s hs t (by simp)
      unfold Time.unix
      lia

/-! ### The sum over the slots -/

theorem Counts.inWindow (h : Counts ts r) (hpos : ∀ t ∈ ts, 0 ≤ t.unix)
    (hnow : ∀ t ∈ ts, t.unix ≤ now.unix) (ht : t ∈ ts) (hwin : inWindow now t.unix) :
    t.unix = r.lineSecs (slot t.unix) := by
  have hle := h.le (slot t.unix) now.unix ((hpos t ht).trans (hnow t ht)) hnow
  have hlast := h.last t ht
  have h0 := hpos t ht
  simp only [LineRing.inWindow, Bool.and_eq_true, decide_eq_true_eq] at hwin
  rcases (h.held (slot t.unix)).2 with hzero | hslot
  · omega
  · exact eq_of_slot_eq h0 hlast (by omega) hslot.symm

theorem sum_slots (P : Time → Bool) (ts : List Time) :
    ∑ i, ts.countP (fun t => decide (slot t.unix = i) && P t) = ts.countP P := by
  induction ts with
  | nil => simp
  | cons t ts ih =>
    simp only [countP_cons, Finset.sum_add_distrib, ih]
    cases P t <;> simp

theorem toNat_foldl (p : Fin (traceLinesWindow + 1) → Bool) (l : List (Fin (traceLinesWindow + 1)))
    (sum : UInt64) (h : sum.toNat + l.length * 2 ^ 32 < 2 ^ 64) :
    (l.foldl (fun sum i => if p i then sum + (r.lineCounts i).toUInt64 else sum) sum).toNat =
      sum.toNat + (l.map fun i => if p i then (r.lineCounts i).toNat else 0).sum := by
  induction l generalizing sum with
  | nil => simp
  | cons i l ih =>
    have hlt := (r.lineCounts i).toNat_lt
    rw [length_cons, Nat.add_mul, Nat.one_mul, ← Nat.add_assoc] at h
    rw [foldl_cons, map_cons, sum_cons]
    split
    · have hadd : (sum + (r.lineCounts i).toUInt64).toNat = sum.toNat + (r.lineCounts i).toNat := by
        rw [UInt64.toNat_add, UInt32.toNat_toUInt64, Nat.mod_eq_of_lt (by omega)]
      have hroom : (sum + (r.lineCounts i).toUInt64).toNat + l.length * 2 ^ 32 < 2 ^ 64 := by
        rw [hadd]
        omega
      rw [ih _ hroom, hadd, Nat.add_assoc]
    · rw [ih _ ((Nat.le_add_right _ _).trans_lt h), Nat.zero_add]

/-- **The ring counts the last whole seconds exactly.** -/
theorem linesSum_eq_countP (hmono : ts.Pairwise (· ≤ ·)) (hpos : ∀ t ∈ ts, 0 ≤ t.unix)
    (hrate : ∀ sec : Int, (ts.countP fun t => decide (t.unix = sec)) < 2 ^ 32)
    (hnow : ∀ t ∈ ts, t ≤ now) :
    ((ts.foldl countLine {}).linesSum now).toNat = ts.countP fun t => inWindow now t.unix := by
  have h := counts_foldl hmono hpos hrate
  generalize ts.foldl countLine {} = r at h
  have hunix : ∀ t ∈ ts, t.unix ≤ now.unix := fun t ht => by
    have := hnow t ht
    unfold Time.unix
    lia
  rw [linesSum, toNat_foldl _ _ _ (by decide), ← Fin.sum_univ_def, ← sum_slots, UInt64.toNat_zero,
    Nat.zero_add]
  refine Finset.sum_congr rfl fun i _ => ?_
  rw [h.count]
  -- of the lines of a slot, those in the window are those of the second it holds
  have hiff : ∀ t ∈ ts, slot t.unix = i →
      (inWindow now t.unix = true ↔ inWindow now (r.lineSecs i) = true ∧ t.unix = r.lineSecs i) := by
    rintro t ht rfl
    constructor
    · intro hwin
      have heq := h.inWindow hpos hunix ht hwin
      exact ⟨heq ▸ hwin, heq⟩
    · rintro ⟨hwin, heq⟩
      exact heq ▸ hwin
  cases hwin : inWindow now (r.lineSecs i) with
  | false =>
    refine (countP_eq_zero.mpr fun t ht hin => ?_).symm
    simp only [Bool.and_eq_true, decide_eq_true_eq] at hin
    have := ((hiff t ht hin.1).mp hin.2).1
    rw [hwin] at this
    exact Bool.false_ne_true this
  | true =>
    refine countP_congr fun t ht => ?_
    simp only [Bool.and_eq_true, decide_eq_true_eq]
    exact and_congr_right fun hi => by rw [hiff t ht hi, hwin, and_iff_right rfl]

/-- A second, counted from the epoch. -/
def atUnix (sec : Int) : Time := (sec + 62135596800) * 1000000000

/-- Of lines eleven seconds apart in one slot, the older has left the window. -/
theorem linesSum_one_lap :
    (([atUnix 5, atUnix 12, atUnix 12, atUnix 16].foldl countLine {}).linesSum (atUnix 16)).toNat = 2 :=
  linesSum_eq_countP (by decide) (by decide)
    (fun _ => (countP_le_length.trans_lt (by decide))) (by decide)

end LineRing

end LatticeAgent.Trace
