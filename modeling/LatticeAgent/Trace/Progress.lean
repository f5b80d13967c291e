import LatticeAgent.Trace.Shipper
import Mathlib.Data.List.Perm.Subperm

/-! # Whether the trace queue drains

`Flush` posts batch after batch and stops at the first refusal with the batch put back. A batch
is cut from the heads of the queues by the caps and the byte budget alone, so the same head is
cut again on the next call. An item the server never accepts therefore holds back the batch it
is in and all that is queued behind it; `delivers_all_but_iff` says exactly when that is nothing
but the item itself. -/

namespace LatticeAgent.Trace

open List

/-- An item of the trace queues. -/
abbrev TraceItem : Type := ConnRecord ⊕ TraceLine

/-- The items of one batch: its records and its lines. -/
abbrev Cut : Type := List ConnRecord × List TraceLine

namespace Cut

/-- The item is in the batch. -/
def has (cut : Cut) : TraceItem → Bool
  | .inl r => decide (r ∈ cut.1)
  | .inr l => decide (l ∈ cut.2)

/-- Nothing else is in the batch. -/
def Only (x : TraceItem) (cut : Cut) : Prop :=
  (∀ r ∈ cut.1, .inl r = x) ∧ ∀ l ∈ cut.2, .inr l = x

instance (x : TraceItem) (cut : Cut) : Decidable (Only x cut) := inferInstanceAs (Decidable (_ ∧ _))

theorem not_has_inl {cut : Cut} {x : TraceItem} (h : cut.has x = false) {r : ConnRecord}
    (hr : r ∈ cut.1) : .inl r ≠ x := by
  rintro rfl
  simp [has, hr] at h

theorem not_has_inr {cut : Cut} {x : TraceItem} (h : cut.has x = false) {l : TraceLine}
    (hl : l ∈ cut.2) : .inr l ≠ x := by
  rintro rfl
  simp [has, hl] at h

end Cut

/-- The server refuses exactly the batches with `x`, and never with a 429. -/
structure Refuses (x : TraceItem) (post : TraceBatch → Answer) : Prop where
  refused : ∀ batch, Cut.has (batch.records, batch.lines) x = true →
    ∃ status retryAfter err, status ≠ 200 ∧ status ≠ 429 ∧
      post batch = .refused status retryAfter err
  accepted : ∀ batch, Cut.has (batch.records, batch.lines) x = false → post batch = .accepted

namespace Shipper

/-! ### How the queue is cut -/

/-- The items of the next batch. -/
def head (s : Shipper) : Cut := (s.records.take s.headCounts.1, s.lines.take s.headCounts.2)

/-- The queue behind the next batch. -/
def behind (s : Shipper) : Shipper :=
  { s with records := s.records.drop s.headCounts.1, lines := s.lines.drop s.headCounts.2 }

/-- How many items are queued. -/
def queued (s : Shipper) : Nat := s.records.length + s.lines.length

/-- The first batches the queue is cut into. -/
def cutsUpTo : Nat → Shipper → List Cut
  | 0, _ => []
  | n + 1, s => if s.queued = 0 then [] else s.head :: cutsUpTo n s.behind

/-- The batches the queue is cut into. -/
def cuts (s : Shipper) : List Cut := cutsUpTo s.queued s

/-- In the batches from the first one with `x` on there is nothing but `x`. -/
def Unblocked (x : TraceItem) (s : Shipper) : Prop :=
  ∀ cut ∈ s.cuts.dropWhile (!Cut.has · x), Cut.Only x cut

instance (x : TraceItem) (s : Shipper) : Decidable (Unblocked x s) :=
  inferInstanceAs (Decidable (∀ _ ∈ _, _))

/-- The caps `New` leaves are not zero. -/
structure Tuned (s : Shipper) : Prop where
  records : 0 < s.maxBatchRecords
  lines : 0 < s.maxBatchLines

theorem new_tuned (nodeID : String) (maxBatchRecords maxBatchLines maxPending : Int)
    (flushInterval : Duration) :
    (new nodeID maxBatchRecords maxBatchLines maxPending flushInterval).Tuned := by
  have horDefault (n : Int) (d : Nat) (hd : 0 < d) : 0 < orDefault n d := by
    unfold orDefault
    split <;> omega
  exact ⟨horDefault _ _ (by decide), horDefault _ _ (by decide)⟩

theorem Tuned.behind {s : Shipper} (h : s.Tuned) : s.behind.Tuned := ⟨h.records, h.lines⟩

/-- Two shippers whose queues are cut alike. -/
structure SameQueue (s s' : Shipper) : Prop where
  records : s'.records = s.records
  lines : s'.lines = s.lines
  maxBatchRecords : s'.maxBatchRecords = s.maxBatchRecords
  maxBatchLines : s'.maxBatchLines = s.maxBatchLines

namespace SameQueue

variable {s s' : Shipper}

section

variable (h : SameQueue s s')

include h

theorem headCounts : s'.headCounts = s.headCounts := by
  simp only [Shipper.headCounts, trimToByteBudget, h.records, h.lines, h.maxBatchRecords,
    h.maxBatchLines]

theorem head : s'.head = s.head := by
  simp only [Shipper.head, h.headCounts, h.records, h.lines]

theorem behind : SameQueue s.behind s'.behind where
  records := by simp only [Shipper.behind, h.headCounts, h.records]
  lines := by simp only [Shipper.behind, h.headCounts, h.lines]
  maxBatchRecords := h.maxBatchRecords
  maxBatchLines := h.maxBatchLines

theorem queued : s'.queued = s.queued := by
  simp only [Shipper.queued, h.records, h.lines]

theorem cutsUpTo (n : Nat) : Shipper.cutsUpTo n s' = Shipper.cutsUpTo n s := by
  induction n generalizing s s' with
  | zero => rfl
  | succ n ih => rw [Shipper.cutsUpTo, Shipper.cutsUpTo, h.queued, h.head, ih h.behind]

theorem cuts : s'.cuts = s.cuts := by
  rw [Shipper.cuts, h.queued, h.cutsUpTo]
  rfl

end

end SameQueue

variable {s : Shipper}

theorem queued_eq_zero_iff : s.queued = 0 ↔ s.records = [] ∧ s.lines = [] := by
  rw [queued, Nat.add_eq_zero_iff, length_eq_zero_iff, length_eq_zero_iff]

theorem queued_behind_lt (ht : s.Tuned) (hne : s.queued ≠ 0) : s.behind.queued < s.queued := by
  have hpos := s.headCounts_spec.2 ht.records ht.lines (Nat.pos_of_ne_zero hne)
  have hle := s.headCounts_spec.1
  simp only [queued, behind, length_drop] at hne ⊢
  omega

theorem cutsUpTo_of_empty (hzero : s.queued = 0) (n : Nat) : cutsUpTo n s = [] := by
  cases n with
  | zero => rfl
  | succ n => rw [cutsUpTo, if_pos hzero]

theorem cutsUpTo_congr (ht : s.Tuned) {m n : Nat} (hm : s.queued ≤ m) (hn : s.queued ≤ n) :
    cutsUpTo m s = cutsUpTo n s := by
  induction m generalizing s n with
  | zero => rw [cutsUpTo_of_empty (Nat.le_zero.mp hm), cutsUpTo_of_empty (Nat.le_zero.mp hm)]
  | succ m ih =>
    by_cases hzero : s.queued = 0
    · rw [cutsUpTo_of_empty hzero, cutsUpTo_of_empty hzero]
    · have hlt := queued_behind_lt ht hzero
      obtain ⟨n, rfl⟩ := Nat.exists_eq_succ_of_ne_zero (show n ≠ 0 by omega)
      have htail : cutsUpTo m s.behind = cutsUpTo n s.behind :=
        ih ht.behind (by omega) (by omega)
      rw [cutsUpTo, cutsUpTo, if_neg hzero, if_neg hzero, htail]

theorem cuts_cons (ht : s.Tuned) (hne : s.queued ≠ 0) : s.cuts = s.head :: s.behind.cuts := by
  have hlt := queued_behind_lt ht hne
  obtain ⟨n, hn⟩ := Nat.exists_eq_succ_of_ne_zero hne
  have htail : cutsUpTo n s.behind = s.behind.cuts :=
    cutsUpTo_congr ht.behind (by omega) (Nat.le_refl _)
  rw [cuts, hn, cutsUpTo, if_neg hne, htail]

theorem cuts_nil (hzero : s.queued = 0) : s.cuts = [] := cutsUpTo_of_empty hzero _

/-- The batches hold what is queued, so they hold nothing but `x` if and only if the queue
does. -/
theorem only_cuts_iff (ht : s.Tuned) (x : TraceItem) :
    (∀ cut ∈ s.cuts, Cut.Only x cut) ↔ Cut.Only x (s.records, s.lines) := by
  induction hn : s.queued using Nat.strong_induction_on generalizing s with
  | _ n ih =>
    by_cases hzero : s.queued = 0
    · obtain ⟨hr, hl⟩ := queued_eq_zero_iff.mp hzero
      simp [cuts_nil hzero, Cut.Only, hr, hl]
    · have hlt : s.behind.queued < n := hn ▸ queued_behind_lt ht hzero
      rw [cuts_cons ht hzero, forall_mem_cons, ih _ hlt ht.behind rfl]
      have hsplit {α : Type} (xs : List α) (k : Nat) (p : α → Prop) :
          (∀ a ∈ xs, p a) ↔ (∀ a ∈ xs.take k, p a) ∧ ∀ a ∈ xs.drop k, p a := by
        rw [← forall_mem_append, take_append_drop]
      simp only [Cut.Only, head, behind]
      rw [hsplit s.records s.headCounts.1, hsplit s.lines s.headCounts.2]
      tauto

/-! ### One call of `Flush` -/

/-- `Flush`: with one more post than there are items the loop has come to its end. -/
def flushAll (post : TraceBatch → Answer) (now : Time) (s : Shipper) : List TraceBatch × Shipper :=
  flush post now (s.queued + 1) s

/-- Nothing is in flight, and the caps and the capacity are kept. -/
structure Rested (s : Shipper) : Prop extends Tuned s where
  inflightRecords : s.inflightRecords = []
  inflightLines : s.inflightLines = []
  capacity : s.queued ≤ s.maxPending

theorem commit_behind (s : Shipper) (now : Time) :
    let s' := s.moveHead.commit (s.headBatch now) now
    SameQueue s.behind s' ∧ s'.retryUntil = 0 ∧ s'.dropped = 0 ∧ s'.unparsed = 0 ∧ s'.shed = 0 := by
  have hsub (a : UInt64) : saturatingSub a a = 0 := if_pos (UInt64.le_refl a)
  exact ⟨⟨rfl, rfl, rfl, rfl⟩, rfl, hsub _, hsub _, hsub _⟩

theorem commit_rested (h : s.Rested) (now : Time) :
    (s.moveHead.commit (s.headBatch now) now).Rested := by
  have hcap := h.capacity
  refine ⟨⟨h.records, h.lines⟩, rfl, rfl, ?_⟩
  change (s.records.drop _).length + (s.lines.drop _).length ≤ s.maxPending
  simp only [queued, length_drop] at hcap ⊢
  omega

theorem Silent.queued (ht : s.Tuned) (h : s.Silent) : s.queued = 0 := by
  by_contra hne
  have hpos := s.headCounts_spec.2 ht.records ht.lines (Nat.pos_of_ne_zero hne)
  obtain ⟨hr, hl, -⟩ := h
  omega

/-- This many posts are enough: more than there are items, or there is nothing to say. -/
def Enough (fuel : Nat) (s : Shipper) : Prop := s.queued < fuel ∨ s.Silent

theorem Enough.commit {fuel : Nat} (ht : s.Tuned) (hs : ¬ s.Silent) (h : Enough (fuel + 1) s)
    (now : Time) : Enough fuel (s.moveHead.commit (s.headBatch now) now) := by
  obtain ⟨hsame, -, hcounters⟩ := s.commit_behind now
  have hlt : s.queued < fuel + 1 := h.resolve_right hs
  generalize s.moveHead.commit (s.headBatch now) now = s₁ at *
  by_cases hzero : s₁.queued = 0
  · right
    have hle := s₁.headCounts_spec.1
    obtain ⟨hr, hl⟩ := queued_eq_zero_iff.mp hzero
    rw [hr, hl] at hle
    exact ⟨Nat.le_zero.mp hle.1, Nat.le_zero.mp hle.2, hcounters⟩
  · left
    rw [hsame.queued] at hzero ⊢
    have hne : s.queued ≠ 0 := by
      intro hs
      obtain ⟨hr, hl⟩ := queued_eq_zero_iff.mp hs
      simp [Shipper.queued, behind, hr, hl] at hzero
    have := queued_behind_lt ht hne
    omega

/-- **`Flush` comes to its end**, whatever the server answers: further posts change nothing. -/
theorem flush_eq_flushAll (post : TraceBatch → Answer) (now : Time) (ht : s.Tuned) {fuel : Nat}
    (hfuel : s.queued < fuel) : flush post now fuel s = flushAll post now s := by
  suffices h : ∀ (m n : Nat) (s : Shipper), s.Tuned → Enough m s → Enough n s →
      flush post now m s = flush post now n s from
    h fuel (s.queued + 1) s ht (.inl hfuel) (.inl (Nat.lt_succ_self _))
  have hsilent (n : Nat) (s : Shipper) (hs : s.Silent) : flush post now n s = ([], s) := by
    cases n with
    | zero => rfl
    | succ n =>
      unfold flush takeBatch
      rw [if_pos hs, ite_self]
  intro m
  induction m with
  | zero =>
    intro n s _ hm _
    have hs : s.Silent := hm.resolve_left (Nat.not_lt_zero _)
    rw [hsilent 0 s hs, hsilent n s hs]
  | succ m ih =>
    intro n s ht hm hn
    by_cases hs : s.Silent
    · rw [hsilent _ s hs, hsilent _ s hs]
    · have hlt := hn.resolve_right hs
      obtain ⟨n, rfl⟩ := Nat.exists_eq_succ_of_ne_zero (show n ≠ 0 by omega)
      have hrest := ih n (s.moveHead.commit (s.headBatch now) now) ⟨ht.records, ht.lines⟩
        (hm.commit ht hs now) (hn.commit ht hs now)
      unfold flush takeBatch
      rw [if_neg hs]
      cases s.backingOff now with
      | true => rfl
      | false =>
        simp only [Bool.false_eq_true, if_false]
        rw [hrest]

theorem trimLocked_of_le (h : s.queued ≤ s.maxPending) : s.trimLocked = s := by
  have hspec := s.trimmed_spec
  have hle : s.records.length + s.lines.length ≤ s.maxPending := h
  have htrim : s.trimmed = (0, 0) := Prod.ext (by omega) (by omega)
  simp [trimLocked, htrim]

theorem moveHead_putBack (h : s.Rested) : s.moveHead.putBack = s := by
  obtain ⟨hr, hl⟩ := s.moveHead_inflight h.inflightRecords h.inflightLines
  have hrecords : s.moveHead.inflightRecords ++ s.moveHead.records = s.records := by
    rw [hr]
    exact take_append_drop _ _
  have hlines : s.moveHead.inflightLines ++ s.moveHead.lines = s.lines := by
    rw [hl]
    exact take_append_drop _ _
  unfold putBack
  rw [hrecords, hlines, ← h.inflightRecords, ← h.inflightLines]
  rfl

theorem restore_same (h : s.Rested) {status : Nat} (hstatus : status ≠ 429)
    (retryAfter : Duration) (err : String) (now : Time) :
    let s' := s.moveHead.restore.recordFailure status retryAfter err now
    SameQueue s s' ∧ s'.Rested ∧ s'.retryUntil = s.retryUntil := by
  rw [restore, moveHead_putBack h, trimLocked_of_le h.capacity]
  exact ⟨⟨rfl, rfl, rfl, rfl⟩,
    ⟨⟨h.records, h.lines⟩, h.inflightRecords, h.inflightLines, h.capacity⟩, if_neg hstatus⟩

/-- What a call of `Flush` does against a server that refuses `x`. -/
structure Flushed (x : TraceItem) (s : Shipper) (taken : List TraceBatch) (s' : Shipper) :
    Prop where
  records : taken.flatMap (·.records) ++ s'.records = s.records
  lines : taken.flatMap (·.lines) ++ s'.lines = s.lines
  without : ∀ batch ∈ taken, Cut.has (batch.records, batch.lines) x = false
  rested : s'.Rested
  ready : ∀ now, s.backingOff now = false → s'.backingOff now = false
  /-- It stops at the end of the queue or at the first batch with `x`. -/
  cuts : s'.cuts = s.cuts.dropWhile (!Cut.has · x)

namespace Flushed

variable {x : TraceItem}

theorem empty (h : s.Rested) (hzero : s.queued = 0) : Flushed x s [] s := by
  refine ⟨rfl, rfl, nofun, h, fun _ hready => hready, ?_⟩
  rw [cuts_nil hzero]
  rfl

theorem refused {s' : Shipper} (h : s.Rested) (hx : s.head.has x) (hsame : SameQueue s s')
    (hrested : s'.Rested) (hretry : s'.retryUntil = s.retryUntil) : Flushed x s [] s' := by
  have hne : s.queued ≠ 0 := by
    intro hzero
    obtain ⟨hr, hl⟩ := queued_eq_zero_iff.mp hzero
    cases x <;> simp [Cut.has, head, hr, hl] at hx
  refine ⟨hsame.records, hsame.lines, nofun, hrested, fun t ht => ?_, ?_⟩
  · rw [backingOff, hretry]
    exact ht
  · rw [hsame.cuts, cuts_cons h.toTuned hne, dropWhile_cons_of_neg (by simp [hx])]

theorem accepted {s₁ s' : Shipper} {taken : List TraceBatch} {now : Time} (h : s.Rested)
    (hx : s.head.has x = false) (hsame : SameQueue s.behind s₁) (hretry : s₁.retryUntil = 0)
    (hrest : Flushed x s₁ taken s') : Flushed x s (s.headBatch now :: taken) s' := by
  have hrecords : s₁.records = s.records.drop s.headCounts.1 := hsame.records
  have hlines : s₁.lines = s.lines.drop s.headCounts.2 := hsame.lines
  refine ⟨?_, ?_, ?_, hrest.rested, fun t _ => hrest.ready t ?_, ?_⟩
  · rw [flatMap_cons, append_assoc, hrest.records, hrecords]
    exact take_append_drop _ _
  · rw [flatMap_cons, append_assoc, hrest.lines, hlines]
    exact take_append_drop _ _
  · exact forall_mem_cons.mpr ⟨hx, hrest.without⟩
  · rw [backingOff, hretry]
    rfl
  · rw [hrest.cuts, hsame.cuts]
    by_cases hzero : s.queued = 0
    · have hbehind : s.behind.queued = 0 := by
        obtain ⟨hr, hl⟩ := queued_eq_zero_iff.mp hzero
        simp [queued, behind, hr, hl]
      rw [cuts_nil hzero, cuts_nil hbehind]
    · rw [cuts_cons h.toTuned hzero, dropWhile_cons_of_pos (by simp [hx])]

end Flushed

theorem flush_flushed {x : TraceItem} {post : TraceBatch → Answer} (hpost : Refuses x post)
    (h : s.Rested) {now : Time} (hready : s.backingOff now = false) {fuel : Nat}
    (hfuel : Enough fuel s) : Flushed x s (flush post now fuel s).1 (flush post now fuel s).2 := by
  induction fuel generalizing s with
  | zero => exact .empty h ((hfuel.resolve_left (Nat.not_lt_zero _)).queued h.toTuned)
  | succ fuel ih =>
    unfold flush takeBatch
    rw [hready, if_neg Bool.false_ne_true]
    by_cases hsilent : s.Silent
    · rw [if_pos hsilent]
      exact .empty h (hsilent.queued h.toTuned)
    · rw [if_neg hsilent]
      dsimp only
      cases hx : s.head.has x with
      | true =>
        obtain ⟨status, retryAfter, err, -, hstatus, heq⟩ := hpost.refused (s.headBatch now) hx
        obtain ⟨hsame, hrested, hretry⟩ := restore_same h hstatus retryAfter err now
        rw [heq]
        exact .refused h hx hsame hrested hretry
      | false =>
        obtain ⟨hsame, hretry, -⟩ := s.commit_behind now
        have hrested := commit_rested h now
        have henough := hfuel.commit h.toTuned hsilent now
        rw [hpost.accepted (s.headBatch now) hx]
        dsimp only
        generalize s.moveHead.commit (s.headBatch now) now = s₁ at *
        refine .accepted h hx hsame hretry (ih hrested ?_ henough)
        rw [backingOff, hretry]
        rfl

/-! ### Call after call -/

/-- The first calls of `Flush`, each with the server it meets and its time: the batches the
server took, and the shipper. -/
def flushes (post : Nat → TraceBatch → Answer) (now : Nat → Time) :
    Nat → Shipper → List TraceBatch × Shipper
  | 0, s => ([], s)
  | n + 1, s =>
    let (taken, s') := flushes post now n s
    let (more, s'') := flushAll (post n) (now n) s'
    (taken ++ more, s'')

/-- Every item but `x` was delivered, as often as it was queued. -/
structure DeliversAllBut (x : TraceItem) (s : Shipper) (taken : List TraceBatch) : Prop where
  records : (s.records.filter (.inl · ≠ x)).Subperm (taken.flatMap (·.records))
  lines : (s.lines.filter (.inr · ≠ x)).Subperm (taken.flatMap (·.lines))

section

variable {x : TraceItem} {post : Nat → TraceBatch → Answer} {now : Nat → Time}

theorem Flushed.trans {s₁ s₂ : Shipper} {taken more : List TraceBatch} (h : Flushed x s taken s₁)
    (h' : Flushed x s₁ more s₂) : Flushed x s (taken ++ more) s₂ where
  records := by rw [flatMap_append, append_assoc, h'.records, h.records]
  lines := by rw [flatMap_append, append_assoc, h'.lines, h.lines]
  without := forall_mem_append.mpr ⟨h.without, h'.without⟩
  rested := h'.rested
  ready := fun t ht => h'.ready t (h.ready t ht)
  cuts := by rw [h'.cuts, h.cuts, dropWhile_idempotent]

theorem flushes_flushed (h : s.Rested) (hpost : ∀ n, Refuses x (post n))
    (hready : ∀ n, s.backingOff (now n) = false) (n : Nat) :
    Flushed x s (flushes post now (n + 1) s).1 (flushes post now (n + 1) s).2 := by
  have hone {s : Shipper} (n : Nat) (h : s.Rested) (hr : s.backingOff (now n) = false) :
      Flushed x s (flushAll (post n) (now n) s).1 (flushAll (post n) (now n) s).2 :=
    flush_flushed (hpost n) h hr (.inl (Nat.lt_succ_self _))
  induction n with
  | zero => exact hone 0 h (hready 0)
  | succ n ih => exact ih.trans (hone (n + 1) ih.rested (ih.ready _ (hready (n + 1))))

/-- A queue whose delivered part has no `x` is delivered but for `x` if and only if nothing else
is left of it. -/
theorem subperm_filter_iff {α : Type} {p : α → Bool} {taken left : List α} (h : ∀ a ∈ taken, p a) :
    ((taken ++ left).filter p).Subperm taken ↔ ∀ a ∈ left, p a = false := by
  rw [filter_append, filter_eq_self.mpr h]
  constructor
  · intro hsub a ha
    have hlen := hsub.length_le
    rw [length_append] at hlen
    have hnil : left.filter p = [] := length_eq_zero_iff.mp (by omega)
    exact Bool.eq_false_iff.mpr (filter_eq_nil_iff.mp hnil a ha)
  · intro hleft
    rw [filter_eq_nil_iff.mpr fun a ha => by simp [hleft a ha], append_nil]

theorem Flushed.delivers_iff {s' : Shipper} {taken : List TraceBatch} (h : Flushed x s taken s') :
    DeliversAllBut x s taken ↔ Unblocked x s := by
  have hrecords : ∀ r ∈ taken.flatMap (·.records), decide (.inl r ≠ x) = true := by
    intro r hr
    obtain ⟨batch, hb, hr⟩ := mem_flatMap.mp hr
    exact decide_eq_true (Cut.not_has_inl (h.without batch hb) hr)
  have hlines : ∀ l ∈ taken.flatMap (·.lines), decide (.inr l ≠ x) = true := by
    intro l hl
    obtain ⟨batch, hb, hl⟩ := mem_flatMap.mp hl
    exact decide_eq_true (Cut.not_has_inr (h.without batch hb) hl)
  have hleft : DeliversAllBut x s taken ↔ Cut.Only x (s'.records, s'.lines) := by
    constructor
    · rintro ⟨hr, hl⟩
      rw [← h.records, subperm_filter_iff hrecords] at hr
      rw [← h.lines, subperm_filter_iff hlines] at hl
      simpa [Cut.Only] using And.intro hr hl
    · rintro ⟨hr, hl⟩
      refine ⟨?_, ?_⟩
      · rw [← h.records, subperm_filter_iff hrecords]
        simpa using hr
      · rw [← h.lines, subperm_filter_iff hlines]
        simpa using hl
  rw [hleft, ← only_cuts_iff h.rested.toTuned, h.cuts]
  rfl

/-- **When an item the server never accepts does not wedge the queue**: if and only if the
batches from the first one with it on hold nothing else. -/
theorem delivers_all_but_iff (h : s.Rested) (hpost : ∀ n, Refuses x (post n))
    (hready : ∀ n, s.backingOff (now n) = false) :
    (∃ n, DeliversAllBut x s (flushes post now n s).1) ↔ Unblocked x s := by
  constructor
  · rintro ⟨n, hn⟩
    cases n with
    | zero =>
      -- What no call has to deliver is delivered by one call too.
      refine (flushes_flushed h hpost hready 0).delivers_iff.mp ⟨?_, ?_⟩
      · exact hn.records.trans (nil_subperm)
      · exact hn.lines.trans (nil_subperm)
    | succ n => exact (flushes_flushed h hpost hready n).delivers_iff.mp hn
  · intro hun
    exact ⟨1, (flushes_flushed h hpost hready 0).delivers_iff.mpr hun⟩

end

/-- A server that refuses the record of log id 1. -/
def refusesFirst (batch : TraceBatch) : Answer :=
  if Cut.has (batch.records, batch.lines) (.inl { logID := 1 }) then .refused 413 0 "too large"
  else .accepted

theorem refusesFirst_refuses : Refuses (.inl { logID := 1 }) refusesFirst where
  refused := fun _ h => ⟨413, 0, "too large", by decide, by decide, if_pos h⟩
  accepted := fun _ h => if_neg (by rw [h]; exact Bool.false_ne_true)

/-- A shipper with two records queued, as many as it may hold. -/
def twoQueued (maxBatchRecords : Int) (logID logID' : UInt32) : Shipper :=
  { new "n1" maxBatchRecords 1 2 second with records := [{ logID }, { logID := logID' }] }

theorem twoQueued_rested (maxBatchRecords : Int) (logID logID' : UInt32) :
    (twoQueued maxBatchRecords logID logID').Rested :=
  have ht := new_tuned "n1" maxBatchRecords 1 2 second
  ⟨⟨ht.records, ht.lines⟩, rfl, rfl, Nat.le_refl 2⟩

/-- The refused record is last and alone in its batch. -/
theorem delivers_all_but_iff_sample :
    (∃ n, DeliversAllBut (.inl { logID := 1 }) (twoQueued 1 2 1)
        (flushes (fun _ => refusesFirst) (fun _ => 0) n (twoQueued 1 2 1)).1) ∧
      Unblocked (.inl { logID := 1 }) (twoQueued 1 2 1) := by
  have hun : Unblocked (.inl { logID := 1 }) (twoQueued 1 2 1) := by decide +kernel
  exact ⟨(delivers_all_but_iff (twoQueued_rested 1 2 1) (fun _ => refusesFirst_refuses)
    fun _ => rfl).mpr hun, hun⟩

/-- Alone in its batch, but with another record behind it: however often `Flush` is called, that
record stays queued. -/
theorem refused_record_wedges_queue :
    ¬ ∃ n, DeliversAllBut (.inl { logID := 1 }) (twoQueued 1 1 2)
      (flushes (fun _ => refusesFirst) (fun _ => 0) n (twoQueued 1 1 2)).1 := by
  rintro ⟨n, hn⟩
  cases n with
  | zero =>
    have hlen := hn.records.length_le
    revert hlen
    decide +kernel
  | succ n =>
    have hun := (flushes_flushed (twoQueued_rested 1 1 2) (fun _ => refusesFirst_refuses)
      (fun _ => rfl) n).delivers_iff.mp hn
    revert hun
    decide +kernel

end Shipper

end LatticeAgent.Trace
