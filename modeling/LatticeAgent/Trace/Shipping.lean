import LatticeAgent.Lib.Custody
import LatticeAgent.Trace.Shipper
import Mathlib.Data.UInt

/-! # What the shipper owes

The `Add` methods run at any time, also while a batch is on the wire; flush cycles run one after
the other, each taking a batch and then committing it or putting it back. A `Cycle` is a shipper
at any point of this, with what has become of everything that was added to it.

`shipping_conserved` says that every item is in one place and every loss is owed or reported
once, as long as no counter wraps around. -/

namespace LatticeAgent.Trace

/-! ### The steps -/

/-- A shipper, the batch it has on the wire, and what has happened to it. -/
structure Cycle where
  s : Shipper
  flight : Option TraceBatch := none
  addedRecords : List ConnRecord := []
  addedLines : List TraceLine := []
  droppedRecords : List ConnRecord := []
  droppedLines : List TraceLine := []
  /-- The batches the server took. -/
  accepted : List TraceBatch := []
  /-- What `AddDropped` and `AddShed` counted. -/
  told : Nat := 0
  /-- What `AddShed` counted. -/
  shedTold : Nat := 0

/-- A step: an `Add`, or one of a flush cycle. -/
inductive CycleOp where
  | addRecords (rs : List ConnRecord)
  | addLines (ls : List TraceLine)
  | addUnparsed (n : UInt64)
  | addDropped (n : UInt64)
  | addShed (n : UInt64)
  | setCore (generation : UInt64) (startedAt : Time)
  | take (now : Time)
  | commit (now : Time)
  | restore
  | recordFailure (status : Nat) (retryAfter : Duration) (err : String) (now : Time)

namespace Cycle

/-- The shipper is trimmed, and what it drops is noted. -/
def trim (c : Cycle) (s : Shipper) : Cycle :=
  { c with
    s := s.trimLocked
    droppedRecords := c.droppedRecords ++ s.records.take s.trimmed.1
    droppedLines := c.droppedLines ++ s.lines.take s.trimmed.2 }

/-- One step. A batch is taken only while none is on the wire. -/
def step (c : Cycle) : CycleOp → Cycle
  | .addRecords rs =>
    if rs.isEmpty then c
    else ({ c with addedRecords := c.addedRecords ++ rs }).trim
      { c.s with records := c.s.records ++ rs }
  | .addLines ls =>
    if ls.isEmpty then c
    else ({ c with addedLines := c.addedLines ++ ls }).trim { c.s with lines := c.s.lines ++ ls }
  | .addUnparsed n => { c with s := c.s.addUnparsed n }
  | .addDropped n => { c with s := c.s.addDropped n, told := c.told + n.toNat }
  | .addShed n =>
    { c with
      s := c.s.addShed n
      told := c.told + n.toNat
      shedTold := c.shedTold + n.toNat }
  | .setCore generation startedAt => { c with s := c.s.setCore generation startedAt }
  | .take now =>
    match c.flight with
    | some _ => c
    | none => { c with flight := (c.s.takeBatch now).1, s := (c.s.takeBatch now).2 }
  | .commit now =>
    match c.flight with
    | none => c
    | some batch =>
      { c with
        s := c.s.commit batch now
        flight := none
        accepted := c.accepted ++ [batch] }
  | .restore =>
    match c.flight with
    | none => c
    | some _ => ({ c with flight := none }).trim c.s.putBack
  | .recordFailure status retryAfter err now =>
    { c with s := c.s.recordFailure status retryAfter err now }

/-- The steps that trim make the calls on the shipper, as the others do. -/
theorem step_s (c : Cycle) :
    (∀ rs, (c.step (.addRecords rs)).s = c.s.addRecords rs) ∧
      (∀ ls, (c.step (.addLines ls)).s = c.s.addLines ls) ∧
      (c.flight.isSome → (c.step .restore).s = c.s.restore) := by
  refine ⟨fun rs => ?_, fun ls => ?_, fun h => ?_⟩
  · cases rs <;> rfl
  · cases ls <;> rfl
  · obtain ⟨batch, hbatch⟩ := Option.isSome_iff_exists.mp h
    simp only [step, hbatch]
    rfl

/-- A sequence of steps. -/
def run (c : Cycle) (ops : List CycleOp) : Cycle := ops.foldl step c

/-- A shipper as `New` makes it, before anything is added. -/
def fresh (nodeID : String) (maxBatchRecords maxBatchLines maxPending : Int)
    (flushInterval : Duration) : Cycle :=
  { s := .new nodeID maxBatchRecords maxBatchLines maxPending flushInterval }

end Cycle

/-- How much a step adds to the counters, at most. -/
def CycleOp.weight : CycleOp → Nat
  | .addRecords rs => rs.length
  | .addLines ls => ls.length
  | .addUnparsed n | .addDropped n | .addShed n => n.toNat
  | _ => 0

/-! ### What is conserved -/

open Custody

/-- The sum of a counter over the batches the server took. -/
def carried (f : TraceBatch → UInt64) (batches : List TraceBatch) : Nat :=
  (batches.map fun b => (f b).toNat).sum

/-- Every item is in one place, and every loss is owed or reported once. -/
structure Accounts (c : Cycle) : Prop where
  records : Accounted c.addedRecords c.droppedRecords (c.accepted.flatMap (·.records))
    c.s.inflightRecords c.s.records
  lines : Accounted c.addedLines c.droppedLines (c.accepted.flatMap (·.lines))
    c.s.inflightLines c.s.lines
  dropped : c.s.droppedTotal.toNat = carried (·.dropped) c.accepted + c.s.dropped.toNat
  unparsed : c.s.unparsedTotal.toNat = carried (·.unparsed) c.accepted + c.s.unparsed.toNat
  shed : c.shedTold = carried (·.shedConnections) c.accepted + c.s.shed.toNat
  counted : c.s.droppedTotal.toNat = c.droppedRecords.length + c.droppedLines.length + c.told
  shed_le : c.s.shed ≤ c.s.dropped
  /-- No subtraction of a commit saturates. -/
  exact : ∀ batch, c.flight = some batch → batch.dropped ≤ c.s.dropped ∧
    batch.shedConnections ≤ c.s.shed ∧ batch.unparsed ≤ c.s.unparsed

/-- The accounts are in order and the queues are within the capacity. -/
structure Conserved (c : Cycle) : Prop extends Accounts c where
  capacity : c.s.records.length + c.s.lines.length ≤ c.s.maxPending

/-- What the steps keep besides, with `w` the sum of their weights. -/
structure Owing (w : Nat) (c : Cycle) : Prop extends Accounts c where
  idle : c.flight = none → c.s.inflightRecords = [] ∧ c.s.inflightLines = []
  /-- What was shed since the batch was taken was dropped since. -/
  since : ∀ batch, c.flight = some batch →
    batch.records = c.s.inflightRecords ∧ batch.lines = c.s.inflightLines ∧
      c.s.shed.toNat + batch.dropped.toNat ≤ c.s.dropped.toNat + batch.shedConnections.toNat
  bound : c.addedRecords.length + c.addedLines.length + c.told ≤ w ∧
    c.s.unparsedTotal.toNat ≤ w

theorem carried_concat (f : TraceBatch → UInt64) (batches : List TraceBatch) (batch : TraceBatch) :
    carried f (batches ++ [batch]) = carried f batches + (f batch).toNat := by
  simp [carried]

theorem toNat_add_of_lt {a b : UInt64} (h : a.toNat + b.toNat < 2 ^ 64) :
    (a + b).toNat = a.toNat + b.toNat := by
  rw [UInt64.toNat_add, Nat.mod_eq_of_lt h]

theorem toNat_ofNat_of_lt {n : Nat} (h : n < 2 ^ 64) : (UInt64.ofNat n).toNat = n := by
  rw [UInt64.toNat_ofNat', Nat.mod_eq_of_lt h]

theorem toNat_saturatingSub {a b : UInt64} (h : b ≤ a) :
    (Shipper.saturatingSub a b).toNat = a.toNat - b.toNat := by
  unfold Shipper.saturatingSub
  split
  · rename_i hle
    rw [UInt64.le_antisymm hle h]
    simp
  · exact UInt64.toNat_sub_of_le _ _ h

namespace Owing

variable {w : Nat} {c : Cycle}

theorem dropped_le (h : Owing w c) : c.s.droppedTotal.toNat ≤ w := by
  have hr := h.records.once.length_eq
  have hl := h.lines.once.length_eq
  have hc := h.counted
  have hb := h.bound.1
  simp only [List.length_append] at hr hl
  omega

theorem trim {s : Shipper} (h : Owing w { c with s := s }) (hw : w < 2 ^ 64) :
    Owing w (c.trim s) ∧ Conserved (c.trim s) := by
  obtain ⟨hle₁, hle₂, -⟩ := s.trimmed_spec
  have hlen₁ : (s.records.take s.trimmed.1).length = s.trimmed.1 := by simp [hle₁]
  have hlen₂ : (s.lines.take s.trimmed.2).length = s.trimmed.2 := by simp [hle₂]
  have hrecords := h.records.drop s.trimmed.1
  have hlines := h.lines.drop s.trimmed.2
  -- What is dropped in all was added, so the counter has room for it.
  have hroom : s.droppedTotal.toNat + (s.trimmed.1 + s.trimmed.2) ≤ w := by
    have hr := hrecords.once.length_eq
    have hl := hlines.once.length_eq
    have hc := h.counted
    have hb := h.bound.1
    simp only [List.length_append, hlen₁, hlen₂] at hr hl hc
    dsimp only at hr hl hc hb
    omega
  have hn : (UInt64.ofNat (s.trimmed.1 + s.trimmed.2)).toNat = s.trimmed.1 + s.trimmed.2 :=
    toNat_ofNat_of_lt (by omega)
  have hdropped : s.droppedTotal.toNat = carried (·.dropped) c.accepted + s.dropped.toNat :=
    h.dropped
  have htotal : c.droppedRecords.length + c.droppedLines.length + c.told =
      s.droppedTotal.toNat := h.counted.symm
  have howed : (s.dropped + UInt64.ofNat (s.trimmed.1 + s.trimmed.2)).toNat =
      s.dropped.toNat + (s.trimmed.1 + s.trimmed.2) := by
    rw [toNat_add_of_lt (by omega), hn]
  have hall : (s.droppedTotal + UInt64.ofNat (s.trimmed.1 + s.trimmed.2)).toNat =
      s.droppedTotal.toNat + (s.trimmed.1 + s.trimmed.2) := by
    rw [toNat_add_of_lt (by omega), hn]
  have hgrown : s.dropped ≤ s.dropped + UInt64.ofNat (s.trimmed.1 + s.trimmed.2) := by
    rw [UInt64.le_iff_toNat_le]
    omega
  have hacc : Accounts (c.trim s) := by
    refine ⟨hrecords, hlines, ?_, h.unparsed, h.shed, ?_, UInt64.le_trans h.shed_le hgrown, ?_⟩
    · change (s.droppedTotal + _).toNat = _ + (s.dropped + _).toNat
      rw [hall, howed, hdropped, Nat.add_assoc]
      rfl
    · change (s.droppedTotal + _).toNat = (c.droppedRecords ++ _).length +
        (c.droppedLines ++ _).length + c.told
      rw [hall, List.length_append, List.length_append, hlen₁, hlen₂]
      omega
    · intro batch hb
      obtain ⟨h₁, h₂, h₃⟩ := h.exact batch hb
      exact ⟨UInt64.le_trans h₁ hgrown, h₂, h₃⟩
  refine ⟨⟨hacc, h.idle, fun batch hb => ?_, h.bound⟩, ⟨hacc, s.trimLocked_capacity⟩⟩
  obtain ⟨h₁, h₂, h₃⟩ := h.since batch hb
  refine ⟨h₁, h₂, ?_⟩
  change s.shed.toNat + _ ≤ (s.dropped + _).toNat + _
  have h₃ : s.shed.toNat + batch.dropped.toNat ≤ s.dropped.toNat + batch.shedConnections.toNat := h₃
  omega

section

variable (h : Owing w c)

include h

theorem mono {w' : Nat} (hw : w ≤ w') : Owing w' c :=
  { h with bound := ⟨h.bound.1.trans hw, h.bound.2.trans hw⟩ }

theorem addRecords (rs : List ConnRecord) (hw : w + rs.length < 2 ^ 64) :
    Owing (w + rs.length) (c.step (.addRecords rs)) ∧
      (Conserved c → Conserved (c.step (.addRecords rs))) := by
  unfold Cycle.step
  dsimp only
  split
  · exact ⟨h.mono (Nat.le_add_right _ _), id⟩
  · refine (trim (s := { c.s with records := c.s.records ++ rs })
      (c := { c with addedRecords := c.addedRecords ++ rs }) ⟨⟨h.records.add rs, h.lines, h.dropped,
        h.unparsed, h.shed, h.counted, h.shed_le, h.exact⟩, h.idle, h.since, ?_⟩ hw).imp_right
      fun hc _ => hc
    have hb := h.bound
    dsimp only
    rw [List.length_append]
    omega

theorem addLines (ls : List TraceLine) (hw : w + ls.length < 2 ^ 64) :
    Owing (w + ls.length) (c.step (.addLines ls)) ∧
      (Conserved c → Conserved (c.step (.addLines ls))) := by
  unfold Cycle.step
  dsimp only
  split
  · exact ⟨h.mono (Nat.le_add_right _ _), id⟩
  · refine (trim (s := { c.s with lines := c.s.lines ++ ls })
      (c := { c with addedLines := c.addedLines ++ ls }) ⟨⟨h.records, h.lines.add ls, h.dropped,
        h.unparsed, h.shed, h.counted, h.shed_le, h.exact⟩, h.idle, h.since, ?_⟩ hw).imp_right
      fun hc _ => hc
    have hb := h.bound
    dsimp only
    rw [List.length_append]
    omega

theorem addUnparsed (n : UInt64) (hw : w + n.toNat < 2 ^ 64) :
    Owing (w + n.toNat) (c.step (.addUnparsed n)) := by
  have hb := h.bound
  have hu := h.unparsed
  have htotal : (c.s.unparsedTotal + n).toNat = c.s.unparsedTotal.toNat + n.toNat :=
    toNat_add_of_lt (by omega)
  have howed : (c.s.unparsed + n).toNat = c.s.unparsed.toNat + n.toNat :=
    toNat_add_of_lt (by omega)
  refine ⟨⟨h.records, h.lines, h.dropped, ?_, h.shed, h.counted, h.shed_le, fun batch hbatch => ?_⟩,
    h.idle, h.since, ?_⟩
  · change (c.s.unparsedTotal + n).toNat = _ + (c.s.unparsed + n).toNat
    rw [htotal, howed, hu, Nat.add_assoc]
    rfl
  · obtain ⟨h₁, h₂, h₃⟩ := h.exact batch hbatch
    refine ⟨h₁, h₂, UInt64.le_trans h₃ ?_⟩
    change c.s.unparsed ≤ c.s.unparsed + n
    rw [UInt64.le_iff_toNat_le, howed]
    omega
  · refine ⟨by have := hb.1; simp only [Cycle.step]; omega, ?_⟩
    change (c.s.unparsedTotal + n).toNat ≤ _
    omega

theorem addLosses (n m : UInt64) (hm : m ≤ n) (hw : w + n.toNat < 2 ^ 64) :
    Owing (w + n.toNat)
      { c with
        s :=
          { c.s with
            shed := c.s.shed + m
            dropped := c.s.dropped + n
            droppedTotal := c.s.droppedTotal + n }
        told := c.told + n.toNat
        shedTold := c.shedTold + m.toNat } := by
  have hb := h.bound
  have hle := h.dropped_le
  have hd := h.dropped
  have hs := h.shed
  have hc := h.counted
  have hmn := UInt64.le_iff_toNat_le.mp hm
  have hsd := UInt64.le_iff_toNat_le.mp h.shed_le
  have htotal : (c.s.droppedTotal + n).toNat = c.s.droppedTotal.toNat + n.toNat :=
    toNat_add_of_lt (by omega)
  have howed : (c.s.dropped + n).toNat = c.s.dropped.toNat + n.toNat :=
    toNat_add_of_lt (by omega)
  have hshed : (c.s.shed + m).toNat = c.s.shed.toNat + m.toNat := toNat_add_of_lt (by omega)
  refine ⟨⟨h.records, h.lines, ?_, h.unparsed, ?_, ?_, ?_, fun batch hbatch => ?_⟩, h.idle,
    fun batch hbatch => ?_, ?_⟩
  · change (c.s.droppedTotal + n).toNat = _ + (c.s.dropped + n).toNat
    rw [htotal, howed, hd, Nat.add_assoc]
  · change c.shedTold + m.toNat = _ + (c.s.shed + m).toNat
    rw [hshed, hs, Nat.add_assoc]
  · change (c.s.droppedTotal + n).toNat = _ + (c.told + n.toNat)
    rw [htotal, hc, Nat.add_assoc]
  · change c.s.shed + m ≤ c.s.dropped + n
    rw [UInt64.le_iff_toNat_le, hshed, howed]
    omega
  · obtain ⟨h₁, h₂, h₃⟩ := h.exact batch hbatch
    rw [UInt64.le_iff_toNat_le] at h₁ h₂
    refine ⟨?_, ?_, h₃⟩
    · change batch.dropped ≤ c.s.dropped + n
      rw [UInt64.le_iff_toNat_le, howed]
      omega
    · change batch.shedConnections ≤ c.s.shed + m
      rw [UInt64.le_iff_toNat_le, hshed]
      omega
  · obtain ⟨h₁, h₂, h₃⟩ := h.since batch hbatch
    refine ⟨h₁, h₂, ?_⟩
    change (c.s.shed + m).toNat + _ ≤ (c.s.dropped + n).toNat + _
    omega
  · dsimp only
    omega

theorem addDropped (n : UInt64) (hw : w + n.toNat < 2 ^ 64) :
    Owing (w + n.toNat) (c.step (.addDropped n)) := by
  have hadd := h.addLosses n 0 (UInt64.le_iff_toNat_le.mpr (Nat.zero_le _)) hw
  rwa [UInt64.add_zero, UInt64.toNat_zero, Nat.add_zero] at hadd

theorem addShed (n : UInt64) (hw : w + n.toNat < 2 ^ 64) :
    Owing (w + n.toNat) (c.step (.addShed n)) :=
  h.addLosses n n (UInt64.le_refl n) hw

theorem take (now : Time) :
    Owing w (c.step (.take now)) ∧ (Conserved c → Conserved (c.step (.take now))) := by
  unfold Cycle.step
  dsimp only
  cases hf : c.flight with
  | some batch => exact ⟨h, id⟩
  | none =>
    dsimp only
    obtain ⟨hr, hl⟩ := h.idle hf
    obtain heq | heq := c.s.takeBatch_cases now
    · rw [heq]
      dsimp only
      rw [← hf]
      exact ⟨h, id⟩
    · rw [heq]
      dsimp only
      obtain ⟨hr', hl'⟩ := c.s.moveHead_inflight hr hl
      have hrecords := h.records
      have hlines := h.lines
      rw [hr] at hrecords
      rw [hl] at hlines
      have hacc : Accounts
          { c with flight := some (c.s.headBatch now), s := c.s.moveHead } := by
        refine ⟨?_, ?_, h.dropped, h.unparsed, h.shed, h.counted, h.shed_le, ?_⟩
        · dsimp only
          rw [hr']
          exact hrecords.take _
        · dsimp only
          rw [hl']
          exact hlines.take _
        · rintro batch ⟨⟩
          exact ⟨UInt64.le_refl _, UInt64.le_refl _, UInt64.le_refl _⟩
      refine ⟨⟨hacc, nofun, ?_, h.bound⟩, fun hc => ⟨hacc, ?_⟩⟩
      · rintro batch ⟨⟩
        exact ⟨hr'.symm, hl'.symm, Nat.le_of_eq (Nat.add_comm _ _)⟩
      · have hcap := hc.capacity
        change (c.s.records.drop _).length + (c.s.lines.drop _).length ≤ c.s.maxPending
        rw [List.length_drop, List.length_drop]
        omega

/-- A committed batch has carried what it said, and the rest is still owed. -/
theorem commit (now : Time) :
    Owing w (c.step (.commit now)) ∧ (Conserved c → Conserved (c.step (.commit now))) := by
  unfold Cycle.step
  dsimp only
  cases hf : c.flight with
  | none => exact ⟨h, id⟩
  | some batch =>
    dsimp only
    obtain ⟨hd, hs, hu⟩ := h.exact batch hf
    obtain ⟨hr, hl, hsince⟩ := h.since batch hf
    have hd' := toNat_saturatingSub hd
    have hs' := toNat_saturatingSub hs
    have hu' := toNat_saturatingSub hu
    rw [UInt64.le_iff_toNat_le] at hd hs hu
    have hdropped := h.dropped
    have hunparsed := h.unparsed
    have hshed := h.shed
    have hacc : Accounts
        { c with
          s := c.s.commit batch now
          flight := none
          accepted := c.accepted ++ [batch] } := by
      refine ⟨?_, ?_, ?_, ?_, ?_, h.counted, ?_, nofun⟩
      · simpa [hr, Shipper.commit] using h.records.ship
      · simpa [hl, Shipper.commit] using h.lines.ship
      · dsimp only [Shipper.commit]
        rw [carried_concat, hd']
        omega
      · dsimp only [Shipper.commit]
        rw [carried_concat, hu']
        omega
      · dsimp only [Shipper.commit]
        rw [carried_concat, hs']
        omega
      · dsimp only [Shipper.commit]
        rw [UInt64.le_iff_toNat_le, hd', hs']
        omega
    exact ⟨⟨hacc, fun _ => ⟨rfl, rfl⟩, nofun, h.bound⟩, fun hc => ⟨hacc, hc.capacity⟩⟩

theorem restore (hw : w < 2 ^ 64) :
    Owing w (c.step .restore) ∧ (Conserved c → Conserved (c.step .restore)) := by
  unfold Cycle.step
  dsimp only
  cases hf : c.flight with
  | none => exact ⟨h, id⟩
  | some batch =>
    dsimp only
    refine (trim (s := c.s.putBack) (c := { c with flight := none })
      ⟨⟨h.records.putBack, h.lines.putBack,
      h.dropped, h.unparsed, h.shed, h.counted, h.shed_le, nofun⟩, fun _ => ⟨rfl, rfl⟩, nofun,
      h.bound⟩ hw).imp_right fun hc _ => hc

/-- **A step keeps the accounts** while the counters have room for what it adds. -/
theorem step (op : CycleOp) (hw : w + op.weight < 2 ^ 64) :
    Owing (w + op.weight) (c.step op) ∧ (Conserved c → Conserved (c.step op)) := by
  cases op with
  | addRecords rs => exact h.addRecords rs hw
  | addLines ls => exact h.addLines ls hw
  | addUnparsed n =>
    have hn := h.addUnparsed n hw
    exact ⟨hn, fun hc => ⟨hn.toAccounts, hc.capacity⟩⟩
  | addDropped n =>
    have hn := h.addDropped n hw
    exact ⟨hn, fun hc => ⟨hn.toAccounts, hc.capacity⟩⟩
  | addShed n =>
    have hn := h.addShed n hw
    exact ⟨hn, fun hc => ⟨hn.toAccounts, hc.capacity⟩⟩
  | setCore generation startedAt =>
    have hacc : Accounts (c.step (.setCore generation startedAt)) := { h.toAccounts with }
    exact ⟨⟨hacc, h.idle, h.since, h.bound⟩, fun hc => ⟨hacc, hc.capacity⟩⟩
  | take now => exact h.take now
  | commit now => exact h.commit now
  | restore => exact h.restore hw
  | recordFailure status retryAfter err now =>
    have hacc : Accounts (c.step (.recordFailure status retryAfter err now)) :=
      { h.toAccounts with }
    exact ⟨⟨hacc, h.idle, h.since, h.bound⟩, fun hc => ⟨hacc, hc.capacity⟩⟩

theorem run (hc : Conserved c) (ops : List CycleOp) (hw : w + (ops.map CycleOp.weight).sum < 2 ^
      64) :
    Owing (w + (ops.map CycleOp.weight).sum) (c.run ops) ∧ Conserved (c.run ops) := by
  induction ops generalizing c w with
  | nil => exact ⟨h, hc⟩
  | cons op ops ih =>
    rw [List.map_cons, List.sum_cons, ← Nat.add_assoc] at hw ⊢
    obtain ⟨hstep, hkeep⟩ := h.step op (by omega)
    exact ih hstep (hkeep hc) hw

end

theorem fresh (nodeID : String) (maxBatchRecords maxBatchLines maxPending : Int)
    (flushInterval : Duration) :
    let c := Cycle.fresh nodeID maxBatchRecords maxBatchLines maxPending flushInterval
    Owing 0 c ∧ Conserved c := by
  intro c
  have hacc : Accounts c :=
    ⟨accounted_nil, accounted_nil, rfl, rfl, rfl, rfl, UInt64.le_refl _, nofun⟩
  exact ⟨⟨hacc, fun _ => ⟨rfl, rfl⟩, nofun, ⟨Nat.le_refl _, Nat.le_refl _⟩⟩,
    ⟨hacc, Nat.zero_le _⟩⟩

end Owing

/-- **Shipping conserves items and counters.**  However the `Add` calls fall between the steps of
the flush cycles, and whatever the server answers, every state is in order, as long as all that
was ever counted fits a counter. -/
theorem shipping_conserved (nodeID : String) (maxBatchRecords maxBatchLines maxPending : Int)
    (flushInterval : Duration) (ops : List CycleOp)
    (hfit : (ops.map CycleOp.weight).sum < 2 ^ 64) :
    Conserved ((Cycle.fresh nodeID maxBatchRecords maxBatchLines maxPending flushInterval).run
      ops) := by
  obtain ⟨howing, hcons⟩ := Owing.fresh nodeID maxBatchRecords maxBatchLines maxPending
    flushInterval
  exact (howing.run hcons ops (by rwa [Nat.zero_add])).2

/-- Three records for a queue of two, with losses counted while the batch is on the wire. -/
def overfull : List CycleOp :=
  [.addRecords [{ logID := 1 }, { logID := 2 }, { logID := 3 }], .addShed 2, .take 0,
    .addRecords [{ logID := 4 }], .addDropped 1, .restore, .take 1, .addUnparsed 3, .commit 1]

theorem shipping_conserved_overfull : (overfull.map CycleOp.weight).sum < 2 ^ 64 ∧
    Conserved ((Cycle.fresh "n1" 1 1 2 second).run overfull) :=
  ⟨by decide, shipping_conserved "n1" 1 1 2 second overfull (by decide)⟩

/-- Five drops are on the wire when the counter wraps around to two: the commit saturates, and
the five that the server was told of are more than the total says. -/
theorem wrapped_counter_loses_drops :
    let c := (Cycle.fresh "n1" 1 1 2 second).run
      [.addDropped 5, .take 0, .addDropped (2 ^ 64 - 3), .commit 0]
    ¬ Conserved c ∧ c.s.droppedTotal = 2 ∧ carried (·.dropped) c.accepted = 5 ∧ c.s.dropped = 0 := by
  intro c
  have htotal : c.s.droppedTotal = 2 := by decide +kernel
  have hcarried : carried (·.dropped) c.accepted = 5 := by decide +kernel
  refine ⟨fun h => ?_, htotal, hcarried, by decide +kernel⟩
  have hdropped := h.dropped
  rw [htotal, hcarried, show (2 : UInt64).toNat = 2 from rfl] at hdropped
  omega

end LatticeAgent.Trace
