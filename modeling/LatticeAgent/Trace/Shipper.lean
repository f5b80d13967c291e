import LatticeAgent.Trace.Types

/-! # The trace shipper

`traceship.Shipper`: two bounded queues, of connection records and of trace lines, and the
counters that travel with the next batch. A flush cycle takes the heads of the queues out, posts
them, and either commits the batch or puts it back; over capacity the oldest queued items are
dropped and counted. -/

namespace LatticeAgent.Trace

/-- `model.TraceBatch`. -/
structure TraceBatch where
  nodeID : String := ""
  coreGeneration : UInt64 := 0
  coreStartedAt : Time := 0
  dropped : UInt64 := 0
  shedConnections : UInt64 := 0
  unparsed : UInt64 := 0
  capturedAt : Time := 0
  records : List ConnRecord := []
  lines : List TraceLine := []
deriving DecidableEq, Repr

/-- `traceship.Shipper`. -/
structure Shipper where
  nodeID : String := ""
  maxBatchRecords : Nat
  maxBatchLines : Nat
  maxPending : Nat
  flushInterval : Duration
  records : List ConnRecord := []
  lines : List TraceLine := []
  inflightRecords : List ConnRecord := []
  inflightLines : List TraceLine := []
  coreGeneration : UInt64 := 0
  coreStartedAt : Time := 0
  dropped : UInt64 := 0
  droppedTotal : UInt64 := 0
  unparsed : UInt64 := 0
  unparsedTotal : UInt64 := 0
  shed : UInt64 := 0
  shippedRecords : UInt64 := 0
  shippedLines : UInt64 := 0
  shippedBatches : UInt64 := 0
  lastError : String := ""
  lastSuccess : Time := 0
  loggedShipErr : Bool := false
  retryUntil : Time := 0
  backoffFailures : Nat := 0
deriving DecidableEq, Repr

/-- The server's answer to a post: taken, or not, with the status (zero if there was none), what
its `Retry-After` says and the error. -/
inductive Answer where
  | accepted
  | refused (status : Nat) (retryAfter : Duration) (err : String)
deriving DecidableEq, Repr

namespace Shipper

def defaultMaxBatchRecords : Nat := 200
def defaultMaxBatchLines : Nat := 500
def defaultMaxPending : Nat := 5000
def defaultFlushInterval : Duration := second
def maxBackoff : Duration := 60 * second
def maxBatchBytes : Nat := 4 * 2 ^ 20

/-- A tunable of the config: what is not positive falls back to the default. -/
def orDefault (n : Int) (default : Nat) : Nat := if n ≤ 0 then default else n.toNat

/-- `New`, of the tunables of a config. -/
def new (nodeID : String) (maxBatchRecords maxBatchLines maxPending : Int)
    (flushInterval : Duration) : Shipper where
  nodeID := trimSpace nodeID
  maxBatchRecords := orDefault maxBatchRecords defaultMaxBatchRecords
  maxBatchLines := orDefault maxBatchLines defaultMaxBatchLines
  maxPending := orDefault maxPending defaultMaxPending
  flushInterval := if flushInterval ≤ 0 then defaultFlushInterval else flushInterval

/-! ### Capacity -/

/-- The loop of `trimLocked`: how many records and how many lines go when `overBy` items have to,
with this many of each left. Lines go first when both are equally many. -/
def trimCounts : Nat → Nat → Nat → Nat × Nat
  | 0, _, _ => (0, 0)
  | overBy + 1, remainingRecords, remainingLines =>
    if remainingRecords = 0 ∧ remainingLines = 0 then (0, 0)
    else if remainingRecords ≤ remainingLines then
      let (dropRecords, dropLines) := trimCounts overBy remainingRecords (remainingLines - 1)
      (dropRecords, dropLines + 1)
    else
      let (dropRecords, dropLines) := trimCounts overBy (remainingRecords - 1) remainingLines
      (dropRecords + 1, dropLines)

/-- No more goes than there is, and `overBy` items in all if there are as many. -/
theorem trimCounts_spec (overBy r l : Nat) :
    (trimCounts overBy r l).1 ≤ r ∧ (trimCounts overBy r l).2 ≤ l ∧
      (trimCounts overBy r l).1 + (trimCounts overBy r l).2 = min overBy (r + l) := by
  induction overBy generalizing r l with
  | zero => simp [trimCounts]
  | succ overBy ih =>
    simp only [trimCounts]
    split
    · simp only
      omega
    · split
      · have := ih r (l - 1)
        simp only
        omega
      · have := ih (r - 1) l
        simp only
        omega

variable (s : Shipper)

/-- How many of each `trimLocked` drops. -/
def trimmed : Nat × Nat :=
  trimCounts (s.records.length + s.lines.length - s.maxPending) s.records.length s.lines.length

theorem trimmed_spec : s.trimmed.1 ≤ s.records.length ∧ s.trimmed.2 ≤ s.lines.length ∧
    s.trimmed.1 + s.trimmed.2 = s.records.length + s.lines.length - s.maxPending := by
  have := trimCounts_spec (s.records.length + s.lines.length - s.maxPending) s.records.length
    s.lines.length
  dsimp only [trimmed] at this ⊢
  omega

def trimLocked : Shipper :=
  let n := UInt64.ofNat (s.trimmed.1 + s.trimmed.2)
  { s with
    records := s.records.drop s.trimmed.1
    lines := s.lines.drop s.trimmed.2
    dropped := s.dropped + n
    droppedTotal := s.droppedTotal + n }

theorem trimLocked_capacity :
    s.trimLocked.records.length + s.trimLocked.lines.length ≤ s.maxPending := by
  have := s.trimmed_spec
  simp only [trimLocked, List.length_drop]
  omega

/-! ### Adding -/

def addRecords (rs : List ConnRecord) : Shipper :=
  if rs.isEmpty then s else ({ s with records := s.records ++ rs }).trimLocked

def addLines (ls : List TraceLine) : Shipper :=
  if ls.isEmpty then s else ({ s with lines := s.lines ++ ls }).trimLocked

def setCore (generation : UInt64) (startedAt : Time) : Shipper :=
  { s with coreGeneration := generation, coreStartedAt := startedAt }

def addUnparsed (n : UInt64) : Shipper :=
  { s with unparsed := s.unparsed + n, unparsedTotal := s.unparsedTotal + n }

def addDropped (n : UInt64) : Shipper :=
  { s with dropped := s.dropped + n, droppedTotal := s.droppedTotal + n }

def addShed (n : UInt64) : Shipper :=
  { s with
    shed := s.shed + n
    dropped := s.dropped + n
    droppedTotal := s.droppedTotal + n }

/-! ### A flush cycle -/

/-- The approximate encoded size of a record. -/
def recordSize (r : ConnRecord) : Nat :=
  r.dstHost.utf8ByteSize + r.closeError.utf8ByteSize + r.ruleText.utf8ByteSize +
    r.userName.utf8ByteSize + 256

/-- The approximate encoded size of a line. -/
def lineSize (l : TraceLine) : Nat :=
  l.message.utf8ByteSize + l.raw.utf8ByteSize + l.tag.utf8ByteSize + 128

/-- The loops of `trimToByteBudget`, over the sizes of the head of a queue: the size and the
number of items kept so far go in and come out. The first item of all is kept whatever its
size. -/
def fit : Nat → Nat → List Nat → Nat × Nat
  | size, kept, [] => (size, kept)
  | size, kept, n :: ns =>
    if maxBatchBytes < size + n ∧ 0 < kept then (size, kept) else fit (size + n) (kept + 1) ns

theorem fit_spec (size kept : Nat) (ns : List Nat) :
    kept ≤ (fit size kept ns).2 ∧ (fit size kept ns).2 ≤ kept + ns.length ∧
      (ns ≠ [] → 0 < (fit size kept ns).2) := by
  induction ns generalizing size kept with
  | nil => simp [fit]
  | cons n ns ih =>
    simp only [fit]
    split
    · rename_i h
      exact ⟨Nat.le_refl _, Nat.le_add_right _ _, fun _ => h.2⟩
    · have := ih (size + n) (kept + 1)
      rw [List.length_cons]
      omega

/-- `trimToByteBudget`, from the counts the caps allow. -/
def trimToByteBudget (recordN lineN : Nat) : Nat × Nat :=
  let (size, keptRecords) := fit 0 0 ((s.records.take recordN).map recordSize)
  let (_, kept) := fit size keptRecords ((s.lines.take lineN).map lineSize)
  (keptRecords, kept - keptRecords)

/-- How many records and lines the next batch takes. -/
def headCounts : Nat × Nat :=
  s.trimToByteBudget (min s.records.length s.maxBatchRecords) (min s.lines.length s.maxBatchLines)

/-- A batch takes no more than there is, and something if there is something. -/
theorem headCounts_spec :
    (s.headCounts.1 ≤ s.records.length ∧ s.headCounts.2 ≤ s.lines.length) ∧
      (0 < s.maxBatchRecords → 0 < s.maxBatchLines → 0 < s.records.length + s.lines.length →
        0 < s.headCounts.1 + s.headCounts.2) := by
  have hrecords := fit_spec 0 0
    ((s.records.take (min s.records.length s.maxBatchRecords)).map recordSize)
  dsimp only [headCounts, trimToByteBudget]
  generalize fit 0 0 ((s.records.take (min s.records.length s.maxBatchRecords)).map recordSize) = kept
    at hrecords
  have hlines := fit_spec kept.1 kept.2
    ((s.lines.take (min s.lines.length s.maxBatchLines)).map lineSize)
  simp only [ne_eq, ← List.length_eq_zero_iff, List.length_map, List.length_take] at hrecords hlines
  omega

/-- A 429 told the shipper to wait. -/
def backingOff (now : Time) : Bool := !s.retryUntil.isZero && now < s.retryUntil

/-- The request the next batch makes. -/
def headBatch (now : Time) : TraceBatch where
  nodeID := s.nodeID
  coreGeneration := s.coreGeneration
  coreStartedAt := s.coreStartedAt
  dropped := s.dropped
  shedConnections := s.shed
  unparsed := s.unparsed
  capturedAt := now
  records := s.records.take s.headCounts.1
  lines := s.lines.take s.headCounts.2

/-- The head of each queue is moved into the in-flight slice. -/
def moveHead : Shipper :=
  { s with
    inflightRecords :=
      if 0 < s.headCounts.1 then s.records.take s.headCounts.1 else s.inflightRecords
    records := s.records.drop s.headCounts.1
    inflightLines := if 0 < s.headCounts.2 then s.lines.take s.headCounts.2 else s.inflightLines
    lines := s.lines.drop s.headCounts.2 }

/-- There is nothing to say: no item and no counter owed. -/
def Silent : Prop :=
  s.headCounts.1 = 0 ∧ s.headCounts.2 = 0 ∧ s.dropped = 0 ∧ s.unparsed = 0 ∧ s.shed = 0

instance : Decidable s.Silent := inferInstanceAs (Decidable (_ ∧ _))

/-- `takeBatch`; none while a backoff is in effect, or if there is nothing to say. -/
def takeBatch (now : Time) : Option TraceBatch × Shipper :=
  if s.backingOff now then (none, s)
  else if s.Silent then (none, s)
  else (some (s.headBatch now), s.moveHead)

theorem takeBatch_cases (now : Time) : s.takeBatch now = (none, s) ∨
    s.takeBatch now = (some (s.headBatch now), s.moveHead) := by
  unfold takeBatch
  split
  · exact .inl rfl
  · split
    · exact .inl rfl
    · exact .inr rfl

theorem moveHead_inflight (hr : s.inflightRecords = []) (hl : s.inflightLines = []) :
    s.moveHead.inflightRecords = s.records.take s.headCounts.1 ∧
      s.moveHead.inflightLines = s.lines.take s.headCounts.2 := by
  refine ⟨?_, ?_⟩
  · change (if 0 < s.headCounts.1 then s.records.take s.headCounts.1 else s.inflightRecords) = _
    split
    · rfl
    · rename_i h
      rw [hr, Nat.eq_zero_of_not_pos h, List.take_zero]
  · change (if 0 < s.headCounts.2 then s.lines.take s.headCounts.2 else s.inflightLines) = _
    split
    · rfl
    · rename_i h
      rw [hl, Nat.eq_zero_of_not_pos h, List.take_zero]

/-- What is in flight goes back to the front of the queues. -/
def putBack : Shipper :=
  { s with
    records := s.inflightRecords ++ s.records
    inflightRecords := []
    lines := s.inflightLines ++ s.lines
    inflightLines := [] }

def restore : Shipper := s.putBack.trimLocked

def saturatingSub (a b : UInt64) : UInt64 := if a ≤ b then 0 else a - b

def commit (batch : TraceBatch) (now : Time) : Shipper :=
  { s with
    shippedRecords := s.shippedRecords + UInt64.ofNat s.inflightRecords.length
    shippedLines := s.shippedLines + UInt64.ofNat s.inflightLines.length
    inflightRecords := []
    inflightLines := []
    dropped := saturatingSub s.dropped batch.dropped
    shed := saturatingSub s.shed batch.shedConnections
    unparsed := saturatingSub s.unparsed batch.unparsed
    shippedBatches := s.shippedBatches + 1
    lastSuccess := now
    lastError := ""
    loggedShipErr := false
    retryUntil := 0
    backoffFailures := 0 }

/-- The loop of `backoffFor`: doubled once for every further refusal, up to the bound. -/
def doubled : Nat → Duration → Duration
  | 0, wait => wait
  | failures + 1, wait => if wait < maxBackoff then doubled failures (wait * 2) else wait

def backoffFor (failures : Nat) (base : Duration) : Duration :=
  min (doubled (failures - 1) (if base ≤ 0 then defaultFlushInterval else base)) maxBackoff

/-- `recordFailure`; only a 429 makes the shipper back off. -/
def recordFailure (status : Nat) (retryAfter : Duration) (err : String) (now : Time) : Shipper :=
  let limited := status = 429
  let failures := s.backoffFailures + 1
  { s with
    lastError := err
    backoffFailures := if limited then failures else s.backoffFailures
    retryUntil :=
      if limited then
        now + if retryAfter ≤ 0 then backoffFor failures s.flushInterval else retryAfter
      else s.retryUntil
    loggedShipErr := true }

/-- `Flush` with this many posts at most: the batches the server took, and the shipper. -/
def flush (post : TraceBatch → Answer) (now : Time) :
    Nat → Shipper → List TraceBatch × Shipper
  | 0, s => ([], s)
  | fuel + 1, s =>
    match s.takeBatch now with
    | (none, s) => ([], s)
    | (some batch, s) =>
      match post batch with
      | .accepted =>
        let (taken, s) := flush post now fuel (s.commit batch now)
        (batch :: taken, s)
      | .refused status retryAfter err =>
        ([], s.restore.recordFailure status retryAfter err now)

end Shipper

end LatticeAgent.Trace
