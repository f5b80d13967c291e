import LatticeAgent.Go
import LatticeAgent.Lib.Runs
import Mathlib.Data.Finset.Basic

/-! # The monitor result queue

Probe results are queued and sent in batches, oldest first, or one by one to a server without the
batch route. `push` runs at any time; `flushMu` keeps one flush in flight, whose steps are its
locked sections and the answers to its requests (`Flush`). A `Ledger` is a queue at any point of
this, with what has become of every result pushed to it.

The results stay generic: nothing here looks into one. Sequence numbers and the drop count are
natural numbers. -/

namespace LatticeAgent.Monitor

def monitorResultQueueMax : Nat := 2000
def monitorResultBatchMax : Nat := 200
def monitorResultFlushBatches : Nat := 5
def monitorBatchReprobe : Duration := 1800 * second

/-- `queuedMonitorResult`. -/
structure Item (α : Type) where
  seq : Nat
  result : α
deriving DecidableEq, Repr

/-- `monitorResultQueue`. -/
structure Queue (α : Type) where
  items : List (Item α) := []
  nextSeq : Nat := 0
  dropped : Nat := 0
  batchOffUntil : Time := 0
deriving DecidableEq, Repr

variable {α : Type}

namespace Queue

variable (q : Queue α)

/-- The results a `push` puts out of a full queue. -/
def overflow (r : α) : List (Item α) :=
  let items := q.items ++ [⟨q.nextSeq + 1, r⟩]
  items.take (items.length - monitorResultQueueMax)

def push (r : α) : Queue α :=
  let items := q.items ++ [⟨q.nextSeq + 1, r⟩]
  let extra := items.length - monitorResultQueueMax
  { q with items := items.drop extra, nextSeq := q.nextSeq + 1, dropped := q.dropped + extra }

def countDropped (n : Nat) : Queue α := { q with dropped := q.dropped + n }

def head (n : Nat) : List (Item α) := q.items.take n

/-- Remove every result up to and including `seq`. -/
def settle (seq : Nat) : Queue α :=
  { q with items := q.items.dropWhile fun x => decide (x.seq ≤ seq) }

def batchAllowed (now : Time) : Bool := decide (q.batchOffUntil ≤ now)

def disableBatch (now : Time) : Queue α := { q with batchOffUntil := now + monitorBatchReprobe }

/-- The sequence numbers of the queued results. -/
def seqs : List Nat := q.items.map Item.seq

end Queue

/-- The sequence numbers of some results. -/
def seqsOf (batch : List (Item α)) : List Nat := batch.map Item.seq

/-! ### A flush -/

/-- What becomes of a request. A success stores every result of the request except those it lists
as dropped, by index; its answer may still be lost on the way (`unread`), so that `post` returns
an error without a status. -/
inductive Reply where
  | accepted (dropped : List Int)
  | unread (dropped : List Int)
  | status (code : Nat)
  | failed
deriving DecidableEq, Repr

/-- The results of a request that its answer stores. -/
def Reply.stores (batch : List (Item α)) : Reply → List (Item α)
  | .accepted dropped | .unread dropped =>
    (batch.zipIdx.filter fun x => decide ((x.2 : Int) ∉ dropped)).map Prod.fst
  | .status _ | .failed => []

/-- Whether a request was answered with a success. -/
def Reply.success : Reply → Bool
  | .accepted _ | .unread _ => true
  | .status _ | .failed => false

def statusNotFound : Nat := 404
def statusBadRequest : Nat := 400
def statusUnauthorized : Nat := 401
def statusTooManyRequests : Nat := 429

/-- Whether `sendSingles` stops at this status and keeps the result. -/
def retried (code : Nat) : Bool :=
  decide (500 ≤ code) || decide (code = statusUnauthorized) || decide (code = statusTooManyRequests)

/-- Where a flush stands; `i` batches have gone out. -/
inductive Flush (α : Type) where
  | idle
  /-- The top of the loop: `head` next. -/
  | loop (i : Nat)
  /-- A batch is taken: `batchAllowed` next. -/
  | route (i : Nat) (batch : List (Item α))
  /-- The batch is on the wire. -/
  | posting (i : Nat) (batch : List (Item α))
  /-- The batch was refused as a whole: `settle` next, then `countDropped`. -/
  | refused (i : Nat) (batch : List (Item α))
  | refusedCount (i : Nat) (batch : List (Item α))
  /-- The batch was taken: `settle` next, then `countDropped` of what the answer lists. -/
  | accepted (i : Nat) (batch : List (Item α)) (dropped : List Int)
  | acceptedCount (i : Nat) (batch : List (Item α)) (dropped : List Int)
  /-- The batch route is missing: `disableBatch` next. -/
  | missing (i : Nat) (batch : List (Item α))
  /-- The loop of `sendSingles`: the first of the rest is on the wire. -/
  | singles (i : Nat) (rest : List (Item α))
  /-- One result was refused: `countDropped` next, then `settle`. -/
  | singleRefused (i : Nat) (item : Item α) (rest : List (Item α))
  | singleCounted (i : Nat) (item : Item α) (rest : List (Item α))
  /-- One result was taken: `settle` next. -/
  | singleAccepted (i : Nat) (item : Item α) (rest : List (Item α))
deriving DecidableEq, Repr

/-- The sequence number `sendBatch` settles up to. -/
def lastSeq (batch : List (Item α)) : Nat := (batch.getLast?.map Item.seq).getD 0

/-- `sendBatch`, once `post` has returned. Without a status the batch stays queued. -/
def sendBatch (i : Nat) (batch : List (Item α)) : Reply → Flush α
  | .accepted dropped => .accepted i batch dropped
  | .status code =>
    if code = statusBadRequest then .refused i batch
    else if code = statusNotFound then .missing i batch
    else .idle
  | .unread _ | .failed => .idle

/-- `sendSingles`, once `post` has returned for one result. -/
def sendSingle (i : Nat) (item : Item α) (rest : List (Item α)) : Reply → Flush α
  | .accepted _ => .singleAccepted i item rest
  | .status code => if retried code then .idle else .singleRefused i item rest
  | .unread _ | .failed => .idle

/-- A queue, its flush, and what has become of the results: the order in which they were sent,
those in a request answered with a success, those the server stored and those counted as
dropped. -/
structure Ledger (α : Type) where
  queue : Queue α := {}
  flush : Flush α := .idle
  sent : List Nat := []
  answered : Finset Nat := ∅
  stored : Finset Nat := ∅
  counted : Finset Nat := ∅

/-- A result is pushed, a flush is started (it waits where one is in flight), or the flush takes
its next step; the reply and the clock are used where the step reads them. -/
inductive Move (α : Type) where
  | push (r : α)
  | flush
  | next (reply : Reply) (now : Time)
deriving DecidableEq, Repr

namespace Ledger

variable (m : Ledger α)

/-- A request with these results is answered. -/
def answer (batch : List (Item α)) (reply : Reply) : Ledger α :=
  { m with
    sent := m.sent ++ seqsOf batch
    answered := m.answered ∪ (if reply.success then (seqsOf batch).toFinset else ∅)
    stored := m.stored ∪ (seqsOf (reply.stores batch)).toFinset }

/-- Results are counted as dropped. -/
def count (n : Nat) (which : List (Item α)) : Ledger α :=
  { m with
    queue := m.queue.countDropped n
    counted := m.counted ∪ (seqsOf which).toFinset }

/-- The results of a batch that its answer lists as dropped. -/
def listed (batch : List (Item α)) (dropped : List Int) : List (Item α) :=
  (batch.zipIdx.filter fun x => decide ((x.2 : Int) ∈ dropped)).map Prod.fst

/-- The next step of the flush. -/
def next (reply : Reply) (now : Time) : Ledger α :=
  match m.flush with
  | .idle => m
  | .loop i =>
    if i < monitorResultFlushBatches then
      match m.queue.head monitorResultBatchMax with
      | [] => { m with flush := .idle }
      | x :: batch => { m with flush := .route i (x :: batch) }
    else { m with flush := .idle }
  | .route i batch =>
    { m with flush := if m.queue.batchAllowed now then .posting i batch else .singles i batch }
  | .posting i batch => { m.answer batch reply with flush := sendBatch i batch reply }
  | .refused i batch =>
    { m with queue := m.queue.settle (lastSeq batch), flush := .refusedCount i batch }
  | .refusedCount i batch => { m.count batch.length batch with flush := .loop (i + 1) }
  | .accepted i batch dropped =>
    { m with
      queue := m.queue.settle (lastSeq batch)
      flush := if dropped.length = 0 then .loop (i + 1) else .acceptedCount i batch dropped }
  | .acceptedCount i batch dropped =>
    { m.count dropped.length (listed batch dropped) with flush := .loop (i + 1) }
  | .missing i batch => { m with queue := m.queue.disableBatch now, flush := .singles i batch }
  | .singles i [] => { m with flush := .loop (i + 1) }
  | .singles i (x :: rest) => { m.answer [x] reply with flush := sendSingle i x rest reply }
  | .singleRefused i x rest => { m.count 1 [x] with flush := .singleCounted i x rest }
  | .singleCounted i x rest | .singleAccepted i x rest =>
    { m with queue := m.queue.settle x.seq, flush := .singles i rest }

def step : Move α → Ledger α
  | .push r =>
    { m with
      queue := m.queue.push r
      counted := m.counted ∪ (seqsOf (m.queue.overflow r)).toFinset }
  | .flush => { m with flush := if m.flush matches .idle then .loop 0 else m.flush }
  | .next reply now => m.next reply now

end Ledger

end LatticeAgent.Monitor
