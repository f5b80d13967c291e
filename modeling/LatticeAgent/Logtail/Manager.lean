import LatticeAgent.Lib.Decimal
import LatticeAgent.Lib.Text
import LatticeAgent.Logtail.Tailer

/-! # Shipping the lines of a log source

`Tailing` is the loop of one source, `logTailManager.run`, together with what outlives it: the
file it follows, its checkpoint and the batches the server accepted. A restart of the agent keeps
those and nothing else.

The loop does not look into a line. Each line here carries the place it was read from (`Entry`),
and beside the counter `dropped` stand the lines it counts; neither changes what the loop does. -/

namespace LatticeAgent.Logtail

open Framing (cut Frame)

structure LogSource where
  id : String
  path : String
  maxLineBytes : Int
  maxBatchLines : Int
deriving DecidableEq, Repr

def logTailMaxPending : Nat := 50000

def LogSource.batchLines (src : LogSource) : Nat :=
  if src.maxBatchLines ≤ 0 then 500 else src.maxBatchLines.toNat

/-! ### The checkpoint -/

section Checkpoint

-- `sha256.Sum256`
variable (sha256 : String → Bytes)

/-- `hex.EncodeToString`. -/
def hexEncode (b : Bytes) : List Char :=
  b.flatMap fun x => [Nat.digitChar (x.toNat / 16), Nat.digitChar (x.toNat % 16)]

def checkpointBinding (sourcePath : String) : List Char := hexEncode ((sha256 sourcePath).take 8)

def checkpointString (offset : Nat) (incarnation : Int) : List Char :=
  Nat.toDigits 10 offset ++ ':' :: Decimal.itoa incarnation

/-- `fmt.Sscanf` of `%d:%d` into an unsigned and a signed word; what follows is not read. -/
def parseCheckpoint (s : List Char) : Option (Nat × Int) :=
  match Decimal.scanNat s with
  | some (offset, ':' :: s) =>
    if 2 ^ 64 ≤ offset then none
    else
      match Decimal.scanInt s with
      | some (incarnation, _) =>
        if incarnation < -2 ^ 63 ∨ 2 ^ 63 ≤ incarnation then none
        else some (offset, incarnation)
      | none => none
  | _ => none

/-- The text of a checkpoint file. -/
def checkpointText (sourcePath : String) (offset : Nat) (incarnation : Int) : List Char :=
  checkpointString offset incarnation ++ ':' :: checkpointBinding sha256 sourcePath

/-- The checkpoint in a file, if it is one of the same source path. -/
def loadLogCheckpoint (file : Option (List Char)) (sourcePath : String) : Option (Nat × Int) := do
  let text ← file
  match (Text.trim isSpace text).splitOn ':' with
  | [offset, incarnation, binding] =>
    if binding = checkpointBinding sha256 sourcePath then
      parseCheckpoint (offset ++ ':' :: incarnation)
    else none
  | _ => none

def newSourceTailer (src : LogSource) (checkpoint : Option (List Char)) : Tailer :=
  match loadLogCheckpoint sha256 checkpoint src.path with
  | some (offset, incarnation) => (Tailer.new src.maxLineBytes).resume offset incarnation
  | none => Tailer.new src.maxLineBytes

end Checkpoint

/-! ### The loop -/

/-- A line, and the bytes of the file it was made of. -/
structure Entry where
  start : Nat
  size : Nat
  line : Bytes
deriving DecidableEq, Repr

def Entry.Covers (e : Entry) (x : Nat) : Prop := e.start ≤ x ∧ x < e.start + e.size

instance (e : Entry) (x : Nat) : Decidable (e.Covers x) := inferInstanceAs (Decidable (_ ∧ _))

/-- The lines of a poll, which read the file from one offset to another. -/
def entriesOf (limit : Nat) (content : Bytes) (start stop : Nat) (lines : List Bytes) : List Entry :=
  List.zipWith (fun p line => ⟨p.1, p.2.size, line⟩)
    (Framing.locate start (cut newline limit ((content.drop start).take (stop - start))).1) lines

structure LogBatch where
  sourceID : String
  path : String
  rotID : List Char
  lastOff : Nat
  dropped : Nat
  lines : List Entry
  /-- The lines that `dropped` counts, which are not sent. -/
  counted : List Entry
deriving DecidableEq, Repr

/-- Where the loop is: it waits for its tick, is about to ship, or about to write its
checkpoint. -/
inductive Stage where
  | idle
  | shipping
  | saving
deriving DecidableEq, Repr

structure Tailing where
  src : LogSource
  content : Bytes
  checkpoint : Option (List Char)
  accepted : List LogBatch := []
  /-- The size of the file that the first successful poll saw. -/
  base : Option Nat := none
  tailer : Tailer
  pending : List Entry := []
  dropped : Nat := 0
  /-- The lines that `dropped` counts. -/
  owed : List Entry := []
  stage : Stage := .idle
deriving DecidableEq, Repr

inductive Happens where
  | append (bytes : Bytes)
  /-- The tick: a poll, and what it read goes to the pending lines. -/
  | tick (faults : Faults) (late : Bytes)
  /-- One batch is shipped, and accepted or not. -/
  | ship (accepted : Bool)
  | save
  /-- The agent stops, here, and starts again. -/
  | restart
deriving DecidableEq, Repr

namespace Tailing

variable (sha256 : String → Bytes)

/-- A source whose loop has just begun. -/
def begin (src : LogSource) (content : Bytes) (checkpoint : Option (List Char)) : Tailing where
  src := src
  content := content
  checkpoint := checkpoint
  tailer := newSourceTailer sha256 src checkpoint

/-- The offset from which the tailer reads; without one it will begin at the end of the file. -/
def readsFrom (w : Tailing) : Nat := if w.tailer.started then w.tailer.offset else w.content.length

/-- New lines at the end of the pending ones, the oldest over the limit dropped. -/
def buffer (limit : Nat) (w : Tailing) (entries : List Entry) : Tailing :=
  let all := w.pending ++ entries
  let excess := all.length - limit
  { w with
    pending := all.drop excess
    dropped := w.dropped + excess
    owed := w.owed ++ all.take excess }

def tickUpTo (limit : Nat) (w : Tailing) (faults : Faults) (late : Bytes) : Tailing :=
  match w.tailer.poll (faults.probe w.content late) with
  | (t, .error _) => { w with tailer := t, content := w.content ++ late }
  | (t, .ok lines) =>
    let w' := w.buffer limit (entriesOf t.maxReadBytes w.content w.readsFrom t.offset lines)
    { w' with
      tailer := t
      content := w.content ++ late
      base := w.base.or (some w.content.length)
      stage := if w'.pending = [] then .idle else .shipping }

def tick (w : Tailing) (faults : Faults) (late : Bytes) : Tailing :=
  w.tickUpTo logTailMaxPending faults late

/-- The batch that is shipped next. -/
def batch (w : Tailing) : LogBatch where
  sourceID := w.src.id
  path := w.src.path
  rotID := Decimal.itoa w.tailer.incarnation
  lastOff := w.tailer.offset
  dropped := w.dropped
  lines := w.pending.take w.src.batchLines
  counted := w.owed

def ship (w : Tailing) (accepted : Bool) : Tailing :=
  if accepted then
    let rest := w.pending.drop w.src.batchLines
    { w with
      accepted := w.accepted ++ [w.batch]
      dropped := 0, owed := []
      pending := rest
      stage := if rest = [] then .saving else .shipping }
  else { w with stage := .idle }

/-- `saveLogCheckpoint`, whose rename is atomic. -/
def save (w : Tailing) : Tailing :=
  { w with
    checkpoint := some (checkpointText sha256 w.src.path w.tailer.offset w.tailer.incarnation)
    stage := .idle }

def restart (w : Tailing) : Tailing :=
  { w with
    tailer := newSourceTailer sha256 w.src w.checkpoint
    pending := [], dropped := 0, owed := [], stage := .idle }

def step (w : Tailing) : Happens → Tailing
  | .append bytes => { w with content := w.content ++ bytes }
  | .tick faults late => if w.stage = .idle then w.tick faults late else w
  | .ship accepted => if w.stage = .shipping then w.ship accepted else w
  | .save => if w.stage = .saving then w.save sha256 else w
  | .restart => w.restart sha256

def run (w : Tailing) (moves : List Happens) : Tailing := Runs.run (step sha256) w moves

/-- The lines that accepted batches carry or count. -/
def reported (w : Tailing) : List Entry := w.accepted.flatMap fun b => b.lines ++ b.counted

/-- Those, and what the loop still has to ship or to count. -/
def accounted (w : Tailing) : List Entry := w.reported ++ w.owed ++ w.pending

end Tailing
end LatticeAgent.Logtail
