import LatticeAgent.Trace.Types
import Mathlib.Data.List.AList

/-! # The line budget

`traceshed.Guard` decides per line whether it may be observed: a hard ceiling before the
parser, then a budget that sheds whole connections, so that a connection is either seen from
its first line or not at all. The marks of shed connections are kept in a ring. -/

namespace LatticeAgent.Trace

/-- A slot of the ring of shed marks. -/
structure ShedSlot where
  id : UInt32 := 0
  seq : UInt64 := 0
deriving DecidableEq, Repr

/-- `traceshed.shedRing`: the shed log ids, each with the sequence number of its slot. -/
structure ShedRing where
  ids : AList (fun _ : UInt32 => UInt64) := ∅
  ring : List ShedSlot := []
  cap : Nat
  pos : Nat := 0
  seq : UInt64 := 0

namespace ShedRing

/-- `shedRing.has`. -/
def has (r : ShedRing) (id : UInt32) : Bool := (r.ids.lookup id).isSome

/-- `shedRing.add`: a slot that is overwritten takes its mark with it, unless the mark was
renewed since. -/
def add (r : ShedRing) (id : UInt32) : ShedRing :=
  let seq := r.seq + 1
  let slot : ShedSlot := ⟨id, seq⟩
  if r.ring.length < r.cap then
    { r with ring := r.ring ++ [slot], seq := seq, ids := r.ids.insert id seq }
  else
    let old := r.ring.getD r.pos {}
    let ids := if (r.ids.lookup old.id).getD 0 = old.seq then r.ids.erase old.id else r.ids
    { r with
      ring := r.ring.set r.pos slot
      pos := (r.pos + 1) % r.cap
      seq := seq
      ids := ids.insert id seq }

/-- `shedRing.remove`. -/
def remove (r : ShedRing) (id : UInt32) : ShedRing := { r with ids := r.ids.erase id }

/-- `shedRing.reset`. -/
def reset (r : ShedRing) : ShedRing := { r with ids := ∅, ring := [], pos := 0 }

end ShedRing

/-- `traceshed.HardCeilingFactor`. -/
def hardCeilingFactor : Int := 4

/-- `traceshed.DefaultRingCapacity`. -/
def defaultRingCapacity : Int := 65536

/-- `traceshed.Guard`. -/
structure Guard where
  budget : Int
  windowStart : Time := 0
  entries : Int := 0
  parsed : Int := 0
  shed : ShedRing
  shedN : UInt64 := 0
  droppedN : UInt64 := 0

namespace Guard

/-- `Guard.SetBudget`. -/
def setBudget (g : Guard) (n : Int) : Guard := { g with budget := if n < 1 then 1 else n }

/-- `traceshed.New`. -/
def new (budget ringCapacity : Int) : Guard :=
  let capacity := if ringCapacity < 1 then defaultRingCapacity else ringCapacity
  setBudget { budget := 0, shed := { cap := capacity.toNat } } budget

/-- `Guard.roll`: a new one-second window starts. -/
def roll (g : Guard) (now : Time) : Guard :=
  if g.windowStart.isZero || second ≤ now.sub g.windowStart || now < g.windowStart then
    { g with windowStart := now, entries := 0, parsed := 0 }
  else g

/-- `Guard.Ceiling`. -/
def ceiling (g : Guard) (now : Time) : Bool × Guard :=
  let g := g.roll now
  let g := { g with entries := g.entries + 1 }
  if g.entries > int64 (g.budget * hardCeilingFactor) then
    (false, { g with droppedN := g.droppedN + 1 })
  else (true, g)

/-- The shed mark of a line's connection: only an accept line lifts it. The flag says
whether the line may go on. -/
def unshed (g : Guard) (l : Line) : Bool × Guard :=
  if g.shed.has l.logID then
    if l.event != .inboundFrom then (false, g)
    else (true, { g with shed := g.shed.remove l.logID })
  else (true, g)

/-- `Guard.Admit`. -/
def admitLine (g : Guard) (now : Time) (l : Line) (tracked : Bool) : Bool × Guard :=
  let g := g.roll now
  let g := { g with parsed := g.parsed + 1 }
  let overBudget := decide (g.parsed > g.budget)
  if !l.hasLogID then
    if overBudget then (false, { g with droppedN := g.droppedN + 1 }) else (true, g)
  else
    match g.unshed l with
    | (false, g) => (false, g)
    | (true, g) =>
      if tracked then (true, g)
      else if overBudget then
        (false, { g with shed := g.shed.add l.logID, shedN := g.shedN + 1 })
      else (true, g)

/-- `Guard.Reset`. -/
def reset (g : Guard) : Guard := { g with shed := g.shed.reset }

/-- `Guard.Take`: the shed connections and the dropped lines since the last call. -/
def take (g : Guard) : (UInt64 × UInt64) × Guard :=
  ((g.shedN, g.droppedN), { g with shedN := 0, droppedN := 0 })

end Guard

end LatticeAgent.Trace
