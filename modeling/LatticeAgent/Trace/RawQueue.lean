import LatticeAgent.Lib.Threads
import LatticeAgent.Trace.Collector

/-! # The raw lines

Every line the node floor keeps goes to the raw queue of the collector, up to its bound, and
`flushRaw` ships the queue: one locked section reads it, the post runs unlocked, and a second
section trims what was shipped. The queue outlives a pipeline, so the flush of a stopped
pipeline may still be on the wire when the next one flushes.

`raw_lines_accounted_iff` is about one flushing goroutine, `raw_flushes_safe` about any number
of flushes that overlap. Without an interleaving the sections are the collector's `flushRaw`
(`flush_alone`). -/

namespace LatticeAgent.Trace

/-- `model.LogBatch`. -/
structure LogBatch where
  sourceID : String
  path : String
  lines : List String
  dropped : UInt64
  capturedAt : Time
deriving DecidableEq, Repr

def singBoxRawPathFor (nodeID : String) : String := "singbox://" ++ nodeID

namespace Collector

variable (c : Collector)

/-- The first section of `flushRaw`; none if there is nothing to ship. -/
def takeRaw (now : Time) : Option LogBatch :=
  if c.rawSourceID = "" ∨ c.rawQueue = [] then none
  else
    some
      { sourceID := c.rawSourceID
        path := singBoxRawPathFor c.nodeID
        lines := c.rawQueue
        dropped := c.rawDropped
        capturedAt := now }

/-- The second section, after the server took the batch; none if the slice is out of range. -/
def trimRaw (batch : LogBatch) (epoch : UInt64) : Option Collector :=
  if c.rawEpoch ≠ epoch then some c
  else if c.rawQueue.length < batch.lines.length then none
  else some { c with rawQueue := c.rawQueue.drop batch.lines.length, rawDropped := 0 }

/-- A kept line finds room in the raw queue. -/
def enqueues (keep : Bool) : Bool :=
  keep && c.rawSourceID != "" && decide (c.rawQueue.length < traceRawQueueMax)

/-- A kept line finds the raw queue full. -/
def refuses (keep : Bool) : Bool :=
  keep && c.rawSourceID != "" && !decide (c.rawQueue.length < traceRawQueueMax)

/-- Turning the source off discards something. -/
def discards (id : String) : Bool := decide (id = "" ∧ (c.rawQueue ≠ [] ∨ 0 < c.rawDropped))

theorem flush_alone (now : Time) (taken : Bool) :
    (match c.takeRaw now with
      | none => some c
      | some batch => if taken then c.trimRaw batch c.rawEpoch else some c) =
      some (c.flushRaw taken) := by
  unfold takeRaw flushRaw trimRaw
  by_cases h : c.rawSourceID = "" ∨ c.rawQueue = []
  · have hshipped : ¬ (c.rawSourceID ≠ "" ∧ c.rawQueue ≠ [] ∧ taken = true) := by tauto
    simp only [h, if_true, if_neg hshipped]
  · have hshipped : (c.rawSourceID ≠ "" ∧ c.rawQueue ≠ [] ∧ taken = true) ↔ taken = true := by
      tauto
    cases taken with
    | false => simp [h]
    | true => simp [not_or.mp h]

end Collector

namespace RawQueue

open Threads

/-! ### The calls and their sections -/

/-- A line that entered the queue, with the number of those before it. -/
abbrev Arrival : Type := Nat × String

/-- A batch, and the lines it is made of. -/
structure Sent where
  batch : LogBatch
  own : List Arrival

/-- What the calls share. -/
structure Shared where
  c : Collector
  /-- All lines that ever entered the queue. -/
  arrived : List Arrival := []
  /-- The lines in the queue. -/
  queue : List Arrival := []
  /-- How many lines found the queue full. -/
  refused : Nat := 0
  /-- The batches the server took. -/
  accepted : List Sent := []
  /-- The lines a flush trimmed. -/
  removed : List Arrival := []
  /-- How often lines were taken out of the queue. -/
  cuts : Nat := 0
  panicked : Bool := false

/-- Where a call stands: the section it takes next. -/
inductive Call where
  /-- `onEntry` with a line. -/
  | line (keep : Bool) (l : Line)
  /-- `setRawSourceLocked`. -/
  | switch (id : String)
  /-- `flushRaw`. -/
  | flush (now : Time)
  /-- Its batch is on the wire, since `cuts` had this value. -/
  | onWire (sent : Sent) (epoch : UInt64) (cuts : Nat)
  | done

/-- The calls that can be made. -/
inductive Entry where
  | line (keep : Bool) (l : Line)
  | switch (id : String)
  | flush (now : Time)

/-- Where a new call stands. -/
def Entry.call : Entry → Call
  | .line keep l => .line keep l
  | .switch id => .switch id
  | .flush now => .flush now

namespace Shared

variable (s : Shared)

def line (keep : Bool) (l : Line) : Shared :=
  let new := if s.c.enqueues keep then [(s.arrived.length, l.raw)] else []
  { s with
    c := s.c.queueRaw keep l
    arrived := s.arrived ++ new
    queue := s.queue ++ new
    refused := if s.c.refuses keep then s.refused + 1 else s.refused }

def switch (id : String) : Shared :=
  { s with
    c := s.c.setRawSource id
    queue := if s.c.discards id then [] else s.queue
    cuts := if s.c.discards id then s.cuts + 1 else s.cuts }

/-- The server took a batch that left in this epoch. -/
def complete (sent : Sent) (epoch : UInt64) : Shared :=
  let s := { s with accepted := s.accepted ++ [sent] }
  match s.c.trimRaw sent.batch epoch with
  | none => { s with panicked := true }
  | some c =>
    if s.c.rawEpoch = epoch then
      { s with
        c := c
        queue := s.queue.drop sent.batch.lines.length
        removed := s.removed ++ s.queue.take sent.batch.lines.length
        cuts := s.cuts + 1 }
    else { s with c := c }

end Shared

/-- The next locked section of a call; the answer says whether the server took the batch. -/
def turn : Call → Bool → Shared → Shared × Call
  | .line keep l, _, s => (s.line keep l, .done)
  | .switch id, _, s => (s.switch id, .done)
  | .flush now, _, s =>
    match s.c.takeRaw now with
    | none => (s, .done)
    | some batch => (s, .onWire ⟨batch, s.queue⟩ s.c.rawEpoch s.cuts)
  | .onWire sent epoch _, true, s => (s.complete sent epoch, .done)
  | .onWire _ _ _, false, s => (s, .done)
  | .done, _, s => (s, .done)

/-- The calls as a program. -/
def raw : Program Shared Entry Call Bool where
  enter := Entry.call
  turn := turn

/-- A collector with nothing in its raw queue and no call under way. -/
def fresh (c : Collector) : Pool Shared Call where
  shared := { c := { c with rawQueue := [], rawDropped := 0 } }

/-! ### What the sections do to the queue -/

variable (c : Collector)

theorem queueRaw_rawQueue (keep : Bool) (l : Line) :
    (c.queueRaw keep l).rawQueue = c.rawQueue ++ if c.enqueues keep then [l.raw] else [] := by
  unfold Collector.queueRaw Collector.enqueues
  dsimp only
  split <;> simp

theorem queueRaw_rawDropped (keep : Bool) (l : Line) :
    (c.queueRaw keep l).rawDropped = if c.refuses keep then c.rawDropped + 1 else c.rawDropped :=
  rfl

theorem setRawSource_rawQueue (id : String) :
    (c.setRawSource id).rawQueue = if c.discards id then [] else c.rawQueue := by
  simp [Collector.setRawSource, Collector.discards]

/-- The lines of the queue are those of the collector's. -/
def Named (s : Shared) : Prop := s.c.rawQueue = s.queue.map (·.2)

namespace Named

variable {s : Shared}

theorem line (h : Named s) (keep : Bool) (l : Line) : Named (s.line keep l) := by
  change (s.c.queueRaw keep l).rawQueue = _
  rw [queueRaw_rawQueue, h]
  simp only [Shared.line]
  split <;> simp

theorem switch (h : Named s) (id : String) : Named (s.switch id) := by
  change (s.c.setRawSource id).rawQueue = _
  rw [setRawSource_rawQueue, h]
  simp only [Shared.switch]
  split <;> simp

theorem length_eq (h : Named s) : s.c.rawQueue.length = s.queue.length := by
  rw [h, List.length_map]

end Named

/-- Nothing was taken out of the queue, or it was counted. -/
structure Later (s s' : Shared) : Prop where
  cuts : s.cuts ≤ s'.cuts
  queue : s'.cuts = s.cuts → s.queue <+: s'.queue

theorem Later.refl (s : Shared) : Later s s := ⟨Nat.le_refl _, fun _ => List.prefix_refl _⟩

theorem line_later (s : Shared) (keep : Bool) (l : Line) : Later s (s.line keep l) :=
  ⟨Nat.le_refl _, fun _ => List.prefix_append _ _⟩

theorem switch_later (s : Shared) (id : String) : Later s (s.switch id) := by
  unfold Shared.switch
  cases s.c.discards id with
  | false => exact ⟨Nat.le_refl _, fun _ => List.prefix_refl _⟩
  | true => exact ⟨Nat.le_succ _, fun h => absurd h (Nat.succ_ne_self _)⟩

/-- A batch on the wire is made of its own lines, which are at the head of the queue as long as
nothing was taken out of it. -/
def Holds (s : Shared) : Call → Prop
  | .onWire sent _ cuts =>
    sent.batch.lines = sent.own.map (·.2) ∧ cuts ≤ s.cuts ∧ (cuts = s.cuts → sent.own <+: s.queue)
  | _ => True

theorem Holds.later {s s' : Shared} (h : Later s s') {k : Call} (hk : Holds s k) : Holds s' k := by
  cases k with
  | onWire sent epoch cuts =>
    obtain ⟨hlines, hle, hfront⟩ := hk
    refine ⟨hlines, hle.trans h.cuts, fun heq => ?_⟩
    have hcuts := h.cuts
    have hsame : cuts = s.cuts := by omega
    exact (hfront hsame).trans (h.queue (by omega))
  | _ => trivial

variable {epoch : UInt64} {n : Nat} {sent : Sent} {s : Shared}

/-- A batch that completes in its epoch, with as many lines queued, trims as many. -/
theorem complete_trims (hepoch : s.c.rawEpoch = epoch)
    (hroom : sent.batch.lines.length ≤ s.c.rawQueue.length) :
    s.complete sent epoch =
      { s with
        accepted := s.accepted ++ [sent]
        c :=
          { s.c with
            rawQueue := s.c.rawQueue.drop sent.batch.lines.length
            rawDropped := 0 }
        queue := s.queue.drop sent.batch.lines.length
        removed := s.removed ++ s.queue.take sent.batch.lines.length
        cuts := s.cuts + 1 } := by
  simp only [Shared.complete, Collector.trimRaw, hepoch, ne_eq, not_true_eq_false, if_false,
    if_neg (Nat.not_lt.mpr hroom), if_true]

theorem complete_head (hn : Named s) (hlines : sent.batch.lines = sent.own.map (·.2))
    (hepoch : s.c.rawEpoch = epoch) (hfront : sent.own <+: s.queue) :
    s.complete sent epoch =
      { s with
        accepted := s.accepted ++ [sent]
        c :=
          { s.c with
            rawQueue := s.c.rawQueue.drop sent.own.length
            rawDropped := 0 }
        queue := s.queue.drop sent.own.length
        removed := s.removed ++ sent.own
        cuts := s.cuts + 1 } := by
  have hlen : sent.batch.lines.length = sent.own.length := by rw [hlines, List.length_map]
  have hroom : sent.batch.lines.length ≤ s.c.rawQueue.length := by
    rw [hn.length_eq, hlen]
    exact hfront.length_le
  have htake : s.queue.take sent.own.length = sent.own :=
    (List.prefix_iff_eq_take.mp hfront).symm
  rw [complete_trims hepoch hroom, hlen, htake]

theorem complete_stale (hepoch : s.c.rawEpoch ≠ epoch) :
    s.complete sent epoch = { s with accepted := s.accepted ++ [sent] } := by
  simp only [Shared.complete, Collector.trimRaw, ne_eq, hepoch, not_false_eq_true, if_true, if_false]

theorem complete_later (sent : Sent) (epoch : UInt64) : Later s (s.complete sent epoch) := by
  unfold Shared.complete
  dsimp only
  split
  · exact ⟨Nat.le_refl _, fun _ => List.prefix_refl _⟩
  · split
    · exact ⟨Nat.le_succ _, fun h => absurd h (Nat.succ_ne_self _)⟩
    · exact ⟨Nat.le_refl _, fun _ => List.prefix_refl _⟩

/-! ### Overlapping flushes -/

/-- No slice was out of range, and whatever was trimmed had been in a batch the server took. -/
structure Safe (s : Shared) : Prop where
  inRange : s.panicked = false
  shipped : ∀ a ∈ s.removed, ∃ sent ∈ s.accepted, a ∈ sent.own
  carried : ∀ sent ∈ s.accepted, sent.batch.lines = sent.own.map (·.2)

/-- When the server takes a batch and the epoch has not changed, nothing has been taken out of
the queue since the batch was read. -/
def undisturbed (p : Pool Shared Call) : Move Entry Bool → Bool
  | .turn i true =>
    match p.calls[i]? with
    | some (.onWire _ epoch cuts) => p.shared.c.rawEpoch != epoch || cuts == p.shared.cuts
    | _ => true
  | _ => true

/-- What holds in every state of such a schedule. -/
structure Inv (p : Pool Shared Call) : Prop extends Safe p.shared where
  named : Named p.shared
  calls : ∀ k ∈ p.calls, Holds p.shared k

variable {p : Pool Shared Call}

theorem Inv.enter (h : Inv p) (e : Entry) : Inv (raw.entered p e) := by
  refine ⟨h.toSafe, h.named, fun k hk => ?_⟩
  obtain hk | hk := List.mem_append.mp hk
  · exact h.calls k hk
  · rw [List.mem_singleton.mp hk]
    cases e <;> trivial

theorem Safe.complete (h : Safe s) (hn : Named s) {cuts : Nat}
    (hk : Holds s (.onWire sent epoch cuts)) (hok : s.c.rawEpoch = epoch → cuts = s.cuts) :
    Safe (s.complete sent epoch) ∧ Named (s.complete sent epoch) := by
  obtain ⟨hlines, -, hfront⟩ := hk
  have hcarried : ∀ b ∈ s.accepted ++ [sent], b.batch.lines = b.own.map (·.2) :=
    List.forall_mem_append.mpr ⟨h.carried, List.forall_mem_singleton.mpr hlines⟩
  by_cases hepoch : s.c.rawEpoch = epoch
  · rw [complete_head hn hlines hepoch (hfront (hok hepoch))]
    refine ⟨⟨h.inRange, fun a ha => ?_, hcarried⟩, ?_⟩
    · obtain ha | ha := List.mem_append.mp ha
      · obtain ⟨b, hb, hab⟩ := h.shipped a ha
        exact ⟨b, List.mem_append_left _ hb, hab⟩
      · exact ⟨sent, List.mem_append_right _ (List.mem_singleton_self _), ha⟩
    · change s.c.rawQueue.drop _ = (s.queue.drop _).map _
      rw [List.map_drop, hn]
  · rw [complete_stale hepoch]
    refine ⟨⟨h.inRange, fun a ha => ?_, hcarried⟩, hn⟩
    obtain ⟨b, hb, hab⟩ := h.shipped a ha
    exact ⟨b, List.mem_append_left _ hb, hab⟩

theorem Inv.turn (h : Inv p) {i : Nat} {k : Call} {answer : Bool} (hi : p.calls[i]? = some k)
    (hok : undisturbed p (.turn i answer)) : Inv (raw.turned p i k answer) := by
  have hk : Holds p.shared k := h.calls k (List.mem_of_getElem? hi)
  have hcalls {s' : Shared} {k' : Call} (hlater : Later p.shared s') (hk' : Holds s' k') :
      ∀ k ∈ p.calls.set i k', Holds s' k :=
    forall_mem_set (fun k hk => (h.calls k hk).later hlater) hk'
  cases k with
  | line keep l =>
    exact ⟨⟨h.inRange, h.shipped, h.carried⟩, h.named.line keep l,
      hcalls (line_later _ keep l) trivial⟩
  | switch id =>
    exact ⟨⟨h.inRange, h.shipped, h.carried⟩, h.named.switch id, hcalls (switch_later _ id) trivial⟩
  | flush now =>
    unfold Program.turned raw RawQueue.turn
    dsimp only
    cases htake : p.shared.c.takeRaw now with
    | none => exact ⟨h.toSafe, h.named, hcalls (Later.refl _) trivial⟩
    | some batch =>
      refine ⟨h.toSafe, h.named, hcalls (Later.refl _) ⟨?_, Nat.le_refl _, fun _ =>
        List.prefix_refl _⟩⟩
      have hlines : batch.lines = p.shared.c.rawQueue := by
        unfold Collector.takeRaw at htake
        split at htake
        · cases htake
        · rw [← Option.some.inj htake]
      rw [hlines]
      exact h.named
  | onWire sent epoch cuts =>
    cases answer with
    | false => exact ⟨h.toSafe, h.named, hcalls (Later.refl _) trivial⟩
    | true =>
      have hcuts : p.shared.c.rawEpoch = epoch → cuts = p.shared.cuts := by
        simp only [undisturbed, hi, Bool.or_eq_true, bne_iff_ne, beq_iff_eq] at hok
        tauto
      obtain ⟨hsafe, hnamed⟩ := h.toSafe.complete h.named hk hcuts
      exact ⟨hsafe, hnamed, hcalls (complete_later sent epoch) trivial⟩
  | done => exact ⟨h.toSafe, h.named, hcalls (Later.refl _) trivial⟩

theorem inv_fresh : Inv (fresh c) where
  inRange := rfl
  shipped := List.forall_mem_nil _
  carried := List.forall_mem_nil _
  named := rfl
  calls := List.forall_mem_nil _

/-- **Overlapping raw flushes are safe** while none of them is overtaken by another: any number
of flushes, lines that arrive and switches of the source in between. -/
theorem raw_flushes_safe (c : Collector) (moves : List (Move Entry Bool))
    (hok : raw.Along undisturbed (fresh c) moves) : Safe (raw.run (fresh c) moves).shared :=
  (Program.run_invariant Inv (fun _ e h _ => h.enter e) (fun _ _ _ _ h hi hok => h.turn hi hok)
    (inv_fresh c) hok).toSafe

/-- A collector that feeds a raw source. -/
def feeding : Collector := { newTraceCollector "n1" 0 with rawSourceID := "src" }

/-- A line comes, and two pipelines flush it; then the server takes the first batch, and the
source is switched off while the second is on the wire. -/
def switchedOff : List (Move Entry Bool) :=
  [.enter (.line true { raw := "a" }), .turn 0 true, .enter (.flush 1), .turn 1 true,
    .enter (.flush 2), .turn 2 true, .enter (.line true { raw := "b" }), .turn 3 true, .turn 1 true,
    .enter (.switch ""), .turn 4 true, .turn 2 true]

theorem raw_flushes_safe_sample : raw.Along undisturbed (fresh feeding) switchedOff ∧
    Safe (raw.run (fresh feeding) switchedOff).shared := by
  have hok : raw.Along undisturbed (fresh feeding) switchedOff := by decide +kernel
  exact ⟨hok, raw_flushes_safe feeding switchedOff hok⟩

/-- Two flushes have read the same line when another one comes. -/
def twoFlushes : List (Move Entry Bool) :=
  [.enter (.line true { raw := "a" }), .turn 0 true, .enter (.flush 1), .turn 1 true,
    .enter (.flush 2), .turn 2 true]

/-- Both batches are taken: the second flush trims a line it never shipped, or runs out of the
queue. -/
theorem overlapping_flush_trims_unshipped :
    let s := (raw.run (fresh feeding) (twoFlushes ++ [.enter (.line true { raw := "b" }),
      .turn 3 true, .turn 1 true, .turn 2 true])).shared
    let s' := (raw.run (fresh feeding) (twoFlushes ++ [.turn 1 true, .turn 2 true])).shared
    ((1, "b") ∈ s.removed ∧ ∀ sent ∈ s.accepted, (1, "b") ∉ sent.own) ∧ s'.panicked = true := by
  decide +kernel

/-! ### One flushing goroutine -/

/-- The batch of the call is on the wire. -/
def Call.posting : Call → Bool
  | .onWire _ _ _ => true
  | _ => false

/-- A flush begins only when the one before it has come to its end, and the raw source stays what
it is. -/
def oneFlusher (p : Pool Shared Call) : Move Entry Bool → Bool
  | .turn i _ =>
    match p.calls[i]? with
    | some (.flush _) => p.calls.countP Call.posting == 0
    | some (.switch id) => id == p.shared.c.rawSourceID
    | _ => true
  | .enter _ => true

/-- Every line that entered the queue was shipped once and in order or is queued, and every line
that was refused was reported once or is counted. -/
structure Exact (s : Shared) : Prop where
  lines : s.arrived.map (·.2) = s.accepted.flatMap (·.batch.lines) ++ s.c.rawQueue
  counts : s.refused = (s.accepted.map (·.batch.dropped.toNat)).sum + s.c.rawDropped.toNat

/-- What one flushing goroutine keeps. -/
structure One (p : Pool Shared Call) : Prop extends Inv p where
  single : p.calls.countP Call.posting ≤ 1
  current : ∀ sent epoch cuts, .onWire sent epoch cuts ∈ p.calls →
    p.shared.c.rawEpoch = epoch ∧ cuts = p.shared.cuts
  once : p.shared.arrived = p.shared.accepted.flatMap (·.own) ++ p.shared.queue
  /-- Nothing is queued or refused for a source that is off. -/
  off : p.shared.c.rawSourceID = "" → p.shared.c.rawQueue = [] ∧ p.shared.c.rawDropped = 0

namespace One

variable {p : Pool Shared Call}

theorem fresh : One (fresh c) where
  toInv := inv_fresh c
  single := Nat.zero_le _
  current := fun _ _ _ h => absurd h List.not_mem_nil
  once := rfl
  off := fun _ => ⟨rfl, rfl⟩

theorem lines (h : One p) : p.shared.arrived.map (·.2) =
    p.shared.accepted.flatMap (·.batch.lines) ++ p.shared.c.rawQueue := by
  have hshipped : p.shared.accepted.flatMap (·.batch.lines) =
      (p.shared.accepted.flatMap (·.own)).map (·.2) := by
    rw [List.map_flatMap]
    exact List.flatMap_congr h.carried
  rw [h.once, List.map_append, hshipped, h.named]

theorem switch_same (h : One p) : p.shared.switch p.shared.c.rawSourceID = p.shared := by
  have hkeep : p.shared.c.discards p.shared.c.rawSourceID = false := by
    by_cases hoff : p.shared.c.rawSourceID = ""
    · simp [Collector.discards, h.off hoff]
    · simp [Collector.discards, hoff]
  have hsame : p.shared.c.setRawSource p.shared.c.rawSourceID = p.shared.c := by
    have hnot := of_decide_eq_false hkeep
    simp only [Collector.setRawSource, if_neg hnot]
  simp only [Shared.switch, hsame, hkeep, Bool.false_eq_true, if_false]

theorem head (h : One p) {cuts : Nat} (hk : .onWire sent epoch cuts ∈ p.calls) :
    sent.batch.lines = sent.own.map (·.2) ∧ p.shared.c.rawEpoch = epoch ∧
      sent.own <+: p.shared.queue := by
  obtain ⟨hlines, -, hfront⟩ := h.calls _ hk
  obtain ⟨hepoch, hcuts⟩ := h.current _ _ _ hk
  exact ⟨hlines, hepoch, hfront hcuts⟩

theorem undisturbed (h : One p) (m : Move Entry Bool) : RawQueue.undisturbed p m := by
  unfold RawQueue.undisturbed
  split
  · split
    · rename_i hi
      obtain ⟨-, hcuts⟩ := h.current _ _ _ (List.mem_of_getElem? hi)
      simp [hcuts]
    · rfl
  · rfl

theorem posting_set {i : Nat} {k : Call} (hi : p.calls[i]? = some k) (k' : Call) :
    (p.calls.set i k').countP Call.posting =
      p.calls.countP Call.posting - (if k.posting then 1 else 0) + if k'.posting then 1 else 0 := by
  obtain ⟨hlt, rfl⟩ := List.getElem?_eq_some_iff.mp hi
  exact List.countP_set hlt

theorem quiet (h : One p) {i : Nat} {k k' : Call} (hi : p.calls[i]? = some k) {s' : Shared}
    (hinv : Inv ⟨s', p.calls.set i k'⟩) (hk' : k'.posting = false)
    (hepoch : s'.c.rawEpoch = p.shared.c.rawEpoch) (hcuts : s'.cuts = p.shared.cuts)
    (honce : s'.arrived = s'.accepted.flatMap (·.own) ++ s'.queue)
    (hoff : s'.c.rawSourceID = "" → s'.c.rawQueue = [] ∧ s'.c.rawDropped = 0) :
    One ⟨s', p.calls.set i k'⟩ := by
  refine ⟨hinv, ?_, fun sent epoch cuts hmem => ?_, honce, hoff⟩
  · have hsingle := h.single
    change (p.calls.set i k').countP Call.posting ≤ 1
    rw [posting_set hi, hk', if_neg Bool.false_ne_true]
    omega
  · obtain hmem | rfl := List.mem_or_eq_of_mem_set hmem
    · obtain ⟨hepoch', hcuts'⟩ := h.current _ _ _ hmem
      exact ⟨hepoch.trans hepoch', hcuts'.trans hcuts.symm⟩
    · cases hk'

theorem queueRaw_off {c : Collector} (hoff : c.rawSourceID = "") (keep : Bool) (l : Line) :
    c.queueRaw keep l = c := by
  have hunwanted : (keep && c.rawSourceID != "") = false := by simp [hoff]
  simp only [Collector.queueRaw, hunwanted, Bool.false_and, Bool.false_eq_true, if_false]

theorem enter (h : One p) (e : Entry) : One (raw.entered p e) := by
  have hcall : e.call.posting = false := by cases e <;> rfl
  refine ⟨h.toInv.enter e, ?_, fun sent epoch cuts hmem => ?_, h.once, h.off⟩
  · change (p.calls ++ [e.call]).countP Call.posting ≤ 1
    rw [List.countP_append, List.countP_singleton, hcall, if_neg Bool.false_ne_true]
    exact h.single
  · obtain hmem | hmem := List.mem_append.mp hmem
    · exact h.current _ _ _ hmem
    · have heq : .onWire sent epoch cuts = e.call := List.mem_singleton.mp hmem
      rw [← heq] at hcall
      cases hcall

theorem turn (h : One p) {i : Nat} {k : Call} {answer : Bool} (hi : p.calls[i]? = some k)
    (hone : oneFlusher p (.turn i answer)) : One (raw.turned p i k answer) := by
  have hinv := h.toInv.turn hi (h.undisturbed (.turn i answer))
  have hmem := List.mem_of_getElem? hi
  cases k with
  | line keep l =>
    refine h.quiet hi hinv rfl rfl rfl ?_ fun hoff => ?_
    · change p.shared.arrived ++ _ = p.shared.accepted.flatMap (·.own) ++ (p.shared.queue ++ _)
      rw [h.once, List.append_assoc]
    · have hoff : p.shared.c.rawSourceID = "" := hoff
      change (p.shared.c.queueRaw keep l).rawQueue = [] ∧
        (p.shared.c.queueRaw keep l).rawDropped = 0
      rw [queueRaw_off hoff]
      exact h.off hoff
  | switch id =>
    have hid : id = p.shared.c.rawSourceID := by
      simpa only [oneFlusher, hi, beq_iff_eq] using hone
    have hsame : p.shared.switch id = p.shared := hid ▸ h.switch_same
    have hturn : raw.turned p i (.switch id) answer = ⟨p.shared, p.calls.set i .done⟩ := by
      unfold Program.turned raw RawQueue.turn
      dsimp only
      rw [hsame]
    rw [hturn] at hinv ⊢
    exact h.quiet hi hinv rfl rfl rfl h.once h.off
  | flush now =>
    have hidle : p.calls.countP Call.posting = 0 := by
      simpa only [oneFlusher, hi, beq_iff_eq] using hone
    unfold Program.turned raw RawQueue.turn at hinv ⊢
    dsimp only at hinv ⊢
    cases htake : p.shared.c.takeRaw now with
    | none =>
      rw [htake] at hinv
      exact h.quiet hi hinv rfl rfl rfl h.once h.off
    | some batch =>
      rw [htake] at hinv
      refine ⟨hinv, ?_, fun sent epoch cuts hmem => ?_, h.once, h.off⟩
      · change (p.calls.set i _).countP Call.posting ≤ 1
        rw [posting_set hi, hidle]
        exact Nat.le_refl 1
      · obtain hmem | heq := List.mem_or_eq_of_mem_set hmem
        · exact absurd rfl (List.countP_eq_zero.mp hidle _ hmem)
        · cases heq
          exact ⟨rfl, rfl⟩
  | onWire sent epoch cuts =>
    cases answer with
    | false => exact h.quiet hi hinv rfl rfl rfl h.once h.off
    | true =>
      obtain ⟨hlines, hepoch, hfront⟩ := h.head hmem
      have hturn : raw.turned p i (.onWire sent epoch cuts) true =
        ⟨p.shared.complete sent epoch, p.calls.set i .done⟩ := rfl
      have hnone : (p.calls.set i .done).countP Call.posting = 0 := by
        have hsingle := h.single
        rw [posting_set hi]
        change _ - 1 + 0 = 0
        omega
      rw [hturn, complete_head h.named hlines hepoch hfront] at hinv ⊢
      refine ⟨hinv, hnone.le.trans (Nat.zero_le 1), fun _ _ _ hmem => ?_, ?_, fun hoff => ?_⟩
      · exact absurd rfl (List.countP_eq_zero.mp hnone _ hmem)
      · obtain ⟨rest, hrest⟩ := hfront
        simp [h.once, ← hrest]
      · refine ⟨?_, rfl⟩
        change p.shared.c.rawQueue.drop _ = []
        rw [(h.off hoff).1, List.drop_nil]
  | done => exact h.quiet hi hinv rfl rfl rfl h.once h.off

theorem step (h : One p) (m : Move Entry Bool) (hone : oneFlusher p m) : One (raw.step p m) := by
  cases m with
  | enter e => exact h.enter e
  | turn i answer =>
    rcases hi : p.calls[i]? with - | k
    · simpa [Program.step, hi] using h
    · simpa [Program.step, hi] using h.turn hi hone

end One

/-- When the server takes a batch, it has been told of every line refused so far; and the counter
of refused lines does not wrap around. -/
def carriesAll (p : Pool Shared Call) : Move Entry Bool → Bool
  | .turn i answer =>
    match p.calls[i]?, answer with
    | some (.onWire sent _ _), true => p.shared.c.rawDropped == sent.batch.dropped
    | some (.line keep _), _ => !p.shared.c.refuses keep || p.shared.c.rawDropped + 1 != 0
    | _, _ => true
  | .enter _ => true

theorem toNat_succ_iff (n : UInt64) : (n + 1).toNat = n.toNat + 1 ↔ n + 1 ≠ 0 := by
  have hlt := n.toNat_lt
  rw [ne_eq, ← UInt64.toNat_inj, UInt64.toNat_add]
  change (n.toNat + 1) % 2 ^ 64 = _ ↔ ¬ (n.toNat + 1) % 2 ^ 64 = 0
  omega

theorem One.counts_iff (h : One p) (m : Move Entry Bool) (hone : oneFlusher p m)
    (hc : p.shared.refused =
      (p.shared.accepted.map (·.batch.dropped.toNat)).sum + p.shared.c.rawDropped.toNat) :
    (raw.step p m).shared.refused = ((raw.step p m).shared.accepted.map
        (·.batch.dropped.toNat)).sum + (raw.step p m).shared.c.rawDropped.toNat ↔
      carriesAll p m := by
  cases m with
  | enter e => exact iff_of_true hc rfl
  | turn i answer =>
    rcases hi : p.calls[i]? with - | k
    · simpa [Program.step, hi, carriesAll] using hc
    · have hstep : raw.step p (.turn i answer) = raw.turned p i k answer := by
        simp [Program.step, hi]
      rw [hstep]
      cases k with
      | line keep l =>
        simp only [carriesAll, hi]
        change (if p.shared.c.refuses keep then p.shared.refused + 1 else p.shared.refused) =
          (p.shared.accepted.map (·.batch.dropped.toNat)).sum +
            (p.shared.c.queueRaw keep l).rawDropped.toNat ↔ _
        rw [queueRaw_rawDropped]
        cases p.shared.c.refuses keep with
        | false => simpa using hc
        | true =>
          rw [if_pos rfl, if_pos rfl, hc, Nat.add_assoc, Nat.add_left_cancel_iff, eq_comm,
            toNat_succ_iff]
          simp
      | switch id =>
        have hid : id = p.shared.c.rawSourceID := by
          simpa only [oneFlusher, hi, beq_iff_eq] using hone
        refine iff_of_true ?_ (by simp [carriesAll, hi])
        have hsame : (raw.turned p i (.switch id) answer).shared = p.shared :=
          hid ▸ h.switch_same
        rwa [hsame]
      | flush now =>
        refine iff_of_true ?_ (by simp [carriesAll, hi])
        have hsame : (raw.turned p i (.flush now) answer).shared = p.shared := by
          unfold Program.turned raw RawQueue.turn
          dsimp only
          cases p.shared.c.takeRaw now <;> rfl
        rwa [hsame]
      | onWire sent epoch cuts =>
        cases answer with
        | false => exact iff_of_true hc (by simp [carriesAll, hi])
        | true =>
          obtain ⟨hlines, hepoch, hfront⟩ := h.head (List.mem_of_getElem? hi)
          have hturn : (raw.turned p i (.onWire sent epoch cuts) true).shared =
            p.shared.complete sent epoch := rfl
          rw [hturn, complete_head h.named hlines hepoch hfront]
          simp only [carriesAll, hi, List.map_append, List.map_cons, List.map_nil,
            List.sum_append, List.sum_cons, List.sum_nil, beq_iff_eq, UInt64.toNat_zero, hc,
            Nat.add_zero, Nat.add_left_cancel_iff, UInt64.toNat_inj]
      | done => exact iff_of_true hc (by simp [carriesAll, hi])

/-- **Raw line accounting is exact** all along a schedule of one flushing goroutine if and only
if each batch the server takes has told it of every line refused up to then. -/
theorem raw_lines_accounted_iff (c : Collector) (moves : List (Move Entry Bool))
    (hone : raw.Along oneFlusher (fresh c) moves) :
    (∀ k, Exact (raw.run (fresh c) (moves.take k)).shared) ↔
      raw.Along carriesAll (fresh c) moves := by
  have hstart : Exact (fresh c).shared := ⟨(One.fresh c).lines, rfl⟩
  refine Runs.along_iff_within One (fun p => Exact p.shared)
    (fun p m h hm => h.step m hm) (fun p m h hm hq => ?_) (One.fresh c) hstart hone
  have hcounts := h.counts_iff m hm hq.counts
  exact ⟨fun hnext => hcounts.mp hnext.counts, fun hok => ⟨(h.step m hm).lines, hcounts.mpr hok⟩⟩

/-- A line comes, is flushed and refused by the server; another comes while the flush after that
is on the wire, and both are shipped in the end. -/
def quietFlushes : List (Move Entry Bool) :=
  [.enter (.line true { raw := "a" }), .turn 0 true, .enter (.flush 1), .turn 1 true, .turn 1 false,
    .enter (.flush 2), .turn 2 true, .enter (.line true { raw := "b" }), .turn 3 true, .turn 2 true,
    .enter (.flush 3), .turn 4 true, .turn 4 true]

theorem raw_lines_accounted_iff_sample :
    raw.Along oneFlusher (fresh feeding) quietFlushes ∧
      raw.Along carriesAll (fresh feeding) quietFlushes ∧
        ∀ k, Exact (raw.run (fresh feeding) (quietFlushes.take k)).shared := by
  have hone : raw.Along oneFlusher (fresh feeding) quietFlushes := by decide +kernel
  have hok : raw.Along carriesAll (fresh feeding) quietFlushes := by decide +kernel
  exact ⟨hone, hok, (raw_lines_accounted_iff feeding quietFlushes hone).mpr hok⟩

/-- This many lines arrive. -/
def arrivals : Nat → List (Move Entry Bool)
  | 0 => []
  | n + 1 => arrivals n ++ [.enter (.line true { raw := "a" }), .turn n true]

/-- The queue after that, as long as there is room. -/
structure Filled (n : Nat) (p : Pool Shared Call) : Prop where
  calls : p.calls = List.replicate n .done
  queue : p.shared.c.rawQueue.length = n
  source : p.shared.c.rawSourceID = "src"
  dropped : p.shared.c.rawDropped = 0
  refused : p.shared.refused = 0
  accepted : p.shared.accepted = []

theorem Filled.next (h : Filled n p) (hn : n < traceRawQueueMax) :
    Filled (n + 1) (raw.run p [.enter (.line true { raw := "a" }), .turn n true]) := by
  have hlen : p.calls.length = n := by rw [h.calls, List.length_replicate]
  have hroom : p.shared.c.enqueues true := by
    simp [Collector.enqueues, h.source, h.queue, hn]
  have hrefuses : p.shared.c.refuses true = false := by
    simp [Collector.refuses, h.source, h.queue, hn]
  have hrun := raw.run_enter_turn p (.line true { raw := "a" }) true
  rw [hlen] at hrun
  rw [hrun]
  refine ⟨?_, ?_, h.source, ?_, ?_, h.accepted⟩
  · change p.calls ++ [.done] = _
    rw [h.calls, ← List.replicate_succ']
  · change (p.shared.c.queueRaw true _).rawQueue.length = n + 1
    rw [queueRaw_rawQueue, hroom, List.length_append, h.queue]
    rfl
  · change (p.shared.c.queueRaw true _).rawDropped = 0
    rw [queueRaw_rawDropped, hrefuses, h.dropped]
    rfl
  · change (if p.shared.c.refuses true then p.shared.refused + 1 else p.shared.refused) = 0
    rw [hrefuses, h.refused]
    rfl

theorem line_along (p : Pool Shared Call) (keep : Bool) (l : Line) :
    raw.Along oneFlusher p [.enter (.line keep l), .turn p.calls.length true] := by
  refine ⟨rfl, ?_, trivial⟩
  simp [oneFlusher, Program.step, Program.entered, raw, Entry.call]

theorem filled (hn : n ≤ traceRawQueueMax) :
    Filled n (raw.run (fresh feeding) (arrivals n)) ∧
      raw.Along oneFlusher (fresh feeding) (arrivals n) := by
  induction n with
  | zero => exact ⟨⟨rfl, rfl, rfl, rfl, rfl, rfl⟩, trivial⟩
  | succ n ih =>
    obtain ⟨hfilled, halong⟩ := ih (by omega)
    rw [arrivals, Program.run_append, Program.along_append]
    refine ⟨hfilled.next hn, halong, ?_⟩
    have hline := line_along (raw.run (fresh feeding) (arrivals n)) true { raw := "a" }
    rwa [hfilled.calls, List.length_replicate] at hline

/-- A flush of a full queue, a line that is refused while its batch is on the wire, and the
server's answer. -/
def refusedInFlight : List (Move Entry Bool) :=
  [.enter (.flush 1), .turn traceRawQueueMax true] ++
    ([.enter (.line true { raw := "b" }), .turn (traceRawQueueMax + 1) true] ++
      [.turn traceRawQueueMax true])

theorem Filled.refused_lost (h : Filled traceRawQueueMax p) :
    let s := (raw.run p refusedInFlight).shared
    raw.Along oneFlusher p refusedInFlight ∧
      s.refused = 1 ∧ (s.accepted.map (·.batch.dropped.toNat)).sum = 0 ∧ s.c.rawDropped = 0 := by
  have hlen : p.calls.length = traceRawQueueMax := by rw [h.calls, List.length_replicate]
  have hne : p.shared.c.rawQueue ≠ [] := by
    rw [ne_eq, ← List.length_eq_zero_iff, h.queue]
    decide
  obtain ⟨batch, htake, hlines, hcarried⟩ : ∃ batch, p.shared.c.takeRaw 1 = some batch ∧
      batch.lines = p.shared.c.rawQueue ∧ batch.dropped = 0 := by
    have hsource := h.source
    simp [Collector.takeRaw, hne, hsource, h.dropped]
  have hrefuses : p.shared.c.refuses true := by
    simp [Collector.refuses, h.source, h.queue]
  -- The flush reads the queue, and the line finds it full.
  have hflush := raw.run_enter_turn p (.flush 1) true
  have hturn : raw.turn (raw.enter (.flush 1)) true p.shared =
      (p.shared, .onWire ⟨batch, p.shared.queue⟩ p.shared.c.rawEpoch p.shared.cuts) := by
    change RawQueue.turn (.flush 1) true p.shared = _
    simp only [RawQueue.turn, htake]
  rw [hturn, hlen] at hflush
  generalize hk : Call.onWire ⟨batch, p.shared.queue⟩ p.shared.c.rawEpoch p.shared.cuts = k at hflush
  have hline := raw.run_enter_turn ⟨p.shared, p.calls ++ [k]⟩ (.line true { raw := "b" }) true
  have hlen' : (p.calls ++ [k]).length = traceRawQueueMax + 1 := by
    rw [List.length_append, hlen, List.length_singleton]
  rw [hlen'] at hline
  have hcall : (p.calls ++ [k] ++ [Call.done])[traceRawQueueMax]? = some k := by
    rw [List.getElem?_append_left (by omega), ← hlen]
    exact List.getElem?_concat_length
  -- The batch is taken: it carried no refused line, and the counter is cleared.
  have hrun : (raw.run p refusedInFlight).shared = (p.shared.line true { raw := "b" }).complete
      ⟨batch, p.shared.queue⟩ p.shared.c.rawEpoch := by
    rw [refusedInFlight, Program.run_append, hflush, Program.run_append, hline]
    change (raw.step ⟨p.shared.line true { raw := "b" }, p.calls ++ [k] ++ [.done]⟩
      (.turn traceRawQueueMax true)).shared = _
    rw [Program.step, hcall, ← hk]
    rfl
  have hroom : batch.lines.length ≤ (p.shared.c.queueRaw true { raw := "b" }).rawQueue.length := by
    rw [queueRaw_rawQueue, hlines, List.length_append]
    omega
  have hepoch : (p.shared.line true { raw := "b" }).c.rawEpoch = p.shared.c.rawEpoch := rfl
  rw [hrun, complete_trims hepoch hroom]
  refine ⟨?_, ?_, ?_, rfl⟩
  · rw [refusedInFlight, Program.along_append, Program.along_append, hflush, hline]
    refine ⟨⟨rfl, ?_, trivial⟩, ?_, ?_, trivial⟩
    · have hidle : (p.calls ++ [Call.flush 1]).countP Call.posting = 0 := by
        rw [h.calls]
        simp [List.countP_replicate, Call.posting]
      have hget : (p.calls ++ [Call.flush 1])[traceRawQueueMax]? = some (.flush 1) := by
        rw [← hlen]
        exact List.getElem?_concat_length
      change oneFlusher ⟨p.shared, p.calls ++ [.flush 1]⟩ (.turn traceRawQueueMax true) = true
      simp only [oneFlusher, hget, hidle, beq_self_eq_true]
    · have hl := line_along ⟨p.shared, p.calls ++ [k]⟩ true { raw := "b" }
      rwa [hlen'] at hl
    · change oneFlusher ⟨_, p.calls ++ [k] ++ [.done]⟩ (.turn traceRawQueueMax true) = true
      subst hk
      simp only [oneFlusher, hcall]
  · change (if p.shared.c.refuses true then p.shared.refused + 1 else p.shared.refused) = 1
    rw [hrefuses, h.refused]
    rfl
  · change ((p.shared.accepted ++ [_]).map _).sum = 0
    rw [h.accepted]
    simp [hcarried]

theorem refused_after (hn : n = traceRawQueueMax) :
    let moves := arrivals n ++ refusedInFlight
    let s := (raw.run (fresh feeding) moves).shared
    raw.Along oneFlusher (fresh feeding) moves ∧ ¬ Exact s ∧ s.refused = 1 ∧
      (s.accepted.map (·.batch.dropped.toNat)).sum = 0 ∧ s.c.rawDropped = 0 := by
  obtain ⟨hfilled, halong⟩ := filled hn.le
  generalize arrivals n = pre at hfilled halong
  rw [hn] at hfilled
  intro moves s
  have hlost := hfilled.refused_lost
  rw [← Program.run_append] at hlost
  obtain ⟨halong', hrefused, haccepted, hdropped⟩ := hlost
  refine ⟨Program.along_append.mpr ⟨halong, halong'⟩, fun hexact => ?_, hrefused, haccepted,
    hdropped⟩
  have hcounts := hexact.counts
  rw [hrefused, haccepted, hdropped] at hcounts
  exact absurd hcounts (by decide)

/-- The server is never told of a line that was refused while a batch was on the wire. -/
theorem refused_line_never_reported :
    let moves := arrivals traceRawQueueMax ++ refusedInFlight
    let s := (raw.run (fresh feeding) moves).shared
    raw.Along oneFlusher (fresh feeding) moves ∧ ¬ Exact s ∧ s.refused = 1 ∧
      (s.accepted.map (·.batch.dropped.toNat)).sum = 0 ∧ s.c.rawDropped = 0 :=
  refused_after rfl

end RawQueue

end LatticeAgent.Trace
