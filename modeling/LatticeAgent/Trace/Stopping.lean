import LatticeAgent.Lib.Threads
import LatticeAgent.Trace.Progress
import LatticeAgent.Trace.Sessions
import LatticeAgent.Trace.Shipping

/-! # Taking a pipeline down

Two goroutines drain the assembler of a pipeline and hand the records to its shipper:
`driveAssembler`, on every tick and once more when its context is cancelled, and `stop`, which
cancels that context and then flushes. `stop` does not wait for the other, so what
`driveAssembler` has drained and not yet added when the last flush ends stays queued in a shipper
that nobody flushes.

Here each is the sequence of its sections, interleaved with the flushes of `Shipper.Run` and with
what the stream and the polls feed to the assembler and the shipper; alone, a pass of the one makes
the calls that the collector's `tick` notes (`drive_alone`).
`stop_delivers_records` says when nothing that was pushed before `stop` is lost. -/

namespace LatticeAgent.Trace.Stopping

open List Threads

/-! ### The goroutines and their sections -/

/-- What the goroutines of a pipeline share. -/
structure Shared where
  asm : AsmRun
  ship : Cycle
  /-- `shipMu`: a flush is in progress. -/
  shipMu : Bool := false
  /-- `runCancel` was called. -/
  cancelled : Bool := false
  /-- What the assembler had pushed when `stop` took the pipeline out of the collector. -/
  before : Option (List ConnRecord) := none
  /-- How much was ever added to the counters of the shipper, at most. -/
  weight : Nat := 0

namespace Shared

/-- All records the assembler ever pushed. -/
def pushed (s : Shared) : List ConnRecord := s.asm.drained ++ s.asm.asm.out

/-- A call of the assembler. -/
def call (sdk : Sdk) (s : Shared) (c : AsmCall) : Shared := { s with asm := s.asm.step sdk c }

/-- A call of the shipper. -/
def ships (s : Shared) (op : CycleOp) : Shared :=
  { s with ship := s.ship.step op, weight := s.weight + op.weight }

end Shared

/-- A count that is forwarded to the shipper. -/
inductive Count where
  | unparsed (n : UInt64)
  | dropped (n : UInt64)
  | shed (n : UInt64)
deriving DecidableEq, Repr

/-- The call that forwards it. -/
def Count.op : Count → CycleOp
  | .unparsed n => .addUnparsed n
  | .dropped n => .addDropped n
  | .shed n => .addShed n

/-- What `streamLogs` and `pollConnections` do to the assembler and the shipper. -/
inductive Feed where
  | line (l : Line) (clock : Time)
  | tag (logID : UInt32) (sessionIDs : List String)
  | snapshot (snap : Snapshot) (clock : Time)
  | coreRestart (generation : UInt64) (at_ clock : Time)
  | lines (ls : List TraceLine)
  | core (generation : UInt64) (start : Time)
deriving DecidableEq, Repr

def Feed.apply (sdk : Sdk) (s : Shared) : Feed → Shared
  | .line l clock => s.call sdk (.line l clock)
  | .tag logID sessionIDs => s.call sdk (.tag logID sessionIDs)
  | .snapshot snap clock => s.call sdk (.snapshot snap clock)
  | .coreRestart generation at_ clock => s.call sdk (.coreRestart generation at_ clock)
  | .lines ls => s.ships (.addLines ls)
  | .core generation start => s.ships (.setCore generation start)

/-- Where a goroutine stands: the section it takes next. -/
inductive Call where
  /-- `driveAssembler`, at its select. -/
  | drive
  /-- It has ticked. -/
  | drain
  /-- It has drained these records, and forgotten their connections. -/
  | add (records : List ConnRecord)
  /-- It reads the counters. -/
  | tally
  | forward (counts : List Count)
  /-- It has seen the cancellation. -/
  | finalDrain
  | finalAdd (records : List ConnRecord)
  /-- `driveAssembler` has returned. -/
  | driven
  /-- `stop`. -/
  | stop
  /-- It has taken the pipeline out of the collector. -/
  | cancel
  | stopDrain
  | stopAdd (records : List ConnRecord)
  | stopTally
  | owed (counts : List Count)
  /-- `Flush`, waiting for `shipMu`; of `stop` if it is the last one. -/
  | flush (last : Bool)
  | take (last : Bool)
  /-- The batch is on the wire. -/
  | post (last : Bool)
  /-- `stop` has returned. -/
  | stopped
  | feed (f : Feed)
  | done
deriving DecidableEq, Repr

/-- What can be started next to `driveAssembler`. -/
inductive Entry where
  | stop
  /-- A pass of `Shipper.Run`. -/
  | flush
  | feed (f : Feed)

def Entry.call : Entry → Call
  | .stop => .stop
  | .flush => .flush false
  | .feed f => .feed f

/-- What the environment answers: the clock, whether a select takes the cancellation, the server's
answer to a post, and what the collector's counters hold. -/
structure Reply where
  now : Time := 0
  quit : Bool := false
  answer : Answer := .accepted
  unparsed : UInt64 := 0
  dropped : UInt64 := 0
  shed : UInt64 := 0

/-- Where a flush leaves its caller. -/
def flushed (last : Bool) : Call := if last then .stopped else .done

/-- The next section of a goroutine. -/
def turn (sdk : Sdk) : Call → Reply → Shared → Shared × Call
  | .drive, a, s =>
    if a.quit then (s, if s.cancelled then .finalDrain else .drive)
    else (s.call sdk (.tick a.now a.now), .drain)
  | .drain, _, s =>
    let (records, _) := s.asm.asm.drain
    (s.call sdk .drain, if records.isEmpty then .tally else .add records)
  | .add records, _, s => (s.ships (.addRecords records), .tally)
  | .tally, a, s => (s, .forward [.unparsed a.unparsed, .dropped a.dropped, .shed a.shed])
  | .forward [], _, s => (s, .drive)
  | .forward (n :: counts), _, s => (s.ships n.op, .forward counts)
  | .finalDrain, _, s =>
    let (records, _) := s.asm.asm.drain
    (s.call sdk .drain, if records.isEmpty then .driven else .finalAdd records)
  | .finalAdd records, _, s => (s.ships (.addRecords records), .driven)
  | .driven, _, s => (s, .driven)
  | .stop, _, s =>
    -- A second `stop` finds no pipeline.
    if s.before.isSome then (s, .done) else ({ s with before := some s.pushed }, .cancel)
  | .cancel, _, s => ({ s with cancelled := true }, .stopDrain)
  | .stopDrain, _, s =>
    let (records, _) := s.asm.asm.drain
    (s.call sdk .drain, if records.isEmpty then .stopTally else .stopAdd records)
  | .stopAdd records, _, s => (s.ships (.addRecords records), .stopTally)
  | .stopTally, a, s => (s, .owed [.shed a.shed, .dropped a.dropped])
  | .owed [], _, s => (s, .flush true)
  | .owed (n :: counts), _, s => (s.ships n.op, .owed counts)
  | .flush last, _, s =>
    if s.shipMu then (s, .flush last) else ({ s with shipMu := true }, .take last)
  | .take last, a, s =>
    let s := s.ships (.take a.now)
    if s.ship.flight.isNone then ({ s with shipMu := false }, flushed last) else (s, .post last)
  | .post last, a, s =>
    match a.answer with
    | .accepted => (s.ships (.commit a.now), .take last)
    | .refused status retryAfter err =>
      let s := (s.ships .restore).ships (.recordFailure status retryAfter err a.now)
      ({ s with shipMu := false }, flushed last)
  | .stopped, _, s => (s, .stopped)
  | .feed f, _, s => (f.apply sdk s, .done)
  | .done, _, s => (s, .done)

/-- The goroutines of a pipeline. -/
def pipeline (sdk : Sdk) : Program Shared Entry Call Reply where
  enter := Entry.call
  turn := turn sdk

/-- A pipeline that was just started, with its `driveAssembler`. -/
def fresh (opts : Options) (nodeID : String) (maxBatchRecords maxBatchLines maxPending : Int)
    (flushInterval : Duration) : Pool Shared Call where
  shared :=
    { asm := ⟨.new opts, []⟩
      ship := .fresh nodeID maxBatchRecords maxBatchLines maxPending flushInterval }
  calls := [.drive]

/-! ### A goroutine alone -/

/-- The calls of the shipper behind what the collector notes; its flushes are cycles of their own. -/
def shipOps : Shipped → List CycleOp
  | .records rs => [.addRecords rs]
  | .lines ls => [.addLines ls]
  | .unparsed n => [.addUnparsed n]
  | .dropped n => [.addDropped n]
  | .shed n => [.addShed n]
  | .core generation start => [.setCore generation start]
  | .flush => []

/-- Taking turns with no one in between, a goroutine gets from `k` to `k'`. -/
def Alone (sdk : Sdk) (a : Reply) (k : Call) (s : Shared) (k' : Call) (s' : Shared) : Prop :=
  ∃ n, (pipeline sdk).run ⟨s, [k]⟩ (List.replicate n (.turn 0 a)) = ⟨s', [k']⟩

variable {a : Reply} {c : Collector} {now : Time} {s' : Shared}

theorem Alone.refl {sdk : Sdk} (k : Call) (s : Shared) : Alone sdk a k s k s := ⟨0, rfl⟩

theorem Alone.step {sdk : Sdk} {k k₁ k' : Call} {s s₁ : Shared} (hturn : turn sdk k a s = (s₁, k₁))
    (h : Alone sdk a k₁ s₁ k' s') : Alone sdk a k s k' s' := by
  obtain ⟨n, hrun⟩ := h
  refine ⟨n + 1, ?_⟩
  rw [← hrun]
  change (pipeline sdk).run ⟨(turn sdk k a s).1, [(turn sdk k a s).2]⟩ _ = _
  rw [hturn]

/-- The collector's counters as a pass of `driveAssembler` reads them. -/
def counters (c : Collector) (p : Pipeline) (now : Time) : Reply where
  now := now
  unparsed := c.unparsed
  dropped := p.guard.take.1.2 +
    (Collector.forwardDelta c.lastAsmDropped (p.asm.tick now now).stats.dropped).1 +
    (Collector.forwardDelta c.lastAsmPartial (p.asm.tick now now).stats.partials).1
  shed := p.guard.take.1.1

/-- A pass of `driveAssembler` alone, which finds the collector's counters as they stand, makes the
calls that `Collector.tick` notes and leaves the assembler that it leaves. -/
theorem drive_alone (sdk : Sdk) (c : Collector) (p : Pipeline) (s : Shared) (taken : Bool)
    (now : Time) :
    let c' := ({ c with pipeline := some p }).tick sdk taken now
    ∃ s' new, c'.sent = c.sent ++ new ∧
      Alone sdk (counters c p now) .drive { s with asm.asm := p.asm } .drive s' ∧
      s'.ship = s.ship.run (new.flatMap shipOps) ∧ c'.pipeline.map (·.asm) = some s'.asm.asm := by
  intro c'
  have hsent := Collector.tick_sent (c := { c with pipeline := some p }) sdk rfl taken now
  have hleft : c'.pipeline.map (·.asm) = some (p.asm.tick now now).drain.2 := rfl
  by_cases hempty : (p.asm.tick now now).out = []
  · have hdrain (s : Shared) : turn sdk .drain (counters c p now)
        { s with asm.asm := p.asm.tick now now } =
          (({ s with asm.asm := p.asm.tick now now }).call sdk .drain, .tally) := by
      simp [turn, Assembler.drain, Shared.call, AsmRun.step, hempty]
    refine ⟨_, _, hsent, .step rfl (.step (hdrain s) (.step rfl (.step rfl (.step rfl (.step rfl
      (.step rfl (.refl _ _))))))), ?_, hleft⟩
    rw [hempty]
    rfl
  · have hdrain (s : Shared) : turn sdk .drain (counters c p now)
        { s with asm.asm := p.asm.tick now now } =
          (({ s with asm.asm := p.asm.tick now now }).call sdk .drain,
            .add (p.asm.tick now now).out) := by
      simp [turn, Assembler.drain, Shared.call, AsmRun.step, hempty]
    refine ⟨_, _, hsent, .step rfl (.step (hdrain s) (.step rfl (.step rfl (.step rfl (.step rfl
      (.step rfl (.step rfl (.refl _ _)))))))), ?_, hleft⟩
    rw [isEmpty_eq_false_iff.mpr hempty]
    rfl

/-- The records a goroutine has drained and not yet added. -/
def Call.held : Call → List ConnRecord
  | .add records | .finalAdd records | .stopAdd records => records
  | _ => []

/-- Every post is accepted. -/
def accepts (p : Pool Shared Call) : Move Entry Reply → Bool
  | .turn i a =>
    match p.calls[i]? with
    | some (.post _) => decide (a.answer = .accepted)
    | _ => true
  | .enter _ => true

/-- The condition on a move: when the last flush of `stop` finds nothing more to ship, no
goroutine is between draining records and adding them. -/
def settled (p : Pool Shared Call) : Move Entry Reply → Bool
  | .turn i a =>
    match p.calls[i]? with
    | some (.take true) =>
      (p.shared.ship.step (.take a.now)).flight.isSome || p.calls.all fun k => k.held.isEmpty
    | _ => true
  | .enter _ => true

/-! ### What the sections keep -/

/-- The records were delivered, or counted as dropped in a delivered batch: the server has taken
batches that hold them or that tell of exactly what had been dropped till then, the rest of the
records among it. -/
def Delivered (records : List ConnRecord) (c : Cycle) : Prop :=
  ∃ batches dropped lines told, batches <+: c.accepted ∧ dropped <+: c.droppedRecords ∧
    lines <+: c.droppedLines ∧ told ≤ c.told ∧
    records.Subperm (batches.flatMap (·.records) ++ dropped) ∧
    carried (·.dropped) batches = dropped.length + lines.length + told

/-- The shipper is not told to wait, and its caps are not zero. -/
structure Ready (s : Shipper) : Prop where
  retryUntil : s.retryUntil = 0
  tuned : s.Tuned

/-- The records a step adds. -/
def added : CycleOp → List ConnRecord
  | .addRecords records => records
  | _ => []

/-- The step is of a post that failed. -/
def fails : CycleOp → Bool
  | .recordFailure .. => true
  | _ => false

/-- What a step leaves: what was done is done, and no step but a failure makes a shipper wait. -/
structure Advances (op : CycleOp) (c c' : Cycle) : Prop where
  accepted : c.accepted <+: c'.accepted
  droppedRecords : c.droppedRecords <+: c'.droppedRecords
  droppedLines : c.droppedLines <+: c'.droppedLines
  told : c.told ≤ c'.told
  addedRecords : c'.addedRecords = c.addedRecords ++ added op
  ready : fails op = false → Ready c.s → Ready c'.s

theorem Ready.keep {s s' : Shipper} (hretry : s'.retryUntil = s.retryUntil)
    (hrecords : s'.maxBatchRecords = s.maxBatchRecords)
    (hlines : s'.maxBatchLines = s.maxBatchLines) (h : Ready s) : Ready s' :=
  ⟨hretry.trans h.retryUntil, hrecords ▸ h.tuned.records, hlines ▸ h.tuned.lines⟩

theorem Advances.same {c : Cycle} {op : CycleOp} (s : Shipper) (flight : Option TraceBatch)
    (hadded : added op = []) (hready : Ready c.s → Ready s) :
    Advances op c { c with s := s, flight := flight } :=
  ⟨prefix_rfl, prefix_rfl, prefix_rfl, Nat.le_refl _, by rw [hadded, append_nil], fun _ => hready⟩

theorem Advances.trim {c d : Cycle} {op : CycleOp} (s : Shipper)
    (haccepted : d.accepted = c.accepted) (hr : d.droppedRecords = c.droppedRecords)
    (hl : d.droppedLines = c.droppedLines) (htold : d.told = c.told)
    (hadded : d.addedRecords = c.addedRecords ++ added op) (hready : Ready c.s → Ready s) :
    Advances op c (d.trim s) := by
  refine ⟨by rw [← haccepted]; exact prefix_rfl, by rw [← hr]; exact prefix_append _ _,
    by rw [← hl]; exact prefix_append _ _, htold ▸ Nat.le_refl _, hadded, fun _ h => ?_⟩
  exact .keep (s := s) rfl rfl rfl (hready h)

theorem advances (c : Cycle) (op : CycleOp) : Advances op c (c.step op) := by
  cases op with
  | addRecords rs =>
    unfold Cycle.step
    dsimp only
    split
    · rename_i hempty
      exact .same c.s c.flight (List.isEmpty_iff.mp hempty) id
    · exact .trim _ rfl rfl rfl rfl rfl (.keep rfl rfl rfl)
  | addLines | restore =>
    unfold Cycle.step
    dsimp only
    split
    · exact .same c.s c.flight rfl id
    · exact .trim _ rfl rfl rfl rfl (append_nil _).symm (.keep rfl rfl rfl)
  | addUnparsed | setCore => exact .same _ c.flight rfl (.keep rfl rfl rfl)
  | addDropped | addShed =>
    exact { Advances.same c.s c.flight rfl id with
      told := Nat.le_add_right _ _, ready := fun _ => .keep rfl rfl rfl }
  | take now =>
    unfold Cycle.step
    dsimp only
    split
    · exact .same c.s c.flight rfl id
    · obtain heq | heq := c.s.takeBatch_cases now
      · rw [heq]
        exact .same c.s none rfl id
      · rw [heq]
        exact .same _ _ rfl (.keep rfl rfl rfl)
  | commit now =>
    unfold Cycle.step
    dsimp only
    split
    · exact .same c.s c.flight rfl id
    · exact { Advances.same c.s c.flight rfl id with
        accepted := prefix_append _ _
        ready := fun _ h => ⟨rfl, h.tuned.records, h.tuned.lines⟩ }
  | recordFailure status retryAfter err now =>
    exact { Advances.same c.s c.flight rfl id with ready := nofun }

theorem Delivered.step {records : List ConnRecord} {c : Cycle} (h : Delivered records c)
    (op : CycleOp) : Delivered records (c.step op) := by
  obtain ⟨batches, dropped, lines, told, hb, hd, hl, ht, hsub, hcount⟩ := h
  have hstep := advances c op
  exact ⟨batches, dropped, lines, told, hb.trans hstep.accepted, hd.trans hstep.droppedRecords,
    hl.trans hstep.droppedLines, ht.trans hstep.told, hsub, hcount⟩

/-- What a flush that finds nothing more to ship leaves: nothing is queued and nothing owed. -/
theorem takeBatch_none {s : Shipper} (h : Ready s) (hnone : (s.takeBatch now).1 = none) :
    s.records = [] ∧ s.lines = [] ∧ s.dropped = 0 := by
  have hwait : s.backingOff now = false := by
    simp [Shipper.backingOff, h.retryUntil, Time.isZero]
  unfold Shipper.takeBatch at hnone
  rw [hwait, if_neg Bool.false_ne_true] at hnone
  split at hnone
  · rename_i hsilent
    obtain ⟨hr, hl, hdropped, -⟩ := hsilent
    have hempty : ¬ 0 < s.records.length + s.lines.length := by
      intro hpos
      have hhead := s.headCounts_spec.2 h.tuned.records h.tuned.lines hpos
      omega
    refine ⟨eq_nil_of_length_eq_zero ?_, eq_nil_of_length_eq_zero ?_, hdropped⟩
    · omega
    · omega
  · cases hnone

theorem delivered_of_silent {w : Nat} {c : Cycle} (h : Owing w c) (hready : Ready c.s)
    (hnone : (c.step (.take now)).flight = none) {records : List ConnRecord}
    (hadded : records.Subperm c.addedRecords) : Delivered records c := by
  have hflight : c.flight = none := by
    unfold Cycle.step at hnone
    dsimp only at hnone
    split at hnone
    · exact hnone
    · rename_i hf
      exact hf
  have htake : (c.s.takeBatch now).1 = none := by
    simpa only [Cycle.step, hflight] using hnone
  obtain ⟨hqueue, -, hdropped⟩ := takeBatch_none hready htake
  obtain ⟨hinflight, -⟩ := h.idle hflight
  refine ⟨c.accepted, c.droppedRecords, c.droppedLines, c.told, prefix_rfl, prefix_rfl,
    prefix_rfl, Nat.le_refl _, ?_, ?_⟩
  · have honce := h.records.once
    rw [hinflight, hqueue, append_nil, append_nil] at honce
    exact hadded.trans (honce.trans perm_append_comm).subperm
  · have htotal := h.dropped
    have hcounted := h.counted
    rw [hdropped, UInt64.toNat_zero] at htotal
    omega

/-! ### The invariant -/

/-- What holds of the shared state. -/
structure Sound (s : Shared) : Prop where
  linked : s.asm.asm.Linked
  owing : Owing s.weight s.ship
  ready : Ready s.ship.s
  before : ∀ records, s.before = some records → records.Subperm s.pushed

/-- What a section leaves of the shared state it finds. -/
structure Grows (s s' : Shared) : Prop where
  before : ∀ records, s.before = some records → s'.before = some records
  drained : s.asm.drained <+: s'.asm.drained
  delivered : ∀ records, Delivered records s.ship → Delivered records s'.ship

theorem Grows.refl (s : Shared) : Grows s s := ⟨fun _ h => h, prefix_rfl, fun _ h => h⟩

variable {sdk : Sdk} {s : Shared}

theorem Sound.call (h : Sound s) (c : AsmCall) : Sound (s.call sdk c) ∧ Grows s (s.call sdk c) := by
  suffices hasm : (s.asm.step sdk c).asm.Linked ∧ s.asm.drained <+: (s.asm.step sdk c).drained ∧
      s.pushed <+: (s.call sdk c).pushed by
    obtain ⟨hlinked, hdrained, hpushed⟩ := hasm
    refine ⟨⟨hlinked, h.owing, h.ready, fun records hb => ?_⟩, fun _ hb => hb, hdrained, fun _ hd => hd⟩
    exact (h.before records hb).trans hpushed.sublist.subperm
  by_cases hc : c = .drain
  · subst hc
    refine ⟨h.linked.drain, prefix_append _ _, ?_⟩
    change s.pushed <+: s.pushed ++ []
    exact prefix_append _ _
  · obtain ⟨hlinked, hstep⟩ := AsmRun.step_evolves sdk s.asm c hc h.linked
    obtain ⟨new, hout, -⟩ := hstep.ended
    have hdrained : (s.asm.step sdk c).drained = s.asm.drained := by
      cases c with
      | drain => exact absurd rfl hc
      | _ => rfl
    refine ⟨hlinked, hdrained ▸ prefix_rfl, ?_⟩
    change s.pushed <+: (s.asm.step sdk c).drained ++ (s.asm.step sdk c).asm.out
    rw [hdrained, hout, ← append_assoc]
    exact prefix_append _ _

theorem Sound.ships (h : Sound s) {op : CycleOp} (hfails : fails op = false)
    (hw : (s.ships op).weight < 2 ^ 64) : Sound (s.ships op) ∧ Grows s (s.ships op) :=
  ⟨⟨h.linked, (h.owing.step op hw).1, (advances s.ship op).ready hfails h.ready, h.before⟩,
    fun _ hb => hb, prefix_rfl, fun _ hd => hd.step op⟩

/-- How far a goroutine has come with taking the pipeline down. -/
inductive Stage where
  | outside | taken | drained | returned
deriving DecidableEq, Repr

def Call.stage : Call → Stage
  | .cancel | .stopDrain => .taken
  | .stopAdd _ | .stopTally | .owed _ | .flush true | .take true | .post true => .drained
  | .stopped => .returned
  | _ => .outside

/-- What that says of the records `stop` has to deliver. -/
def Promise (s : Shared) : Stage → Prop
  | .outside => True
  | .taken => ∃ records, s.before = some records
  | .drained => ∃ records, s.before = some records ∧ records.Subperm s.asm.drained
  | .returned => ∃ records, s.before = some records ∧ Delivered records s.ship

theorem Promise.grows {stage : Stage} (h : Promise s stage) (hg : Grows s s') :
    Promise s' stage := by
  cases stage with
  | outside => trivial
  | taken =>
    obtain ⟨records, hb⟩ := h
    exact ⟨records, hg.before records hb⟩
  | drained =>
    obtain ⟨records, hb, hsub⟩ := h
    exact ⟨records, hg.before records hb, hsub.trans hg.drained.sublist.subperm⟩
  | returned =>
    obtain ⟨records, hb, hd⟩ := h
    exact ⟨records, hg.before records hb, hg.delivered records hd⟩

/-- Every record drained is held by a goroutine or was added, and the goroutines keep what their
stage promises. -/
structure Inv (p : Pool Shared Call) : Prop extends Sound p.shared where
  flow : p.shared.asm.drained.Perm (p.shared.ship.addedRecords ++ p.calls.flatMap Call.held)
  promises : ∀ k ∈ p.calls, Promise p.shared k.stage

variable {p : Pool Shared Call} {i : Nat} {k k' : Call}

section

variable (h : Inv p) (hi : p.calls[i]? = some k) (hs : Sound s' ∧ Grows p.shared s')

include h hi hs

theorem Inv.moved
    (hflow : ∀ rest, p.shared.asm.drained.Perm (p.shared.ship.addedRecords ++ (k.held ++ rest)) →
      s'.asm.drained.Perm (s'.ship.addedRecords ++ (k'.held ++ rest)))
    (hpromise : Promise p.shared k.stage → Promise s' k'.stage) : Inv ⟨s', p.calls.set i k'⟩ := by
  obtain ⟨hs, hgrows⟩ := hs
  obtain ⟨rest, hbefore, hafter⟩ := flatMap_set_perm Call.held k' hi
  refine ⟨hs, ?_, forall_mem_set (fun j hj => (h.promises j hj).grows hgrows)
    (hpromise (h.promises k (mem_of_getElem? hi)))⟩
  exact (hflow rest (h.flow.trans (hbefore.append_left _))).trans (hafter.symm.append_left _)

theorem Inv.pass (hdrained : s'.asm.drained = p.shared.asm.drained)
    (hadded : s'.ship.addedRecords = p.shared.ship.addedRecords) (hheld : k'.held = k.held)
    (hpromise : Promise p.shared k.stage → Promise s' k'.stage) : Inv ⟨s', p.calls.set i k'⟩ := by
  refine h.moved hi hs (fun rest hf => ?_) hpromise
  rwa [hdrained, hadded, hheld]

end

theorem drain_flow (sdk : Sdk) (s : Shared) (hk : k.held = []) (hk' : k'.held = s.asm.asm.out)
    (rest : List ConnRecord) (h : s.asm.drained.Perm (s.ship.addedRecords ++ (k.held ++ rest))) :
    (s.call sdk .drain).asm.drained.Perm
      ((s.call sdk .drain).ship.addedRecords ++ (k'.held ++ rest)) := by
  rw [hk, nil_append] at h
  rw [hk']
  change (s.asm.drained ++ s.asm.asm.out).Perm (s.ship.addedRecords ++ (s.asm.asm.out ++ rest))
  refine (h.append_right _).trans ?_
  rw [append_assoc]
  exact perm_append_comm.append_left _

theorem add_flow (s : Shared) {op : CycleOp} (hk : k.held = added op) (hk' : k'.held = [])
    (rest : List ConnRecord) (h : s.asm.drained.Perm (s.ship.addedRecords ++ (k.held ++ rest))) :
    (s.ships op).asm.drained.Perm ((s.ships op).ship.addedRecords ++ (k'.held ++ rest)) := by
  rw [hk] at h
  rw [hk', nil_append]
  change s.asm.drained.Perm ((s.ship.step op).addedRecords ++ rest)
  rw [(advances s.ship op).addedRecords, append_assoc]
  exact h

section

variable (h : Inv p)

include h

/-- A goroutine drains the assembler, and goes on with the records if there are any. -/
theorem Inv.drains (hi : p.calls[i]? = some k) {none some_ : Call} (hk : k.held = [])
    (hnone : none.held = []) (hsome : some_.held = p.shared.asm.asm.out)
    (hstage : some_.stage = none.stage)
    (hpromise : Promise p.shared k.stage → Promise (p.shared.call sdk .drain) none.stage) :
    Inv ⟨p.shared.call sdk .drain,
      p.calls.set i (if p.shared.asm.asm.out.isEmpty then none else some_)⟩ := by
  refine h.moved hi (h.toSound.call .drain) (drain_flow sdk p.shared hk ?_) fun hp => ?_
  · split
    · rename_i hempty
      rw [hnone, List.isEmpty_iff.mp hempty]
    · exact hsome
  · split
    · exact hpromise hp
    · rw [hstage]
      exact hpromise hp

theorem Inv.ships (hi : p.calls[i]? = some k) {op : CycleOp} (hfails : fails op = false)
    (hw : (p.shared.ships op).weight < 2 ^ 64) (hk : k.held = added op) (hk' : k'.held = [])
    (hstage : k'.stage = k.stage ∨ k'.stage = .outside) :
    Inv ⟨p.shared.ships op, p.calls.set i k'⟩ := by
  have hs := h.toSound.ships hfails hw
  refine h.moved hi hs (add_flow p.shared hk hk') fun hp => ?_
  obtain hstage | hstage := hstage
  · rw [hstage]
    exact hp.grows hs.2
  · rw [hstage]
    trivial

theorem Inv.feed {f : Feed} (hi : p.calls[i]? = some (.feed f))
    (hw : (f.apply sdk p.shared).weight < 2 ^ 64) :
    Inv ⟨f.apply sdk p.shared, p.calls.set i .done⟩ := by
  cases f with
  | lines | core => exact h.ships hi rfl hw rfl rfl (.inr rfl)
  | _ => exact h.pass hi (h.toSound.call _) rfl rfl rfl fun _ => trivial

/-- The last flush ends when nothing is left in the shipper or on the way to it. -/
theorem Inv.flushed (hi : p.calls[i]? = some (.take true))
    (hnone : (p.shared.ship.step (.take now)).flight = none) (hheld : ∀ k ∈ p.calls, k.held = []) :
    Promise p.shared .returned := by
  obtain ⟨records, hb, hsub⟩ : Promise p.shared .drained := h.promises _ (mem_of_getElem? hi)
  have hflow := h.flow
  rw [flatMap_eq_nil_iff.mpr hheld, append_nil] at hflow
  exact ⟨records, hb, delivered_of_silent h.owing h.ready hnone (hsub.trans hflow.subperm)⟩

theorem Inv.take {last : Bool} (hi : p.calls[i]? = some (.take last))
    (hsettled : settled p (.turn i a)) (hw : (p.shared.ships (.take a.now)).weight < 2 ^ 64) :
    Inv ⟨(turn sdk (.take last) a p.shared).1,
      p.calls.set i (turn sdk (.take last) a p.shared).2⟩ := by
  have hs : Sound (p.shared.ships (.take a.now)) ∧ Grows p.shared (p.shared.ships (.take a.now)) :=
    h.toSound.ships rfl hw
  have hadded : (p.shared.ships (.take a.now)).ship.addedRecords = p.shared.ship.addedRecords :=
    (advances p.shared.ship (.take a.now)).addedRecords.trans (append_nil _)
  simp only [turn]
  split
  · rename_i hnone
    have hnone : (p.shared.ship.step (.take a.now)).flight = none := Option.isNone_iff_eq_none.mp hnone
    have hs' : Sound { p.shared.ships (.take a.now) with shipMu := false } ∧
        Grows p.shared { p.shared.ships (.take a.now) with shipMu := false } :=
      ⟨⟨hs.1.linked, hs.1.owing, hs.1.ready, hs.1.before⟩, hs.2.before, hs.2.drained, hs.2.delivered⟩
    cases last with
    | false => exact h.pass hi hs' rfl hadded rfl fun _ => trivial
    | true =>
      refine h.pass hi hs' rfl hadded rfl fun _ => ?_
      simp only [settled, hi, hnone, Option.isSome_none, Bool.false_or, all_eq_true,
        List.isEmpty_iff] at hsettled
      exact (h.flushed hi hnone hsettled).grows hs'.2
  · cases last with
    | false => exact h.pass hi hs rfl hadded rfl fun _ => trivial
    | true => exact h.pass hi hs rfl hadded rfl fun hp => hp.grows hs.2

/-- **The step lemma.** -/
theorem Inv.turn (hi : p.calls[i]? = some k) (haccepts : accepts p (.turn i a))
    (hsettled : settled p (.turn i a)) (hw : (Stopping.turn sdk k a p.shared).1.weight < 2 ^ 64) :
    Inv ⟨(Stopping.turn sdk k a p.shared).1, p.calls.set i (Stopping.turn sdk k a p.shared).2⟩ := by
  have hsame : Sound p.shared ∧ Grows p.shared p.shared := ⟨h.toSound, .refl _⟩
  cases k with
  | drive =>
    simp only [Stopping.turn]
    split
    · split
      · exact h.pass hi hsame rfl rfl rfl fun _ => trivial
      · exact h.pass hi hsame rfl rfl rfl fun _ => trivial
    · exact h.pass hi (h.toSound.call _) rfl rfl rfl fun _ => trivial
  | drain | finalDrain => exact h.drains hi rfl rfl rfl rfl fun _ => trivial
  | add | finalAdd => exact h.ships hi rfl hw rfl rfl (.inr rfl)
  | tally | driven | done => exact h.pass hi hsame rfl rfl rfl fun _ => trivial
  | forward counts =>
    cases counts with
    | nil => exact h.pass hi hsame rfl rfl rfl fun _ => trivial
    | cons n counts => cases n <;> exact h.ships hi rfl hw rfl rfl (.inr rfl)
  | stop =>
    simp only [Stopping.turn]
    split
    · exact h.pass hi hsame rfl rfl rfl fun _ => trivial
    · rename_i hnone
      have hbefore : p.shared.before = none := by simpa using hnone
      refine h.pass hi ⟨⟨h.linked, h.owing, h.ready, ?_⟩, ?_, prefix_rfl, fun _ hd => hd⟩ rfl rfl
        rfl fun _ => ⟨_, rfl⟩
      · rintro records ⟨⟩
        exact .refl _
      · intro records hb
        rw [hbefore] at hb
        cases hb
  | cancel =>
    exact h.pass hi ⟨⟨h.linked, h.owing, h.ready, h.before⟩, fun _ hb => hb, prefix_rfl,
      fun _ hd => hd⟩ rfl rfl rfl id
  | stopDrain =>
    refine h.drains hi rfl rfl rfl rfl ?_
    rintro ⟨records, hb⟩
    exact ⟨records, hb, h.before records hb⟩
  | stopAdd records => exact h.ships hi rfl hw rfl rfl (.inl rfl)
  | stopTally | stopped => exact h.pass hi hsame rfl rfl rfl id
  | owed counts =>
    cases counts with
    | nil => exact h.pass hi hsame rfl rfl rfl id
    | cons n counts => cases n <;> exact h.ships hi rfl hw rfl rfl (.inl rfl)
  | flush last =>
    simp only [Stopping.turn]
    split
    · exact h.pass hi hsame rfl rfl rfl id
    · refine h.pass hi ⟨⟨h.linked, h.owing, h.ready, h.before⟩, fun _ hb => hb, prefix_rfl,
        fun _ hd => hd⟩ rfl rfl rfl ?_
      cases last <;> exact id
  | take last =>
    refine h.take hi hsettled ?_
    have hle : (p.shared.ships (.take a.now)).weight ≤
        (Stopping.turn sdk (.take last) a p.shared).1.weight := by
      simp only [Stopping.turn]
      split <;> exact Nat.le_refl _
    exact hle.trans_lt hw
  | post last =>
    simp only [accepts, hi, decide_eq_true_eq] at haccepts
    simp only [Stopping.turn, haccepts] at hw ⊢
    refine h.ships hi rfl hw rfl rfl ?_
    cases last
    · exact .inr rfl
    · exact .inl rfl
  | feed f => exact h.feed hi hw

theorem Inv.entered (e : Entry) : Inv ((pipeline sdk).entered p e) := by
  have hnew : e.call.held = [] ∧ e.call.stage = .outside := by
    cases e <;> exact ⟨rfl, rfl⟩
  refine ⟨h.toSound, ?_, fun k hk => ?_⟩
  · change p.shared.asm.drained.Perm (p.shared.ship.addedRecords ++
      (p.calls ++ [e.call]).flatMap Call.held)
    rw [flatMap_append, flatMap_singleton, hnew.1, append_nil]
    exact h.flow
  · obtain hk | hk := mem_append.mp hk
    · exact h.promises k hk
    · rw [mem_singleton.mp hk]
      change Promise p.shared e.call.stage
      rw [hnew.2]
      trivial

end

theorem turn_weight (sdk : Sdk) (k : Call) (a : Reply) (s : Shared) :
    s.weight ≤ (turn sdk k a s).1.weight := by
  have hships (op : CycleOp) : s.weight ≤ (s.ships op).weight := Nat.le_add_right _ _
  cases k with
  | drive | stop | flush =>
    simp only [turn]
    split <;> exact Nat.le_refl _
  | forward counts =>
    cases counts with
    | nil => exact Nat.le_refl _
    | cons n counts => exact hships _
  | owed counts =>
    cases counts with
    | nil => exact Nat.le_refl _
    | cons n counts => exact hships _
  | take last =>
    simp only [turn]
    split <;> exact hships _
  | post last =>
    simp only [turn]
    split
    · exact hships _
    · exact hships .restore
  | feed f => cases f <;> first | exact hships _ | exact Nat.le_refl _
  | add | finalAdd | stopAdd => exact hships _
  | _ => exact Nat.le_refl _

theorem inv_fresh (opts : Options) (nodeID : String)
    (maxBatchRecords maxBatchLines maxPending : Int) (flushInterval : Duration) :
    Inv (fresh opts nodeID maxBatchRecords maxBatchLines maxPending flushInterval) := by
  refine ⟨⟨Assembler.linked_new opts, (Owing.fresh nodeID maxBatchRecords maxBatchLines maxPending
    flushInterval).1, ⟨rfl, Shipper.new_tuned nodeID maxBatchRecords maxBatchLines maxPending
    flushInterval⟩, nofun⟩, .refl _, fun k hk => ?_⟩
  rw [mem_singleton.mp hk]
  trivial

/-- **Taking a pipeline down loses no assembled record.**  However `stop` falls between the
sections of `driveAssembler` and the flushes of `Shipper.Run`, once it has returned (and so also
once both have), every record that was pushed before it was called is delivered or counted as
dropped in a delivered batch: if every post is accepted, if no goroutine is between draining and
adding when the last flush ends, and if all that was ever counted fits a counter. -/
theorem stop_delivers_records (sdk : Sdk) (opts : Options) (nodeID : String)
    (maxBatchRecords maxBatchLines maxPending : Int) (flushInterval : Duration)
    (moves : List (Move Entry Reply)) :
    let start := fresh opts nodeID maxBatchRecords maxBatchLines maxPending flushInterval
    let p := (pipeline sdk).run start moves
    (pipeline sdk).Along accepts start moves → (pipeline sdk).Along settled start moves →
      p.shared.weight < 2 ^ 64 → Call.stopped ∈ p.calls →
        ∃ records, p.shared.before = some records ∧ Delivered records p.shared.ship := by
  intro start p haccepts hsettled hweight hstopped
  have hinv : p.shared.weight < 2 ^ 64 → Inv p := by
    refine Program.run_invariant (fun p => p.shared.weight < 2 ^ 64 → Inv p) ?_ ?_ (fun _ => ?_)
      (Program.along_and haccepts hsettled)
    · intro p e h _ hw
      exact (h hw).entered e
    · intro p i k a h hi hok hw
      obtain ⟨hacc, hset⟩ := Bool.and_eq_true_iff.mp hok
      exact (h ((turn_weight sdk k a p.shared).trans_lt hw)).turn hi hacc hset hw
    · exact inv_fresh opts nodeID maxBatchRecords maxBatchLines maxPending flushInterval
  exact (hinv hweight).promises _ hstopped

/-- A connection with a source, its end, and the tick and the drain of `driveAssembler`, which then
holds the record. -/
def recordDrained : List (Move Entry Reply) :=
  [.enter (.feed (.line Collector.acceptLine 1)), .turn 1 {},
    .enter (.feed (.line Collector.closeLine 2)), .turn 2 {}, .turn 0 { now := 3 }, .turn 0 {}]

/-- `stop`, with this many turns. -/
def stopTakes (n : Nat) : List (Move Entry Reply) := .enter .stop :: List.replicate n (.turn 3 {})

/-- `driveAssembler` adds the record, and the pipeline is taken down. -/
def addThenStop : List (Move Entry Reply) := recordDrained ++ [.turn 0 {}] ++ stopTakes 11

theorem stop_delivers_records_sample :
    Call.stopped ∈ ((pipeline asciiSdk).run (fresh {} "n1" 0 0 0 0) addThenStop).calls ∧
      ∃ records,
        ((pipeline asciiSdk).run (fresh {} "n1" 0 0 0 0) addThenStop).shared.before = some records ∧
          Delivered records
            ((pipeline asciiSdk).run (fresh {} "n1" 0 0 0 0) addThenStop).shared.ship := by
  have haccepts : (pipeline asciiSdk).Along accepts (fresh {} "n1" 0 0 0 0) addThenStop := by
    decide +kernel
  have hsettled : (pipeline asciiSdk).Along settled (fresh {} "n1" 0 0 0 0) addThenStop := by
    decide +kernel
  have hweight :
      ((pipeline asciiSdk).run (fresh {} "n1" 0 0 0 0) addThenStop).shared.weight < 2 ^ 64 := by
    decide +kernel
  have hstopped :
      Call.stopped ∈ ((pipeline asciiSdk).run (fresh {} "n1" 0 0 0 0) addThenStop).calls := by
    decide +kernel
  exact ⟨hstopped, stop_delivers_records asciiSdk {} "n1" 0 0 0 0 addThenStop haccepts hsettled
    hweight hstopped⟩

/-- The pipeline is taken down, and then `driveAssembler` adds the record, forwards its counts and
sees the cancellation. -/
def stopThenAdd : List (Move Entry Reply) :=
  recordDrained ++ stopTakes 9 ++ List.replicate 6 (.turn 0 {}) ++
    [.turn 0 { quit := true }, .turn 0 {}]

/-- `driveAssembler` has drained the record when `stop` begins, and adds it when `stop` has made its
last flush: both have returned, and the record is queued in a shipper that nobody flushes. -/
theorem drained_record_never_shipped :
    let start := fresh {} "n1" 0 0 0 0
    let p := (pipeline asciiSdk).run start stopThenAdd
    (pipeline asciiSdk).Along accepts start stopThenAdd ∧ p.shared.weight < 2 ^ 64 ∧
      Call.stopped ∈ p.calls ∧ Call.driven ∈ p.calls ∧
      p.shared.before.map (List.map (·.logID)) = some [7] ∧
      p.shared.ship.s.records.map (·.logID) = [7] ∧
      ¬ ∃ records, p.shared.before = some records ∧ Delivered records p.shared.ship := by
  intro start p
  have hbefore : p.shared.before.map (List.map (·.logID)) = some [7] := by decide +kernel
  have haccepted : p.shared.ship.accepted = [] := by decide +kernel
  have hdropped : p.shared.ship.droppedRecords = [] := by decide +kernel
  refine ⟨by decide +kernel, by decide +kernel, by decide +kernel, by decide +kernel, hbefore,
    by decide +kernel, ?_⟩
  rintro ⟨records, hb, batches, dropped, lines, told, hpre, hpre', -, -, hsub, -⟩
  rw [haccepted] at hpre
  rw [hdropped] at hpre'
  rw [prefix_nil.mp hpre, prefix_nil.mp hpre'] at hsub
  rw [hb, subperm_nil.mp hsub] at hbefore
  cases hbefore

end LatticeAgent.Trace.Stopping
