import LatticeAgent.Lib.Runs
import LatticeAgent.Trace.Books
import LatticeAgent.Trace.Expiry
import Mathlib.Algebra.Order.BigOperators.Group.List
import Mathlib.Algebra.Order.Group.Nat

/-! # What the assemblers lost, as it is forwarded

An assembler counts what it discards; each pass of `driveAssembler` adds the difference to the
counters already forwarded to what the guard dropped, and passes the sum to `AddDropped`. Those two
counters belong to the collector and survive `stop` and `startPipeline`, while every new assembler
counts from zero.

`Ledger` runs the collector and keeps every pipeline it took down, whose goroutines may go on for a
while. In 64 bits, what was passed to `AddDropped` is what the guards dropped and the counters of
the assembler that ticked last, and nothing of the others (`dropped_telescopes`). It is exact, in
every state of a run, if and only if no tick meets the counters of another assembler that had lost
something (`losses_exact_iff`). -/

namespace LatticeAgent.Trace

open List Collector

/-- What a call passes to `AddDropped`. -/
def Shipped.lost : Shipped → Nat
  | .dropped n => n.toNat
  | _ => 0

namespace Collector

variable (sdk : Sdk) (c : Collector) (p : Pipeline)

/-- The sum of all that was passed to `AddDropped`. -/
def passed : Nat := (c.sent.map Shipped.lost).sum

/-- The pass of a pipeline that was taken down, whose goroutine has not seen that it is cancelled.
What it makes of the stream is about the pipeline that is running. -/
def latePass (taken : Bool) (now : Time) : Collector :=
  let running := (c.expireSessionsLocally sdk now).evaluateStream sdk now
  { ({ c with pipeline := some p }).tick sdk taken now with
    pipeline := c.pipeline
    haveLevel := running.haveLevel
    streamCancel := running.streamCancel
    streamEpoch := running.streamEpoch
    health := running.health }

/-- The pipeline that a config took down: it runs no longer, or another address is there. -/
def left (c' : Collector) : Option Pipeline :=
  c.pipeline.filter fun p => c'.pipeline.all fun p' => p'.addr ≠ p.addr

/-- What the guard of a pipeline that is taken down, if there is one, has dropped. -/
def owed (q : Option Pipeline) : Nat := q.elim 0 fun p => p.guard.take.1.2.toNat

/-! ### What the steps pass on -/

@[simp] theorem passed_addLines (ls : List TraceLine) : (c.addLines ls).passed = c.passed := by
  unfold passed addLines
  cases ls <;> simp [Shipped.lost]

theorem passed_route (l : Line) (now : Time) : (c.route sdk p l now).passed = c.passed := by
  rcases hid : l.hasLogID with - | -
  · rw [route_plain hid, passed_addLines]
    rfl
  · rcases ht : c.tagged.lookup l.logID with - | held
    · by_cases hm : (c.decide_ sdk p.asm l).sessionIDs = []
      · rw [route_waits hid ht hm, bufferPending_eq]
        rfl
      · rw [route_claims hid ht hm]
        dsimp only
        rw [passed_addLines, passed_addLines]
        rfl
    · rw [route_taken hid ht, passed_addLines]
      rfl

theorem passed_onEntry (entry : Option Line) (now : Time) :
    (c.onEntry sdk entry now).passed = c.passed := by
  unfold onEntry
  split
  · rfl
  · split
    · rfl
    · rw [passed_route]
      rfl

theorem passed_poll (answer : Except String ConnectionsSnapshot) (now : Time) :
    (c.pollConnections sdk answer now).passed = c.passed := by
  unfold pollConnections
  dsimp only
  split
  · rfl
  · split
    · rfl
    · split
      · simp [passed, noteCoreRestart, evaluateStream, Shipped.lost]
      · rfl

theorem passed_stop : c.stop.passed = c.passed + owed c.pipeline := by
  rcases hp : c.pipeline with - | p
  · simp [passed, stop, hp, owed]
  · simp only [passed, stop, hp, Option.elim_some, lastWords, owed]
    split <;> simp [Shipped.lost]

theorem passed_resubscribe (have_ : String) (force : Bool) :
    (c.resubscribe sdk have_ force).passed = c.passed := by
  unfold resubscribe
  split <;> rfl

variable (addr : String) (source : AddrSource) (node : NodeView) (now : Time)

theorem passed_bringUp : (c.bringUp sdk addr source node now).passed = c.passed := by
  unfold bringUp startPipeline
  cases node.secret with
  | error err => rfl
  | ok secret =>
    cases node.validateLoopbackAddr addr with
    | error err => rfl
    | ok _ =>
      refine (passed_resubscribe sdk _ _ _).trans ?_
      simp [passed, Shipped.lost]

theorem passed_refreshSecret : (c.refreshSecret sdk node).2.passed = c.passed := by
  unfold refreshSecret
  split <;> rfl

theorem passed_keepUp : (c.keepUp sdk addr source node).passed = c.passed :=
  (passed_resubscribe sdk _ _ _).trans (passed_refreshSecret sdk _ node)

theorem passed_reach :
    let c' := c.reach sdk addr source node now
    c'.passed = c.passed + owed (c.left c') := by
  unfold reach leave
  rcases hp : c.pipeline with - | p
  · simp [hp, left, owed, passed_bringUp]
  · by_cases haddr : p.addr = addr
    · obtain ⟨p', hp', haddr', -, -⟩ := keepUp_kept sdk hp addr source node
      have hleft : c.left (c.keepUp sdk addr source node) = none := by
        simp [left, hp, hp', haddr']
      simp only [hp, haddr, ne_eq, not_true_eq_false, if_false, hleft]
      exact passed_keepUp sdk c addr source node
    · have hleft : c.left (c.stop.bringUp sdk addr source node now) = some p := by
        rcases bringUp_cases sdk c.stop rfl addr source node now with
          hnone | ⟨-, p', opts, hp', haddr', -⟩
        · simp [left, hp, hnone]
        · simp [left, hp, hp', haddr', Ne.symm haddr]
      have hpassed := (passed_bringUp sdk c.stop addr source node now).trans c.passed_stop
      rw [hp] at hpassed
      simp only [ne_eq, haddr, not_false_eq_true, if_true]
      exact hpassed.trans (by rw [← hleft]; rfl)

/-- A config passes on what the guard of a pipeline that it takes down has dropped, and nothing
else. -/
theorem passed_applyConfig (cfg : TraceAgentConfig) :
    let c' := c.applyConfig sdk cfg node now
    c'.passed = c.passed + owed ((c.install sdk cfg now).left c') := by
  obtain ⟨state, detail, heq⟩ | ⟨detail, addr, source, heq⟩ := applyConfig_cases sdk c cfg node now
  · dsimp only
    have hleft : (c.install sdk cfg now).left
        ((c.install sdk cfg now).stop.setStatus sdk state detail "" .none now) =
          (c.install sdk cfg now).pipeline := by
      unfold left
      cases (c.install sdk cfg now).pipeline <;> rfl
    rw [heq, hleft]
    exact passed_stop _
  · dsimp only
    rw [heq]
    exact passed_reach sdk _ addr source node now

theorem forwardDelta_snd (last current : UInt64) : (forwardDelta last current).2 = current := by
  unfold forwardDelta
  dsimp only
  split
  · rfl
  · grind

theorem forwardDelta_fst (last current : UInt64) :
    (forwardDelta last current).1 = current - last := by
  unfold forwardDelta
  dsimp only
  split
  · rfl
  · grind

/-- What a tick does to the counters. -/
theorem tick_counters (taken : Bool) :
    let c' := ({ c with pipeline := some p }).tick sdk taken now
    let stats := (p.asm.tick now now).stats
    c'.lastAsmDropped = stats.dropped ∧ c'.lastAsmPartial = stats.partials ∧
      c'.passed = c.passed + (p.guard.take.1.2 + (stats.dropped - c.lastAsmDropped) +
        (stats.partials - c.lastAsmPartial)).toNat := by
  refine ⟨forwardDelta_snd _ _, forwardDelta_snd _ _, ?_⟩
  rw [passed, tick_sent sdk rfl, forwardDelta_fst, forwardDelta_fst]
  split <;> simp [passed, Shipped.lost]

end Collector

/-- A pipeline after a pass. -/
def Pipeline.ticked (p : Pipeline) (now : Time) : Pipeline :=
  { p with asm := (p.asm.tick now now).drain.2, guard := p.guard.take.2 }

/-- A pipeline after `stop`. -/
def Pipeline.takenDown (p : Pipeline) : Pipeline :=
  { p with asm := p.asm.drain.2, guard := p.guard.take.2 }

/-- What the goroutines of a pipeline that was taken down still do to it, besides the passes. -/
inductive Leftover where
  | asm (call : AsmCall)
  /-- The guard sees an entry. -/
  | entry (entry : Option Line) (now : Clock)
  | reset

def Leftover.run (sdk : Sdk) (p : Pipeline) : Leftover → Pipeline
  | .asm call => { p with asm := (AsmRun.step sdk ⟨p.asm, []⟩ call).asm }
  | .entry e now => { p with guard := (guarded p e now).2 }
  | .reset => { p with guard := p.guard.reset }

/-- A collector with the pipelines it took down, in the order they were started; the running one
comes after them, so its number is how many they are.

`reads` holds the counters of each assembler that has ticked, as its last tick read them, under the
number of its pipeline; the one that ticked last comes first. `guards` is what the guards gave as
dropped, and `wrapped` says whether a difference, or its sum with the guard's count, wrapped
around. -/
structure Ledger where
  c : Collector
  stopped : List Pipeline := []
  reads : List (Nat × UInt64 × UInt64) := []
  guards : Nat := 0
  wrapped : Bool := false

/-- What happens: an input of the collector, or something in a pipeline that was taken down. -/
inductive LossEvent where
  | input (now : Clock) (input : Input)
  | late (i : Nat) (taken : Bool) (now : Clock)
  | leftover (i : Nat) (l : Leftover)

namespace Ledger

variable (sdk : Sdk)

/-- The books of a collector that was just created. -/
def new (nodeID : String) (start : Time) : Ledger where
  c := newTraceCollector nodeID start

/-- No subtraction of the pass goes below zero, and the sum is in range. -/
def InRange (c : Collector) (p : Pipeline) (now : Time) : Prop :=
  let stats := (p.asm.tick now now).stats
  c.lastAsmDropped ≤ stats.dropped ∧ c.lastAsmPartial ≤ stats.partials ∧
    p.guard.take.1.2.toNat + (stats.dropped - c.lastAsmDropped).toNat +
      (stats.partials - c.lastAsmPartial).toNat < 2 ^ 64

instance (c : Collector) (p : Pipeline) (now : Time) : Decidable (InRange c p now) :=
  inferInstanceAs (Decidable (_ ∧ _ ∧ _))

/-- The books on a pass of pipeline `i`. -/
def note (b : Ledger) (i : Nat) (p : Pipeline) (now : Time) : Ledger :=
  let stats := (p.asm.tick now now).stats
  { b with
    reads := (i, stats.dropped, stats.partials) :: b.reads.filter fun r => r.1 ≠ i
    guards := b.guards + p.guard.take.1.2.toNat
    wrapped := b.wrapped || !decide (InRange b.c p now) }

/-- The pass that an event is, with the number of its pipeline. -/
def passOf (b : Ledger) : LossEvent → Option (Nat × Pipeline × Clock)
  | .input now (.tick _) => b.c.pipeline.map fun p => (b.stopped.length, p, now)
  | .late i _ now => b.stopped[i]?.map fun p => (i, p, now)
  | _ => none

/-- The books on an event that is no pass. -/
def other (b : Ledger) : LossEvent → Ledger
  | .input now (.config cfg node) =>
    let gone := (b.c.install sdk cfg now).left (b.c.applyConfig sdk cfg node now)
    { b with
      stopped := b.stopped ++ gone.toList.map Pipeline.takenDown
      guards := b.guards + owed gone }
  | .leftover i l => { b with stopped := b.stopped.modify i fun p => l.run sdk p }
  | _ => b

/-- The collector after an event. -/
def next (b : Ledger) : LossEvent → Collector
  | .input now input => b.c.step sdk now input
  | .late i taken now => b.stopped[i]?.elim b.c fun p => b.c.latePass sdk p taken now
  | .leftover .. => b.c

/-- One event. -/
def step (b : Ledger) (e : LossEvent) : Ledger :=
  match b.passOf e with
  | some (i, p, now) =>
    -- The running pipeline has no place in `stopped`: it is in the collector.
    { b.note i p now with c := b.next sdk e, stopped := b.stopped.set i (p.ticked now) }
  | none => { b.other sdk e with c := b.next sdk e }

/-- What an assembler's last tick read, as a loss. -/
def loss (r : Nat × UInt64 × UInt64) : Nat := r.2.1.toNat + r.2.2.toNat

/-- On account of the assemblers, what their last ticks read was passed to `AddDropped`, and nothing
wrapped around. -/
def Exact (b : Ledger) : Prop :=
  b.c.passed = b.guards + (b.reads.map loss).sum ∧ b.wrapped = false

/-- The condition on an event: a pass finds the forwarded counters at zero, or as the last pass of
its own assembler left them, and is in range. -/
def Fair (b : Ledger) (e : LossEvent) : Prop :=
  ∀ i p now, b.passOf e = some (i, p, now) →
    (b.c.lastAsmDropped = 0 ∧ b.c.lastAsmPartial = 0 ∨ b.reads.head?.map Prod.fst = some i) ∧
      InRange b.c p now

variable {b b' : Ledger} {e : LossEvent} {i : Nat} {p : Pipeline} {now : Clock}

/-! ### What an event does -/

/-- From `b` to `b'` nothing is read, and what is passed on is what a guard dropped. -/
structure Quiet (b b' : Ledger) : Prop where
  reads : b'.reads = b.reads
  wrapped : b'.wrapped = b.wrapped
  dropped : b'.c.lastAsmDropped = b.c.lastAsmDropped
  partials : b'.c.lastAsmPartial = b.c.lastAsmPartial
  passed : b'.c.passed + b.guards = b.c.passed + b'.guards

/-- `b'` is `b` after a pass of pipeline `i`. -/
structure Passes (b : Ledger) (i : Nat) (p : Pipeline) (now : Time) (b' : Ledger) : Prop where
  reads : b'.reads = (i, b'.c.lastAsmDropped, b'.c.lastAsmPartial) ::
    b.reads.filter fun r => r.1 ≠ i
  wrapped : b'.wrapped = (b.wrapped || !decide (InRange b.c p now))
  dropped : b'.c.lastAsmDropped = (p.asm.tick now now).stats.dropped
  partials : b'.c.lastAsmPartial = (p.asm.tick now now).stats.partials
  guards : b'.guards = b.guards + p.guard.take.1.2.toNat
  passed : b'.c.passed = b.c.passed + (p.guard.take.1.2 +
    (b'.c.lastAsmDropped - b.c.lastAsmDropped) +
    (b'.c.lastAsmPartial - b.c.lastAsmPartial)).toNat

theorem step_passes (h : b.passOf e = some (i, p, now)) : b.Passes i p now (b.step sdk e) := by
  have hnext : ∃ taken, let c' := ({ b.c with pipeline := some p }).tick sdk taken now
      (b.next sdk e).lastAsmDropped = c'.lastAsmDropped ∧
        (b.next sdk e).lastAsmPartial = c'.lastAsmPartial ∧
          (b.next sdk e).passed = c'.passed := by
    cases e with
    | leftover j l => cases h
    | late j taken now' =>
      obtain ⟨q, hq, heq⟩ := Option.map_eq_some_iff.mp h
      cases heq
      refine ⟨taken, ?_⟩
      simp only [next, hq, Option.elim_some]
      exact ⟨rfl, rfl, rfl⟩
    | input now' input =>
      cases input with
      | tick taken =>
        obtain ⟨q, hq, heq⟩ := Option.map_eq_some_iff.mp h
        cases heq
        rw [← hq]
        exact ⟨taken, rfl, rfl, rfl⟩
      | _ => cases h
  obtain ⟨taken, hdropped, hpartials, hpassed⟩ := hnext
  obtain ⟨hd, hq, hsum⟩ := tick_counters sdk b.c p now taken
  rw [hd] at hdropped
  rw [hq] at hpartials
  unfold step
  simp only [h]
  refine ⟨?_, rfl, hdropped, hpartials, rfl, ?_⟩
  · simp only [hdropped, hpartials]
    rfl
  · simp only [hdropped, hpartials]
    exact hpassed.trans hsum

theorem step_quiet (h : b.passOf e = none) : b.Quiet (b.step sdk e) := by
  have hsame {c : Collector} {stopped : List Pipeline} (hd : c.lastAsmDropped = b.c.lastAsmDropped)
      (hq : c.lastAsmPartial = b.c.lastAsmPartial) (hpassed : c.passed = b.c.passed) :
      b.Quiet { b with c := c, stopped := stopped } :=
    ⟨rfl, rfl, hd, hq, by rw [hpassed]⟩
  unfold step
  simp only [h]
  cases e with
  | leftover j l => exact hsame rfl rfl rfl
  | late j taken now' =>
    simp only [next, Option.map_eq_none_iff.mp h, Option.elim_none]
    exact hsame rfl rfl rfl
  | input now' input =>
    simp only [next]
    cases input with
    | tick taken =>
      simp only [Collector.step, tick, Option.map_eq_none_iff.mp h]
      exact hsame rfl rfl rfl
    | entry entry =>
      have hpassed := passed_onEntry sdk b.c entry now'
      simp only [Collector.step]
      rw [onEntry_eq] at hpassed ⊢
      exact hsame rfl rfl hpassed
    | poll answer =>
      have hpassed := passed_poll sdk b.c answer now'
      simp only [Collector.step]
      rw [poll_eq] at hpassed ⊢
      exact hsame rfl rfl hpassed
    | streamOpen | streamError =>
      rw [step_hook sdk b.c now' rfl]
      exact hsame rfl rfl rfl
    | config cfg node =>
      have hpassed := passed_applyConfig sdk b.c node now' cfg
      have hbooks := (b.c.applyConfig_books sdk cfg node now').eq
      refine ⟨rfl, rfl, ?_, ?_, ?_⟩
      · exact (congrArg lastAsmDropped hbooks :)
      · exact (congrArg lastAsmPartial hbooks :)
      · simp only [Collector.step, other]
        omega

/-! ### The counters along a run -/

/-- The forwarded counters are what the last tick read. In 64 bits, and as a number as long as
nothing wrapped, what was passed on for the assemblers telescopes to them. -/
structure Consistent (b : Ledger) : Prop where
  last : b.reads.head?.elim (0, 0) Prod.snd = (b.c.lastAsmDropped, b.c.lastAsmPartial)
  counted : UInt64.ofNat b.c.passed =
    UInt64.ofNat b.guards + b.c.lastAsmDropped + b.c.lastAsmPartial
  telescopes : b.wrapped = false →
    b.c.passed = b.guards + (b.c.lastAsmDropped.toNat + b.c.lastAsmPartial.toNat)

theorem Quiet.consistent (hq : b.Quiet b') (h : b.Consistent) : b'.Consistent := by
  refine ⟨?_, ?_, fun hw => ?_⟩
  · rw [hq.reads, hq.dropped, hq.partials]
    exact h.last
  · have hcounted := h.counted
    have hsum := congrArg UInt64.ofNat hq.passed
    rw [UInt64.ofNat_add, UInt64.ofNat_add] at hsum
    rw [hq.dropped, hq.partials]
    grind
  · have htel := h.telescopes (hq.wrapped.symm.trans hw)
    have hpassed := hq.passed
    rw [hq.dropped, hq.partials]
    omega

theorem Passes.consistent (hp : b.Passes i p now b') (h : b.Consistent) : b'.Consistent := by
  refine ⟨by rw [hp.reads]; rfl, ?_, fun hw => ?_⟩
  · rw [hp.passed, hp.guards, UInt64.ofNat_add, UInt64.ofNat_add, UInt64.ofNat_toNat,
      UInt64.ofNat_toNat, h.counted]
    grind
  · rw [hp.wrapped, Bool.or_eq_false_iff, Bool.not_eq_false', decide_eq_true_iff] at hw
    obtain ⟨hw, hd, hq, hsum⟩ := hw
    have hd' := UInt64.le_iff_toNat_le.mp hd
    have hq' := UInt64.le_iff_toNat_le.mp hq
    rw [hp.passed, hp.guards, h.telescopes hw, hp.dropped, hp.partials]
    simp only [UInt64.toNat_sub_of_le _ _ hd, UInt64.toNat_sub_of_le _ _ hq] at hsum
    simp only [UInt64.toNat_add, UInt64.toNat_sub_of_le _ _ hd, UInt64.toNat_sub_of_le _ _ hq]
    omega

theorem Consistent.step (b : Ledger) (e : LossEvent) (h : b.Consistent) :
    (b.step sdk e).Consistent := by
  rcases hpass : b.passOf e with - | ⟨i, p, now⟩
  · exact (step_quiet sdk hpass).consistent h
  · exact (step_passes sdk hpass).consistent h

theorem consistent_new (nodeID : String) (start : Time) : (new nodeID start).Consistent :=
  ⟨rfl, rfl, fun _ => rfl⟩

/-- **Only the assembler that ticked last is counted.**  Whatever starts, stops and ticks, all that
was ever passed to `AddDropped` is in 64 bits what the guards dropped and the two counters of one
assembler, as the last tick of all read them: what the ticks of earlier assemblers reported is taken
back. -/
theorem dropped_telescopes (nodeID : String) (start : Time) (events : List LossEvent) :
    let b := Runs.run (step sdk) (new nodeID start) events
    let last := b.reads.head?.elim (0, 0) Prod.snd
    UInt64.ofNat b.c.passed = UInt64.ofNat b.guards + last.1 + last.2 := by
  have h :=
    Runs.invariant_always Consistent (Consistent.step sdk) (consistent_new nodeID start) events
  dsimp only
  rw [h.last]
  exact h.counted

/-! ### When it is exact -/

theorem loss_eq_zero {r : Nat × UInt64 × UInt64} : loss r = 0 ↔ r.2.1 = 0 ∧ r.2.2 = 0 := by
  simp [loss, ← UInt64.toNat_inj]

/-- Where only the first has read a loss, the others than `i` have read none if the first has not or
is `i`. -/
theorem sum_others {r : Nat × UInt64 × UInt64} {rest : List (Nat × UInt64 × UInt64)}
    (h : (rest.map loss).sum = 0) (i : Nat) :
    (((r :: rest).filter fun r => r.1 ≠ i).map loss).sum = 0 ↔ loss r = 0 ∨ r.1 = i := by
  have hrest : ((rest.filter fun r => r.1 ≠ i).map loss).sum = 0 :=
    Nat.le_zero.mp (h ▸ (filter_sublist.map loss).sum_le_sum (by simp))
  by_cases hi : r.1 = i
  · rw [filter_cons_of_neg (by simpa using hi), hrest]
    simp [hi]
  · rw [filter_cons_of_pos (by simpa using hi), map_cons, sum_cons, hrest]
    simp [hi]

/-- The step of both directions: after an exact state comes an exact one if and only if the event is
fair. -/
theorem Exact.step_iff (h : b.Consistent) (hb : b.Exact) : (b.step sdk e).Exact ↔ b.Fair e := by
  obtain ⟨hsum, hw⟩ := hb
  rcases hpass : b.passOf e with - | ⟨i, p, now⟩
  · have hq := step_quiet sdk hpass
    have hpassed := hq.passed
    refine iff_of_true ⟨?_, hq.wrapped.trans hw⟩ fun i p now hc => ?_
    · rw [hq.reads]
      omega
    · rw [hpass] at hc
      cases hc
  · have hp := step_passes sdk hpass
    have hfair : b.Fair e ↔ (b.c.lastAsmDropped = 0 ∧ b.c.lastAsmPartial = 0 ∨
        b.reads.head?.map Prod.fst = some i) ∧ InRange b.c p now := by
      simp [Fair, hpass]
    have hwrapped : (b.step sdk e).wrapped = false ↔ InRange b.c p now := by
      simp [hp.wrapped, hw]
    rw [hfair, Exact, hwrapped]
    refine and_congr_left fun hrange => ?_
    -- What the others' last ticks read is in the sum and not in what was passed on.
    rw [(hp.consistent h).telescopes (hwrapped.mpr hrange), hp.reads, map_cons, sum_cons, loss,
      Nat.add_left_cancel_iff, Nat.left_eq_add]
    have htel := h.telescopes hw
    have hlast := h.last
    rcases hreads : b.reads with - | ⟨r, rest⟩
    · rw [hreads] at hlast
      have hd : 0 = b.c.lastAsmDropped := congrArg Prod.fst hlast
      have hq : 0 = b.c.lastAsmPartial := congrArg Prod.snd hlast
      simp [← hd, ← hq]
    · rw [hreads] at hlast hsum
      have hd : r.2.1 = b.c.lastAsmDropped := congrArg Prod.fst hlast
      have hq : r.2.2 = b.c.lastAsmPartial := congrArg Prod.snd hlast
      have hrest : (rest.map loss).sum = 0 := by
        rw [map_cons, sum_cons, loss, hd, hq] at hsum
        omega
      rw [sum_others hrest, loss_eq_zero, hd, hq]
      simp

/-- **Losses are forwarded exactly once if and only if no tick meets another assembler's
losses.**  In every state of a run, what was passed to `AddDropped` is what the guards dropped and
the sum over all assemblers of what their last ticks read, with nothing wrapped around, exactly when
each tick of the run finds the forwarded counters at zero, or finds them as its own assembler's last
tick left them, and is in range. -/
theorem losses_exact_iff (nodeID : String) (start : Time) (events : List LossEvent) :
    (∀ k, (Runs.run (step sdk) (new nodeID start) (events.take k)).Exact) ↔
      Runs.Along (step sdk) Fair (new nodeID start) events :=
  Runs.along_iff Consistent Exact (Consistent.step sdk) (fun _ _ h hb => hb.step_iff sdk h)
    (consistent_new nodeID start) ⟨rfl, rfl⟩ events

/-- The collector of the ledger is the collector itself. -/
theorem run_inputs (b : Ledger) (inputs : List (Clock × Input)) :
    (Runs.run (step sdk) b (inputs.map fun i => .input i.1 i.2)).c = b.c.run sdk inputs := by
  induction inputs generalizing b with
  | nil => rfl
  | cons i inputs ih =>
    have hnext : (b.step sdk (.input i.1 i.2)).c = b.c.step sdk i.1 i.2 := by
      unfold step
      split <;> rfl
    refine (ih (b.step sdk (.input i.1 i.2))).trans ?_
    rw [hnext]
    rfl

/-- The number of the running pipeline changes with its assembler: a config that takes no pipeline
down leaves the assembler of the running one. -/
theorem asm_of_left {c : Collector} {cfg : TraceAgentConfig} {node : NodeView} {p p' : Pipeline}
    (hp : c.pipeline = some p) (hp' : (c.applyConfig sdk cfg node now).pipeline = some p') :
    if ((c.install sdk cfg now).left (c.applyConfig sdk cfg node now)).isNone then p'.asm = p.asm
    else ∃ opts, p'.asm = .new opts := by
  have hinstall : (c.install sdk cfg now).pipeline = some
      { p with guard := p.guard.setBudget (effectiveBudget cfg.policy.budgetLinesPerSec) } :=
    congrArg (Option.map _) hp
  simp only [left, hinstall, hp']
  cases applyConfig_configured sdk c cfg node now with
  | stopped hnone => exact absurd (hnone.symm.trans hp') (Option.some_ne_none p').symm
  | kept hq hq' haddr hasm =>
    cases hp.symm.trans hq
    cases hp'.symm.trans hq'
    simpa [Option.filter, haddr] using hasm
  | starts hq' hasm hother =>
    cases hp'.symm.trans hq'
    simpa [Option.filter, (hother p hp).symm] using ⟨_, hasm⟩

/-- A close line of a connection nothing else is known of, which is lost as partial. -/
def orphanLine (id : UInt32) : Line :=
  { event := .connectionClosed, hasLogID := true, logID := id }

/-- The node is traced by the core at an address. -/
def tracedAt (addr : String) : Input :=
  .config { policy := { enabled := true, level := "info", clashAPIAddr := addr } } openNode

/-- Two losses, another Clash API, and one more loss. -/
def restartedLosses : List (Clock × Input) :=
  [(1, tracedAt "127.0.0.1:9090"), (2, .entry (some (orphanLine 1))),
    (2, .entry (some (orphanLine 2))), (3, .tick true), (4, tracedAt "127.0.0.1:9091"),
    (5, .entry (some (orphanLine 3))), (6, .tick true)]

/-- The new assembler's one loss is forwarded as `1 - 2`. -/
theorem restart_forwards_wrapped :
    let c := (newTraceCollector "node" 0).run asciiSdk restartedLosses
    let b := Runs.run (step asciiSdk) (new "node" 0) (restartedLosses.map fun i => .input i.1 i.2)
    b.c = c ∧ c.passed = 2 + (2 ^ 64 - 1) ∧ b.guards = 0 ∧ b.reads = [(1, 0, 1), (0, 0, 2)] ∧
      b.wrapped = true ∧ ¬ b.Exact := by
  intro c b
  have hwrapped : b.wrapped = true := by decide +kernel
  refine ⟨run_inputs asciiSdk (new "node" 0) restartedLosses, by decide +kernel, by decide +kernel,
    by decide +kernel, hwrapped, fun hexact => ?_⟩
  exact Bool.false_ne_true (hexact.2.symm.trans hwrapped)

end Ledger
end LatticeAgent.Trace
