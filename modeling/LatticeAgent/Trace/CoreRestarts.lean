import LatticeAgent.Lib.Runs
import LatticeAgent.Trace.Expiry
import LatticeAgent.Trace.Verdicts

/-! # Declaring a restart of the core

The totals of one core only grow, so `pollConnections` takes a decrease for a new process, closes
every open connection as `core_restart` and moves the generation on. The totals it compares with
belong to the collector and survive `stop` and `startPipeline`, while another pipeline polls
another Clash API.

`Watch` follows a collector and remembers the last successful poll of the running pipeline; every
declared restart is one that two polls of one pipeline have shown exactly if no pipeline's first
successful poll is below the totals remembered from before (`restarts_shown_iff`). -/

namespace LatticeAgent.Trace

open List Collector

/-- The assembler after a sequence of calls. -/
def Assembler.serve (sdk : Sdk) (a : Assembler) (calls : List AsmCall) : Assembler :=
  (AsmRun.run sdk ⟨a, []⟩ calls).asm

/-- The call says that the core has restarted. -/
def AsmCall.restarts : AsmCall → Bool
  | .coreRestart .. => true
  | _ => false

/-- The totals that a successful poll shows. -/
structure Totals where
  upload : Int
  download : Int
deriving DecidableEq, Repr

/-- The totals that an input shows, if it is a successful poll. -/
def Input.totals : Input → Option Totals
  | .poll (.ok snap) => some ⟨snap.uploadTotal, snap.downloadTotal⟩
  | _ => none

namespace Collector

variable (sdk : Sdk) (c : Collector)

/-- What a poll compares with, and the generation it moves on. -/
def memory : Bool × Int × Int × UInt64 := (c.sawTotals, c.lastUpload, c.lastDownload, c.generation)

/-! ### What the steps do to the pipeline -/

/-- The pipeline runs on, and its assembler has taken these calls. -/
def RunsOn (c c' : Collector) (calls : List AsmCall) : Prop :=
  ∃ p p', c.pipeline = some p ∧ c'.pipeline = some p' ∧ p'.addr = p.addr ∧
    p'.asm = p.asm.serve sdk calls

/-- A new pipeline runs, against another address if there was one before. -/
def Starts (c c' : Collector) : Prop :=
  ∃ p' opts, c'.pipeline = some p' ∧ p'.asm = Assembler.new opts ∧
    ∀ p, c.pipeline = some p → p.addr ≠ p'.addr

variable {p : Pipeline}

theorem runsOn_of_eq {c c' : Collector} (hp : c.pipeline = some p) (heq : c'.pipeline = c.pipeline) :
    RunsOn sdk c c' [] :=
  ⟨p, p, hp, heq.trans hp, rfl, rfl⟩

theorem entry_runsOn (hp : c.pipeline = some p) (entry : Option Line) (now : Time) :
    ∃ calls, RunsOn sdk c (c.onEntry sdk entry now) calls ∧
      ∀ call ∈ calls, call.restarts = false := by
  obtain ⟨p', hp', haddr, hasm⟩ := onEntry_pipeline sdk hp entry now
  obtain hasm | ⟨l, hasm | ⟨ids, hasm⟩⟩ := hasm
  · exact ⟨[], ⟨p, p', hp, hp', haddr, hasm⟩, forall_mem_nil _⟩
  · exact ⟨[.line l now], ⟨p, p', hp, hp', haddr, hasm⟩, by simp [AsmCall.restarts]⟩
  · exact ⟨[.line l now, .tag l.logID ids], ⟨p, p', hp, hp', haddr, hasm⟩,
      by simp [AsmCall.restarts]⟩

theorem tick_runsOn (hp : c.pipeline = some p) (taken : Bool) (now : Time) :
    RunsOn sdk c (c.tick sdk taken now) [.tick now now, .drain] :=
  ⟨p, _, hp, congrArg pipeline (tick_eq sdk hp taken now), rfl, rfl⟩

theorem generation_ne (g : UInt64) : g + 1 ≠ g := by
  intro h
  have := congrArg UInt64.toNat h
  have := g.toNat_lt
  simp only [UInt64.toNat_add, UInt64.toNat_one] at *
  omega

theorem poll_runsOn (hp : c.pipeline = some p) (snap : ConnectionsSnapshot) (now : Time) :
    ∃ calls, RunsOn sdk c (c.pollConnections sdk (.ok snap) now) calls ∧
      (c.regressed snap = false → ∀ call ∈ calls, call.restarts = false) := by
  obtain ⟨-, -, -, -, p', hp', haddr, hasm⟩ := poll_ok sdk hp snap now
  cases hreg : c.regressed snap with
  | true =>
    rw [hreg, if_pos rfl] at hasm
    exact ⟨[.coreRestart (c.generation + 1) now now, .snapshot snap.table now],
      ⟨p, p', hp, hp', haddr, hasm⟩, nofun⟩
  | false =>
    rw [hreg, if_neg Bool.false_ne_true] at hasm
    exact ⟨[.snapshot snap.table now], ⟨p, p', hp, hp', haddr, hasm⟩,
      fun _ => by simp [AsmCall.restarts]⟩

theorem step_memory (now : Clock) (input : Input) (h : input.totals = none ∨ c.pipeline = none) :
    (c.step sdk now input).memory = c.memory := by
  cases input with
  | entry line =>
    rw [step, onEntry_eq]
    rfl
  | tick taken =>
    rcases hp : c.pipeline with - | p
    · simp [step, tick, hp]
    · rw [step, tick_eq sdk hp, expire_eq]
      rfl
  | poll answer =>
    cases answer with
    | error err =>
      rw [step, poll_error]
      rfl
    | ok snap =>
      have hp : c.pipeline = none := h.resolve_left (by simp [Input.totals])
      simp [step, pollConnections, hp]
  | streamOpen | streamError =>
    rw [step_hook sdk c now rfl]
    rfl
  | config cfg node =>
    rw [step, (c.applyConfig_books sdk cfg node now).eq]
    rfl

/-- After a step there is no pipeline, the one there was, or a new one; and the assembler of one
that runs on is told of a restart only if the generation moves. -/
inductive Stepped (c c' : Collector) : Prop
  | stopped (h : c'.pipeline = none)
  | runsOn (calls : List AsmCall) (h : RunsOn sdk c c' calls)
      (hcalls : c'.generation = c.generation → ∀ call ∈ calls, call.restarts = false)
  | starts (h : Starts c c')

theorem step_stepped (now : Clock) (input : Input) : Stepped sdk c (c.step sdk now input) := by
  have hsame {c' : Collector} (heq : c'.pipeline = c.pipeline) : Stepped sdk c c' := by
    rcases hp : c.pipeline with - | p
    · exact .stopped (heq.trans hp)
    · exact .runsOn [] (runsOn_of_eq sdk hp heq) fun _ => forall_mem_nil _
  cases input with
  | entry line =>
    rcases hp : c.pipeline with - | p
    · exact hsame (congrArg pipeline (onEntry_stopped hp line))
    · obtain ⟨calls, h, hcalls⟩ := entry_runsOn sdk c hp line now
      exact .runsOn calls h fun _ => hcalls
  | tick taken =>
    rcases hp : c.pipeline with - | p
    · exact hsame (by simp [step, tick, hp])
    · refine .runsOn _ (tick_runsOn sdk c hp taken now) fun _ => ?_
      simp [AsmCall.restarts]
  | poll answer =>
    rcases hp : c.pipeline with - | p
    · exact hsame (by simp [step, pollConnections, hp])
    · cases answer with
      | error err => exact hsame (by rw [step, poll_error])
      | ok snap =>
        obtain ⟨-, -, -, hgen, -⟩ := poll_ok sdk hp snap now
        obtain ⟨calls, h, hcalls⟩ := poll_runsOn sdk c hp snap now
        refine .runsOn calls h fun heq => hcalls ?_
        cases hreg : c.regressed snap with
        | false => rfl
        | true =>
          rw [hreg, if_pos rfl] at hgen
          exact absurd (hgen.symm.trans heq) (generation_ne _)
  | streamOpen | streamError => exact hsame (by rw [step_hook sdk c now rfl])
  | config cfg node =>
    cases applyConfig_configured sdk c cfg node now with
    | stopped h => exact .stopped h
    | kept hp hp' haddr hasm =>
      exact .runsOn [] ⟨_, _, hp, hp', haddr, hasm⟩ fun _ => forall_mem_nil _
    | starts hp' hasm hother => exact .starts ⟨_, _, hp', hasm, hother⟩

end Collector

/-! ### Which records say that the core restarted -/

theorem closeReasonFor_ne_coreRestart {sdk : Sdk} {err : String} {whenEmpty : CloseReason}
    (h : whenEmpty ≠ .coreRestart) : closeReasonFor sdk err whenEmpty ≠ .coreRestart := by
  unfold closeReasonFor
  dsimp only
  (repeat' split) <;> first | exact h | nofun

theorem Line.whenEmpty_ne_coreRestart (l : Line) : l.whenEmpty ≠ .coreRestart := by
  unfold whenEmpty
  (repeat' split) <;> nofun

theorem Shown.reason {sdk : Sdk} {h : List Evidence} {c : Conn} (hs : Shown sdk h c) :
    c.close.reason ≠ some .coreRestart := by
  rw [hs.close]
  rcases (halfCloses h).argmax Line.rank with - | l
  · nofun
  · exact fun heq =>
      closeReasonFor_ne_coreRestart l.whenEmpty_ne_coreRestart (Option.some.inj heq)

namespace AsmRun

open Assembler

variable {sdk : Sdk} {s : AsmRun}

theorem reason_of_ends {h : List Evidence} {r : Nat} {call : AsmCall} {e : Ending}
    (hb : s.asm.Consistent) (hends : Ends sdk s.asm r call e)
    (hs : Shown sdk h ((s.step sdk call).asm.conn r)) (hcall : call.restarts = false) :
    e.cand.reason ≠ some .coreRestart := by
  cases hends with
  | @line l clock e htarget he =>
    rw [conn_of_target hb htarget] at hs
    obtain ⟨-, hcand, -⟩ | ⟨-, reason, hcand, hreason⟩ := Conn.lineEnding_cases he
    · rw [hcand]
      exact hs.reason
    · rw [hcand]
      refine fun heq => ?_
      obtain ⟨-, rfl⟩ | rfl | rfl | rfl := hreason
      · exact closeReasonFor_ne_coreRestart (by decide) (Option.some.inj heq)
      all_goals cases heq
  | collision => nofun
  | @tick now clock e hr he =>
    rw [conn_of_tickEnding hb he] at hs
    unfold Conn.tickEnding at he
    split at he
    · cases he
      exact hs.reason
    · split at he
      · cases he
        nofun
      · cases he
  | @sweep snap clock e hr he =>
    have hconn : (s.step sdk (.snapshot snap clock)).asm.conn r = _ :=
      snapshot_conn sdk hb snap clock r
    rw [hconn] at hs
    unfold Conn.sweepEnding at he
    split at he
    · split at he
      · cases he
        nofun
      · cases he
        exact hs.reason
    · cases he
  | restart hr => cases hcall

theorem run_asm {s s' : AsmRun} (h : s.asm = s'.asm) (calls : List AsmCall) :
    (s.run sdk calls).asm = (s'.run sdk calls).asm := by
  induction calls generalizing s s' with
  | nil => exact h
  | cons call calls ih =>
    refine ih ?_
    cases call <;> simp only [step, h]

theorem serve_append {a : Assembler} {opts : Options} {past : List AsmCall}
    (h : a = (run sdk ⟨.new opts, []⟩ past).asm) (calls : List AsmCall) :
    a.serve sdk calls = (run sdk ⟨.new opts, []⟩ (past ++ calls)).asm := by
  rw [run, foldl_append]
  exact run_asm h calls

theorem serve_finals (opts : Options) (past : List AsmCall) {calls : List AsmCall}
    (hcalls : ∀ call ∈ calls, call.restarts = false) :
    ∃ new, (run sdk ⟨.new opts, []⟩ (past ++ calls)).asm.finals =
        (run sdk ⟨.new opts, []⟩ past).asm.finals ++ new ∧
      ∀ x ∈ new, x.2.closeReason ≠ some .coreRestart := by
  induction calls using reverseRecOn with
  | nil =>
    refine ⟨[], ?_, forall_mem_nil _⟩
    rw [append_nil, append_nil]
  | append_singleton calls call ih =>
    obtain ⟨new, hnew, hne⟩ := ih fun c hc => hcalls c (mem_append_left _ hc)
    have htold := told sdk opts (past ++ calls)
    have hnext := told sdk opts (past ++ calls ++ [call])
    obtain ⟨more, hmore, -, hends⟩ :
        ∃ more, ((run sdk ⟨.new opts, []⟩ (past ++ calls)).step sdk call).asm.finals = _ ++ more ∧ _ :=
      step_records htold.linked.consistent call
    rw [← run_concat] at hmore hends
    rw [← append_assoc, hmore, hnew, append_assoc]
    refine ⟨new ++ more, rfl, fun x hx => ?_⟩
    obtain hx | hx := mem_append.mp hx
    · exact hne x hx
    · obtain ⟨e, gen, he, hrec⟩ := hends x hx
      have hlt : x.1 < _ := (hnext.linked.finals x
        (hmore ▸ mem_append_right _ hx)).1
      have hshown := hnext.shown x.1 hlt
      rw [run_concat] at hshown
      have hreason := reason_of_ends htold.linked.consistent he hshown
        (hcalls call (mem_append_right _ (mem_singleton_self _)))
      rw [hrec]
      change some (e.cand.reason.getD .unknown) ≠ _
      intro heq
      cases hcand : e.cand.reason with
      | none =>
        rw [hcand] at heq
        cases heq
      | some reason =>
        rw [hcand] at heq hreason
        exact hreason heq

end AsmRun

/-! ### Declared restarts -/

/-- A restart that was declared: what the same pipeline's poll before showed, if there was one,
and what the poll that declared it showed. -/
structure Declaration where
  before : Option Totals
  now : Option Totals
deriving DecidableEq, Repr

/-- Two consecutive polls of one pipeline show a decrease. -/
def Declaration.Shown (d : Declaration) : Prop :=
  ∃ t t', d.before = some t ∧ d.now = some t' ∧ (t'.upload < t.upload ∨ t'.download < t.download)

/-- A collector, with what the proofs remember of its polls. -/
structure Watch where
  collector : Collector
  /-- What the last successful poll of the running pipeline showed. -/
  last : Option Totals := none
  restarts : List Declaration := []
  /-- The records closed as `core_restart`, each with what was declared at the step that closed
  it. -/
  closed : List (ConnRecord × Option Declaration) := []

namespace Collector

/-- The pipeline of `c` still runs in `c'`. A pipeline is replaced only by one against another
address, or after a step without any. -/
def samePipeline (c c' : Collector) : Bool :=
  match c.pipeline, c'.pipeline with
  | some p, some p' => p'.addr == p.addr
  | _, _ => false

/-- The final records of the running pipeline. -/
def finals (c : Collector) : List ConnRecord :=
  c.pipeline.elim [] fun p => p.asm.finals.map (·.2)

/-- The records that a step closed as `core_restart`. -/
def closedRecords (c c' : Collector) : List ConnRecord :=
  (c'.finals.drop (if c.samePipeline c' then c.finals.length else 0)).filter
    fun rec => rec.closeReason == some .coreRestart

end Collector

namespace Watch

variable (sdk : Sdk)

/-- What a step declares: only a restart moves the generation. -/
def declares (w : Watch) (i : Clock × Input) : Option Declaration :=
  if (w.collector.step sdk i.1 i.2).generation = w.collector.generation then none
  else some ⟨w.last, i.2.totals⟩

/-- A collector that was just created. -/
def new (nodeID : String) (start : Time) : Watch where
  collector := newTraceCollector nodeID start

def step (w : Watch) (i : Clock × Input) : Watch :=
  let c' := w.collector.step sdk i.1 i.2
  { collector := c'
    last := if w.collector.samePipeline c' then i.2.totals <|> w.last else none
    restarts := w.restarts ++ (w.declares sdk i).toList
    closed := w.closed ++ (w.collector.closedRecords c').map fun rec => (rec, w.declares sdk i) }

/-- Every restart declared is one that two consecutive polls of the same pipeline have shown, and
no connection is closed as `core_restart` but by one of them. -/
structure Sound (w : Watch) : Prop where
  restarts : ∀ d ∈ w.restarts, d.Shown
  closed : ∀ x ∈ w.closed, ∃ d, x.2 = some d ∧ d.Shown

/-- The first successful poll of a pipeline is not below the totals remembered from before. -/
def Fits (w : Watch) (i : Clock × Input) : Prop :=
  ∀ t, i.2.totals = some t → w.collector.pipeline.isSome = true → w.last = none →
    w.collector.sawTotals = true →
    w.collector.lastUpload ≤ t.upload ∧ w.collector.lastDownload ≤ t.download

variable {sdk}

/-- What is remembered is what the running pipeline's last poll showed, and its assembler is one
that calls have brought to where it is. -/
structure Inv (sdk : Sdk) (w : Watch) : Prop where
  remembered : ∀ t, w.last = some t → w.collector.sawTotals = true ∧
    w.collector.lastUpload = t.upload ∧ w.collector.lastDownload = t.download
  reached : ∀ p, w.collector.pipeline = some p →
    ∃ opts past, p.asm = (AsmRun.run sdk ⟨.new opts, []⟩ past).asm

theorem Inv.new (nodeID : String) (start : Time) : (Watch.new nodeID start).Inv sdk := by
  refine ⟨fun t ht => ?_, fun p hp => ?_⟩
  · cases ht
  · cases hp

theorem samePipeline_eq {c c' : Collector} (h : c.samePipeline c') :
    ∃ p p', c.pipeline = some p ∧ c'.pipeline = some p' ∧ p'.addr = p.addr := by
  unfold samePipeline at h
  split at h
  · rename_i p p' hp hp'
    exact ⟨p, p', hp, hp', beq_iff_eq.mp h⟩
  · cases h

theorem samePipeline_of {c c' : Collector} {calls : List AsmCall}
    (h : Collector.RunsOn sdk c c' calls) : c.samePipeline c' := by
  obtain ⟨p, p', hp, hp', haddr, -⟩ := h
  simp [samePipeline, hp, hp', haddr]

theorem Inv.step {w : Watch} (h : w.Inv sdk) (i : Clock × Input) : (w.step sdk i).Inv sdk := by
  refine ⟨fun t ht => ?_, fun p' hp' => ?_⟩
  · -- A pipeline that runs on has polled now, or nothing has changed the totals.
    change (if w.collector.samePipeline (w.collector.step sdk i.1 i.2) then i.2.totals <|> w.last
      else none) = some t at ht
    split at ht
    · rename_i hsame
      obtain ⟨p, -, hp, -, -⟩ := samePipeline_eq hsame
      obtain ⟨now, input⟩ := i
      rcases htot : input.totals with - | t'
      · rw [htot] at ht
        have hmem := step_memory sdk w.collector now input (.inl htot)
        obtain ⟨hsaw, hup, hdown⟩ := h.remembered t ht
        exact ⟨(congrArg (·.1) hmem).trans hsaw, (congrArg (·.2.1) hmem).trans hup,
          (congrArg (·.2.2.1) hmem).trans hdown⟩
      · rw [htot] at ht
        cases ht
        unfold Input.totals at htot
        split at htot
        · cases htot
          obtain ⟨hsaw, hup, hdown, -⟩ := Collector.poll_ok sdk hp _ now
          exact ⟨hsaw, hup, hdown⟩
        · cases htot
    · cases ht
  · change (w.collector.step sdk i.1 i.2).pipeline = some p' at hp'
    cases step_stepped sdk w.collector i.1 i.2 with
    | stopped hnone => exact absurd (hnone.symm.trans hp') (Option.some_ne_none p').symm
    | runsOn calls hruns _ =>
      obtain ⟨p, q, hp, hq, -, hasm⟩ := hruns
      cases hq.symm.trans hp'
      obtain ⟨opts, past, hpast⟩ := h.reached p hp
      exact ⟨opts, past ++ calls, hasm.trans (AsmRun.serve_append hpast calls)⟩
    | starts hstarts =>
      obtain ⟨q, opts, hq, hasm, -⟩ := hstarts
      cases hq.symm.trans hp'
      exact ⟨opts, [], hasm⟩

theorem closedRecords_of_declares {w : Watch} (h : w.Inv sdk) {i : Clock × Input}
    (hnone : w.declares sdk i = none) :
    w.collector.closedRecords (w.collector.step sdk i.1 i.2) = [] := by
  have hgen : (w.collector.step sdk i.1 i.2).generation = w.collector.generation := by
    unfold declares at hnone
    split at hnone
    · assumption
    · cases hnone
  unfold closedRecords
  cases step_stepped sdk w.collector i.1 i.2 with
  | stopped hstop => simp [finals, hstop]
  | runsOn calls hruns hcalls =>
    rw [samePipeline_of hruns]
    obtain ⟨p, p', hp, hp', -, hasm⟩ := hruns
    obtain ⟨opts, past, hpast⟩ := h.reached p hp
    obtain ⟨new, hnew, hne⟩ := AsmRun.serve_finals opts past (hcalls hgen)
    have hfinals : p'.asm.finals = p.asm.finals ++ new := by
      rw [hasm, AsmRun.serve_append hpast, hnew, hpast]
    simp only [finals, hp, hp', Option.elim_some, if_true, hfinals, map_append,
      drop_left]
    refine filter_eq_nil_iff.mpr fun rec hrec => ?_
    obtain ⟨x, hx, rfl⟩ := mem_map.mp hrec
    simpa using hne x hx
  | starts hstarts =>
    obtain ⟨p', opts, hp', hasm, -⟩ := hstarts
    simp [finals, hp', hasm, Assembler.new]

theorem declares_cases (sdk : Sdk) (w : Watch) (i : Clock × Input) :
    (w.declares sdk i = none ∧ ∀ t, i.2.totals = some t → w.collector.pipeline.isSome →
      w.collector.sawTotals →
      w.collector.lastUpload ≤ t.upload ∧ w.collector.lastDownload ≤ t.download) ∨
    ∃ t, w.declares sdk i = some ⟨w.last, some t⟩ ∧ i.2.totals = some t ∧
      w.collector.pipeline.isSome ∧ w.collector.sawTotals ∧
      (t.upload < w.collector.lastUpload ∨ t.download < w.collector.lastDownload) := by
  obtain ⟨now, input⟩ := i
  by_cases hquiet : input.totals = none ∨ w.collector.pipeline = none
  · have hgen : (w.collector.step sdk now input).generation = w.collector.generation :=
      congrArg (·.2.2.2) (step_memory sdk w.collector now input hquiet)
    refine .inl ⟨if_pos hgen, fun t ht hp => ?_⟩
    obtain h | h := hquiet
    · cases h.symm.trans ht
    · rw [h] at hp
      cases hp
  · obtain ⟨htot, hrun⟩ := not_or.mp hquiet
    obtain ⟨p, hp⟩ := Option.ne_none_iff_exists'.mp hrun
    cases input with
    | poll answer =>
      cases answer with
      | error err => exact absurd rfl htot
      | ok snap =>
        obtain ⟨-, -, -, hgen, -⟩ := Collector.poll_ok sdk hp snap now
        cases hreg : w.collector.regressed snap with
        | false =>
          rw [hreg, if_neg Bool.false_ne_true] at hgen
          refine .inl ⟨if_pos hgen, fun t ht _ hsaw => ?_⟩
          cases ht
          simpa [regressed, hsaw] using hreg
        | true =>
          rw [hreg, if_pos rfl] at hgen
          have hne : (w.collector.step sdk now (.poll (.ok snap))).generation ≠
              w.collector.generation := fun heq =>
            Collector.generation_ne _ (hgen.symm.trans heq)
          refine .inr ⟨_, if_neg hne, rfl, by rw [hp]; rfl, ?_⟩
          simpa [regressed] using hreg
    | _ => exact absurd rfl htot

/-- One step: what is declared is shown exactly if the step fits. -/
theorem sound_step {w : Watch} (h : w.Inv sdk) (hs : w.Sound) (i : Clock × Input) :
    (w.step sdk i).Sound ↔ w.Fits i := by
  obtain ⟨hnone, hle⟩ | ⟨t, hsome, htot, hrun, hsaw, hlt⟩ := declares_cases sdk w i
  · refine iff_of_true ⟨?_, ?_⟩ fun t ht hp _ => hle t ht hp
    · rw [step, hnone]
      simpa using hs.restarts
    · rw [step, closedRecords_of_declares h hnone]
      simpa using hs.closed
  · have hshown : (w.step sdk i).Sound ↔ Declaration.Shown ⟨w.last, some t⟩ := by
      constructor
      · intro hsound
        refine hsound.restarts _ (mem_append_right _ ?_)
        rw [hsome]
        exact mem_singleton_self _
      · intro hd
        refine ⟨fun d hmem => ?_, fun x hmem => ?_⟩
        · obtain hmem | hmem := mem_append.mp hmem
          · exact hs.restarts d hmem
          · rw [hsome] at hmem
            rw [mem_singleton.mp hmem]
            exact hd
        · obtain hmem | hmem := mem_append.mp hmem
          · exact hs.closed x hmem
          · obtain ⟨rec, -, rfl⟩ := mem_map.mp hmem
            exact ⟨_, hsome, hd⟩
    rw [hshown]
    rcases hlast : w.last with - | t₀
    · -- The pipeline has not polled before.
      refine iff_of_false (fun ⟨_, _, hbefore, _⟩ => absurd hbefore (by simp)) fun hfits => ?_
      obtain ⟨hup, hdown⟩ := hfits t htot hrun hlast hsaw
      omega
    · obtain ⟨-, hup, hdown⟩ := h.remembered t₀ hlast
      refine iff_of_true ⟨t₀, t, rfl, rfl, ?_⟩ fun _ _ _ hnone => ?_
      · rwa [← hup, ← hdown]
      · rw [hlast] at hnone
        cases hnone

/-- **A restart is declared only for the core that restarted**, in every state of a run, if and
only if no pipeline's first successful poll is below what was remembered. -/
theorem restarts_shown_iff (sdk : Sdk) (nodeID : String) (start : Time)
    (inputs : List (Clock × Input)) :
    (∀ k, (Runs.run (step sdk) (new nodeID start) (inputs.take k)).Sound) ↔
      Runs.Along (step sdk) Fits (new nodeID start) inputs :=
  Runs.along_iff (Inv sdk) Sound (fun _ i h => h.step i) (fun _ i h hs => sound_step h hs i)
    (Inv.new nodeID start) ⟨forall_mem_nil _, forall_mem_nil _⟩ inputs

/-- Tracing through the Clash API at an address. -/
def tracingAt (addr : String) : Input :=
  .config { policy := { enabled := true, clashAPIAddr := addr } } Collector.openNode

/-- A poll that shows these totals, and an empty table. -/
def polling (total : Int) : Input := .poll (.ok ⟨total, total, { at_ := 0 }⟩)

/-- The collector moves to another Clash API, where a connection is opened. -/
def movedAPI : List (Clock × Input) :=
  [(1, tracingAt "127.0.0.1:9090"), (2, polling 1000), (3, tracingAt "127.0.0.1:9091"),
    (4, .entry (some Collector.acceptLine)), (5, polling 10)]

/-- The other core has transferred less, and the connection it has just opened is closed as if it
had restarted. -/
theorem moved_api_declared_restarted :
    let w := Runs.run (step asciiSdk) (new "node" 0) movedAPI
    w.restarts = [⟨none, some ⟨10, 10⟩⟩] ∧
      w.closed.map (fun x => (x.1.logID, x.2)) = [(7, some ⟨none, some ⟨10, 10⟩⟩)] ∧ ¬ w.Sound := by
  have hrestarts : (Runs.run (step asciiSdk) (new "node" 0) movedAPI).restarts =
      [⟨none, some ⟨10, 10⟩⟩] := by decide +kernel
  have hclosed : (Runs.run (step asciiSdk) (new "node" 0) movedAPI).closed.map
      (fun x => (x.1.logID, x.2)) = [(7, some ⟨none, some ⟨10, 10⟩⟩)] := by decide +kernel
  refine ⟨hrestarts, hclosed, fun hsound => ?_⟩
  obtain ⟨t, t', hbefore, -⟩ := hsound.restarts _ (hrestarts ▸ mem_singleton_self _)
  cases hbefore

end Watch

end LatticeAgent.Trace
