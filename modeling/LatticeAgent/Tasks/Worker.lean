import LatticeAgent.Go
import LatticeAgent.Lib.Runs

/-! # The task worker and the work loop

Tasks run on a goroutine of their own. The work loop hands it at most one batch, and recovers and
polls only while it is idle. Here the two take turns in any order, section by section, with what
loop health says of them.

Batches run in the order in which they were leased (`runs_in_lease_order`), the outbox has one user
at a time (`outbox_single_threaded`), nothing is leased while recovery is blocked
(`blocked_runs_nothing`), and `taskBusy_agrees_iff` says when loop health is right about the
worker. -/

namespace LatticeAgent.Tasks.Worker

open Runs

/-- The steps of the work loop. -/
inductive Step where
  | linechainRecovery | hello | config | ipRefresh | usage | inventory | tasks | monitors
  | logSources | trace | debug | guardReality
deriving DecidableEq, Repr

/-- Where the work loop stands. -/
inductive Work where
  | cycle
  | inside (step : Step)
  /-- `poll` has found the worker idle. -/
  | polling
  /-- It has leased a batch and set `busy`. -/
  | handing (tasks : List String)
  | handed
  | blocked (err : String)
  | cleared
  | waiting
  | stopped
deriving DecidableEq, Repr

/-- Where the loop goes on when a step has returned. -/
def Work.after : Step → Option String → Work
  | .linechainRecovery, none => .cleared
  | .linechainRecovery, some err => .blocked err
  | .hello, none => .cycle
  | .hello, some _ => .stopped
  | .config, _ => .inside .ipRefresh
  | .ipRefresh, _ => .inside .usage
  | .usage, _ => .inside .inventory
  | .inventory, _ => .inside .tasks
  | .tasks, _ => .inside .monitors
  | .monitors, _ => .inside .logSources
  | .logSources, _ => .inside .trace
  | .trace, _ => .inside .debug
  | .debug, _ => .inside .guardReality
  | .guardReality, _ => .waiting

/-- The batch that is on its way to the channel. -/
@[simp] def Work.held : Work → List (List String)
  | .handing tasks => [tasks]
  | _ => []

theorem Work.held_after (step : Step) (err : Option String) : (after step err).held = [] := by
  cases step <;> cases err <;> rfl

/-- Where the worker stands: `reports` is between the two sections of `setBusy(false)`. -/
inductive Runner where
  | waits
  | runs
  | reports
deriving DecidableEq, Repr

structure Agent where
  work : Work := .inside .linechainRecovery
  /-- `recoverThenSupervise` has not returned. -/
  startup : Bool := true
  runner : Runner := .waits
  busy : Bool := false
  /-- The channel. -/
  batch : Option (List String) := none
  linechainBlocked : String := ""
  /-- A zero time is `none`. -/
  taskBusySince : Option Time := none
  /-- The batches so far that were leased, and that the worker has begun. -/
  leased : List (List String) := []
  begun : List (List String) := []

/-- What a turn of the work loop is answered. -/
structure Answer where
  now : Time
  /-- What the function of a step returns. -/
  err : Option String := none
  tasks : List String := []
  shutdown : Bool := false

inductive Move where
  | work (a : Answer)
  | runner

def loopErrorMaxRunes : Nat := 200

@[irreducible] def boundedLoopError (err : String) : String :=
  let runes := (trimSpace err).toList.map fun r => if r.toNat < 32 ∨ r.toNat = 127 then ' ' else r
  if loopErrorMaxRunes < runes.length then String.ofList (runes.take loopErrorMaxRunes) ++ "..."
  else String.ofList runes

namespace Agent

variable (s : Agent)

/-- A turn of the work loop. In `handing` the health's `setTaskBusy(true)` and the send are one
turn: it is the send that hands the batch over, and only then can the worker take it. -/
def workTurn (a : Answer) : Agent :=
  match s.work with
  | .cycle => { s with work := .inside (if s.busy then .config else .linechainRecovery) }
  | .inside step =>
    if step = .tasks ∧ s.busy = false then { s with work := .polling }
    -- a poll that finds a task in flight returns at once
    else { s with work := .after step (if step = .tasks then none else a.err) }
  | .polling =>
    if a.err = none ∧ a.tasks ≠ [] then
      { s with busy := true, leased := s.leased ++ [a.tasks], work := .handing a.tasks }
    else { s with work := .after .tasks a.err }
  | .handing tasks =>
    { s with
      taskBusySince := some (s.taskBusySince.getD a.now)
      batch := some tasks
      work := .handed }
  | .handed => { s with work := .after .tasks none }
  | .blocked err =>
    { s with
      linechainBlocked := if boundedLoopError err = "" then "blocked" else boundedLoopError err
      work := .waiting }
  | .cleared =>
    { s with
      linechainBlocked := ""
      startup := false
      work := .inside (if s.startup then .hello else .config) }
  | .waiting =>
    { s with
      work := if s.startup then .inside .linechainRecovery else if a.shutdown then .stopped else .cycle }
  | .stopped => s

def runnerTurn : Agent :=
  match s.runner with
  | .waits =>
    match s.batch with
    | some tasks => { s with batch := none, begun := s.begun ++ [tasks], runner := .runs }
    | none => s
  | .runs => { s with busy := false, runner := .reports }
  | .reports => { s with taskBusySince := none, runner := .waits }

def step (s : Agent) : Move → Agent
  | .work a => s.workTurn a
  | .runner => s.runnerTurn

variable {s}

/-- The work loop recovers, or has not yet noted how that ended. -/
def Recovers (s : Agent) : Prop :=
  s.work = .inside .linechainRecovery ∨ (∃ err, s.work = .blocked err) ∨ s.work = .cleared

/-- What every turn keeps. -/
structure Inv (s : Agent) : Prop where
  early : s.startup → s.busy = false ∧ (s.Recovers ∨ s.work = .waiting)
  idle : s.Recovers ∨ s.work = .polling → s.busy = false
  blocked : s.linechainBlocked ≠ "" →
    s.busy = false ∧ (s.Recovers ∨ s.work ∈ [.waiting, .cycle, .stopped])
  busy : s.busy ↔ s.work.held ≠ [] ∨ s.batch ≠ none ∨ s.runner = .runs
  handing : s.work.held ≠ [] → s.batch = none ∧ s.runner ≠ .runs
  batch : s.batch ≠ none → s.runner ≠ .runs
  order : s.leased = s.begun ++ s.batch.toList ++ s.work.held

theorem after_of_ne {step : Step} (h : step ≠ .linechainRecovery) (err : Option String) :
    Work.after step err ∉ [.inside .linechainRecovery, .cleared, .polling] ∧
      ∀ e, Work.after step err ≠ .blocked e := by
  cases step <;> cases err <;> simp_all [Work.after]

theorem Inv.workTurn (h : Inv s) (a : Answer) : Inv (s.workTurn a) := by
  obtain ⟨hearly, hidle, hblocked, hbusy, hhanding, hbatch, horder⟩ := h
  obtain ⟨work, startup, runner, busy, batch, linechainBlocked, taskBusySince, leased, begun⟩ := s
  unfold Recovers at *
  unfold Agent.workTurn
  cases work with
  | cycle => cases busy <;> constructor <;> simp_all [Recovers]
  | inside step =>
    dsimp only
    split_ifs with hpoll htasks
    · constructor <;> simp_all [Recovers]
    · constructor <;> simp_all [Recovers, Work.after]
    · by_cases hrecovery : step = .linechainRecovery
      · subst hrecovery
        cases a.err <;> constructor <;> simp_all [Recovers, Work.after]
      · -- no other step leads to recovery, to a poll or to a hand-over
        have hafter := after_of_ne hrecovery a.err
        have hheld := Work.held_after step a.err
        generalize Work.after step a.err = work at hafter hheld
        constructor <;> simp_all [Recovers]
  | polling =>
    dsimp only
    split_ifs
    · constructor <;> simp_all [Recovers]
    · constructor <;> simp_all [Recovers, Work.after]
  | waiting =>
    cases hdown : a.shutdown <;> cases startup <;> constructor <;> simp_all [Recovers]
  | cleared => cases startup <;> constructor <;> simp_all [Recovers]
  | _ => constructor <;> simp_all [Recovers, Work.after]

theorem Inv.runnerTurn (h : Inv s) : Inv s.runnerTurn := by
  have hkept := h
  obtain ⟨hearly, hidle, hblocked, hbusy, hhanding, hbatch, horder⟩ := h
  unfold Agent.runnerTurn
  split
  · split
    · constructor <;> simp_all [Recovers]
    · exact hkept
  · constructor <;> simp_all [Recovers]
  · constructor <;> simp_all [Recovers]

theorem Inv.step (h : Inv s) (m : Move) : Inv (s.step m) := by
  cases m with
  | work a => exact h.workTurn a
  | runner => exact h.runnerTurn

theorem Inv.quiet (h : Inv s) (hidle : s.busy = false) :
    s.runner ≠ .runs ∧ s.batch = none ∧ s.work.held = [] := by
  have hnone := mt h.busy.mpr (by simp [hidle])
  push Not at hnone
  exact ⟨hnone.2.2, hnone.2.1, hnone.1⟩

theorem inv_run (moves : List Move) : Inv (run step {} moves) :=
  invariant_always Inv (fun _ m h => h.step m) (by constructor <;> simp [Recovers]) moves

/-- **Batches run in the order in which they were leased**: the worker has begun the first of them,
each once, and all of them when it is idle. -/
theorem runs_in_lease_order (moves : List Move) :
    let s := run step {} moves
    s.begun <+: s.leased ∧ (s.busy = false → s.begun = s.leased) := by
  intro s
  have h : Inv s := inv_run moves
  have horder := h.order
  rw [List.append_assoc] at horder
  refine ⟨⟨_, horder.symm⟩, fun hidle => ?_⟩
  obtain ⟨-, hbatch, hheld⟩ := h.quiet hidle
  rw [horder, hbatch, hheld, Option.toList_none, List.append_nil, List.append_nil]

/-- **The outbox has one user at a time**, in any order of turns: while the work loop recovers or
polls no task runs, and a batch that is handed over finds the channel empty. -/
theorem outbox_single_threaded (moves : List Move) :
    let s := run step {} moves
    (s.work = .inside .linechainRecovery ∨ s.work = .polling → s.runner ≠ .runs ∧ s.batch = none) ∧
      (s.work.held ≠ [] → s.runner ≠ .runs ∧ s.batch = none) := by
  intro s
  have h : Inv s := inv_run moves
  refine ⟨fun huses => ?_, fun hheld => (h.handing hheld).symm⟩
  have hquiet := h.quiet (h.idle (huses.imp_left .inl))
  exact ⟨hquiet.1, hquiet.2.1⟩

/-- **While recovery is blocked nothing else goes on**: no task, no lease, no other step. -/
theorem blocked_runs_nothing (moves : List Move) :
    let s := run step {} moves
    s.linechainBlocked ≠ "" →
      (s.runner ≠ .runs ∧ s.batch = none ∧ s.work.held = []) ∧ s.work ≠ .polling ∧
        ∀ step, s.work = .inside step → step = .linechainRecovery := by
  intro s hblocked
  have h : Inv s := inv_run moves
  obtain ⟨hidle, hquiet⟩ := h.blocked hblocked
  refine ⟨h.quiet hidle, fun hpolling => ?_, fun step hstep => ?_⟩
  · simp [Recovers, hpolling] at hquiet
  · simpa [Recovers, hstep] using hquiet

theorem blocked_runs_nothing_down :
    let s := run step {} [.work { now := 1, err := some "down" }, .work { now := 2 }]
    s.linechainBlocked ≠ "" ∧ (s.runner ≠ .runs ∧ s.batch = none ∧ s.work.held = []) ∧
      s.work ≠ .polling ∧ ∀ step, s.work = .inside step → step = .linechainRecovery := by
  intro s
  have h : s.linechainBlocked ≠ "" := by
    change (if boundedLoopError "down" = "" then "blocked" else boundedLoopError "down") ≠ ""
    split
    · decide
    · assumption
  exact ⟨h, blocked_runs_nothing _ h⟩

/-- Unless a batch is being handed over, a task is in flight exactly if loop health says so and the
worker is not about to take that back. -/
def Agrees (s : Agent) : Prop :=
  s.work.held = [] → (s.busy ↔ s.taskBusySince.isSome ∧ s.runner ≠ .reports)

/-- The move does not hand over a batch between the two sections of `setBusy(false)`. -/
def Reported (s : Agent) : Move → Prop
  | .work _ => s.work.held ≠ [] → s.runner ≠ .reports
  | .runner => True

theorem agrees_step (h : Inv s) (hagrees : s.Agrees) (m : Move) :
    (s.step m).Agrees ↔ s.Reported m := by
  have hbusy := h.busy
  unfold Agrees at *
  cases m with
  | work a =>
    simp only [Agent.step, workTurn, Reported]
    cases hw : s.work with
    | inside step =>
      dsimp only
      split_ifs <;> simp_all
    | polling =>
      dsimp only
      split_ifs <;> simp_all [Work.after]
    | waiting => cases s.startup <;> cases a.shutdown <;> simp_all
    | _ => simp_all [Work.after]
  | runner =>
    refine iff_of_true ?_ trivial
    simp only [Agent.step, runnerTurn]
    split <;> (try split) <;> simp_all

/-- **When loop health tells whether a task is in flight**: exactly if no batch is handed over
before the worker has reported the end of the last one. -/
theorem taskBusy_agrees_iff (moves : List Move) :
    (∀ k, (run step {} (moves.take k)).Agrees) ↔ Along step Reported {} moves :=
  along_iff Inv Agrees (fun _ m h => h.step m) (fun _ m h hagrees => agrees_step h hagrees m)
    (inv_run []) (by simp [Agrees, run]) moves

end Agent
end LatticeAgent.Tasks.Worker
