import LatticeAgent.Prefetch.Prefetcher

/-! # A held prefetcher touches nothing

The prefetcher among its callers and its download goroutines. A `World` is the shared
`Prefetcher`, every run that was ever started, and every call of `Hold` and `Close`; a `Move` is
one locked section, or a wait that ends. A move that its caller or its run is not ready for
changes nothing, so a list of moves is any interleaving.

A run is active from the section that starts it to the locked section at the end of its `fetch`:
its attempt has closed the file by then, and all that is left is to close the channel `done`.
`Release` is a move of the `Hold` it ends, after that `Hold` returned. -/

namespace LatticeAgent.Prefetch

open Prefetcher

/-- Where a download goroutine stands: in its attempt, past its locked section, past
`close(run.done)`. -/
inductive Stage where
  | attempting | ended | done
deriving DecidableEq, Repr

/-- One download goroutine: its run, what it fetches, and whether its context is cancelled. -/
structure Fetch where
  key : String
  path : String
  cancelled : Bool := false
  stage : Stage := .attempting
deriving DecidableEq, Repr

def Fetch.active (f : Fetch) : Bool := f.stage == .attempting

/-- Where a call of `Hold` or `Close` stands. `closing` is a `Close` between its two sections;
`waiting` and `returned` are calls whose hold is outstanding; only a `Hold` is released. -/
inductive Caller where
  | closing
  | waiting (close : Bool) (run : Nat)
  | returned (close : Bool)
  | released
deriving DecidableEq, Repr

/-- The hold of the call is outstanding. -/
def Caller.holds : Caller → Bool
  | .waiting .. | .returned .. => true
  | _ => false

/-- The call is a `Close`. -/
def Caller.closes : Caller → Bool
  | .closing | .waiting true _ | .returned true => true
  | _ => false

structure World where
  pf : Prefetcher := {}
  runs : List Fetch := []
  callers : List Caller := []
  /-- Every kept download that was ever pruned. -/
  pruned : List String := []
deriving DecidableEq, Repr

inductive Move where
  | update (cfg : Option AgentUpdateConfig) (h : Host)
  | hold
  | close
  /-- The second section of the `Close` of caller `i`, which is that of `Hold`. -/
  | closeHold (i : Nat)
  /-- Caller `i` finds the channel it waits for closed. -/
  | wake (i : Nat)
  | release (i : Nat)
  /-- The locked section at the end of the `fetch` of run `r`. -/
  | fetched (r : Nat) (a : Attempt) (h : Host)
  /-- `close(run.done)` of run `r`. -/
  | finish (r : Nat)

/-- The move is an `Update`. -/
def Move.updates : Move → Bool
  | .update .. => true
  | _ => false

namespace World

variable (o : Options) (w : World)

/-- Cancels the context of run `r`. -/
def cancel (r : Nat) : World :=
  { w with runs := w.runs.modify r fun f => { f with cancelled := true } }

/-- `cancel` of the run in hand, if there is one. -/
def cancelRun : World := w.pf.run.elim w fun run => w.cancel run.id

/-- The run in hand is cancelled. -/
def cancelled (w : World) (b : Bool) : World := if b then w.cancelRun else w

/-- A kick, with what it does outside the prefetcher. -/
def kick (h : Host) : World :=
  let k := w.pf.kickLocked o h w.runs.length
  { w.cancelled k.cancelled with
    pf := k.after
    runs := (w.cancelled k.cancelled).runs ++
      k.started.toList.map fun path => { key := w.pf.keyLocked, path := path }
    pruned := w.pruned ++ k.removed }

/-- The section of `Hold`, and where it leaves its caller. -/
def holdLocked (close : Bool) : World × Caller :=
  ({ w.cancelRun with pf := w.pf.hold },
    w.pf.run.elim (.returned close) fun run => .waiting close run.id)

/-- The locked section at the end of `fetch` of run `r`. -/
def fetchedLocked (r : Nat) (f : Fetch) (a : Attempt) (h : Host) : World :=
  { w with
    pf := w.pf.record h ⟨r, f.key⟩ f.cancelled f.path a
    runs := w.runs.set r { f with stage := .ended } }.kick o h

def step (w : World) : Move → World
  | .update cfg h => { w with pf := w.pf.update cfg }.kick o h
  | .hold => { (w.holdLocked false).1 with callers := w.callers ++ [(w.holdLocked false).2] }
  | .close => { w with pf := { w.pf with closed := true }, callers := w.callers ++ [.closing] }
  | .closeHold i =>
    if w.callers[i]? = some .closing then
      { (w.holdLocked true).1 with callers := w.callers.set i (w.holdLocked true).2 }
    else w
  | .wake i =>
    match w.callers[i]? with
    | some (.waiting close r) =>
      if (w.runs[r]?).any (·.stage == .done) then
        { w with callers := w.callers.set i (.returned close) }
      else w
    | _ => w
  | .release i =>
    if w.callers[i]? = some (.returned false) then
      { w with pf := w.pf.release, callers := w.callers.set i .released }
    else w
  | .fetched r a h =>
    match w.runs[r]? with
    | some f => if f.active then w.fetchedLocked o r f a h else w
    | none => w
  | .finish r =>
    match w.runs[r]? with
    | some f => if f.stage = .ended then { w with runs := w.runs.set r { f with stage := .done } }
        else w
    | none => w

/-- A whole run from a new prefetcher. -/
def run (moves : List Move) : World := Runs.run (step o) {} moves

/-- Where the download goroutines stand. -/
def stages : List Stage := w.runs.map Fetch.stage

/-! ### What a move changes -/

variable {o} {w}

@[simp] theorem stages_cancelled (b : Bool) : (w.cancelled b).stages = w.stages := by
  unfold cancelled cancelRun
  split
  · cases w.pf.run with
    | none => rfl
    | some run =>
      refine List.ext_getElem? fun r => ?_
      simp only [stages, cancel, Option.elim_some, List.getElem?_map, List.getElem?_modify]
      split <;> cases w.runs[r]? <;> rfl
  · rfl

@[simp] theorem stages_cancelRun : w.cancelRun.stages = w.stages := stages_cancelled true

theorem cancelled_frame (b : Bool) : (w.cancelled b).callers = w.callers ∧
    (w.cancelled b).pruned = w.pruned := by
  unfold cancelled cancelRun
  split
  · cases w.pf.run <;> exact ⟨rfl, rfl⟩
  · exact ⟨rfl, rfl⟩

theorem kick_callers (h : Host) : (w.kick o h).callers = w.callers := (cancelled_frame _).1

theorem kick_idle (hidle : w.pf.closed ∨ 0 < w.pf.held) (h : Host) : w.kick o h = w := by
  simp [kick, kickLocked_idle _ hidle, cancelled]

theorem kick_stages (h : Host) :
    (w.kick o h).stages = w.stages ∧ (w.kick o h).pf.run = w.pf.run ∨
      w.pf.run = none ∧ (w.kick o h).stages = w.stages ++ [.attempting] ∧
        (w.kick o h).pf.run.map FetchRun.id = some w.stages.length := by
  have hlength : w.stages.length = w.runs.length := List.length_map _
  have hstages : (w.kick o h).stages = w.stages ++
      (w.pf.kickLocked o h w.runs.length).started.toList.map fun _ => .attempting := by
    rw [← stages_cancelled (w := w) (w.pf.kickLocked o h w.runs.length).cancelled]
    simp only [stages, kick, List.map_append, List.map_map]
    rfl
  have hrun := (kickLocked_follows (p := w.pf) (o := o) (h := h)
    w.runs.length).run
  cases hp : w.pf.run with
  | some run =>
    obtain ⟨b, hk⟩ := kickLocked_busy (o := o) (h := h) w.runs.length hp
    refine .inl ⟨?_, ?_⟩
    · rw [hstages, hk]
      exact List.append_nil _
    · rw [kick, hk]
      exact hp
  | none =>
    cases hs : (w.pf.kickLocked o h w.runs.length).started with
    | none =>
      rw [hs] at hstages hrun
      exact .inl ⟨hstages.trans (List.append_nil _), hrun.trans hp⟩
    | some path =>
      rw [hs] at hstages hrun
      refine .inr ⟨rfl, hstages, ?_⟩
      rw [hlength]
      exact congrArg (Option.map FetchRun.id) hrun

/-! ### The invariant -/

/-- What holds between the prefetcher, its runs and its callers. -/
structure Inv (w : World) : Prop where
  /-- The run in hand is the one active run. -/
  run_active : ∀ r, w.pf.run.map FetchRun.id = some r ↔ w.stages[r]? = some .attempting
  held : w.pf.held = w.callers.countP Caller.holds
  /-- A `Hold` that returned saw the last run end. -/
  returned : ∀ close, .returned close ∈ w.callers → w.pf.run = none
  /-- A `Hold` that waits waits for the only run that can be in hand. -/
  waiting : ∀ close r, .waiting close r ∈ w.callers → ∀ run, w.pf.run = some run → run.id = r
  closed : ∀ c ∈ w.callers, c.closes = true → w.pf.closed = true

namespace Inv

theorem start : Inv {} where
  run_active r := by simp [stages]
  held := rfl
  returned _ h := absurd h List.not_mem_nil
  waiting _ _ h := absurd h List.not_mem_nil
  closed _ h := absurd h List.not_mem_nil

theorem held_pos (hw : Inv w) {c : Caller} (hc : c ∈ w.callers) (hholds : c.holds) :
    0 < w.pf.held := by
  rw [hw.held]
  exact List.countP_pos_iff.mpr ⟨c, hc, hholds⟩

theorem not_active (hw : Inv w) (hrun : w.pf.run = none) (r : Nat) :
    w.stages[r]? ≠ some .attempting := by
  intro h
  have := (hw.run_active r).mpr h
  simp [hrun] at this

variable {f : Fetch} {r : Nat}

theorem id_of_active (hw : Inv w) (hr : w.runs[r]? = some f) (hactive : f.active) :
    w.pf.run.map FetchRun.id = some r := by
  refine (hw.run_active r).mpr ?_
  rw [stages, List.getElem?_map, hr]
  exact congrArg some (by simpa [Fetch.active] using hactive)

theorem kick (hw : Inv w) (h : Host) : Inv (w.kick o h) := by
  by_cases hidle : w.pf.closed = true ∨ 0 < w.pf.held
  · rwa [kick_idle hidle]
  · have hfollows := kickLocked_follows (p := w.pf) (o := o) (h := h)
      w.runs.length
    have hfree : ∀ c ∈ w.callers, c.holds = false := by
      intro c hc
      by_contra hholds
      exact hidle (.inr (hw.held_pos hc (by simpa using hholds)))
    have hcallers := kick_callers (w := w) (o := o) h
    refine ⟨fun r => ?_, ?_, fun close hmem => ?_, fun close r hmem => ?_, ?_⟩
    · rcases kick_stages (w := w) (o := o) h with ⟨hstages, hrun⟩ | ⟨hnone, hstages, hrun⟩
      · rw [hstages, hrun]
        exact hw.run_active r
      · rw [hstages, hrun, List.getElem?_append]
        split
        · rename_i hlt
          refine ⟨fun he => ?_, fun he => absurd he (hw.not_active hnone r)⟩
          have := Option.some.inj he
          omega
        · rename_i hge
          simp only [Option.some.injEq, List.getElem?_singleton]
          constructor
          · rintro rfl
            simp
          · intro he
            split at he
            · omega
            · cases he
    · rw [hcallers]
      exact hfollows.held.trans hw.held
    · rw [hcallers] at hmem
      exact absurd (hfree _ hmem) nofun
    · rw [hcallers] at hmem
      exact absurd (hfree _ hmem) nofun
    · rw [hcallers]
      exact fun c hc hcl => hfollows.closed.trans (hw.closed c hc hcl)

/-- A hold more: its caller has returned if there is no run, and waits for the run in hand
otherwise. -/
theorem hold (hw : Inv w) (close : Bool) (callers : List Caller)
    (hcount : callers.countP Caller.holds = w.callers.countP Caller.holds + 1)
    (hmem : ∀ c ∈ callers, c ∈ w.callers ∨ c = (w.holdLocked close).2)
    (hclosed : close → w.pf.closed) :
    Inv { (w.holdLocked close).1 with callers := callers } where
  run_active r := by
    have := hw.run_active r
    rwa [← stages_cancelRun (w := w)] at this
  held := by
    rw [hcount, ← hw.held]
    rfl
  returned close' hc := by
    rcases hmem _ hc with hc | hc
    · exact hw.returned close' hc
    · cases hp : w.pf.run with
      | none => exact hp
      | some run => simp [holdLocked, hp] at hc
  waiting close' r hc run hrun := by
    rcases hmem _ hc with hc | hc
    · exact hw.waiting close' r hc run hrun
    · have hp : w.pf.run = some run := hrun
      simp only [holdLocked, hp, Option.elim_some, Caller.waiting.injEq] at hc
      exact hc.2.symm
  closed c hc hcl := by
    rcases hmem _ hc with hc | rfl
    · exact hw.closed c hc hcl
    · cases close with
      | true => exact hclosed rfl
      | false => cases hp : w.pf.run <;> simp [holdLocked, hp, Caller.closes] at hcl

theorem holdLocked_holds (close : Bool) : (w.holdLocked close).2.holds := by
  unfold holdLocked
  cases w.pf.run <;> rfl

theorem countP_set {callers : List Caller} {i : Nat} {c : Caller} (c' : Caller) (hi : callers[i]? = some c) :
    (callers.set i c').countP Caller.holds + (if c.holds then 1 else 0) =
      callers.countP Caller.holds + (if c'.holds then 1 else 0) := by
  obtain ⟨hlt, rfl⟩ := List.getElem?_eq_some_iff.mp hi
  have hpos : callers[i].holds = true → 0 < callers.countP Caller.holds := fun h =>
    List.countP_pos_iff.mpr ⟨_, List.getElem_mem hlt, h⟩
  rw [List.countP_set hlt]
  split_ifs <;> simp_all

theorem stages_set {runs : List Fetch} :
    (runs.set r f).map Fetch.stage = (runs.map Fetch.stage).set r f.stage := List.map_set

theorem recorded (hw : Inv w) (hr : w.runs[r]? = some f) (hactive : f.active) (a : Attempt)
    (h : Host) :
    Inv { w with
      pf := w.pf.record h ⟨r, f.key⟩ f.cancelled f.path a
      runs := w.runs.set r { f with stage := .ended } } := by
  have hid := hw.id_of_active hr hactive
  obtain ⟨hrun, hheld, hclosed⟩ :=
    record_frame (h := h) ⟨r, f.key⟩ hid f.cancelled f.path a
  refine ⟨fun r' => ?_, hheld.trans hw.held, fun _ _ => hrun, fun _ _ _ run hp => ?_,
    fun c hc hcl => hclosed.trans (hw.closed c hc hcl)⟩
  · -- the run in hand was `r`, so no other run is active
    refine ⟨fun he => ?_, fun he => ?_⟩
    · rw [hrun] at he
      cases he
    · rw [stages, stages_set, List.getElem?_set] at he
      split at he
      · split at he <;> cases he
      · rename_i hne
        have := (hw.run_active r').mpr he
        exact absurd (Option.some.inj (hid.symm.trans this)) hne
  · rw [hrun] at hp
    cases hp

theorem step (hw : Inv w) (m : Move) : Inv (w.step o m) := by
  cases m with
  | update cfg h =>
    exact kick (w := { w with pf := w.pf.update cfg })
      ⟨hw.run_active, hw.held, hw.returned, hw.waiting, hw.closed⟩ h
  | hold =>
    refine hw.hold false _ ?_ (fun c hc => ?_) nofun
    · rw [List.countP_append, List.countP_singleton, if_pos (holdLocked_holds false)]
    · simpa using hc
  | close =>
    refine ⟨hw.run_active, ?_, fun c hc => ?_, fun c r hc => ?_, fun _ _ _ => rfl⟩
    · simpa [World.step, Caller.holds] using hw.held
    · exact hw.returned c (by simpa [World.step] using hc)
    · exact hw.waiting c r (by simpa [World.step] using hc)
  | closeHold i =>
    simp only [World.step]
    split
    · rename_i hi
      refine hw.hold true _ ?_ (fun c hc => List.mem_or_eq_of_mem_set hc) fun _ => ?_
      · have := countP_set (w.holdLocked true).2 hi
        rwa [if_pos (holdLocked_holds true)] at this
      · exact hw.closed _ (List.mem_of_getElem? hi) rfl
    · exact hw
  | wake i =>
    simp only [World.step]
    split
    · rename_i close r hi
      split
      · rename_i hdone
        have hmem := List.mem_of_getElem? hi
        have hnone : w.pf.run = none := by
          -- the run it waits for is over, and no other can be in hand
          by_contra hsome
          obtain ⟨run, hrun⟩ := Option.ne_none_iff_exists'.mp hsome
          have hid := hw.waiting close r hmem run hrun
          have hstage := (hw.run_active r).mp (by rw [hrun, ← hid]; rfl)
          rw [stages, List.getElem?_map] at hstage
          cases hr : w.runs[r]? with
          | none => simp [hr] at hdone
          | some f =>
            simp only [hr, Option.map_some, Option.some.injEq] at hstage
            simp [hr, hstage] at hdone
        refine ⟨hw.run_active, ?_, fun _ _ => hnone, fun _ _ _ run hrun => ?_,
          fun c hc hcl => ?_⟩
        · have := countP_set (.returned close) hi
          simp only [Caller.holds, if_true, Nat.add_right_cancel_iff] at this
          exact hw.held.trans this.symm
        · exact absurd (hnone.symm.trans hrun) nofun
        · rcases List.mem_or_eq_of_mem_set hc with hc | rfl
          · exact hw.closed c hc hcl
          · refine hw.closed _ hmem ?_
            cases close with
            | true => rfl
            | false => exact hcl
      · exact hw
    · exact hw
  | release i =>
    simp only [World.step]
    split
    · rename_i hi
      refine ⟨hw.run_active, ?_, fun close hc => ?_, fun close r hc => ?_, fun c hc hcl => ?_⟩
      · have := countP_set .released hi
        simp only [Caller.holds, if_true, Bool.false_eq_true, if_false, Nat.add_zero] at this
        simp only [Prefetcher.release, hw.held]
        omega
      · rcases List.mem_or_eq_of_mem_set hc with hc | hc
        · exact hw.returned close hc
        · cases hc
      · rcases List.mem_or_eq_of_mem_set hc with hc | hc
        · exact hw.waiting close r hc
        · cases hc
      · rcases List.mem_or_eq_of_mem_set hc with hc | rfl
        · exact hw.closed c hc hcl
        · cases hcl
    · exact hw
  | fetched r a h =>
    simp only [World.step]
    cases hr : w.runs[r]? with
    | none => exact hw
    | some f =>
      dsimp only
      split
      · rename_i hactive
        exact (hw.recorded hr hactive a h).kick h
      · exact hw
  | finish r =>
    simp only [World.step]
    cases hr : w.runs[r]? with
    | none => exact hw
    | some f =>
      dsimp only
      split
      · rename_i hended
        refine ⟨fun r' => ?_, hw.held, hw.returned, hw.waiting, hw.closed⟩
        refine (hw.run_active r').trans ?_
        rw [stages, stages, stages_set, List.getElem?_set, List.getElem?_map]
        split
        · rename_i heq
          subst heq
          simp [hr, hended]
        · rfl
      · exact hw

theorem run (o : Options) (moves : List Move) : Inv (World.run o moves) :=
  Runs.invariant_always Inv (fun _ m hw => hw.step m) start moves

theorem inactive (hw : Inv w) (hrun : w.pf.run = none) (hf : f ∈ w.runs) : f.active = false := by
  obtain ⟨r, hr⟩ := List.getElem?_of_mem hf
  by_contra hactive
  have := hw.id_of_active hr (by simpa using hactive)
  simp [hrun] at this

end Inv

/-! ### Moves that start nothing -/

theorem length_stages : w.stages.length = w.runs.length := List.length_map _

theorem length_cancelRun : w.cancelRun.runs.length = w.runs.length := by
  rw [← length_stages, stages_cancelRun, length_stages]

theorem step_idle (hidle : w.pf.closed ∨ 0 < w.pf.held) (hw : Inv w) (m : Move) :
    (w.step o m).runs.length = w.runs.length ∧ (w.step o m).pruned = w.pruned := by
  have hpruned : w.cancelRun.pruned = w.pruned := (cancelled_frame true).2
  cases m with
  | update cfg h =>
    rw [World.step, kick_idle (w := { w with pf := w.pf.update cfg }) hidle]
    exact ⟨rfl, rfl⟩
  | hold => exact ⟨length_cancelRun, hpruned⟩
  | close => exact ⟨rfl, rfl⟩
  | closeHold i =>
    simp only [World.step]
    split
    · exact ⟨length_cancelRun, hpruned⟩
    · exact ⟨rfl, rfl⟩
  | wake i =>
    simp only [World.step]
    split
    · split <;> exact ⟨rfl, rfl⟩
    · exact ⟨rfl, rfl⟩
  | release i =>
    simp only [World.step]
    split <;> exact ⟨rfl, rfl⟩
  | fetched r a h =>
    simp only [World.step]
    cases hr : w.runs[r]? with
    | none => exact ⟨rfl, rfl⟩
    | some f =>
      dsimp only
      split
      · rename_i hactive
        obtain ⟨-, hheld, hclosed⟩ := record_frame (h := h) ⟨r, f.key⟩
          (hw.id_of_active hr hactive) f.cancelled f.path a
        rw [fetchedLocked, kick_idle (by rw [hheld, hclosed]; exact hidle)]
        exact ⟨List.length_set, rfl⟩
      · exact ⟨rfl, rfl⟩
  | finish r =>
    simp only [World.step]
    cases w.runs[r]? with
    | none => exact ⟨rfl, rfl⟩
    | some f =>
      dsimp only
      split
      · exact ⟨List.length_set, rfl⟩
      · exact ⟨rfl, rfl⟩

/-- With no run in hand, no move but an `Update` starts one; of a closed prefetcher not even
that. -/
theorem step_quiet (hw : Inv w) (hrun : w.pf.run = none) {m : Move}
    (hm : m.updates = false ∨ w.pf.closed) :
    (w.step o m).pf.run = none ∧ (w.step o m).runs.length = w.runs.length ∧
      (w.pf.closed → (w.step o m).pf.closed) := by
  cases m with
  | update cfg h =>
    have hclosed : w.pf.closed := hm.resolve_left nofun
    rw [World.step, kick_idle (w := { w with pf := w.pf.update cfg }) (.inl hclosed)]
    exact ⟨hrun, rfl, id⟩
  | hold => exact ⟨hrun, length_cancelRun, id⟩
  | close => exact ⟨hrun, rfl, fun _ => rfl⟩
  | closeHold i =>
    simp only [World.step]
    split
    · exact ⟨hrun, length_cancelRun, id⟩
    · exact ⟨hrun, rfl, id⟩
  | wake i =>
    simp only [World.step]
    split
    · split <;> exact ⟨hrun, rfl, id⟩
    · exact ⟨hrun, rfl, id⟩
  | release i =>
    simp only [World.step]
    split <;> exact ⟨hrun, rfl, id⟩
  | fetched r a h =>
    simp only [World.step]
    cases hr : w.runs[r]? with
    | none => exact ⟨hrun, rfl, id⟩
    | some f =>
      dsimp only
      rw [if_neg (by simp [hw.inactive hrun (List.mem_of_getElem? hr)])]
      exact ⟨hrun, rfl, id⟩
  | finish r =>
    simp only [World.step]
    cases w.runs[r]? with
    | none => exact ⟨hrun, rfl, id⟩
    | some f =>
      dsimp only
      split
      · exact ⟨hrun, List.length_set, id⟩
      · exact ⟨hrun, rfl, id⟩

theorem run_quiet (hw : Inv w) (hrun : w.pf.run = none) {moves : List Move}
    (hm : w.pf.closed ∨ ∀ m ∈ moves, m.updates = false) :
    (Runs.run (World.step o) w moves).runs.length = w.runs.length := by
  induction moves generalizing w with
  | nil => rfl
  | cons m moves ih =>
    obtain ⟨hrun', hlength, hclosed⟩ := step_quiet (o := o) hw hrun (m := m)
      (hm.symm.imp_left fun h => h m List.mem_cons_self)
    refine (ih (hw.step m) hrun' ?_).trans hlength
    exact hm.imp hclosed fun h m' hm' => h m' (List.mem_cons_of_mem m hm')

/-- **A held prefetcher touches nothing**, in whatever order the locked sections come: at most one
run is active; between the return of a `Hold` (or `Close`) and its release no run is active, and no
move starts one or prunes a kept download; after a release nothing starts until the next `Update`;
after `Close` returned nothing starts. -/
theorem held_touches_nothing (moves : List Move) :
    (∀ (r r' : Nat) (f f' : Fetch), (run o moves).runs[r]? = some f →
      (run o moves).runs[r']? = some f' → f.active = true → f'.active = true → r = r') ∧
    (∀ close, .returned close ∈ (run o moves).callers →
      (∀ f ∈ (run o moves).runs, f.active = false) ∧
      ∀ m, ((run o moves).step o m).runs.length = (run o moves).runs.length ∧
        ((run o moves).step o m).pruned = (run o moves).pruned) ∧
    (∀ i post, (run o moves).callers[i]? = some (.returned false) →
      (∀ m ∈ post, m.updates = false) →
      (run o (moves ++ .release i :: post)).runs.length = (run o moves).runs.length) ∧
    (.returned true ∈ (run o moves).callers → ∀ post,
      (run o (moves ++ post)).runs.length = (run o moves).runs.length) := by
  have hw := Inv.run o moves
  refine ⟨fun r r' f f' hr hr' hf hf' => ?_, fun close hc => ⟨fun f hf => ?_, fun m => ?_⟩,
    fun i post hi hpost => ?_, fun hc post => ?_⟩
  · exact Option.some.inj ((hw.id_of_active hr hf).symm.trans (hw.id_of_active hr' hf'))
  · exact hw.inactive (hw.returned close hc) hf
  · exact step_idle (.inr (hw.held_pos hc rfl)) hw m
  · rw [run, Runs.run_append]
    exact run_quiet hw (hw.returned false (List.mem_of_getElem? hi))
      (.inr (List.forall_mem_cons.mpr ⟨rfl, hpost⟩))
  · rw [run, Runs.run_append]
    exact run_quiet hw (hw.returned true hc) (.inl (hw.closed _ hc rfl))

/-- An agent as the update script installs it. -/
def sampleOptions : Options :=
  { executable := defaultInstallPath, agentVersion := "v1", root := true, canRunUpdate := true,
    goos := "linux", goarch := "amd64" }

/-- A config pull that names the file of an open update. -/
def sampleConfig : AgentUpdateConfig :=
  { target := some
      { approvalID := "u1", version := "v2", os := "linux", arch := "amd64",
        sha256 := String.ofList (List.replicate 64 'a'), size := 1, binarySize := 1,
        installPath := defaultInstallPath } }

/-- A download, a hold that waits for it, and the agent's shutdown. -/
def sampleMoves : List Move :=
  [.update (some sampleConfig) {}, .hold, .close, .fetched 0 { state := .waiting } {}, .finish 0,
    .wake 0, .closeHold 1]

theorem held_touches_nothing_shutdown :
    (run sampleOptions sampleMoves).runs.length = 1 ∧
    (run sampleOptions sampleMoves).callers = [.returned false, .returned true] ∧
    (run sampleOptions (sampleMoves ++ [.release 0, .wake 1])).runs.length = 1 ∧
    (run sampleOptions (sampleMoves ++ [.update (some sampleConfig) {}])).runs.length = 1 := by
  have hlength : (run sampleOptions sampleMoves).runs.length = 1 := by decide +kernel
  have hcallers : (run sampleOptions sampleMoves).callers = [.returned false, .returned true] := by
    decide +kernel
  obtain ⟨-, -, hrelease, hclose⟩ := held_touches_nothing (o := sampleOptions) sampleMoves
  refine ⟨hlength, hcallers, ?_, ?_⟩
  · refine (hrelease 0 [.wake 1] ?_ ?_).trans hlength
    · rw [hcallers]
      rfl
    · simp [Move.updates]
  · refine (hclose ?_ _).trans hlength
    rw [hcallers]
    simp

end World
end LatticeAgent.Prefetch
