import LatticeAgent.ControlPlane.Pushes

/-! # Restarts and clock steps do not change what the witness pushes

Two witnesses see the same checks. One is a single process whose wall clock is set forward and
back between them; the other is restarted between any of them and finds in its state file all it
has to know. Both take the same time from their clocks (`since_single`, `since_restarted`), and
the decisions read nothing else of the clocks, so both owe the same pushes
(`same_pushes`). -/

namespace LatticeAgent.ControlPlane

open State Witness Host

open Trace (Clock)

theorem clock_add_pos (t : Clock) (d : Elapsed) : 0 < t.1 + d.1 := by
  have := t.2
  have := d.2.1
  lia

/-- The wall clock, a time later. -/
def later (t : Clock) (d : Elapsed) : Clock := ⟨t.1 + d.1, clock_add_pos t d⟩

/-- One check as both witnesses see it: its outcome, the time since the one before, and the
outcome of the push it may owe. `wall` is what the clock of the single process shows. The other
witness is restarted before the check where `restart` says so; `boot` is the time its new process
has then been running. -/
structure Round where
  res : CheckResult
  elapsed : Elapsed
  boot : Elapsed
  outcome : String
  wall : Clock
  pushedAt : Time := 0
  restart : Option Time := none
  pushedAt' : Time := 0

namespace Round

variable {Doc : Type} (lib : Library Doc) (r : Round)

/-- The check of the single process. -/
def single : Check where
  res := r.res
  now := r.wall
  elapsed := r.elapsed
  pushedAt := r.pushedAt
  outcome := some r.outcome

/-- The other witness, restarted or not before the check. -/
def restarted (h : Host Doc) : Host Doc :=
  match r.restart with
  | some at_ => .start lib h.file h.witness.cfg h.witness.configSHA at_
  | none => h

/-- The check of the other witness, whose wall clock moves with the time. -/
def other (h : Host Doc) (now : Clock) : Check where
  res := r.res
  now := later now r.elapsed
  elapsed := if (r.restarted lib h).witness.checked then r.elapsed else r.boot
  pushedAt := r.pushedAt'
  outcome := some r.outcome

end Round

variable {Doc : Type} (lib : Library Doc)

/-- What the single process owes, check by check. -/
def owedSingle (w : Witness) : List Round → List (Option PushKind)
  | [] => []
  | r :: rounds =>
    (w.tick lib r.single).2.map Push.kind :: owedSingle (w.tick lib r.single).1 rounds

/-- What the restarted witness owes, check by check. -/
def owedRestarted (h : Host Doc) (now : Clock) : List Round → List (Option PushKind)
  | [] => []
  | r :: rounds =>
    let next := (r.restarted lib h).check lib (r.other lib h now)
    next.2.map Push.kind :: owedRestarted next.1 (later now r.elapsed) rounds

/-! ### What a check leaves as it is -/

theorem observe_frame (cfg : Config) (s : State) (now : Time) (step : Duration) (gap : Bool)
    (res : CheckResult) :
    (s.observe lib cfg now step gap res).1.lastCheckAt = now ∧
      (s.observe lib cfg now step gap res).1.version = s.version ∧
      (s.observe lib cfg now step gap res).1.configSHA256 = s.configSHA256 := by
  have he : (s.elapsed now step gap res).lastCheckAt = now ∧
      (s.elapsed now step gap res).version = s.version ∧
      (s.elapsed now step gap res).configSHA256 = s.configSHA256 := by
    unfold State.elapsed
    cases gap
    · simp only [Bool.false_eq_true, ↓reduceIte]
      split <;> exact ⟨rfl, rfl, rfl⟩
    · simp only [↓reduceIte]
      split <;> exact ⟨rfl, rfl, rfl⟩
  unfold observe
  generalize s.elapsed now step gap res = s' at he
  cases res.ok
  · cases res.networkUp
    · exact he
    · simp only [failed, Bool.false_eq_true, ↓reduceIte, Bool.not_true]
      repeat' split
      all_goals exact he
  · simp only [answered, ↓reduceIte]
    repeat' split
    all_goals exact he

theorem pushed_frame (s : State) (p : Push) (now : Time) (errKind : String) :
    (s.pushed p now errKind).lastCheckAt = s.lastCheckAt ∧
      (s.pushed p now errKind).version = s.version ∧
      (s.pushed p now errKind).configSHA256 = s.configSHA256 := by
  unfold pushed
  by_cases he : errKind = ""
  · cases p.kind <;> simp [he]
  · simp [he]

theorem tick_frame (w : Witness) (c : Check) :
    (w.tick lib c).1.cfg = w.cfg ∧ (w.tick lib c).1.configSHA = w.configSHA ∧
      (w.tick lib c).1.checked ∧ (w.tick lib c).1.state.lastCheckAt = c.now ∧
      (w.tick lib c).1.state.version = w.state.version ∧
      (w.tick lib c).1.state.configSHA256 = w.state.configSHA256 := by
  unfold tick
  rcases w.since c with ⟨step, gap⟩
  dsimp only
  have ho := observe_frame lib w.cfg w.state c.now step gap c.res
  generalize w.state.observe lib w.cfg c.now step gap c.res = observed at ho
  obtain ⟨s, _ | p⟩ := observed
  · exact ⟨rfl, rfl, rfl, ho⟩
  · cases c.outcome with
    | none => exact ⟨rfl, rfl, rfl, ho⟩
    | some errKind =>
      obtain ⟨h1, h2, h3⟩ := pushed_frame s p c.pushedAt errKind
      exact ⟨rfl, rfl, rfl, h1.trans ho.1, h2.trans ho.2.1, h3.trans ho.2.2⟩

theorem adopt_frame (s : State) (cfg : Config) (configSHA : String) (now : Time) :
    (s.adopt lib cfg configSHA now).foreign configSHA = false ∧
      (s.foreign configSHA = false →
        (s.adopt lib cfg configSHA now).lastCheckAt = s.lastCheckAt) := by
  unfold adopt
  cases hf : s.foreign configSHA <;> cases hal : s.alerted <;>
    cases hz : s.lastCheckAt.isZero <;> simp [foreign, hal, hz]

theorem sub_later (now : Clock) (d : Elapsed) : Time.sub (later now d).1 now.1 = d.1 := by
  have := d.2
  simp only [Time.sub, later]
  lia

variable {h : Host Doc} {now : Clock} {w : Witness}

/-- Within the process the time is that of the monotonic clock, and a wall clock that has not
moved too far ahead does not break the runs. -/
theorem since_single {r : Round} {wall : Clock} (hp : w.checked)
    (hlast : w.state.lastCheckAt = wall.1)
    (hstep : r.elapsed.1 ≤ w.cfg.maxGap → r.wall.1 - wall.1 ≤ w.cfg.maxGap) :
    w.since r.single = (r.elapsed.1, decide (w.cfg.maxGap < r.elapsed.1)) := by
  have hsat : r.elapsed.1 ≤ w.cfg.maxGap → Time.sub r.wall.1 wall.1 ≤ w.cfg.maxGap := by
    intro hle
    have := hstep hle
    have := r.elapsed.2.1
    simp only [Time.sub]
    lia
  unfold since sinceLastCheck
  simp only [hp, hlast, clock_isZero, Bool.false_eq_true, ↓reduceIte, Round.single,
    add_sub_cancel_left, gt_iff_lt, Prod.mk.injEq, true_and]
  by_cases hle : r.elapsed.1 ≤ w.cfg.maxGap
  · simp [hsat hle]
  · simp [not_le.mp hle]

theorem since_restarted {r : Round} (hlast : (r.restarted lib h).witness.state.lastCheckAt = now.1) :
    (r.restarted lib h).witness.since (r.other lib h now) =
      (r.elapsed.1, decide ((r.restarted lib h).witness.cfg.maxGap < r.elapsed.1)) := by
  have hnn := r.elapsed.2.1
  unfold since sinceLastCheck
  simp only [hlast, clock_isZero, Bool.false_eq_true, ↓reduceIte, Round.other, sub_later,
    add_sub_cancel_left, gt_iff_lt]
  cases (r.restarted lib h).witness.checked with
  | true => simp
  | false => simp [not_lt.mpr hnn]

/-! ### Side by side -/

theorem tick_same {w' : Witness} {c c' : Check} (hcfg : w.cfg = w'.cfg)
    (hmem : w.state.memory = w'.state.memory) (hsince : w.since c = w'.since c')
    (hres : c.res = c'.res) (hout : c.outcome = c'.outcome) :
    (w.tick lib c).1.state.memory = (w'.tick lib c').1.state.memory ∧
      (w.tick lib c).2.map Push.kind = (w'.tick lib c').2.map Push.kind := by
  have h := tick_memory lib w c
  rw [hcfg, hmem, hsince, hres, hout, ← tick_memory lib w' c'] at h
  exact Prod.mk.inj h

/-- The single process and the other witness after the same checks; `wall` and `now` are what
their clocks showed at the last one. -/
structure Beside (w : Witness) (h : Host Doc) (wall now : Clock) : Prop where
  cfg : w.cfg = h.witness.cfg
  memory : w.state.memory = h.witness.state.memory
  checked : w.checked = true
  wall : w.state.lastCheckAt = wall.1
  now : h.witness.state.lastCheckAt = now.1
  file : h.file = some (lib.marshal h.witness.state)
  own : h.witness.state.foreign h.witness.configSHA = false

variable {lib}

theorem Beside.restarted {wall : Clock} (hb : Beside lib w h wall now) (r : Round) :
    (r.restarted lib h).witness.cfg = h.witness.cfg ∧
      (r.restarted lib h).witness.configSHA = h.witness.configSHA ∧
      (r.restarted lib h).witness.state.memory = h.witness.state.memory ∧
      (r.restarted lib h).witness.state.lastCheckAt = now.1 ∧
      (r.restarted lib h).witness.state.foreign h.witness.configSHA = false := by
  unfold Round.restarted
  cases r.restart with
  | none => exact ⟨rfl, rfl, rfl, hb.now, hb.own⟩
  | some at_ =>
    have hload : loadState lib h.file = h.witness.state := by
      rw [hb.file, loadState_marshal]
    obtain ⟨hown, hkeep⟩ :=
      adopt_frame lib h.witness.state h.witness.cfg h.witness.configSHA at_
    have hmem := adopt_memory lib h.witness.state h.witness.cfg h.witness.configSHA at_
    rw [hb.own] at hmem
    simp only [start, new, hload]
    exact ⟨trivial, trivial, hmem, (hkeep hb.own).trans hb.now, hown⟩

theorem beside_after {r : Round} (hcfg : w.cfg = (r.restarted lib h).witness.cfg)
    (hmem : w.state.memory = (r.restarted lib h).witness.state.memory)
    (hown : (r.restarted lib h).witness.state.foreign (r.restarted lib h).witness.configSHA = false)
    (hsince : w.since r.single = (r.restarted lib h).witness.since (r.other lib h now)) :
    Beside lib (w.tick lib r.single).1 ((r.restarted lib h).check lib (r.other lib h now)).1 r.wall
        (later now r.elapsed) ∧
      (w.tick lib r.single).2.map Push.kind =
        ((r.restarted lib h).check lib (r.other lib h now)).2.map Push.kind := by
  obtain ⟨hm, ho⟩ := tick_same lib hcfg hmem hsince rfl rfl
  obtain ⟨hc, -, hp, hl, -, -⟩ := tick_frame lib w r.single
  obtain ⟨hc', hs', -, hl', hv', hx'⟩ :=
    tick_frame lib (r.restarted lib h).witness (r.other lib h now)
  refine ⟨⟨hc.trans (hcfg.trans hc'.symm), hm, hp, hl, hl', rfl, ?_⟩, ho⟩
  have hown' := hown
  unfold foreign at hown' ⊢
  simp only [check, hs', hv', hx']
  exact hown'

/-- Between two checks the wall clock moves ahead by no more than a run may pause, unless that
much time has passed. -/
def Within (maxGap : Duration) (r r' : Round) : Prop :=
  r'.elapsed.1 ≤ maxGap → r'.wall.1 - r.wall.1 ≤ maxGap

instance (maxGap : Duration) : DecidableRel (Within maxGap) :=
  fun r r' => inferInstanceAs (Decidable (r'.elapsed.1 ≤ maxGap → r'.wall.1 - r.wall.1 ≤ maxGap))

theorem Beside.owed {rounds : List Round} {last : Round} (hb : Beside lib w h last.wall now)
    (hsteps : (last :: rounds).IsChain (Within w.cfg.maxGap)) :
    owedSingle lib w rounds = owedRestarted lib h now rounds := by
  induction rounds generalizing last w h now with
  | nil => rfl
  | cons r rounds ih =>
    obtain ⟨hstep, hsteps⟩ := List.isChain_cons_cons.mp hsteps
    obtain ⟨hcfg, hsha, hmem, hnow, hown⟩ := hb.restarted r
    have hcfg' : w.cfg = (r.restarted lib h).witness.cfg := hb.cfg.trans hcfg.symm
    have hsince : w.since r.single = (r.restarted lib h).witness.since (r.other lib h now) := by
      rw [since_single hb.checked hb.wall hstep, since_restarted lib hnow, hcfg']
    obtain ⟨hnext, howed⟩ := beside_after hcfg' (hb.memory.trans hmem.symm) (hsha ▸ hown) hsince
    have hsame : (w.tick lib r.single).1.cfg = w.cfg := (tick_frame lib w r.single).1
    simp only [owedSingle, owedRestarted, howed]
    rw [ih hnext (hsame ▸ hsteps)]

theorem adopt_lastCheckAt (lib : Library Doc) (s : State) (cfg : Config) (configSHA : String)
    (now now' : Time) :
    (s.adopt lib cfg configSHA now).lastCheckAt = (s.adopt lib cfg configSHA now').lastCheckAt := by
  unfold adopt
  cases s.foreign configSHA <;> cases hal : s.alerted <;> cases hz : s.lastCheckAt.isZero <;>
    simp [hal, hz]

theorem restarted_start (lib : Library Doc) (r : Round) (file : Option Doc) (cfg : Config)
    (configSHA : String) (startedAt : Time) :
    ∃ at_, r.restarted lib (.start lib file cfg configSHA startedAt) =
      .start lib file cfg configSHA at_ := by
  unfold Round.restarted
  cases r.restart with
  | none => exact ⟨startedAt, rfl⟩
  | some at_ => exact ⟨at_, rfl⟩

/-- **Restarts and steps of the wall clock do not change what is owed.**  A single process whose
wall clock moves ahead by no more than `maxGap` between two checks, and otherwise as it likes, and a
witness restarted before any of the checks, whose wall clock moves with the time, owe the same
kind of push at every check. Where they start from the state of an earlier process, the first
check finds both clocks at the same time. -/
theorem same_pushes (lib : Library Doc) (file : Option Doc) (cfg : Config) (configSHA : String)
    (startedAt : Time) (now : Clock) (rounds : List Round)
    (hsteps : rounds.IsChain (Within cfg.maxGap))
    (hfirst : (start lib file cfg configSHA startedAt).witness.state.lastCheckAt = 0 ∨
      ∀ r ∈ rounds.head?, r.wall = later now r.elapsed) :
    owedSingle lib (start lib file cfg configSHA startedAt).witness rounds =
      owedRestarted lib (start lib file cfg configSHA startedAt) now rounds := by
  cases rounds with
  | nil => rfl
  | cons r rounds =>
    obtain ⟨at_, hstart⟩ := restarted_start lib r file cfg configSHA startedAt
    have hlast := adopt_lastCheckAt lib (loadState lib file) cfg configSHA startedAt at_
    have hmem : (start lib file cfg configSHA startedAt).witness.state.memory =
        (start lib file cfg configSHA at_).witness.state.memory :=
      (adopt_memory lib _ cfg configSHA startedAt).trans
        (adopt_memory lib _ cfg configSHA at_).symm
    have hsince : (start lib file cfg configSHA startedAt).witness.since r.single =
        (start lib file cfg configSHA at_).witness.since
          (r.other lib (.start lib file cfg configSHA startedAt) now) := by
      have hwall : ((loadState lib file).adopt lib cfg configSHA at_).lastCheckAt = 0 ∨
          r.wall = later now r.elapsed := by
        rcases hfirst with hz | hw
        · exact .inl (hlast.symm.trans hz)
        · exact .inr (hw r rfl)
      simp only [since, sinceLastCheck, start, new, Round.single, Round.other,
        hlast, Bool.false_eq_true, ↓reduceIte]
      rcases hwall with hz | hw
      · simp [hz]
      · rw [hw]
        rfl
    rw [← hstart] at hmem hsince
    obtain ⟨hnext, howed⟩ := beside_after (hstart ▸ rfl) hmem
      (hstart ▸ (adopt_frame lib _ cfg configSHA at_).1) hsince
    have hcfg := (tick_frame lib (start lib file cfg configSHA startedAt).witness r.single).1
    simp only [owedSingle, owedRestarted, howed]
    rw [hnext.owed (hcfg ▸ hsteps)]

/-- A library whose documents are the states themselves. -/
def plainLibrary : Library State where
  urlHost := some
  clock := toString
  seconds d := Int.tdiv d second
  minutes d := Int.tdiv d (60 * second)
  marshal := id
  unmarshal := .ok
  unmarshal_marshal _ := rfl

theorem apart_range : 0 ≤ 90 * second ∧ 90 * second < 2 ^ 63 := by decide

/-- Three failed checks, 90 seconds apart, the second and the third at the given times of the single
process's clock; the other witness is restarted before the second. -/
def outage (wall wall' : Clock) : List Round :=
  let apart : Elapsed := ⟨90 * second, apart_range⟩
  let down : CheckResult := { ok := false, detail := "timeout", networkUp := true }
  [{ res := down, elapsed := apart, boot := apart, outcome := "", wall := .unix 400 },
   { res := down, elapsed := apart, boot := apart, outcome := "", wall, restart := some 1 },
   { res := down, elapsed := apart, boot := apart, outcome := "", wall := wall' }]

/-- The clock is set back before the second check and ahead before the third. Both owe the push at
the third check. -/
theorem same_pushes_outage :
    let rounds := outage (.unix 300) (.unix 450)
    rounds.IsChain (Within ({} : Config).maxGap) ∧
      owedSingle plainLibrary (start plainLibrary none {} "sha" 1).witness rounds =
        [none, none, some .down] ∧
      owedRestarted plainLibrary (start plainLibrary none {} "sha" 1) 1 rounds =
        [none, none, some .down] := by
  intro rounds
  have hchain : rounds.IsChain (Within ({} : Config).maxGap) := by decide
  have hsingle : owedSingle plainLibrary (start plainLibrary none {} "sha" 1).witness rounds =
      [none, none, some .down] := by decide
  refine ⟨hchain, hsingle, ?_⟩
  exact (same_pushes plainLibrary none {} "sha" 1 1 rounds hchain (.inl rfl)).symm.trans hsingle

/-- The clock is set ahead by 100 seconds before the second check, no more than `maxGap`. With the
90 seconds that have passed this is taken for a pause, and only the other witness owes the push. -/
theorem step_taken_for_pause :
    let rounds := outage (.unix 590) (.unix 680)
    (rounds.IsChain fun r r' => r'.wall.1 - (r.wall.1 + r'.elapsed.1) ≤ ({} : Config).maxGap) ∧
      owedSingle plainLibrary (start plainLibrary none {} "sha" 1).witness rounds =
        [none, none, none] ∧
      owedRestarted plainLibrary (start plainLibrary none {} "sha" 1) 1 rounds =
        [none, none, some .down] := by
  decide

end LatticeAgent.ControlPlane
