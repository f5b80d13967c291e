import LatticeAgent.ControlPlane.Witness
import Mathlib.Algebra.Order.BigOperators.Group.List

/-! # What the witness pushes

What the decisions of the witness read is a small part of its state (`Memory`): the counters and
sums of the two runs, whether the last check found the network down, and the alert. `observe`,
`pushed` and `adopt` act on that part without the wall clock (`observe_memory`, `pushed_memory`,
`adopt_memory`).

The memory stands for the history of checks, gaps and config changes (`Remembers`), so a push is
owed only for what the history shows, and the delivered pushes alternate (`pushes_sound`). -/

namespace LatticeAgent.ControlPlane

open List State

/-- The part of the state that the decisions read. -/
structure Memory where
  /-- There has been a check. -/
  begun : Bool := false
  failures : Nat := 0
  failingFor : Duration := 0
  oks : Nat := 0
  okFor : Duration := 0
  networkDown : Bool := false
  alerted : Bool := false
deriving DecidableEq, Repr

def State.memory (s : State) : Memory where
  begun := !s.lastCheckAt.isZero
  failures := s.consecutiveFailures
  failingFor := s.failingFor
  oks := s.consecutiveOK
  okFor := s.okFor
  networkDown := !s.networkDownSince.isZero
  alerted := s.alerted

namespace Memory

variable (cfg : Config) (m : Memory)

/-- The time since the last check belongs to the run that goes on, unless it breaks it. -/
def elapsed (step : Duration) (gap : Bool) : Memory :=
  if gap then { m with begun := true, failures := 0, failingFor := 0, oks := 0, okFor := 0 }
  else
    { m with
      begun := true
      failingFor := if 0 < m.failures then int64 (m.failingFor + step) else m.failingFor
      okFor := if 0 < m.oks then int64 (m.okFor + step) else m.okFor }

def answered : Memory × Option PushKind :=
  let m := { m with
    networkDown := false, failures := 0, failingFor := 0
    okFor := if m.oks = 0 then 0 else m.okFor
    oks := m.oks + 1 }
  (m, if m.alerted = true ∧ 2 ≤ m.oks ∧ cfg.recover ≤ m.okFor then some .recovery else none)

def failed : Memory × Option PushKind :=
  let back := m.networkDown
  let m := { m with
    networkDown := false
    failingFor := if m.failures = 0 then 0 else m.failingFor
    failures := m.failures + 1 }
  (m, if m.alerted = false ∧ 2 ≤ m.failures ∧ cfg.hold ≤ m.failingFor ∧ back = false then
    some .down else none)

def observe (step : Duration) (gap : Bool) (res : CheckResult) : Memory × Option PushKind :=
  let m := m.elapsed step gap
  if res.ok then m.answered cfg
  else
    let m := { m with oks := 0, okFor := 0 }
    if res.networkUp then m.failed cfg else ({ m with networkDown := true }, none)

/-- A delivered push moves the alert. -/
def delivered : PushKind → Memory
  | .down => { m with alerted := true }
  | .recovery => { m with alerted := false }

end Memory

/-! ### The state acts on its memory -/

section Refinement

variable {Doc : Type} (lib : Library Doc)

@[simp] theorem clock_isZero (t : Trace.Clock) : Time.isZero t.1 = false := by
  have := t.2
  simp only [Time.isZero, beq_eq_false_iff_ne]
  lia

@[simp] theorem zero_isZero : Time.isZero 0 := rfl

theorem elapsed_memory (s : State) (now : Trace.Clock) (step : Duration) (gap : Bool)
    (res : CheckResult) : (s.elapsed now step gap res).memory = s.memory.elapsed step gap := by
  unfold State.elapsed Memory.elapsed
  cases gap
  · simp only [Bool.false_eq_true, ↓reduceIte]
    split <;> simp only [memory, clock_isZero, Bool.not_false] <;> rfl
  · simp only [↓reduceIte]
    split <;> simp [memory]

theorem answered_memory (cfg : Config) (s : State) (now : Trace.Clock) :
    ((s.answered lib cfg now).1.memory, (s.answered lib cfg now).2.map Push.kind) =
      s.memory.answered cfg := by
  unfold State.answered Memory.answered
  by_cases h0 : s.consecutiveOK = 0
  · cases hal : s.alerted <;> simp [memory, h0, hal]
  cases hal : s.alerted
  · simp [memory, h0, hal]
  by_cases hc : 1 ≤ s.consecutiveOK ∧ cfg.recover ≤ s.okFor
  · simp [memory, h0, hal, hc, recoveryPush]
  · simp [memory, h0, hal, hc]

theorem failed_memory (cfg : Config) (s : State) (now : Trace.Clock) :
    ((s.failed lib cfg now).1.memory, (s.failed lib cfg now).2.map Push.kind) =
      s.memory.failed cfg := by
  unfold State.failed Memory.failed
  by_cases h0 : s.consecutiveFailures = 0
  · cases hal : s.alerted <;> simp [memory, h0, hal]
  cases hal : s.alerted
  · by_cases hc : 1 ≤ s.consecutiveFailures ∧ cfg.hold ≤ s.failingFor ∧
        s.networkDownSince.isZero = true
    · simp [memory, h0, hal, hc, downPush]
    · simp [memory, h0, hal, hc]
  · simp [memory, h0, hal]

/-- What the check makes of the memory and what it owes do not depend on the wall clock. -/
theorem observe_memory (cfg : Config) (s : State) (now : Trace.Clock) (step : Duration) (gap : Bool)
    (res : CheckResult) :
    ((s.observe lib cfg now step gap res).1.memory,
      (s.observe lib cfg now step gap res).2.map Push.kind) = s.memory.observe cfg step gap res := by
  unfold State.observe Memory.observe
  rw [← elapsed_memory s now step gap res]
  generalize s.elapsed now step gap res = s
  cases res.ok
  · cases res.networkUp
    · by_cases hz : s.networkDownSince.isZero = true <;> simp [unreachable, memory, hz]
    · exact failed_memory lib cfg { s with okSince := 0, okFor := 0, consecutiveOK := 0 } now
  · exact answered_memory lib cfg s now

theorem pushed_memory (s : State) (p : Push) (now : Time) (errKind : String) :
    (s.pushed p now errKind).memory =
      if errKind = "" then s.memory.delivered p.kind else s.memory := by
  unfold pushed Memory.delivered
  by_cases he : errKind = ""
  · cases p.kind <;> simp [he, memory]
  · simp [he, memory]

theorem adopt_memory (s : State) (cfg : Config) (configSHA : String) (now : Time) :
    (s.adopt lib cfg configSHA now).memory =
      if s.foreign configSHA then { alerted := s.alerted } else s.memory := by
  unfold adopt
  cases s.foreign configSHA
  · cases hal : s.alerted <;> cases hz : s.lastCheckAt.isZero <;> simp [memory, hal, hz]
  · cases s.alerted <;> simp [memory]

/-- What the check and the outcome of its push make of the memory. -/
def Memory.tick (cfg : Config) (m : Memory) (step : Duration) (gap : Bool) (res : CheckResult)
    (outcome : Option String) : Memory × Option PushKind :=
  match m.observe cfg step gap res, outcome with
  | (m, some k), some errKind => (if errKind = "" then m.delivered k else m, some k)
  | (m, owed), _ => (m, owed)

theorem tick_memory (w : Witness) (c : Check) :
    ((w.tick lib c).1.state.memory, (w.tick lib c).2.map Push.kind) =
      w.state.memory.tick w.cfg (w.since c).1 (w.since c).2 c.res c.outcome := by
  unfold Witness.tick Memory.tick
  have ho := observe_memory lib w.cfg w.state c.now (w.since c).1 (w.since c).2 c.res
  simp only [← ho]
  rcases w.state.observe lib w.cfg c.now (w.since c).1 (w.since c).2 c.res with ⟨s, owed⟩
  cases owed with
  | none => simp
  | some p =>
    cases c.outcome with
    | none => simp
    | some errKind => simp [pushed_memory]

theorem tick_owed (w : Witness) (c : Check) :
    (w.tick lib c).2 = (w.state.observe lib w.cfg c.now (w.since c).1 (w.since c).2 c.res).2 := by
  unfold Witness.tick
  rcases w.since c with ⟨step, gap⟩
  dsimp only
  rcases w.state.observe lib w.cfg c.now step gap c.res with ⟨s, _ | p⟩
  · rfl
  · cases c.outcome <;> rfl

end Refinement

/-! ### The history -/

/-- A check as the history keeps it. -/
structure Checked where
  res : CheckResult
  step : Duration
  gap : Bool
deriving DecidableEq, Repr

/-- The last check could not reach anything. -/
def Checked.networkDown (c : Checked) : Bool := !c.res.ok && !c.res.networkUp

inductive Entry where
  | check (c : Checked)
  | changed
deriving DecidableEq, Repr

def Entry.networkDown : Entry → Bool
  | .check c => c.networkDown
  | .changed => false

/-- The checks since the last gap, config change or check that does not belong to the run. The
check that ends a gap is the first of its run. -/
def runOf (belongs : Checked → Bool) (history : List Entry) : List Checked :=
  history.foldl (fun run e => match e with
    | .changed => []
    | .check c => if belongs c then (if c.gap then [] else run) ++ [c] else []) []

/-- The checks since the last answered check, gap or config change. -/
def unanswered : List Entry → List Checked := runOf fun c => !c.res.ok

/-- The answered checks since the last failed check, gap or config change. -/
def answers : List Entry → List Checked := runOf fun c => c.res.ok

/-- The time since the first failed check of a run that had the network up. -/
def failingTime (run : List Checked) : Duration :=
  ((run.dropWhile fun c => !c.res.networkUp).tail.map Checked.step).sum

/-- The time since the first check of a run. -/
def answeringTime (run : List Checked) : Duration := (run.tail.map Checked.step).sum

/-- The failed checks of a run that had the network up. -/
def upFailures (run : List Checked) : Nat := run.countP fun c => c.res.networkUp

section Runs

variable (belongs : Checked → Bool) (history : List Entry)

theorem runOf_changed : runOf belongs (history ++ [.changed]) = [] := by simp [runOf]

theorem runOf_check (c : Checked) :
    runOf belongs (history ++ [.check c]) =
      if belongs c then (if c.gap then [] else runOf belongs history) ++ [c] else [] := by
  simp [runOf]

theorem runOf_tail : ∀ c ∈ (runOf belongs history).tail, c.gap = false ∧ .check c ∈ history := by
  induction history using reverseRecOn with
  | nil => simp [runOf]
  | append_singleton history e ih =>
    cases e with
    | changed => simp [runOf_changed]
    | check d =>
      rw [runOf_check]
      cases belongs d
      · simp
      cases hg : d.gap
      · intro c hc
        rcases hrun : runOf belongs history with - | ⟨first, rest⟩
        · simp [hrun] at hc
        · simp only [hrun, tail_cons] at ih
          simp only [hrun, ↓reduceIte, Bool.false_eq_true, cons_append, tail_cons,
            mem_append, mem_singleton] at hc
          rcases hc with hc | rfl
          · exact ⟨(ih c hc).1, mem_append_left _ (ih c hc).2⟩
          · exact ⟨hg, by simp⟩
      · simp

end Runs

theorem failingTime_snoc {run : List Checked} (c : Checked) (h : 0 < upFailures run) :
    failingTime (run ++ [c]) = failingTime run + c.step := by
  have hne : run.dropWhile (fun c => !c.res.networkUp) ≠ [] := by
    obtain ⟨d, hd, hup⟩ := countP_pos_iff.mp h
    intro hnil
    have := dropWhile_eq_nil_iff.mp hnil d hd
    simp_all
  unfold failingTime
  rw [dropWhile_append, if_neg (by simpa using hne), tail_append_of_ne_nil hne]
  simp

theorem failingTime_first {run : List Checked} (c : Checked) (h : upFailures run = 0) :
    failingTime (run ++ [c]) = 0 := by
  have hnil : run.dropWhile (fun c => !c.res.networkUp) = [] := by
    rw [dropWhile_eq_nil_iff]
    intro d hd
    simpa using countP_eq_zero.mp h d hd
  unfold failingTime
  rw [dropWhile_append, if_pos (by simp [hnil])]
  cases hc : c.res.networkUp <;> simp [hc]

theorem answeringTime_snoc {run : List Checked} (c : Checked) (h : run ≠ []) :
    answeringTime (run ++ [c]) = answeringTime run + c.step := by
  unfold answeringTime
  rw [tail_append_of_ne_nil h]
  simp

theorem upFailures_snoc (run : List Checked) (c : Checked) :
    upFailures (run ++ [c]) = upFailures run + if c.res.networkUp then 1 else 0 := by
  simp [upFailures, countP_append, countP_cons]

/-- The memory is what the history shows. -/
structure Remembers (history : List Entry) (m : Memory) : Prop where
  failures : m.failures = upFailures (unanswered history)
  failingFor : 0 < m.failures → m.failingFor = int64 (failingTime (unanswered history))
  oks : m.oks = (answers history).length
  okFor : 0 < m.oks → m.okFor = int64 (answeringTime (answers history))
  networkDown : m.networkDown = history.getLast?.any Entry.networkDown

theorem Remembers.changed (history : List Entry) (alerted : Bool) :
    Remembers (history ++ [.changed]) { alerted } := by
  constructor <;> simp [unanswered, answers, runOf_changed, upFailures, Entry.networkDown]

/-- The runs once the time since the last check is counted, and the next check not yet. -/
structure Running (failing answering : List Checked) (step : Duration) (m : Memory) : Prop where
  failures : m.failures = upFailures failing
  failingFor : 0 < m.failures → m.failingFor = int64 (failingTime failing + step)
  oks : m.oks = answering.length
  okFor : 0 < m.oks → m.okFor = int64 (answeringTime answering + step)

variable {history : List Entry} {m : Memory}

theorem Remembers.elapsed (h : Remembers history m) (step : Duration) (gap : Bool) :
    Running (if gap then [] else unanswered history) (if gap then [] else answers history) step
      (m.elapsed step gap) := by
  cases gap with
  | true => constructor <;> simp [Memory.elapsed, upFailures]
  | false =>
    refine ⟨h.failures, fun hpos => ?_, h.oks, fun hpos => ?_⟩
    · have hpos : 0 < m.failures := hpos
      simp [Memory.elapsed, hpos, h.failingFor hpos, int64_add_left]
    · have hpos : 0 < m.oks := hpos
      simp [Memory.elapsed, hpos, h.okFor hpos, int64_add_left]

variable {c : Checked} {res : CheckResult} {failing answering : List Checked}

theorem Running.answered (h : Running failing answering c.step m) (cfg : Config) (hok : c.res.ok)
    (hf : unanswered history = []) (ha : answers history = answering ++ [c])
    (hl : history.getLast? = some (.check c)) : Remembers history (m.answered cfg).1 := by
  refine ⟨?_, ?_, ?_, fun _ => ?_, ?_⟩
  · simp [Memory.answered, hf, upFailures]
  · simp [Memory.answered]
  · simp [Memory.answered, ha, h.oks]
  · rw [ha]
    by_cases h0 : m.oks = 0
    · have hnil : answering = [] := length_eq_zero_iff.mp (h.oks.symm.trans h0)
      simp [Memory.answered, h0, hnil, answeringTime, int64]
    · have hpos : 0 < m.oks := Nat.pos_of_ne_zero h0
      have hne : answering ≠ [] := length_pos_iff.mp (h.oks ▸ hpos)
      simp [Memory.answered, h0, h.okFor hpos, answeringTime_snoc c hne]
  · simp [Memory.answered, hl, Entry.networkDown, Checked.networkDown, hok]

theorem Running.failed (h : Running failing answering c.step m) (cfg : Config)
    (hup : c.res.networkUp) (hf : unanswered history = failing ++ [c])
    (ha : answers history = []) (hl : history.getLast? = some (.check c)) :
    Remembers history (({ m with oks := 0, okFor := 0 } : Memory).failed cfg).1 := by
  refine ⟨?_, fun _ => ?_, ?_, ?_, ?_⟩
  · simp [Memory.failed, hf, upFailures_snoc, hup, h.failures]
  · rw [hf]
    by_cases h0 : m.failures = 0
    · simp [Memory.failed, h0, failingTime_first c (h.failures.symm.trans h0), int64]
    · have hpos : 0 < m.failures := Nat.pos_of_ne_zero h0
      simp [Memory.failed, h0, h.failingFor hpos, failingTime_snoc c (h.failures ▸ hpos)]
  · simp [Memory.failed, ha]
  · simp [Memory.failed]
  · simp [Memory.failed, hl, Entry.networkDown, Checked.networkDown, hup]

theorem Running.unreachable (h : Running failing answering c.step m) (hok : c.res.ok = false)
    (hup : c.res.networkUp = false) (hf : unanswered history = failing ++ [c])
    (ha : answers history = []) (hl : history.getLast? = some (.check c)) :
    Remembers history { m with oks := 0, okFor := 0, networkDown := true } := by
  refine ⟨?_, fun hpos => ?_, ?_, ?_, ?_⟩
  · simp [hf, upFailures_snoc, hup, h.failures]
  · rw [hf, failingTime_snoc c (h.failures ▸ hpos)]
    exact h.failingFor hpos
  · simp [ha]
  · simp
  · simp [hl, Entry.networkDown, Checked.networkDown, hok, hup]

theorem Remembers.observe (h : Remembers history m) (cfg : Config) (c : Checked) :
    Remembers (history ++ [.check c]) (m.observe cfg c.step c.gap c.res).1 := by
  have hr := h.elapsed c.step c.gap
  have hf := runOf_check (fun c => !c.res.ok) history c
  have ha := runOf_check (fun c => c.res.ok) history c
  have hl : (history ++ [Entry.check c]).getLast? = some (.check c) := getLast?_concat
  unfold Memory.observe
  cases hok : c.res.ok with
  | true =>
    rw [hok] at hf ha
    exact hr.answered cfg hok hf ha hl
  | false =>
    rw [hok] at hf ha
    cases hup : c.res.networkUp with
    | true => exact hr.failed cfg hup hf ha hl
    | false => exact hr.unreachable hok hup hf ha hl

/-! ### What is owed -/

theorem observe_alerted (m : Memory) (cfg : Config) (step : Duration) (gap : Bool)
    (res : CheckResult) : (m.observe cfg step gap res).1.alerted = m.alerted := by
  unfold Memory.observe Memory.elapsed
  cases res.ok <;> cases res.networkUp <;> cases gap <;> rfl

theorem observe_down {cfg : Config} {step : Duration} {gap : Bool}
    (h : (m.observe cfg step gap res).2 = some .down) :
    m.alerted = false ∧ 2 ≤ (m.observe cfg step gap res).1.failures ∧
      cfg.hold ≤ (m.observe cfg step gap res).1.failingFor ∧ m.networkDown = false := by
  have hkeep : (m.elapsed step gap).alerted = m.alerted ∧
      (m.elapsed step gap).networkDown = m.networkDown := by
    cases gap <;> exact ⟨rfl, rfl⟩
  unfold Memory.observe at h ⊢
  cases hok : res.ok with
  | true => simp [hok, Memory.answered] at h
  | false =>
    cases hup : res.networkUp with
    | false => simp [hok, hup] at h
    | true =>
      simp only [hok, hup, Bool.false_eq_true, ↓reduceIte, Memory.failed,
        ite_eq_left_iff, reduceCtorEq, imp_false, not_not] at h ⊢
      exact ⟨hkeep.1 ▸ h.1, h.2.1, h.2.2.1, hkeep.2 ▸ h.2.2.2⟩

theorem observe_recovery {cfg : Config} {step : Duration} {gap : Bool}
    (h : (m.observe cfg step gap res).2 = some .recovery) :
    m.alerted ∧ 2 ≤ (m.observe cfg step gap res).1.oks ∧
      cfg.recover ≤ (m.observe cfg step gap res).1.okFor := by
  have hkeep : (m.elapsed step gap).alerted = m.alerted := by cases gap <;> rfl
  unfold Memory.observe at h ⊢
  cases hok : res.ok with
  | true =>
    simp only [hok, ↓reduceIte, Memory.answered, ite_eq_left_iff, reduceCtorEq, imp_false,
      not_not] at h ⊢
    exact ⟨hkeep ▸ h.1, h.2.1, h.2.2⟩
  | false => cases hup : res.networkUp <;> simp [hok, hup, Memory.failed] at h

/-- Within a run the time only moves forward. -/
def Forward (history : List Entry) : Prop :=
  ∀ c, .check c ∈ history → c.gap = false → 0 ≤ c.step

theorem since_nonneg (w : Witness) (c : Check) (h : (w.since c).2 = false) : 0 ≤ (w.since c).1 := by
  have hmono := c.elapsed.2.1
  unfold Witness.since sinceLastCheck at h ⊢
  simp only [add_sub_cancel_left] at h ⊢
  by_cases hz : w.state.lastCheckAt.isZero = true
  · simp [hz]
  · cases hp : w.checked with
    | true => simpa [hz, hp] using hmono
    | false =>
      simp only [hz, hp, Bool.false_eq_true, ↓reduceIte, Bool.or_eq_false_iff,
        decide_eq_false_iff_not, not_lt] at h ⊢
      exact h.1

theorem Forward.runOf_tail_nonneg (h : Forward history) (belongs : Checked → Bool)
    {part : List Checked} (hpart : part.Sublist (runOf belongs history).tail) :
    0 ≤ (part.map Checked.step).sum := by
  refine sum_nonneg fun t ht => ?_
  obtain ⟨c, hc, rfl⟩ := mem_map.mp ht
  obtain ⟨hg, hmem⟩ := runOf_tail belongs history c (hpart.subset hc)
  exact h c hmem hg

theorem Forward.failingTime_nonneg (h : Forward history) : 0 ≤ failingTime (unanswered history) :=
  h.runOf_tail_nonneg _ (dropWhile_sublist _).tail

theorem Forward.answeringTime_nonneg (h : Forward history) : 0 ≤ answeringTime (answers history) :=
  h.runOf_tail_nonneg _ (List.Sublist.refl _)

/-- What the history shows when a push of this kind is owed for its last check, under `cfg`; `alerted`
is the alert before that check. -/
def Due (cfg : Config) (history : List Entry) (last : Entry) (alerted : Bool) : PushKind → Prop
  | .down =>
    2 ≤ upFailures (unanswered (history ++ [last])) ∧
      cfg.hold ≤ failingTime (unanswered (history ++ [last])) ∧
      ∃ earlier before, history = earlier ++ [.check before] ∧ before.networkDown = false
  | .recovery =>
    alerted = true ∧ 2 ≤ (answers (history ++ [last])).length ∧
      cfg.recover ≤ answeringTime (answers (history ++ [last]))

theorem exists_before (h : 2 ≤ upFailures (unanswered (history ++ [.check c]))) :
    ∃ earlier before, history = earlier ++ [.check before] := by
  have hone : upFailures [c] ≤ 1 := countP_le_length
  have hne : unanswered history ≠ [] := by
    intro hnil
    have hrun := runOf_check (fun c => !c.res.ok) history c
    have hnil' : runOf (fun c => !c.res.ok) history = [] := hnil
    rw [hnil', ite_self, nil_append] at hrun
    have hle : upFailures (unanswered (history ++ [.check c])) ≤ 1 := by
      unfold unanswered
      rw [hrun]
      split
      · exact hone
      · exact Nat.zero_le 1
    omega
  induction history using reverseRecOn with
  | nil => exact absurd rfl hne
  | append_singleton earlier e _ =>
    cases e with
    | check before => exact ⟨earlier, before, rfl⟩
    | changed => exact absurd (runOf_changed _ earlier) hne

theorem Remembers.due (h : Remembers history m) {cfg : Config}
    (hfwd : Forward (history ++ [.check c])) {kind : PushKind}
    (howed : (m.observe cfg c.step c.gap c.res).2 = some kind) :
    Due cfg history (.check c) m.alerted kind := by
  have hafter := h.observe cfg c
  cases kind with
  | down =>
    obtain ⟨-, htwo, hhold, hnet⟩ := observe_down howed
    rw [hafter.failingFor (by omega)] at hhold
    rw [hafter.failures] at htwo
    obtain ⟨earlier, before, rfl⟩ := exists_before htwo
    refine ⟨htwo, hhold.trans (int64_le hfwd.failingTime_nonneg), earlier, before, rfl, ?_⟩
    have := h.networkDown.symm.trans hnet
    simpa [Entry.networkDown] using this
  | recovery =>
    obtain ⟨hal, htwo, hrec⟩ := observe_recovery howed
    rw [hafter.okFor (by omega)] at hrec
    rw [hafter.oks] at htwo
    exact ⟨hal, htwo, hrec.trans (int64_le hfwd.answeringTime_nonneg)⟩

/-! ### Whole runs -/

/-- What can happen to a witness: a check, or an end of its process and a start under a config. In
an orderly end `Run` saves the state on its way out. -/
inductive Event where
  | check (c : Check)
  | restart (orderly : Bool) (cfg : Config) (configSHA : String) (now : Time)

/-- The pushes a check delivers. -/
def deliveries (owed : Option PushKind) (outcome : Option String) : List PushKind :=
  if outcome = some "" then owed.toList else []

/-- A host, the history of the state it goes by and that of its state file, and the pushes
delivered. A process that dies before it has saved anything leaves nothing in the history. -/
structure Record (Doc : Type) where
  host : Host Doc
  history : List Entry := []
  saved : List Entry := []
  delivered : List PushKind := []

namespace Record

variable {Doc : Type} (lib : Library Doc)

def start (cfg : Config) (configSHA : String) (now : Time) : Record Doc :=
  { host := .start lib none cfg configSHA now }

/-- The check as the witness takes it. -/
def checked (r : Record Doc) (c : Check) : Checked where
  res := c.res
  step := (r.host.witness.since c).1
  gap := (r.host.witness.since c).2

def step (r : Record Doc) : Event → Record Doc
  | .check c =>
    let (host, owed) := r.host.check lib c
    let history := r.history ++ [.check (r.checked c)]
    { host, history, saved := history
      delivered := r.delivered ++ deliveries (owed.map Push.kind) c.outcome }
  | .restart orderly cfg configSHA now =>
    let file := if orderly then some (lib.marshal r.host.witness.state) else r.host.file
    let saved := if orderly then r.history else r.saved
    { host := .start lib file cfg configSHA now
      history :=
        if (loadState lib file).foreign configSHA then saved ++ [.changed] else saved
      saved
      delivered := r.delivered }

def run (r : Record Doc) (events : List Event) : Record Doc := events.foldl (step lib) r

end Record

/-- Down and recovery in turn, down first. -/
def Alternate (pushes : List PushKind) : Prop :=
  ∀ i kind, pushes[i]? = some kind → kind = if i % 2 = 0 then .down else .recovery

theorem Alternate.snoc {pushes : List PushKind} (h : Alternate pushes) {kind : PushKind}
    (hk : kind = if pushes.length % 2 = 0 then .down else .recovery) :
    Alternate (pushes ++ [kind]) := by
  intro i kind' hi
  rcases lt_trichotomy i pushes.length with hlt | rfl | hgt
  · rw [getElem?_append_left hlt] at hi
    exact h i kind' hi
  · rw [getElem?_concat_length] at hi
    rw [← Option.some.inj hi]
    exact hk
  · rw [getElem?_eq_none (by simp; omega)] at hi
    cases hi

/-- What a state stands for, once `delivered` pushes are through. -/
structure Stands (delivered : List PushKind) (history : List Entry) (s : State) : Prop where
  remembers : Remembers history s.memory
  forward : Forward history
  alerted : s.alerted = decide (delivered.length % 2 = 1)

/-- The invariant of a record: the running state and the saved one stand for their histories. -/
structure Sound {Doc : Type} (lib : Library Doc) (r : Record Doc) : Prop where
  state : Stands r.delivered r.history r.host.witness.state
  saved : Stands r.delivered r.saved (loadState lib r.host.file)
  alternate : Alternate r.delivered

section Runs

variable {Doc : Type} {lib : Library Doc}

theorem Stands.adopt {delivered : List PushKind} {s : State} (h : Stands delivered history s)
    (cfg : Config) (configSHA : String) (now : Time) :
    Stands delivered (if s.foreign configSHA then history ++ [.changed] else history)
      (s.adopt lib cfg configSHA now) := by
  have hm := adopt_memory lib s cfg configSHA now
  cases hf : s.foreign configSHA with
  | false =>
    rw [hf] at hm
    refine ⟨?_, h.forward, ?_⟩
    · rw [hm]
      exact h.remembers
    · exact (congrArg Memory.alerted hm).trans h.alerted
  | true =>
    rw [hf] at hm
    refine ⟨?_, ?_, ?_⟩
    · rw [hm]
      exact Remembers.changed history s.alerted
    · intro c hc
      simp only [↓reduceIte, mem_append, mem_singleton, reduceCtorEq, or_false] at hc
      exact h.forward c hc
    · exact (congrArg Memory.alerted hm).trans h.alerted

theorem loadState_marshal (lib : Library Doc) (s : State) :
    loadState lib (some (lib.marshal s)) = s := by
  simp [loadState, lib.unmarshal_marshal, Except.toOption]

theorem Remembers.delivered (h : Remembers history m) (kind : PushKind) :
    Remembers history (m.delivered kind) := by
  cases kind <;> exact ⟨h.failures, h.failingFor, h.oks, h.okFor, h.networkDown⟩

/-- A check and its push keep the memory in step with the history, and the alert in step with
the number of pushes delivered. -/
theorem Remembers.tick {delivered : List PushKind} (h : Remembers history m)
    (hal : m.alerted = decide (delivered.length % 2 = 1))
    (halt : Alternate delivered) (cfg : Config) (c : Checked) (outcome : Option String) :
    let next := m.tick cfg c.step c.gap c.res outcome
    let delivered' := delivered ++ deliveries next.2 outcome
    Remembers (history ++ [.check c]) next.1 ∧ Alternate delivered' ∧
      next.1.alerted = decide (delivered'.length % 2 = 1) := by
  have hr := h.observe cfg c
  have hsame := observe_alerted m cfg c.step c.gap c.res
  rw [hal] at hsame
  unfold Memory.tick deliveries
  rcases ho : m.observe cfg c.step c.gap c.res with ⟨m', owed⟩
  rw [ho] at hr hsame
  by_cases hdel : outcome = some ""
  · subst hdel
    cases owed with
    | none => simpa using ⟨hr, halt, hsame⟩
    | some kind =>
      -- a down push is owed only before an alert, a recovery only after one
      have hkind : kind = if delivered.length % 2 = 0 then .down else .recovery := by
        cases kind with
        | down =>
          have := (observe_down (congrArg Prod.snd ho)).1
          simp only [hal, decide_eq_false_iff_not] at this
          rw [if_pos (by omega)]
        | recovery =>
          have := (observe_recovery (congrArg Prod.snd ho)).1
          simp only [hal, decide_eq_true_eq] at this
          rw [if_neg (by omega)]
      refine ⟨hr.delivered kind, halt.snoc hkind, ?_⟩
      simp only [↓reduceIte, Option.toList_some, length_append, length_singleton]
      split at hkind
      · subst hkind
        simp only [Memory.delivered, true_eq_decide_iff]
        omega
      · subst hkind
        simp only [Memory.delivered, false_eq_decide_iff]
        omega
  · simp only [if_neg hdel, append_nil]
    cases owed with
    | none => exact ⟨hr, halt, hsame⟩
    | some kind =>
      cases outcome with
      | none => exact ⟨hr, halt, hsame⟩
      | some errKind =>
        have hne : errKind ≠ "" := fun he => hdel (he ▸ rfl)
        simpa [hne] using ⟨hr, halt, hsame⟩

theorem Record.forward_check {r : Record Doc} (h : Forward r.history) (c : Check) :
    Forward (r.history ++ [.check (r.checked c)]) := by
  intro d hd hgap
  rcases mem_append.mp hd with hd | hd
  · exact h d hd hgap
  · obtain rfl : d = r.checked c := by simpa using hd
    exact since_nonneg _ c hgap

theorem Record.step_memory (lib : Library Doc) (r : Record Doc) (c : Check) :
    let next := r.host.witness.state.memory.tick r.host.witness.cfg (r.checked c).step
      (r.checked c).gap (r.checked c).res c.outcome
    (r.step lib (.check c)).host.witness.state.memory = next.1 ∧
      (r.step lib (.check c)).delivered = r.delivered ++ deliveries next.2 c.outcome := by
  have ht := tick_memory lib r.host.witness c
  refine ⟨congrArg Prod.fst ht, ?_⟩
  exact congrArg (fun next => r.delivered ++ deliveries (Prod.snd next) c.outcome) ht

theorem Sound.step {r : Record Doc} (h : Sound lib r) (e : Event) : Sound lib (r.step lib e) := by
  cases e with
  | check c =>
    obtain ⟨hmem, hdel⟩ := r.step_memory lib c
    obtain ⟨hrem, halt, hal⟩ :=
      h.state.remembers.tick h.state.alerted h.alternate r.host.witness.cfg (r.checked c) c.outcome
    rw [← hdel] at halt hal
    have hnext : Stands (r.step lib (.check c)).delivered (r.step lib (.check c)).history
        (r.step lib (.check c)).host.witness.state :=
      ⟨hmem ▸ hrem, Record.forward_check h.state.forward c, (congrArg Memory.alerted hmem).trans hal⟩
    refine ⟨hnext, ?_, halt⟩
    have hload : loadState lib (r.step lib (.check c)).host.file =
        (r.step lib (.check c)).host.witness.state := loadState_marshal lib _
    rw [hload]
    exact hnext
  | restart orderly cfg configSHA now =>
    have hsaved : Stands r.delivered (if orderly then r.history else r.saved)
        (loadState lib (if orderly then some (lib.marshal r.host.witness.state) else r.host.file)) := by
      cases orderly with
      | false => exact h.saved
      | true =>
        simp only [↓reduceIte, loadState_marshal]
        exact h.state
    exact ⟨hsaved.adopt cfg configSHA now, hsaved, h.alternate⟩

theorem sound_start (lib : Library Doc) (cfg : Config) (configSHA : String) (now : Time) :
    Sound lib (Record.start lib cfg configSHA now) := by
  have hfresh : Stands [] [] ({} : State) := by
    refine ⟨?_, fun c hc => absurd hc (List.not_mem_nil), rfl⟩
    constructor <;> simp [memory, unanswered, answers, runOf, upFailures]
  refine ⟨?_, hfresh, fun i kind hi => by simp [Record.start] at hi⟩
  have hm := adopt_memory lib {} cfg configSHA now
  have hnew : ({} : State).foreign configSHA := by simp [foreign, stateVersion]
  rw [hnew] at hm
  exact ⟨hm ▸ hfresh.remembers, hfresh.forward, congrArg Memory.alerted hm⟩

theorem sound_run (lib : Library Doc) (cfg : Config) (configSHA : String) (now : Time)
    (events : List Event) : Sound lib ((Record.start lib cfg configSHA now).run lib events) := by
  induction events using reverseRecOn with
  | nil => exact sound_start lib cfg configSHA now
  | append_singleton events e ih =>
    rw [Record.run, foldl_append]
    exact ih.step e

/-- **The pushes are sound and alternate.**  After any checks, gaps, push outcomes, restarts and
config changes, the pushes delivered are down and recovery in turn, down first; the push the next
check owes, if any, is due by the history; and a restart under any config keeps the alert. -/
theorem pushes_sound (lib : Library Doc) (cfg : Config) (configSHA : String) (now : Time)
    (events : List Event) :
    let r := (Record.start lib cfg configSHA now).run lib events
    Alternate r.delivered ∧
      (∀ c push, (r.host.check lib c).2 = some push →
        Due r.host.witness.cfg r.history (.check (r.checked c)) r.host.witness.state.alerted
          push.kind) ∧
      ∀ orderly cfg' configSHA' now',
        (r.step lib (.restart orderly cfg' configSHA' now')).host.witness.state.alerted =
          r.host.witness.state.alerted := by
  intro r
  have h : Sound lib r := sound_run lib cfg configSHA now events
  refine ⟨h.alternate, fun c push hpush => ?_, fun orderly cfg' configSHA' now' => ?_⟩
  · have howed := congrArg Prod.snd (observe_memory lib r.host.witness.cfg r.host.witness.state c.now
      (r.checked c).step (r.checked c).gap c.res)
    have hobs := (tick_owed lib r.host.witness c).symm.trans hpush
    refine h.state.remembers.due (Record.forward_check h.state.forward c) (howed.symm.trans ?_)
    exact congrArg (Option.map Push.kind) hobs
  · have hnext := (h.step (.restart orderly cfg' configSHA' now')).state.alerted
    exact hnext.trans h.state.alerted.symm

end Runs

end LatticeAgent.ControlPlane
