import LatticeAgent.Lib.Runs
import LatticeAgent.Trace.Collector
import LatticeAgent.Trace.Connections
import Mathlib.Data.UInt

/-! # Shedding cuts whole connections

The stream goroutine passes each entry through the ceiling, asks the assembler whether it knows
the connection, asks the guard, and gives the line to the assembler. Each of these takes its
lock for itself, and ticks, snapshots, restarts of the core, resets of the guard, drains of its
counters and changes of the budget come in between in any order (`Shedding`).

`shedding_whole` says that a connection is never both open and shed, and that the counters count
what they say. -/

namespace LatticeAgent.Trace

/-! ### The marks -/

namespace ShedRing

variable (r : ShedRing)

@[simp] theorem has_remove (id x : UInt32) :
    (r.remove id).has x = (decide (x ≠ id) && r.has x) := by
  by_cases h : x = id
  · subst h
    simp [has, remove]
  · simp [has, remove, h]

@[simp] theorem has_reset (x : UInt32) : r.reset.has x = false := by simp [has, reset]

/-- The id whose mark goes with the slot that the next mark takes. -/
def evicts (x : UInt32) : Bool :=
  decide (r.cap ≤ r.ring.length) && decide ((r.ring.getD r.pos {}).id = x)

@[simp] theorem has_add_self (id : UInt32) : (r.add id).has id := by
  unfold add
  dsimp only
  split <;> simp [has]

theorem has_add_other {id x : UInt32} (hne : x ≠ id) (h : (r.add id).has x) : r.has x := by
  unfold add at h
  dsimp only at h
  split at h
  · simpa [has, hne] using h
  · simp only [has, AList.lookup_insert_ne hne] at h
    split at h
    · by_cases hx : x = (r.ring.getD r.pos {}).id
      · rw [hx, AList.lookup_erase] at h
        cases h
      · rwa [AList.lookup_erase_ne hx] at h
    · exact h

theorem has_add_of_has {id x : UInt32} (h : r.has x) (hkeep : r.evicts x = false) :
    (r.add id).has x := by
  by_cases hne : x = id
  · subst hne
    exact r.has_add_self x
  unfold add
  dsimp only
  split
  · simpa [has, hne] using h
  · rename_i hfull
    have hx : x ≠ (r.ring.getD r.pos {}).id := by
      rintro rfl
      simp [evicts, not_lt.mp hfull] at hkeep
    simp only [has, AList.lookup_insert_ne hne]
    split
    · rw [AList.lookup_erase_ne hx]
      exact h
    · exact h

end ShedRing

/-! ### The guard -/

namespace Guard

variable (g : Guard)

@[simp] theorem roll_shed (now : Time) : (g.roll now).shed = g.shed := by
  unfold roll
  split <;> rfl

@[simp] theorem roll_counts (now : Time) :
    (g.roll now).shedN = g.shedN ∧ (g.roll now).droppedN = g.droppedN := by
  unfold roll
  split <;> exact ⟨rfl, rfl⟩

theorem ceiling_frame (now : Time) :
    (g.ceiling now).2.shed = g.shed ∧ (g.ceiling now).2.shedN = g.shedN ∧
      (g.ceiling now).2.droppedN = g.droppedN + if (g.ceiling now).1 then 0 else 1 := by
  unfold ceiling
  dsimp only
  split <;> simp

/-- The marks without that of an id. -/
def cleared (id : UInt32) : ShedRing := if g.shed.has id then g.shed.remove id else g.shed

@[simp] theorem cleared_has (id x : UInt32) :
    (g.cleared id).has x = (decide (x ≠ id) && g.shed.has x) := by
  unfold cleared
  split
  · exact g.shed.has_remove id x
  · by_cases h : x = id
    · subst h
      simp_all
    · simp [h]

/-- What an admission leaves of the marks and the counters. -/
def Left (g g' : Guard) (ring : ShedRing) (shed dropped : UInt64) : Prop :=
  g'.shed = ring ∧ g'.shedN = g.shedN + shed ∧ g'.droppedN = g.droppedN + dropped

/-- What `Admit` can do: a line without an id passes or is dropped; a line of a marked id is
refused; a line passes and its id is unmarked; or its id, unknown to the assembler, is marked. -/
theorem admitLine_cases (now : Time) (l : Line) (tracked : Bool) :
    (l.hasLogID = false ∧
      Left g (g.admitLine now l tracked).2 g.shed 0 (if (g.admitLine now l tracked).1 then 0 else 1)) ∨
    (l.hasLogID ∧ g.shed.has l.logID ∧ l.event ≠ .inboundFrom ∧
      (g.admitLine now l tracked).1 = false ∧ Left g (g.admitLine now l tracked).2 g.shed 0 0) ∨
    (l.hasLogID ∧ (g.shed.has l.logID → l.event = .inboundFrom) ∧
      (g.admitLine now l tracked).1 ∧
      Left g (g.admitLine now l tracked).2 (g.cleared l.logID) 0 0) ∨
    (l.hasLogID ∧ (g.shed.has l.logID → l.event = .inboundFrom) ∧ tracked = false ∧
      (g.admitLine now l tracked).1 = false ∧
      Left g (g.admitLine now l tracked).2 ((g.cleared l.logID).add l.logID) 1 0) := by
  obtain ⟨hshedN, hdroppedN⟩ := g.roll_counts now
  have hshed := g.roll_shed now
  unfold admitLine unshed cleared Left
  dsimp only
  generalize g.roll now = g₁ at hshedN hdroppedN hshed
  rw [← hshed, ← hshedN, ← hdroppedN]
  by_cases hid : l.hasLogID = true
  · by_cases hmark : g₁.shed.has l.logID = true
    · by_cases hev : l.event = .inboundFrom
      · by_cases hover : g₁.budget < g₁.parsed + 1 <;> cases tracked <;>
          simp [hid, hmark, hev, hover]
      · simp [hid, hmark, hev]
    · by_cases hover : g₁.budget < g₁.parsed + 1 <;> cases tracked <;> simp [hid, hmark, hover]
  · by_cases hover : g₁.budget < g₁.parsed + 1 <;> simp [hid, hover]

end Guard

/-! ### The stream and its surroundings -/

/-- Where the stream goroutine stands with an entry. -/
inductive Stage where
  | idle
  /-- Under the ceiling and parsed: `Tracked` next. -/
  | parsed (l : Line) (now : Time)
  /-- `Tracked` has answered: `Admit` next. -/
  | asked (l : Line) (now : Time) (tracked : Bool)
  /-- Admitted: `Line` next. -/
  | admitted (l : Line)

/-- A guard and an assembler with the stream between them, and what has been counted: the sums of
what `Take` returned, the marks set, and the lines refused that are over the ceiling or have no
id. -/
structure Shedding where
  asm : Assembler
  guard : Guard
  stage : Stage := .idle
  tookShed : UInt64 := 0
  tookDropped : UInt64 := 0
  marks : Nat := 0
  refusals : Nat := 0

/-- What can happen next. A move of the stream happens only at its stage. -/
inductive ShedMove where
  /-- An entry, parsed to a line where it can be. -/
  | entry (entry : Option Line) (now : Time)
  | track
  | admission
  | line (clock : Time)
  | tick (now clock : Time)
  | snapshot (s : Snapshot) (clock : Time)
  | coreRestart (generation : UInt64) (at_ clock : Time)
  | tag (logID : UInt32) (ids : List String)
  | drain
  | reset
  | take
  | setBudget (n : Int)

namespace Shedding

variable (sdk : Sdk) (s : Shedding)

/-- An admission has set a mark on the id of a line: it is marked, and was not, or its mark was
cleared by the line. -/
def setsMark (g g' : Guard) (l : Line) : Bool :=
  l.hasLogID && g'.shed.has l.logID &&
    (!g.shed.has l.logID || decide (l.event = .inboundFrom))

def onEntry (entry : Option Line) (now : Time) : Shedding :=
  match s.guard.ceiling now with
  | (false, guard) => { s with guard, refusals := s.refusals + 1 }
  | (true, guard) =>
    { s with
      guard
      stage := match entry with
        | none => .idle
        | some l => .parsed { l with at_ := now } now }

def onAdmit (l : Line) (now : Time) (tracked : Bool) : Shedding :=
  let (ok, guard) := s.guard.admitLine now l tracked
  { s with
    guard
    stage := if ok then .admitted l else .idle
    marks := s.marks + if setsMark s.guard guard l then 1 else 0
    refusals := s.refusals + if !ok && !l.hasLogID then 1 else 0 }

def step : ShedMove → Shedding
  | .entry entry now =>
    match s.stage with
    | .idle => s.onEntry entry now
    | _ => s
  | .track =>
    match s.stage with
    | .parsed l now =>
      { s with stage := .asked l now (l.hasLogID && s.asm.tracked l.logID) }
    | _ => s
  | .admission =>
    match s.stage with
    | .asked l now tracked => s.onAdmit l now tracked
    | _ => s
  | .line clock =>
    match s.stage with
    | .admitted l => { s with asm := s.asm.line sdk l clock, stage := .idle }
    | _ => s
  | .tick now clock => { s with asm := s.asm.tick now clock }
  | .snapshot snap clock => { s with asm := s.asm.snapshot sdk snap clock }
  | .coreRestart generation at_ clock => { s with asm := s.asm.coreRestart generation at_ clock }
  | .tag logID ids => { s with asm := s.asm.tag logID ids }
  | .drain => { s with asm := s.asm.drain.2 }
  | .reset => { s with guard := s.guard.reset }
  | .take =>
    { s with
      guard := s.guard.take.2
      tookShed := s.tookShed + s.guard.take.1.1
      tookDropped := s.tookDropped + s.guard.take.1.2 }
  | .setBudget n => { s with guard := s.guard.setBudget n }

/-- The moves of one entry. -/
def entryMoves (entry : Option Line) (now : Time) : List ShedMove :=
  [.entry entry now, .track, .admission, .line now]

/-- Where nothing comes in between, the moves of an entry are those of `onEntry`. -/
theorem run_entryMoves (p : Pipeline) (hasm : s.asm = p.asm) (hguard : s.guard = p.guard)
    (hs : s.stage = .idle) (entry : Option Line) (now : Time) :
    let s' := Runs.run (step sdk) s (entryMoves entry now)
    s'.stage = .idle ∧ s'.guard = (Collector.guarded p entry now).2 ∧
      s'.asm = (Collector.guarded p entry now).1.elim p.asm fun l => p.asm.line sdk l now := by
  obtain ⟨asm, guard, stage, tookShed, tookDropped, marks, refusals⟩ := s
  subst hasm hguard hs
  unfold Collector.guarded
  simp only [Runs.run, entryMoves, List.foldl_cons, List.foldl_nil, step, onEntry]
  rcases p.guard.ceiling now with ⟨_ | _, guard⟩
  · simp
  · cases entry with
    | none => simp
    | some l =>
      simp only [onAdmit]
      rcases guard.admitLine now { l with at_ := now } _ with ⟨_ | _, guard'⟩ <;> simp

/-- A log id is open in the assembler. -/
def Open (id : UInt32) : Prop := (s.asm.open_.lookup id).isSome = true

/-- A log id is marked shed. -/
def Marked (id : UInt32) : Prop := s.guard.shed.has id = true

/-- The invariant. -/
structure Inv (s : Shedding) : Prop where
  linked : s.asm.Linked
  disjoint : ∀ id, s.Open id → ¬ s.Marked id
  /-- Only the stream opens connections, so what was not known when it asked is not open. -/
  asked : ∀ l now tracked, s.stage = .asked l now tracked → l.hasLogID = true →
    s.Open l.logID → tracked = true
  admitted : ∀ l, s.stage = .admitted l → l.hasLogID = true → ¬ s.Marked l.logID
  shed : s.tookShed + s.guard.shedN = .ofNat s.marks
  dropped : s.tookDropped + s.guard.droppedN = .ofNat s.refusals

variable {sdk s}

theorem inv_new (opts : Options) (budget ringCapacity : Int) :
    Inv { asm := .new opts, guard := .new budget ringCapacity } := by
  have hzero : (Guard.new budget ringCapacity).shedN = 0 ∧
      (Guard.new budget ringCapacity).droppedN = 0 := ⟨rfl, rfl⟩
  refine ⟨Assembler.linked_new opts, fun id h => ?_, fun l now tracked h => ?_, fun l h => ?_, ?_, ?_⟩
  · simp [Open, Assembler.new] at h
  · cases h
  · cases h
  · simp [hzero.1]
  · simp [hzero.2]

section

variable (h : s.Inv)

include h

theorem Inv.surroundings {a : Assembler} (hl : a.Linked)
    (hopen : ∀ id r, a.open_.lookup id = some r → s.Open id) : Inv { s with asm := a } := by
  have hback : ∀ id, Open { s with asm := a } id → s.Open id := by
    intro id hid
    obtain ⟨r, hr⟩ := Option.isSome_iff_exists.mp hid
    exact hopen id r hr
  exact ⟨hl, fun id hid => h.disjoint id (hback id hid),
    fun l now tracked hs hid ho => h.asked l now tracked hs hid (hback _ ho), h.admitted, h.shed,
    h.dropped⟩

theorem Inv.evolves {a : Assembler} (hev : Assembler.Evolves ∅ s.asm a) :
    Inv { s with asm := a } := by
  obtain ⟨hl, hstep⟩ := hev h.linked
  refine h.surroundings hl fun id r hr => ?_
  rcases hstep.opened id r hr with hr | ⟨-, hF⟩
  · exact Option.isSome_iff_exists.mpr ⟨r, hr⟩
  · exact absurd hF (Set.notMem_empty id)

theorem Inv.line {l : Line} (hs : s.stage = .admitted l) (clock : Time) :
    Inv { s with asm := s.asm.line sdk l clock, stage := .idle } := by
  obtain ⟨hl, hstep⟩ := Assembler.evolves_line sdk s.asm l clock h.linked
  refine ⟨hl, fun id hid hm => ?_, fun l' now tracked hs' => ?_, fun l' hs' => ?_, h.shed, h.dropped⟩
  · obtain ⟨r, hr⟩ := Option.isSome_iff_exists.mp hid
    rcases hstep.opened id r hr with hr | ⟨hnew, hF⟩
    · exact h.disjoint id (Option.isSome_iff_exists.mpr ⟨r, hr⟩) hm
    · -- a line without an id opens nothing
      obtain rfl : id = l.logID := hF
      cases hlog : l.hasLogID with
      | true => exact h.admitted l hs hlog hm
      | false =>
        have hsame : s.asm.line sdk l clock = s.asm := by simp [Assembler.line, hlog]
        rw [hsame] at hr
        exact h.disjoint _ (Option.isSome_iff_exists.mpr ⟨r, hr⟩) hm
  · cases hs'
  · cases hs'

/-- A step of the guard: it marks nothing that is open, and its counters grow as they should. -/
theorem Inv.guarded {g : Guard} {stage : Stage} {marks refusals : Nat}
    (hdis : ∀ id, s.Open id → g.shed.has id = false)
    (hasked : ∀ l now tracked, stage ≠ .asked l now tracked)
    (hadmitted : ∀ l, stage = .admitted l → l.hasLogID → g.shed.has l.logID = false)
    (hshed : g.shedN = s.guard.shedN + .ofNat marks)
    (hdropped : g.droppedN = s.guard.droppedN + .ofNat refusals) :
    Inv { s with
      guard := g, stage, marks := s.marks + marks, refusals := s.refusals + refusals } := by
  refine ⟨h.linked, fun id hid hm => ?_, fun l now tracked hs => absurd hs (hasked l now tracked),
    fun l hs hid hm => ?_, ?_, ?_⟩
  · rw [Marked, hdis id hid] at hm
    cases hm
  · rw [Marked, hadmitted l hs hid] at hm
    cases hm
  · rw [hshed, ← add_assoc, h.shed, UInt64.ofNat_add]
  · rw [hdropped, ← add_assoc, h.dropped, UInt64.ofNat_add]

theorem Inv.unmarked {id : UInt32} (hid : s.Open id) : s.guard.shed.has id = false :=
  Bool.eq_false_iff.mpr (h.disjoint id hid)

theorem Inv.onEntry (hs : s.stage = .idle) (entry : Option Line) (now : Time) :
    (s.onEntry entry now).Inv := by
  obtain ⟨hshed, hshedN, hdropped⟩ := s.guard.ceiling_frame now
  have hdis : ∀ id, s.Open id → (s.guard.ceiling now).2.shed.has id = false := by
    intro id hid
    rw [hshed]
    exact h.unmarked hid
  unfold Shedding.onEntry
  rcases hc : s.guard.ceiling now with ⟨ok, guard⟩
  simp only [hc] at hshedN hdropped hdis
  have hmarks : guard.shedN = s.guard.shedN + .ofNat 0 := by simpa using hshedN
  cases ok with
  | false => exact h.guarded hdis (by simp [hs]) (by simp [hs]) hmarks (by simpa using hdropped)
  | true =>
    have hrefusals : guard.droppedN = s.guard.droppedN + .ofNat 0 := by simpa using hdropped
    cases entry with
    | none | some => exact h.guarded hdis (by simp) (by simp) hmarks hrefusals

/-- An admission marks nothing that is open, passes nothing that is marked, and counts. -/
theorem Inv.onAdmit {l : Line} {now : Time} {tracked : Bool} (hs : s.stage = .asked l now tracked) :
    (s.onAdmit l now tracked).Inv := by
  have hcases := s.guard.admitLine_cases now l tracked
  have hasked := h.asked l now tracked hs
  unfold Shedding.onAdmit setsMark
  rcases hg : s.guard.admitLine now l tracked with ⟨ok, guard⟩
  rw [hg] at hcases
  dsimp only at hcases ⊢
  rcases hcases with ⟨hid, hring, hshedN, hdropped⟩ | ⟨hid, hm, hev, rfl, hring, hshedN, hdropped⟩ |
    ⟨hid, hclear, rfl, hring, hshedN, hdropped⟩ | ⟨hid, hclear, htr, rfl, hring, hshedN, hdropped⟩
  · -- a line without an id
    refine h.guarded (fun id ho => hring ▸ h.unmarked ho) (by cases ok <;> simp)
      (fun l' hl' hid' => ?_) (by simpa [hid] using hshedN) ?_
    · cases ok with
      | false => cases hl'
      | true =>
        obtain rfl : l = l' := by simpa using hl'
        rw [hid] at hid'
        cases hid'
    · cases ok <;> simpa [hid] using hdropped
  · -- a line of a marked id
    exact h.guarded (fun id ho => hring ▸ h.unmarked ho) (by simp) (by simp)
      (by simpa [hev, hring, hm] using hshedN) (by simpa [hid] using hdropped)
  · -- a line that passes
    refine h.guarded (fun id ho => ?_) (by simp) (fun l' hl' hid' => ?_)
      (by simpa [hring] using hshedN) (by simpa using hdropped)
    · simp [hring, h.unmarked ho]
    · obtain rfl : l = l' := by simpa using hl'
      simp [hring]
  · -- a new mark, on an id that is not open
    have hnew : (!s.guard.shed.has l.logID || decide (l.event = .inboundFrom)) = true := by
      cases hm : s.guard.shed.has l.logID with
      | false => rfl
      | true => simp [hclear hm]
    refine h.guarded (fun id ho => ?_) (by simp) (by simp) (by simpa [hring, hid, hnew] using hshedN)
      (by simpa [hid] using hdropped)
    rw [hring]
    by_contra hm
    have hne : id ≠ l.logID := by
      rintro rfl
      rw [hasked hid ho] at htr
      cases htr
    have := ShedRing.has_add_other _ hne (by simpa using hm)
    simp [h.unmarked ho] at this

end

variable (sdk) in
theorem Inv.step (h : s.Inv) (move : ShedMove) : (s.step sdk move).Inv := by
  cases move with
  | entry entry now =>
    simp only [Shedding.step]
    split
    · rename_i hs
      exact h.onEntry hs entry now
    · exact h
  | track =>
    simp only [Shedding.step]
    split
    · rename_i l now hs
      refine ⟨h.linked, h.disjoint, fun l' now' tracked hs' hid ho => ?_, fun l' hs' => ?_, h.shed,
        h.dropped⟩
      · obtain ⟨rfl, rfl, rfl⟩ : l = l' ∧ now = now' ∧ _ = tracked := by simpa using hs'
        simp only [Bool.and_eq_true]
        refine ⟨hid, ?_⟩
        unfold Assembler.tracked
        rw [Bool.or_eq_true]
        exact .inl ho
      · cases hs'
    · exact h
  | admission =>
    simp only [Shedding.step]
    split
    · rename_i l now tracked hs
      exact h.onAdmit hs
    · exact h
  | line clock =>
    simp only [Shedding.step]
    split
    · rename_i l hs
      exact h.line hs clock
    · exact h
  | tick now clock => exact h.evolves (Assembler.evolves_tick s.asm now clock)
  | snapshot snap clock => exact h.evolves (Assembler.evolves_snapshot sdk s.asm snap clock)
  | coreRestart generation at_ clock =>
    exact h.evolves (Assembler.evolves_coreRestart s.asm generation at_ clock)
  | tag logID ids => exact h.evolves (Assembler.evolves_tag s.asm logID ids)
  | drain =>
    have hl : s.asm.drain.2.Linked := h.linked.drain
    exact h.surroundings hl fun id r hr => Option.isSome_iff_exists.mpr ⟨r, hr⟩
  | reset =>
    refine ⟨h.linked, fun id _ hm => ?_, h.asked, fun l _ _ hm => ?_, h.shed, h.dropped⟩
    · simp [Shedding.step, Marked, Guard.reset] at hm
    · simp [Shedding.step, Marked, Guard.reset] at hm
  | take =>
    refine ⟨h.linked, h.disjoint, h.asked, h.admitted, ?_, ?_⟩
    · simpa [Shedding.step, Guard.take] using h.shed
    · simpa [Shedding.step, Guard.take] using h.dropped
  | setBudget n => exact ⟨h.linked, h.disjoint, h.asked, h.admitted, h.shed, h.dropped⟩

theorem Inv.passes (h : s.Inv) {l : Line} {now : Time} {tracked : Bool}
    (hs : s.stage = .asked l now tracked) (hid : l.hasLogID) (ho : s.Open l.logID) :
    (s.guard.admitLine now l tracked).1 := by
  rcases s.guard.admitLine_cases now l tracked with ⟨hno, -⟩ | ⟨-, hm, -⟩ | ⟨-, -, hok, -⟩ |
    ⟨-, -, htr, -⟩
  · rw [hid] at hno
    cases hno
  · exact absurd hm (h.disjoint _ ho)
  · exact hok
  · rw [h.asked l now tracked hs hid ho] at htr
    cases htr

/-- What clears the mark of an id: a reset, an inbound-from line of that id at the guard, or a new
mark that takes its slot in the ring. -/
def Clears (s : Shedding) (id : UInt32) : ShedMove → Prop
  | .reset => True
  | .admission => ∃ l now tracked, s.stage = .asked l now tracked ∧ l.hasLogID = true ∧
      ((l.logID = id ∧ l.event = .inboundFrom) ∨
        ((s.guard.admitLine now l tracked).1 = false ∧ s.guard.shed.evicts id = true))
  | _ => False

theorem cleared_evicts (g : Guard) (id x : UInt32) : (g.cleared id).evicts x = g.shed.evicts x := by
  unfold Guard.cleared
  split <;> rfl

theorem clears_of_unmarked {id : UInt32} {move : ShedMove} (hm : s.Marked id)
    (hm' : ¬ (s.step sdk move).Marked id) : s.Clears id move := by
  cases move with
  | reset => trivial
  | admission =>
    unfold Shedding.step at hm'
    dsimp only at hm'
    split at hm'
    · rename_i l now tracked hs
      have hcases := s.guard.admitLine_cases now l tracked
      have hkept : (s.onAdmit l now tracked).guard = (s.guard.admitLine now l tracked).2 := rfl
      unfold Marked at hm hm'
      rw [hkept] at hm'
      rcases hcases with ⟨-, hring, -⟩ | ⟨-, -, -, -, hring, -⟩ | ⟨hid, hclear, -, hring, -⟩ |
        ⟨hid, hclear, -, hok, hring, -⟩
      · exact absurd (hring ▸ hm) hm'
      · exact absurd (hring ▸ hm) hm'
      · have heq : id = l.logID := by
          by_contra hne
          exact hm' (by simp [hring, hne, hm])
        subst heq
        exact ⟨l, now, tracked, hs, hid, .inl ⟨rfl, hclear hm⟩⟩
      · refine ⟨l, now, tracked, hs, hid, ?_⟩
        by_cases heq : id = l.logID
        · subst heq
          exact .inl ⟨rfl, hclear hm⟩
        · refine .inr ⟨hok, ?_⟩
          by_contra hev
          refine hm' ?_
          rw [hring]
          refine ShedRing.has_add_of_has _ (by simp [heq, hm]) ?_
          rw [cleared_evicts]
          exact Bool.eq_false_iff.mpr hev
    · exact absurd hm hm'
  | entry entry now =>
    have hshed := (s.guard.ceiling_frame now).1
    refine absurd ?_ hm'
    unfold Marked at hm ⊢
    unfold Shedding.step
    dsimp only
    split
    · unfold Shedding.onEntry
      rcases hc : s.guard.ceiling now with ⟨ok, guard⟩
      simp only [hc] at hshed
      cases ok <;> simpa [hshed] using hm
    · exact hm
  | track | line =>
    refine absurd ?_ hm'
    unfold Shedding.step
    dsimp only
    split <;> exact hm
  | tick | snapshot | coreRestart | tag | drain | take | setBudget => exact absurd hm hm'

/-- **Shedding cuts whole connections only.**  After any interleaving of the stream with its
surroundings: no log id is both open and marked; a line of an open connection passes the guard; a
line on its way to the assembler has no mark; a mark goes only by an inbound-from line of its id,
a reset or an eviction; and what `Take` returned and the counters, in their own arithmetic, add up
to the marks set and to the lines refused that were over the ceiling or had no id. -/
theorem shedding_whole (sdk : Sdk) (opts : Options) (budget ringCapacity : Int)
    (moves : List ShedMove) :
    let s := Runs.run (step sdk) { asm := .new opts, guard := .new budget ringCapacity } moves
    (∀ id, ¬ (s.Open id ∧ s.Marked id)) ∧
      (∀ l now tracked, s.stage = .asked l now tracked → l.hasLogID = true → s.Open l.logID →
        (s.guard.admitLine now l tracked).1 = true) ∧
      (∀ l, s.stage = .admitted l → l.hasLogID = true → ¬ s.Marked l.logID) ∧
      (∀ id move, s.Marked id → ¬ (s.step sdk move).Marked id → s.Clears id move) ∧
      s.tookShed + s.guard.shedN = .ofNat s.marks ∧
      s.tookDropped + s.guard.droppedN = .ofNat s.refusals := by
  intro s
  have h : s.Inv := Runs.invariant_always Inv (fun s move h => h.step sdk move)
    (inv_new opts budget ringCapacity) moves
  exact ⟨fun id hid => h.disjoint id hid.1 hid.2, fun l now tracked hs hid ho => h.passes hs hid ho,
    h.admitted, fun id move => clears_of_unmarked, h.shed, h.dropped⟩

end Shedding

end LatticeAgent.Trace
