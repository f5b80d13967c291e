import LatticeAgent.Lib.Runs
import LatticeAgent.Sshwatch.Forgery
import Mathlib.Data.Finset.Card
import Mathlib.Data.List.AList
import Mathlib.Data.List.Sort

/-! # Pressure by window

`pressure.go`: rejected attempts are counted by source over one window after the other, with at
most `maxSources` sources held at a time. The map is an `AList`, whose order is the order of the
source's loops.

`Sources` counts a source once more for every time that it fails again after it was evicted, so
that it is the number of sources exactly if none did (`sources_exact_iff`). -/

namespace LatticeAgent.Sshwatch

open AList

def minute : Duration := 60 * second
def hour : Duration := 60 * minute

def defaultWindow : Duration := 10 * minute
def defaultSuspectWindow : Duration := hour
def defaultMaxSources : Int := 1024
def defaultMaxTopSources : Int := 10
def defaultMaxSuspects : Int := 16
def maxAddrLen : Nat := 64

structure SourcePressure where
  address : Bytes
  failures : Nat
  invalidUser : Nat
deriving DecidableEq, Repr

structure SuspectSuccess where
  address : Bytes
  user : Bytes
  method : Bytes
  priorFailures : Nat
  successes : Nat
  at_ : Time
deriving DecidableEq, Repr

structure PressureWindow where
  start : Time := 0
  end_ : Time := 0
  failures : Nat := 0
  invalidUser : Nat := 0
  sources : Nat := 0
  sourcesDropped : Nat := 0
  topSources : List SourcePressure := []
  suspectSuccess : List SuspectSuccess := []
deriving DecidableEq, Repr

structure Login where
  event : LoginEvent
  priorFailures : Nat := 0
deriving DecidableEq, Repr

structure AggregatorOptions where
  window : Duration := 0
  suspectWindow : Duration := 0
  maxSources : Int := 0
  maxTopSources : Int := 0
  maxSuspects : Int := 0
deriving DecidableEq, Repr

def AggregatorOptions.withDefaults (o : AggregatorOptions) : AggregatorOptions where
  window := if o.window ≤ 0 then defaultWindow else o.window
  suspectWindow := if o.suspectWindow ≤ 0 then defaultSuspectWindow else o.suspectWindow
  maxSources := if o.maxSources ≤ 0 then defaultMaxSources else o.maxSources
  maxTopSources := if o.maxTopSources ≤ 0 then defaultMaxTopSources else o.maxTopSources
  maxSuspects := if o.maxSuspects ≤ 0 then defaultMaxSuspects else o.maxSuspects

structure SourceState where
  windowFailures : Nat := 0
  windowInvalid : Nat := 0
  priorFailures : Nat := 0
  last : Time := 0
deriving DecidableEq, Repr

structure Aggregator where
  opts : AggregatorOptions
  start : Time := 0
  failures : Nat := 0
  invalid : Nat := 0
  sources : Nat := 0
  dropped : Nat := 0
  src : AList (fun _ : Bytes => SourceState) := ∅
  suspects : AList (fun _ : Bytes => SuspectSuccess) := ∅

/-- One more failure of a source. -/
def SourceState.fail (st : SourceState) (suspectWindow : Duration) (now : Time) (invalid : Bool) :
    SourceState where
  windowFailures := st.windowFailures + 1
  windowInvalid := st.windowInvalid + if invalid then 1 else 0
  priorFailures := (if suspectWindow < now.sub st.last then 0 else st.priorFailures) + 1
  last := now

/-- The key of a source in the map. -/
def FailureEvent.key (ev : FailureEvent) : Bytes := utf8 ev.address

/-- `weaker`: by failures, then by age, then by address. -/
def weaker (a : SourceState) (addrA : Bytes) (b : SourceState) (addrB : Bytes) : Bool :=
  if a.priorFailures ≠ b.priorFailures then a.priorFailures < b.priorFailures
  else if a.last ≠ b.last then a.last < b.last
  else decide (addrA < addrB)

def canonicalAddr (net : Net) (s : String) : Bytes :=
  match net.parseIP s.toList with
  | some ip => utf8 ip
  | none => clampLen (utf8 s) maxAddrLen

/-- The order of `TopSources`. -/
def SourcePressure.before (a b : SourcePressure) : Prop :=
  b.failures < a.failures ∨ a.failures = b.failures ∧ a.address ≤ b.address

instance (a b : SourcePressure) : Decidable (a.before b) := inferInstanceAs (Decidable (_ ∨ _))

/-- The order of `SuspectSuccess`. -/
def SuspectSuccess.before (a b : SuspectSuccess) : Prop :=
  b.priorFailures < a.priorFailures ∨ a.priorFailures = b.priorFailures ∧
    (a.address < b.address ∨ a.address = b.address ∧ a.user ≤ b.user)

instance (a b : SuspectSuccess) : Decidable (a.before b) := inferInstanceAs (Decidable (_ ∨ _))

namespace Aggregator

/-- `NewAggregator`. -/
def new (opts : AggregatorOptions) : Aggregator := { opts := opts.withDefaults }

/-- The weakest source but the one to keep. -/
def weakest (a : Aggregator) (keep : Bytes) : Option ((_ : Bytes) × SourceState) :=
  a.src.entries.foldl
    (fun found e =>
      if e.1 = keep then found
      else
        match found with
        | none => some e
        | some f => if weaker e.2 e.1 f.2 f.1 then some e else some f)
    none

def evictWeakest (a : Aggregator) (keep : Bytes) : Aggregator :=
  match a.weakest keep with
  | none => a
  | some victim => { a with src := a.src.erase victim.1, dropped := a.dropped + 1 }

/-- The state of a source, a new one if it is not held. -/
def source (a : Aggregator) (addr : Bytes) : SourceState := (a.src.lookup addr).getD {}

def recordFailure (a : Aggregator) (now : Time) (ev : FailureEvent) : Aggregator :=
  let st := a.source ev.key
  let a :=
    { a with
      failures := a.failures + 1
      invalid := a.invalid + if ev.invalid then 1 else 0
      sources := if st.windowFailures = 0 then a.sources + 1 else a.sources
      src := a.src.insert ev.key (st.fail a.opts.suspectWindow now ev.invalid) }
  if a.opts.maxSources < a.src.entries.length then a.evictWeakest ev.key else a

def recordLogin (net : Net) (a : Aggregator) (now : Time) (ev : LoginEvent) : Aggregator × Login :=
  let addr := canonicalAddr net ev.address
  let user := clampLen (utf8 ev.user) maxUserLen
  let key := addr ++ 0 :: user
  match a.src.lookup addr with
  | none => (a, ⟨ev, 0⟩)
  | some st =>
    if a.opts.suspectWindow < now.sub st.last ∨ st.priorFailures = 0 then (a, ⟨ev, 0⟩)
    else
      let out := ⟨ev, st.priorFailures⟩
      match a.suspects.lookup key with
      | some s =>
        let s :=
          { s with priorFailures := st.priorFailures, successes := s.successes + 1, at_ := now }
        ({ a with suspects := a.suspects.insert key s }, out)
      | none =>
        if a.opts.maxSuspects ≤ a.suspects.entries.length then (a, out)
        else
          let s : SuspectSuccess :=
            { address := addr, user := user, method := clampLen (utf8 ev.method) maxUserLen
              priorFailures := st.priorFailures, successes := 1, at_ := now }
          ({ a with suspects := a.suspects.insert key s }, out)

def observe (net : Net) (a : Aggregator) (now : Time) (line : Str) : Aggregator × Option Login :=
  let a := if a.start.isZero then { a with start := now } else a
  match parseFailure net line with
  | some ev => (a.recordFailure now ev, none)
  | none =>
    match parse line with
    | none => (a, none)
    | some ev =>
      let (a, login) := a.recordLogin net now ev
      (a, some login)

def summarize (a : Aggregator) (now : Time) : PressureWindow where
  start := a.start
  end_ := now
  failures := a.failures
  invalidUser := a.invalid
  sources := a.sources
  sourcesDropped := a.dropped
  topSources :=
    let failing := a.src.entries.filter fun e => e.2.windowFailures ≠ 0
    let all := failing.map fun e => ⟨e.1, e.2.windowFailures, e.2.windowInvalid⟩
    (all.insertionSort SourcePressure.before).take a.opts.maxTopSources.toNat
  suspectSuccess := (a.suspects.entries.map Sigma.snd).insertionSort SuspectSuccess.before

/-- The sources that stay suspect, with no failure in the new window. -/
def survivors (a : Aggregator) (now : Time) : AList (fun _ : Bytes => SourceState) where
  entries :=
    (a.src.entries.filter fun e => !(a.opts.suspectWindow < now.sub e.2.last)).map fun e =>
      ⟨e.1, { e.2 with windowFailures := 0, windowInvalid := 0 }⟩
  nodupKeys := by
    have hkeys := a.src.nodupKeys.sublist
      (List.filter_sublist (l := a.src.entries) (p := fun e => !(a.opts.suspectWindow < now.sub e.2.last)))
    unfold List.NodupKeys List.keys at hkeys ⊢
    rw [List.map_map]
    exact hkeys

def reset (a : Aggregator) (now : Time) : Aggregator where
  opts := a.opts
  start := now
  src := a.survivors now

/-- The window is open long enough. -/
def closes (a : Aggregator) (now : Time) : Bool :=
  !a.start.isZero && decide (a.start ≤ now) && decide (a.opts.window ≤ now.sub a.start)

def roll (a : Aggregator) (now : Time) : Aggregator × PressureWindow × Bool :=
  if a.start.isZero then ({ a with start := now }, {}, false)
  else if now < a.start then ({ a with start := now }, {}, false)
  else if now.sub a.start < a.opts.window then (a, {}, false)
  else
    let w := a.summarize now
    (a.reset now, w, 0 < w.failures || w.suspectSuccess ≠ [])

/-! ### What eviction and a new window leave of the sources -/

variable {a : Aggregator} {addr : Bytes} {st : SourceState}

theorem lookup_evictWeakest {keep : Bytes}
    (h : (a.evictWeakest keep).src.lookup addr = some st) : a.src.lookup addr = some st := by
  unfold evictWeakest at h
  split at h
  · exact h
  · rename_i victim _
    by_cases heq : addr = victim.1
    · rw [heq, lookup_erase] at h
      cases h
    · rwa [lookup_erase_ne heq] at h

@[simp] theorem evictWeakest_sources (a : Aggregator) (keep : Bytes) :
    (a.evictWeakest keep).sources = a.sources := by
  unfold evictWeakest
  split <;> rfl

variable {ev : FailureEvent} {now : Time}

theorem lookup_recordFailure (h : (a.recordFailure now ev).src.lookup addr = some st) :
    addr = ev.key ∧ 0 < st.windowFailures ∨ addr ≠ ev.key ∧ a.src.lookup addr = some st := by
  have hins : (a.src.insert ev.key ((a.source ev.key).fail a.opts.suspectWindow now
      ev.invalid)).lookup addr = some st := by
    unfold recordFailure at h
    dsimp only at h
    split at h
    · exact lookup_evictWeakest h
    · exact h
  by_cases heq : addr = ev.key
  · rw [heq, lookup_insert, Option.some.injEq] at hins
    refine .inl ⟨heq, ?_⟩
    rw [← hins]
    exact Nat.succ_pos _
  · rw [lookup_insert_ne heq] at hins
    exact .inr ⟨heq, hins⟩

theorem recordFailure_sources (a : Aggregator) (now : Time) (ev : FailureEvent) :
    (a.recordFailure now ev).sources =
      if (a.source ev.key).windowFailures = 0 then a.sources + 1 else a.sources := by
  unfold recordFailure
  dsimp only
  split
  · exact evictWeakest_sources _ _
  · rfl

theorem lookup_survivors (h : (a.survivors now).lookup addr = some st) : st.windowFailures = 0 := by
  obtain ⟨e, -, he⟩ := List.mem_map.mp (mem_lookup_iff.mp h)
  cases he
  rfl

theorem recordLogin_frame (net : Net) (a : Aggregator) (now : Time) (ev : LoginEvent) :
    (a.recordLogin net now ev).1 =
      { a with suspects := (a.recordLogin net now ev).1.suspects } := by
  unfold recordLogin
  dsimp only
  split
  · rfl
  · split
    · rfl
    · split
      · rfl
      · split <;> rfl

/-- The first call of a window sets its start. -/
def begin (a : Aggregator) (now : Time) : Aggregator :=
  if a.start.isZero then { a with start := now } else a

theorem begin_frame (a : Aggregator) (now : Time) :
    a.begin now = { a with start := (a.begin now).start } := by
  unfold begin
  split <;> rfl

theorem observe_some {net : Net} {line : Str} (h : parseFailure net line = some ev) (now : Time) :
    (a.observe net now line).1 = (a.begin now).recordFailure now ev := by
  unfold observe
  dsimp only
  rw [h]
  rfl

theorem observe_none {net : Net} {line : Str} (h : parseFailure net line = none) (now : Time) :
    (a.observe net now line).1.src = a.src ∧ (a.observe net now line).1.sources = a.sources := by
  have hframe := begin_frame a now
  unfold observe
  dsimp only
  rw [h]
  dsimp only
  split
  · change (a.begin now).src = a.src ∧ (a.begin now).sources = a.sources
    rw [hframe]
    exact ⟨rfl, rfl⟩
  · change ((a.begin now).recordLogin net now _).1.src = a.src ∧
      ((a.begin now).recordLogin net now _).1.sources = a.sources
    rw [recordLogin_frame, hframe]
    exact ⟨rfl, rfl⟩

theorem roll_closes (h : a.closes now) :
    (a.roll now).1 = a.reset now ∧ (a.roll now).2.1 = a.summarize now := by
  simp only [closes, Bool.and_eq_true, Bool.not_eq_true', decide_eq_true_eq] at h
  obtain ⟨⟨hzero, hstart⟩, hlong⟩ := h
  rw [roll, hzero, if_neg Bool.false_ne_true, if_neg (Int.not_lt.mpr hstart), if_neg (Int.not_lt.mpr hlong)]
  exact ⟨rfl, rfl⟩

theorem roll_stays (h : a.closes now = false) :
    (a.roll now).1.src = a.src ∧ (a.roll now).1.sources = a.sources := by
  unfold roll
  split
  · exact ⟨rfl, rfl⟩
  · split
    · exact ⟨rfl, rfl⟩
    · split
      · exact ⟨rfl, rfl⟩
      · -- otherwise the window closes
        rename_i hzero hstart hlong
        have hcloses : a.closes now := by
          simp only [closes, Bool.and_eq_true, Bool.not_eq_true', decide_eq_true_eq]
          exact ⟨⟨by simpa using hzero, Int.not_lt.mp hstart⟩, Int.not_lt.mp hlong⟩
        rw [h] at hcloses
        cases hcloses

end Aggregator

/-! ### The sources of a window -/

/-- A window that was returned, the sources that failed in it, and those that failed in it again
when they were not held any more. -/
structure Closed where
  window : PressureWindow
  failed : Finset Bytes
  again : List Bytes

/-- An aggregator, and the same of its open window. -/
structure Watch where
  agg : Aggregator
  failed : Finset Bytes := ∅
  again : List Bytes := []
  closed : List Closed := []

inductive Call where
  | observe (now : Time) (line : Str)
  | roll (now : Time)

namespace Watch

def step (net : Net) (w : Watch) : Call → Watch
  | .observe now line =>
    let agg := (w.agg.observe net now line).1
    match parseFailure net line with
    | none => { w with agg := agg }
    | some ev =>
      { w with
        agg := agg
        failed := insert ev.key w.failed
        again :=
          if ev.key ∈ w.failed ∧ ev.key ∉ w.agg.src then w.again ++ [ev.key] else w.again }
  | .roll now =>
    let r := w.agg.roll now
    if w.agg.closes now then
      { agg := r.1, closed := w.closed ++ [⟨r.2.1, w.failed, w.again⟩] }
    else { w with agg := r.1 }

structure Inv (w : Watch) : Prop where
  /-- A source that is held has a count in the window exactly if it failed in it. -/
  held : ∀ addr st, w.agg.src.lookup addr = some st → (0 < st.windowFailures ↔ addr ∈ w.failed)
  counted : w.agg.sources = w.failed.card + w.again.length
  closed : ∀ c ∈ w.closed, c.window.sources = c.failed.card + c.again.length

/-- A source without a count in the window has not failed in it, or has been evicted since. -/
theorem Inv.uncounted {w : Watch} (h : w.Inv) (addr : Bytes) :
    (w.agg.source addr).windowFailures = 0 ↔ addr ∉ w.failed ∨ addr ∉ w.agg.src := by
  unfold Aggregator.source
  cases hst : w.agg.src.lookup addr with
  | none =>
    have hout : addr ∉ w.agg.src := lookup_eq_none.mp hst
    simp [hout]
  | some st =>
    have hin : addr ∈ w.agg.src := lookup_isSome.mp (by rw [hst]; rfl)
    have hheld := h.held addr st hst
    simp only [Option.getD_some, hin, not_true_eq_false, or_false, ← hheld]
    omega

theorem inv_new (opts : AggregatorOptions) : Inv { agg := .new opts } where
  held := by
    intro addr st h
    cases h
  counted := rfl
  closed := by
    intro c hc
    cases hc

theorem inv_step (net : Net) (w : Watch) (call : Call) (h : w.Inv) : (w.step net call).Inv := by
  cases call with
  | observe now line =>
    unfold step
    dsimp only
    cases hparse : parseFailure net line with
    | none =>
      obtain ⟨hsrc, hsources⟩ := Aggregator.observe_none (a := w.agg) hparse now
      exact ⟨fun addr st hst => h.held addr st (hsrc ▸ hst), hsources.trans h.counted, h.closed⟩
    | some ev =>
      have hframe := w.agg.begin_frame now
      have hsrc : (w.agg.begin now).src = w.agg.src := by rw [hframe]
      refine ⟨?_, ?_, h.closed⟩
      · intro addr st hst
        rw [Aggregator.observe_some hparse] at hst
        rcases Aggregator.lookup_recordFailure hst with ⟨rfl, hpos⟩ | ⟨hne, hold⟩
        · simp [hpos]
        · rw [hsrc] at hold
          simp [h.held addr st hold, hne]
      · have hsource : (w.agg.begin now).source ev.key = w.agg.source ev.key := by
          rw [Aggregator.source, hsrc]
          rfl
        have hsources : (w.agg.begin now).sources = w.agg.sources := by rw [hframe]
        have hcounted := h.counted
        dsimp only
        rw [Aggregator.observe_some hparse, Aggregator.recordFailure_sources, hsource, hsources]
        -- the failure counts a source, counts one again, or neither
        by_cases hfailed : ev.key ∈ w.failed
        · rw [Finset.insert_eq_of_mem hfailed]
          by_cases hsrcmem : ev.key ∈ w.agg.src
          · rw [if_neg (by simp [h.uncounted, hfailed, hsrcmem]), if_neg (by simp [hsrcmem])]
            exact hcounted
          · rw [if_pos ((h.uncounted ev.key).mpr (.inr hsrcmem)), if_pos ⟨hfailed, hsrcmem⟩,
              List.length_append, List.length_singleton]
            omega
        · rw [Finset.card_insert_of_notMem hfailed,
            if_pos ((h.uncounted ev.key).mpr (.inl hfailed)), if_neg (by simp [hfailed])]
          omega
  | roll now =>
    unfold step
    dsimp only
    cases hcloses : w.agg.closes now with
    | true =>
      obtain ⟨hreset, hwindow⟩ := Aggregator.roll_closes hcloses
      rw [if_pos rfl]
      refine ⟨?_, ?_, ?_⟩
      · intro addr st hst
        rw [hreset] at hst
        simp [Aggregator.lookup_survivors hst]
      · rw [hreset]
        rfl
      · intro c hc
        rcases List.mem_append.mp hc with hc | hc
        · exact h.closed c hc
        · rw [List.mem_singleton.mp hc]
          dsimp only
          rw [hwindow]
          exact h.counted
    | false =>
      obtain ⟨hsrc, hsources⟩ := Aggregator.roll_stays hcloses
      rw [if_neg Bool.false_ne_true]
      exact ⟨fun addr st hst => h.held addr st (hsrc ▸ hst), hsources.trans h.counted, h.closed⟩

/-- **The number of sources of a window is exact exactly if no source failed again in it after it
was evicted.** -/
theorem sources_exact_iff (net : Net) (opts : AggregatorOptions) (calls : List Call) :
    ∀ c ∈ (Runs.run (step net) { agg := .new opts } calls).closed,
      c.window.sources = c.failed.card ↔ c.again = [] := by
  intro c hc
  have hinv := Runs.invariant_always Inv (inv_step net) (inv_new opts) calls
  have hsources := hinv.closed c hc
  rw [hsources, ← List.length_eq_zero_iff]
  omega

/-- An attempt at an account that there is not. -/
def attempt (addr : Str) : Str := Text.lit "Invalid user admin from " ++ addr

/-- Two sources fail, and the first fails again, before the window closes. -/
def twoSources : List Call :=
  [.observe 1 (attempt (Text.lit "203.0.113.5")), .observe 2 (attempt (Text.lit "9.9.9.9")),
    .observe 3 (attempt (Text.lit "203.0.113.5")), .roll (1 + defaultWindow)]

theorem sources_exact_held :
    ∃ c ∈ (Runs.run (step twoNet) { agg := .new {} } twoSources).closed,
      c.window.sources = c.failed.card ∧ c.failed.card = 2 := by
  have hall : ((Runs.run (step twoNet) { agg := .new {} } twoSources).closed.map fun c =>
      (c.again, c.failed.card)) = [([], 2)] := by decide +kernel
  obtain ⟨c, hc, heq⟩ := List.mem_map.mp (hall ▸ List.mem_singleton_self (([] : List Bytes), 2))
  exact ⟨c, hc, (sources_exact_iff twoNet {} twoSources c hc).mpr (congrArg Prod.fst heq),
    congrArg Prod.snd heq⟩

/-- With room for one source, the second one evicts the first, which is then counted twice. -/
theorem sources_counted_twice :
    ((Runs.run (step twoNet) { agg := .new { maxSources := 1 } } twoSources).closed.map fun c =>
      (c.window.sources, c.failed.card)) = [(3, 2)] := by
  decide +kernel

end Watch
end LatticeAgent.Sshwatch
