import LatticeAgent.Lib.Threads
import LatticeAgent.Trace.Expiry

/-! # The collector's calls, interleaved

`applyConfig`, `expireSessionsLocally` and `stop` take the collector's lock several times each
and let it go in between. Here each is the sequence of its locked sections, over the shared
state of the collector and of the `/logs` subscriptions it has started. `applyMu` serialises
`applyConfig` end to end; the other two do not take it.

`policy_is_last_config` says when no config is overwritten by an expiry that read the policy
before it, and `one_live_subscription` when no subscription is left running behind the one the
collector would cancel. Alone, a call does what the collector's function of its name does
(`expire_alone`, `apply_alone`). -/

namespace LatticeAgent.Trace.Concurrent

open Threads Collector PolicySet Program

/-! ### The calls and their sections -/

/-- What the calls share. Subscription contexts are numbered as they are started. -/
structure Shared where
  c : Collector
  applyMu : Bool := false
  /-- The context that `c.streamCancel` cancels. -/
  streamCancel : Option Nat := none
  /-- The contexts that were started and not cancelled. -/
  live : List Nat := []
  started : Nat := 0
  /-- How often the subscription was replaced or taken down. -/
  swaps : Nat := 0
  /-- The config applied last, and when. -/
  applied : Option (TraceAgentConfig × Clock) := none
  /-- The server's time at each expiry since. -/
  expired : List Time := []

/-- What `applyConfig` keeps of its first section. -/
structure Seen where
  set : PolicySet
  /-- The address of the pipeline, if one was up. -/
  running : Option String
  source : AddrSource
  level : String

/-- What a call goes on with after `stop` or `restartStream`. -/
inductive After where
  | returns
  | unlocks
  | reports (state : CollectorState) (detail : String) (now : Time)
  | starts (addr : String) (source : AddrSource) (node : NodeView) (now : Time) (set : PolicySet)

/-- Where a call stands: the section it takes next. -/
inductive Call where
  /-- `expireSessionsLocally`. -/
  | expire (now : Time)
  /-- It has read the policy and the skew, and rebuilds. -/
  | writeBack (now : Time) (set : PolicySet) (skew : Duration)
  /-- `restartStream`. -/
  | restart (level : String) (after : After)
  /-- It has cancelled the old subscription, when `swaps` had this value. -/
  | subscribe (level : String) (swaps : Nat) (after : After)
  /-- `stop`. -/
  | stop (after : After)
  /-- It has taken the cancel functions out of the collector. -/
  | cancel (ctx : Option Nat) (after : After)
  /-- `applyConfig`, waiting for `applyMu`. -/
  | apply (cfg : TraceAgentConfig) (node : NodeView) (now : Clock)
  | install (cfg : TraceAgentConfig) (node : NodeView) (now : Clock)
  | budget (cfg : TraceAgentConfig) (node : NodeView) (now : Time) (seen : Seen)
  | discovered (detail addr : String) (source : AddrSource) (node : NodeView) (now : Time)
      (seen : Seen)
  | start (addr : String) (source : AddrSource) (node : NodeView) (now : Time) (set : PolicySet)
  | keep (addr : String) (source : AddrSource) (node : NodeView) (seen : Seen)
  | refresh (node : NodeView) (seen : Seen)
  | status (state : CollectorState) (detail : String) (now : Time)
  | unlock
  | done

/-- Where it then stands. -/
def After.call : After → Call
  | .returns => .done
  | .unlocks => .unlock
  | .reports state detail now => .status state detail now
  | .starts addr source node now set => .start addr source node now set

/-- The calls that can be made, `applyConfig` with its reading of the clock. -/
inductive Entry where
  | expire (now : Time)
  | apply (cfg : TraceAgentConfig) (node : NodeView) (now : Clock)
  | stop

/-- Where a new call stands. -/
def Entry.call : Entry → Call
  | .expire now => .expire now
  | .apply cfg node now => .apply cfg node now
  | .stop => .stop .returns

/-- The second section of `restartStream`, whatever has become of the pipeline. -/
def installStream (c : Collector) (level : String) : Collector :=
  { c with
    streamCancel := true
    haveLevel := level
    streamEpoch := c.streamEpoch + 1
    health := c.health.noStream }

/-- The first section of `applyConfig`. -/
def installPolicy (sdk : Sdk) (c : Collector) (cfg : TraceAgentConfig) (now : Time) : Collector :=
  ({ c with
    serverSkew := if cfg.serverTime.isZero then c.serverSkew else cfg.serverTime.sub now
    policy := PolicySet.build sdk cfg now }).setRawSource (Collector.effectiveRawSourceID cfg)

/-- What `applyConfig` does once it has recorded the budget. -/
def decideAddr (sdk : Sdk) (c : Collector) (cfg : TraceAgentConfig) (node : NodeView) (now : Time)
    (seen : Seen) : Call :=
  if !seen.set.enabled then .stop (.reports .off "" now)
  else
    match c.resolveAddr sdk cfg.policy node, seen.running with
    | .ok (addr, source), _ => .discovered "" addr source node now seen
    | .error (detail, true), some running => .discovered detail running seen.source node now seen
    | .error (detail, _), _ => .stop (.reports .noClashAPI detail now)

/-- What `applyConfig` does once it has an address. -/
def decidePipeline (addr : String) (source : AddrSource) (node : NodeView) (now : Time)
    (seen : Seen) : Call :=
  match seen.running with
  | some running =>
    if running ≠ addr then .stop (.starts addr source node now seen.set)
    else .keep addr source node seen
  | none => .start addr source node now seen.set

/-- The end of `applyConfig`. -/
def decideStream (sdk : Sdk) (level : String) (set : PolicySet) (force : Bool) : Call :=
  if level = set.subscribeLevel sdk ∧ force = false then .unlock
  else .restart (set.subscribeLevel sdk) .unlocks

/-- The next locked section of a call. -/
def turn (sdk : Sdk) : Call → Unit → Shared → Shared × Call
  | .expire now, _, s =>
    let next := s.c.policy.expiresNext
    if next.isZero || now + s.c.serverSkew < next then
      ({ s with expired := s.expired ++ [now + s.c.serverSkew] }, .done)
    else (s, .writeBack now s.c.policy s.c.serverSkew)
  | .writeBack now set skew, _, s =>
    let rebuilt := PolicySet.build sdk
      { policy := set.policy, sessions := set.activeSessions } (now + skew)
    ({ s with c := { s.c with policy := rebuilt }, expired := s.expired ++ [now + skew] },
      if rebuilt.subscribeLevel sdk ≠ s.c.haveLevel then
        .restart (rebuilt.subscribeLevel sdk) .returns
      else .done)
  | .restart level after, _, s =>
    ({ s with live := s.streamCancel.elim s.live s.live.erase },
      if s.c.pipeline.isNone then after.call else .subscribe level s.swaps after)
  | .subscribe level _ after, _, s =>
    ({ s with
      c := installStream s.c level
      streamCancel := some s.started
      live := s.started :: s.live
      started := s.started + 1
      swaps := s.swaps + 1 }, after.call)
  | .stop after, _, s =>
    ({ s with c := s.c.stop, streamCancel := none, swaps := s.swaps + 1 },
      .cancel s.streamCancel after)
  | .cancel ctx after, _, s => ({ s with live := ctx.elim s.live s.live.erase }, after.call)
  | .apply cfg node now, _, s =>
    if s.applyMu then (s, .apply cfg node now)
    else ({ s with applyMu := true }, .install cfg node now)
  | .install cfg node now, _, s =>
    ({ s with
      c := installPolicy sdk s.c cfg now
      applied := some (cfg, now)
      expired := [] },
      .budget cfg node now
        { set := PolicySet.build sdk cfg now
          running := s.c.pipeline.map (·.addr)
          source := s.c.health.addrSource
          level := s.c.haveLevel })
  | .budget cfg node now seen, _, s =>
    ({ s with c := s.c.setBudget cfg.policy.budgetLinesPerSec },
      decideAddr sdk s.c cfg node now seen)
  | .discovered detail addr source node now seen, _, s =>
    ({ s with c := s.c.noteDiscovery sdk detail now },
      decidePipeline addr source node now seen)
  | .start addr source node now set, _, s =>
    let (ok, c) := s.c.startPipeline sdk addr source node now
    ({ s with c := c }, if ok then decideStream sdk "" set false else .unlock)
  | .keep addr source node seen, _, s =>
    ({ s with c :=
        { s.c with health := { s.c.health with clashAPIAddr := addr, addrSource := source } } },
      .refresh node seen)
  | .refresh node seen, _, s =>
    let (rotated, c) := s.c.refreshSecret sdk node
    ({ s with c := c }, decideStream sdk seen.level seen.set rotated)
  | .status state detail now, _, s =>
    ({ s with c := s.c.setStatus sdk state detail "" .none now }, .unlock)
  | .unlock, _, s => ({ s with applyMu := false }, .done)
  | .done, _, s => (s, .done)

/-- The calls of the collector. -/
def calls (sdk : Sdk) : Program Shared Entry Call Unit where
  enter := Entry.call
  turn := turn sdk

/-- Before any call. -/
def fresh (nodeID : String) (start : Time) : Pool Shared Call where
  shared := { c := newTraceCollector nodeID start }

/-- The call has returned. -/
def Call.returned : Call → Bool
  | .done => true
  | _ => false

/-- No call is in progress. -/
def Idle (p : Pool Shared Call) : Prop := ∀ k ∈ p.calls, k.returned = true

instance (p : Pool Shared Call) : Decidable (Idle p) :=
  inferInstanceAs (Decidable (∀ k ∈ p.calls, _))

/-! ### A call alone -/

/-- Taking turns with no one in between, the call gets from `k` to `k'`. -/
inductive Alone (sdk : Sdk) : Call → Shared → Call → Shared → Prop
  | refl (k : Call) (s : Shared) : Alone sdk k s k s
  | step {k k₁ k' : Call} {s s₁ s' : Shared} :
      turn sdk k () s = (s₁, k₁) → Alone sdk k₁ s₁ k' s' → Alone sdk k s k' s'

section Alone

variable {sdk : Sdk}

theorem Alone.trans {k₁ k₂ k₃ : Call} {s₁ s₂ s₃ : Shared} (h : Alone sdk k₁ s₁ k₂ s₂)
    (h' : Alone sdk k₂ s₂ k₃ s₃) : Alone sdk k₁ s₁ k₃ s₃ := by
  induction h with
  | refl => exact h'
  | step hturn _ ih => exact .step hturn (ih h')

theorem restartStream_stopped {c : Collector} (hp : c.pipeline = none) (level : String) :
    c.restartStream level = c := by
  cases c
  cases hp
  rfl

variable (s : Shared)

theorem restart_alone (level : String) (after : After) :
    ∃ s', Alone sdk (.restart level after) s after.call s' ∧
      s'.c = s.c.restartStream level ∧ s'.applyMu = s.applyMu := by
  rcases hp : s.c.pipeline with - | p
  · have hturn : turn sdk (.restart level after) () s =
        ({ s with live := s.streamCancel.elim s.live s.live.erase }, after.call) := by
      simp [turn, hp]
    exact ⟨_, .step hturn (.refl _ _), (restartStream_stopped hp level).symm, rfl⟩
  · have hturn : turn sdk (.restart level after) () s =
        ({ s with live := s.streamCancel.elim s.live s.live.erase },
          .subscribe level s.swaps after) := by
      simp [turn, hp]
    refine ⟨_, .step hturn (.step rfl (.refl _ _)), ?_, rfl⟩
    simp [restartStream, installStream, hp]

theorem stop_alone (after : After) :
    ∃ s', Alone sdk (.stop after) s after.call s' ∧ s'.c = s.c.stop ∧ s'.applyMu = s.applyMu :=
  ⟨_, .step rfl (.step rfl (.refl _ _)), rfl, rfl⟩

theorem expire_alone (now : Time) :
    ∃ s', Alone sdk (.expire now) s .done s' ∧ s'.c = s.c.expireSessionsLocally sdk now := by
  unfold expireSessionsLocally
  dsimp only
  split
  · rename_i hearly
    have hturn : turn sdk (.expire now) () s =
        ({ s with expired := s.expired ++ [now + s.c.serverSkew] }, .done) := by
      simp only [turn, hearly, if_true]
    exact ⟨_, .step hturn (.refl _ _), rfl⟩
  · rename_i hlate
    have hturn : turn sdk (.expire now) () s =
        (s, .writeBack now s.c.policy s.c.serverSkew) := by
      simp only [turn, hlate, Bool.false_eq_true, if_false]
    have hback := Alone.step hturn (.step rfl (.refl _ _))
    split
    · rename_i hne
      rw [if_pos hne] at hback
      obtain ⟨s', hgo, hc, -⟩ := restart_alone _ _ _
      exact ⟨s', hback.trans hgo, hc⟩
    · rename_i hsame
      rw [if_neg hsame] at hback
      exact ⟨_, hback, rfl⟩

variable {s : Shared}

theorem stream_alone {set : PolicySet} (hset : s.c.policy = set) (level : String) (force : Bool) :
    ∃ s', Alone sdk (decideStream sdk level set force) s .unlock s' ∧
      s'.c = s.c.resubscribe sdk level force := by
  unfold decideStream resubscribe
  rw [hset]
  split
  · exact ⟨s, .refl _ _, rfl⟩
  · obtain ⟨s', hgo, hc, -⟩ := @restart_alone sdk s (set.subscribeLevel sdk) .unlocks
    exact ⟨s', hgo, hc⟩

theorem start_alone {set : PolicySet} (hset : s.c.policy = set) (addr : String)
    (source : AddrSource) (node : NodeView) (now : Time) :
    ∃ s', Alone sdk (.start addr source node now set) s .unlock s' ∧
      s'.c = s.c.bringUp sdk addr source node now := by
  have hbooks := s.c.startPipeline_books sdk addr source node now
  unfold bringUp
  rcases hstart : s.c.startPipeline sdk addr source node now with ⟨- | -, c⟩ <;>
    rw [hstart] at hbooks
  · have hturn : turn sdk (.start addr source node now set) () s =
        ({ s with c := c }, .unlock) := by
      simp [turn, hstart]
    exact ⟨_, .step hturn (.refl _ _), rfl⟩
  · have hturn : turn sdk (.start addr source node now set) () s =
        ({ s with c := c }, decideStream sdk "" set false) := by
      simp [turn, hstart]
    have hset' : ({ s with c := c } : Shared).c.policy = set := hbooks.policy.trans hset
    obtain ⟨s', hgo, hc⟩ := @stream_alone sdk _ _ hset' "" false
    exact ⟨s', .step hturn hgo, hc⟩

/-- `applyConfig` where the pipeline against the address is running. -/
theorem keep_alone {seen : Seen} (hset : s.c.policy = seen.set)
    (hlevel : s.c.haveLevel = seen.level) (addr : String) (source : AddrSource) (node : NodeView) :
    ∃ s', Alone sdk (.keep addr source node seen) s .unlock s' ∧
      s'.c = s.c.keepUp sdk addr source node := by
  let noted : Collector :=
    { s.c with health := { s.c.health with clashAPIAddr := addr, addrSource := source } }
  have hfields : (noted.refreshSecret sdk node).2.policy = seen.set ∧
      (noted.refreshSecret sdk node).2.haveLevel = seen.level := by
    unfold refreshSecret
    split <;> exact ⟨hset, hlevel⟩
  obtain ⟨s', hgo, hc⟩ := @stream_alone sdk { s with c := (noted.refreshSecret sdk node).2 }
    seen.set hfields.1 seen.level (noted.refreshSecret sdk node).1
  refine ⟨s', .step rfl (.step rfl hgo), hc.trans ?_⟩
  rw [← hfields.2]
  rfl

theorem pipeline_alone {seen : Seen} (hset : s.c.policy = seen.set)
    (hlevel : s.c.haveLevel = seen.level) (hup : s.c.pipeline.map (·.addr) = seen.running)
    (addr : String) (source : AddrSource) (node : NodeView) (now : Time) :
    ∃ s', Alone sdk (decidePipeline addr source node now seen) s .unlock s' ∧
      s'.c = s.c.reach sdk addr source node now := by
  unfold decidePipeline reach leave
  rcases hp : s.c.pipeline with - | p <;> rw [hp] at hup <;> rw [← hup]
  · simp only [Option.map_none, hp]
    exact start_alone hset addr source node now
  · simp only [Option.map_some]
    split
    · obtain ⟨s₁, hstop, hc, -⟩ := @stop_alone sdk s (.starts addr source node now seen.set)
      have hset' : s₁.c.policy = seen.set := by
        rw [hc]
        exact hset
      obtain ⟨s', hgo, hc'⟩ := @start_alone sdk _ _ hset' addr source node now
      refine ⟨s', hstop.trans hgo, ?_⟩
      rw [hc', hc]
      rfl
    · rw [hp]
      exact keep_alone hset hlevel addr source node

/-- `applyConfig` once it has installed the policy and the budget. -/
theorem addr_alone {c : Collector} {seen : Seen} {cfg : TraceAgentConfig} {now : Time}
    (hc : s.c = c.install sdk cfg now) (hset : s.c.policy = seen.set)
    (hlevel : s.c.haveLevel = seen.level) (hup : s.c.pipeline.map (·.addr) = seen.running)
    (hsource : s.c.health.addrSource = seen.source) (node : NodeView) :
    ∃ s', Alone sdk (decideAddr sdk c cfg node now seen) s .unlock s' ∧
      s'.c = c.applyConfig sdk cfg node now := by
  have hoff : ∀ state detail, ∃ s', Alone sdk (.stop (.reports state detail now)) s .unlock s' ∧
      s'.c = s.c.stop.setStatus sdk state detail "" .none now := by
    intro state detail
    obtain ⟨s₁, hstop, hc₁, -⟩ := @stop_alone sdk s (.reports state detail now)
    exact ⟨_, hstop.trans (.step rfl (.refl _ _)), by rw [hc₁]⟩
  have hreach : ∀ detail addr source,
      ∃ s', Alone sdk (.discovered detail addr source node now seen) s .unlock s' ∧
        s'.c = (s.c.noteDiscovery sdk detail now).reach sdk addr source node now := by
    intro detail addr source
    obtain ⟨s', hgo, hc'⟩ := @pipeline_alone sdk
      { s with c := s.c.noteDiscovery sdk detail now } seen hset hlevel hup addr source node now
    exact ⟨s', .step rfl hgo, hc'⟩
  have hresolve : c.resolveAddr sdk cfg.policy node = s.c.resolveAddr sdk cfg.policy node := by
    rw [hc]
    rfl
  unfold decideAddr applyConfig
  rw [hresolve, ← hc, ← hset, ← hup, ← hsource]
  dsimp only
  split
  · exact hoff _ _
  · rcases s.c.resolveAddr sdk cfg.policy node with ⟨detail, - | -⟩ | ⟨addr, source⟩
    · rcases s.c.pipeline with - | p <;> exact hoff _ _
    · rcases s.c.pipeline with - | p
      · exact hoff _ _
      · exact hreach _ _ _
    · exact hreach _ _ _

theorem apply_alone (hfree : s.applyMu = false) (cfg : TraceAgentConfig) (node : NodeView)
    (now : Clock) :
    ∃ s', Alone sdk (.apply cfg node now) s .done s' ∧
      s'.c = s.c.applyConfig sdk cfg node now := by
  have hlock : turn sdk (.apply cfg node now) () s =
      ({ s with applyMu := true }, .install cfg node now) := by
    simp [turn, hfree]
  obtain ⟨s', hgo, hc⟩ := @addr_alone sdk
    { s with
      applyMu := true
      c := s.c.install sdk cfg now
      applied := some (cfg, now)
      expired := [] } s.c
    { set := build sdk cfg now
      running := s.c.pipeline.map (·.addr)
      source := s.c.health.addrSource
      level := s.c.haveLevel } cfg now rfl rfl rfl
    (by simp [Collector.install, setBudget, setRawSource, Function.comp_def])
    rfl node
  have hdone := hgo.trans (.step rfl (.refl .done { s' with applyMu := false }))
  exact ⟨_, .step hlock (.step rfl (.step rfl hdone)), hc⟩

open Collector in
theorem apply_alone_fresh :
    let c := newTraceCollector "n1" 0
    ∃ s', Alone asciiSdk (.apply minuteConfig openNode 1) { c := c } .done s' ∧
      s'.c = c.applyConfig asciiSdk minuteConfig openNode (1 : Clock) ∧
      s'.c.pipeline.map (·.addr) = some "127.0.0.1:9090" := by
  intro c
  obtain ⟨s', halone, hc⟩ := @apply_alone asciiSdk { c := c } rfl minuteConfig openNode 1
  exact ⟨s', halone, hc, by rw [hc]; decide +kernel⟩

end Alone

/-! ### The installed policy -/

/-- The condition on a move: a rebuilt policy is written back over the policy and the skew it
was built from. -/
def writesBackWhatItRead (p : Pool Shared Call) : Move Entry Unit → Bool
  | .turn i _ =>
    match p.calls[i]? with
    | some (.writeBack _ set skew) =>
      decide (p.shared.c.policy = set ∧ p.shared.c.serverSkew = skew)
    | _ => true
  | .enter _ => true

/-- The sessions of a config applied at `now` that no expiry since has found past. -/
def remaining (sdk : Sdk) (cfg : TraceAgentConfig) (now : Time) (expired : List Time) :
    List TraceAgentSession :=
  (PolicySet.build sdk cfg now).sessions.filter fun sess =>
    expired.all fun t => decide (t < sess.expiresAt)

/-- The installed policy has the floor of the last config and its sessions, less those that have
expired since; before any config it collects nothing. -/
def Current (sdk : Sdk) (s : Shared) : Prop :=
  match s.applied with
  | none => s.c.policy.nodeEnabled = false ∧ s.c.policy.sessions = []
  | some (cfg, now) =>
    s.c.policy.nodeEnabled = cfg.policy.enabled ∧
      s.c.policy.nodeLevel = normalizeLevel sdk cfg.policy.level ∧
      s.c.policy.sessions = remaining sdk cfg now s.expired

theorem remaining_append (sdk : Sdk) (cfg : TraceAgentConfig) (now : Time) (expired : List Time)
    (t : Time) : remaining sdk cfg now (expired ++ [t]) =
      (remaining sdk cfg now expired).filter (t < ·.expiresAt) := by
  simp [remaining, List.filter_filter, Bool.and_comm]

theorem Current.cut {sdk : Sdk} {s s' : Shared} (h : Current sdk s) {t : Time}
    (happlied : s'.applied = s.applied) (hexpired : s'.expired = s.expired ++ [t])
    (henabled : s'.c.policy.nodeEnabled = s.c.policy.nodeEnabled)
    (hlevel : s'.c.policy.nodeLevel = s.c.policy.nodeLevel ∨
      s'.c.policy.nodeLevel = normalizeLevel sdk s.c.policy.nodeLevel)
    (hsessions : s'.c.policy.sessions = s.c.policy.sessions.filter (t < ·.expiresAt)) :
    Current sdk s' := by
  unfold Current at h ⊢
  rw [happlied, henabled, hsessions, hexpired]
  rcases happ : s.applied with - | ⟨cfg, now⟩ <;> simp only [happ] at h
  · exact ⟨h.1, by rw [h.2]; rfl⟩
  · refine ⟨h.1, ?_, by rw [h.2.2, remaining_append]⟩
    rcases hlevel with hlevel | hlevel
    · rw [hlevel, h.2.1]
    · rw [hlevel, h.2.1, normalizeLevel_of_valid sdk (normalizeLevel_valid sdk cfg.policy.level)]

/-- What a schedule keeps of the policy. -/
def PolicyInv (sdk : Sdk) (p : Pool Shared Call) : Prop :=
  Current sdk p.shared ∧ p.shared.c.policy.Built sdk

theorem PolicyInv.frame {sdk : Sdk} {p p' : Pool Shared Call} (h : PolicyInv sdk p)
    (hpol : p'.shared.c.policy = p.shared.c.policy) (happlied : p'.shared.applied = p.shared.applied)
    (hexpired : p'.shared.expired = p.shared.expired) : PolicyInv sdk p' := by
  unfold PolicyInv Current at *
  rw [hpol, happlied, hexpired]
  exact h

theorem PolicyInv.turn {sdk : Sdk} {p : Pool Shared Call} {i : Nat} {k : Call} (h : PolicyInv sdk p)
    (hk : p.calls[i]? = some k) (hok : writesBackWhatItRead p (.turn i ())) :
    PolicyInv sdk ((calls sdk).turned p i k ()) := by
  obtain ⟨hcur, hbuilt⟩ := h
  cases k with
  | expire now =>
    rcases hearly : (p.shared.c.policy.expiresNext.isZero ||
        decide (now + p.shared.c.serverSkew < p.shared.c.policy.expiresNext)) with - | -
    · refine PolicyInv.frame ⟨hcur, hbuilt⟩ ?_ ?_ ?_ <;>
        simp [turned, calls, Concurrent.turn, hearly]
    · -- Nothing is due, so the cut at this time keeps every session.
      have hnone := hearly
      rw [Bool.or_eq_true, decide_eq_true_eq] at hnone
      have hall : p.shared.c.policy.sessions.filter
          (now + p.shared.c.serverSkew < ·.expiresAt) = p.shared.c.policy.sessions :=
        List.filter_eq_self.mpr fun sess hs => by
          simpa using hbuilt.next.running hnone sess hs
      refine ⟨hcur.cut ?_ ?_ ?_ (.inl ?_) (Eq.trans ?_ hall.symm), ?_⟩ <;>
        simp [turned, calls, Concurrent.turn, hearly, hbuilt]
  | writeBack now set skew =>
    simp only [writesBackWhatItRead, hk, decide_eq_true_eq] at hok
    obtain ⟨rfl, rfl⟩ := hok
    refine ⟨hcur.cut rfl rfl (build_nodeEnabled _ _ _)
      (.inr (build_nodeLevel _ _ _))
      (rebuild_sessions hbuilt.normal hbuilt.sorted _ _), ?_⟩
    exact build_built sdk fun raw hraw => .inl (hbuilt.next.positive raw hraw)
  | restart | subscribe | stop | cancel | budget | discovered | keep | status | unlock
  | done => exact PolicyInv.frame ⟨hcur, hbuilt⟩ rfl rfl rfl
  | apply cfg node now =>
    refine PolicyInv.frame ⟨hcur, hbuilt⟩ ?_ ?_ ?_ <;>
      cases hmu : p.shared.applyMu <;> simp [turned, calls, Concurrent.turn, hmu]
  | install cfg node now =>
    refine ⟨⟨build_nodeEnabled _ _ _, build_nodeLevel _ _ _, ?_⟩,
      build_built sdk fun _ _ => .inr now.2.le⟩
    exact (List.filter_eq_self.mpr fun _ _ => rfl).symm
  | start addr source node now set =>
    exact PolicyInv.frame ⟨hcur, hbuilt⟩
      (p.shared.c.startPipeline_books sdk addr source node now).policy rfl rfl
  | refresh node seen =>
    exact PolicyInv.frame ⟨hcur, hbuilt⟩ (p.shared.c.refreshSecret_books sdk node).policy rfl rfl

/-- **No config is lost** as long as every rebuilt policy is written back over the policy it was
built from: then the installed policy is always that of the last config, less the sessions
that an expiry since has found past. -/
theorem policy_is_last_config {sdk : Sdk} {nodeID : String} {start : Time}
    {moves : List (Move Entry Unit)}
    (hok : (calls sdk).Along writesBackWhatItRead (fresh nodeID start) moves) :
    Current sdk ((calls sdk).run (fresh nodeID start) moves).shared := by
  have hfresh : PolicyInv sdk (fresh nodeID start) :=
    ⟨⟨rfl, rfl⟩, built_empty sdk⟩
  exact (run_invariant (PolicyInv sdk)
    (fun p e h _ => (h.frame rfl rfl rfl : PolicyInv sdk ((calls sdk).entered p e)))
    (fun p i k a h hk hok => h.turn hk hok) hfresh hok).1

open Collector in
/-- The config that follows: the floor is on, and a session of fifteen minutes runs. -/
def nextConfig : TraceAgentConfig where
  policy := { enabled := true, level := "info", clashAPIAddr := "127.0.0.1:9090" }
  sessions := [wholeNode]

open Collector in
/-- A config, then the next one while an expiry is between its two sections. -/
def configDuringExpiry : List (Move Entry Unit) :=
  .enter (.apply minuteConfig openNode 1) :: List.replicate 9 (.turn 0 ()) ++
    [.enter (.expire (Clock.unix 60)), .turn 1 ()] ++
    .enter (.apply nextConfig openNode (.unix 61)) ::
      List.replicate 9 (.turn 2 ()) ++ List.replicate 4 (.turn 1 ())

theorem policy_is_last_config_sample :
    let moves := configDuringExpiry.take 12 ++ List.replicate 4 (.turn 1 ())
    let p := (calls asciiSdk).run (fresh "node" 0) moves
    (calls asciiSdk).Along writesBackWhatItRead (fresh "node" 0) moves ∧ Idle p ∧
      p.shared.expired = [Clock.unix 60] ∧ p.shared.c.policy.sessions = [] ∧
      Current asciiSdk p.shared := by
  intro moves p
  have hok : (calls asciiSdk).Along writesBackWhatItRead (fresh "node" 0) moves := by
    decide +kernel
  exact ⟨hok, by decide +kernel, by decide +kernel, by decide +kernel,
    @policy_is_last_config asciiSdk "node" 0 _ hok⟩

open Collector in
/-- The expiry writes back what it made of the first config: the floor and the session of the
second are gone, though no expiry has found it past. -/
theorem expiry_overwrites_config :
    let p := (calls asciiSdk).run (fresh "node" 0) configDuringExpiry
    Idle p ∧ p.shared.applied = some (nextConfig, (.unix 61)) ∧
      remaining asciiSdk nextConfig (Clock.unix 61) p.shared.expired = [wholeNode] ∧
      p.shared.c.policy.sessions = [] ∧ p.shared.c.policy.nodeEnabled = false := by
  decide +kernel

/-! ### The subscriptions -/

/-- The condition on a move: between the two sections of a `restartStream` the subscription is
neither replaced nor taken down. -/
def subscribesUndisturbed (p : Pool Shared Call) : Move Entry Unit → Bool
  | .turn i _ =>
    match p.calls[i]? with
    | some (.subscribe _ swaps _) => decide (swaps = p.shared.swaps)
    | _ => true
  | .enter _ => true

/-- What the second section of a `restartStream` finds if nothing has come in between: the
pipeline, and the old subscription cancelled. -/
def Ready (s : Shared) : Call → Prop
  | .subscribe _ swaps _ =>
    swaps ≤ s.swaps ∧ (swaps = s.swaps → s.c.pipeline.isSome = true ∧
      ∀ n, s.streamCancel = some n → n ∉ s.live)
  | _ => True

/-- What a schedule keeps of the subscriptions. One that is still live is the collector's, or is
in the hands of a `stop` that is about to cancel it. -/
structure StreamInv (p : Pool Shared Call) : Prop where
  owned : ∀ n ∈ p.shared.live, p.shared.streamCancel = some n ∨
    ∃ after, .cancel (some n) after ∈ p.calls
  down : p.shared.c.pipeline.isSome = false → p.shared.streamCancel = none
  numbered : ∀ n ∈ p.shared.live, n < p.shared.started
  nodup : p.shared.live.Nodup
  ready : ∀ k ∈ p.calls, Ready p.shared k

/-- Once the subscription has moved on, a section that was under way is out of date. -/
theorem Ready.later {s s' : Shared} {k : Call} (h : Ready s k) (hswaps : s'.swaps = s.swaps + 1) :
    Ready s' k := by
  cases k with
  | subscribe level swaps after =>
    refine ⟨hswaps ▸ Nat.le_succ_of_le h.1, fun heq => ?_⟩
    rw [hswaps] at heq
    exact absurd (heq ▸ h.1) (Nat.not_succ_le_self _)
  | _ => exact trivial

theorem ready_after (s : Shared) (after : After) : Ready s after.call := by
  cases after <;> exact trivial

section Streams

variable {sdk : Sdk} {p : Pool Shared Call} {i : Nat}

section

variable (h : StreamInv p)

include h

theorem StreamInv.frame {k k' : Call} (hk : p.calls[i]? = some k)
    (hcancel : ∀ n after, k ≠ .cancel (some n) after) {s' : Shared}
    (hlive : s'.live = p.shared.live) (hstream : s'.streamCancel = p.shared.streamCancel)
    (hstarted : s'.started = p.shared.started) (hswaps : s'.swaps = p.shared.swaps)
    (hup : p.shared.c.pipeline.isSome → s'.c.pipeline.isSome) (hready : Ready s' k') :
    StreamInv { shared := s', calls := p.calls.set i k' } where
  owned := by
    intro n hn
    rw [hlive] at hn
    rcases h.owned n hn with hown | ⟨after, hmem⟩
    · exact .inl (hstream.trans hown)
    · rcases mem_set_or_eq hk hmem with hmem | heq
      · exact .inr ⟨after, hmem⟩
      · exact absurd heq.symm (hcancel n after)
  down := by
    intro hdown
    rw [hstream]
    refine h.down ?_
    cases hp : p.shared.c.pipeline.isSome with
    | false => rfl
    | true => exact absurd ((hup hp).symm.trans hdown) Bool.true_eq_false_eq_False
  numbered := by
    rw [hlive, hstarted]
    exact h.numbered
  nodup := hlive ▸ h.nodup
  ready := by
    refine forall_mem_set (fun k hk => ?_) hready
    have hold := h.ready k hk
    cases k with
    | subscribe level swaps after =>
      simp only [Ready, hswaps, hstream, hlive] at hold ⊢
      exact ⟨hold.1, fun heq => ⟨hup (hold.2 heq).1, (hold.2 heq).2⟩⟩
    | _ => exact trivial

theorem StreamInv.cancelled {k k' : Call} (hk : p.calls[i]? = some k) {ctx : Option Nat}
    (hctx : ∀ n after, k = .cancel (some n) after → ctx = some n)
    (hready : Ready { p.shared with live := ctx.elim p.shared.live p.shared.live.erase } k') :
    StreamInv { shared := { p.shared with live := ctx.elim p.shared.live p.shared.live.erase }
                calls := p.calls.set i k' } := by
  have hsub : ∀ n ∈ ctx.elim p.shared.live p.shared.live.erase, n ∈ p.shared.live ∧ ctx ≠ some n := by
    intro n hn
    cases ctx with
    | none => exact ⟨hn, nofun⟩
    | some m =>
      obtain ⟨hne, hmem⟩ := h.nodup.mem_erase_iff.mp hn
      exact ⟨hmem, fun heq => hne (Option.some.inj heq).symm⟩
  refine ⟨?_, h.down, fun n hn => h.numbered n (hsub n hn).1, ?_, ?_⟩
  · intro n hn
    obtain ⟨hlive, hne⟩ := hsub n hn
    rcases h.owned n hlive with hown | ⟨after, hmem⟩
    · exact .inl hown
    · rcases mem_set_or_eq hk hmem with hmem | heq
      · exact .inr ⟨after, hmem⟩
      · exact absurd (hctx n after heq.symm) hne
  · cases ctx with
    | none => exact h.nodup
    | some m => exact h.nodup.erase m
  · refine forall_mem_set (fun k hk => ?_) hready
    have hold := h.ready k hk
    cases k with
    | subscribe level swaps after =>
      exact ⟨hold.1, fun heq => ⟨(hold.2 heq).1, fun n hn hmem =>
        (hold.2 heq).2 n hn (hsub n hmem).1⟩⟩
    | _ => exact trivial

theorem StreamInv.restart {level : String} {after : After}
    (hk : p.calls[i]? = some (.restart level after)) :
    StreamInv ((calls sdk).turned p i (.restart level after) ()) := by
  refine h.cancelled hk (fun _ _ => Call.noConfusion) ?_
  dsimp only [turned, calls, turn]
  split
  · exact ready_after _ after
  · rename_i hup
    refine ⟨le_rfl, fun _ => ⟨by simpa [Option.isSome_iff_ne_none] using hup, fun n hn => ?_⟩⟩
    simp only [show p.shared.streamCancel = some n from hn, Option.elim_some]
    exact h.nodup.not_mem_erase

/-- The second section, undisturbed: the new context is the only one not on its way out. -/
theorem StreamInv.subscribe {level : String} {swaps : Nat} {after : After}
    (hk : p.calls[i]? = some (.subscribe level swaps after)) (hswaps : swaps = p.shared.swaps) :
    StreamInv ((calls sdk).turned p i (.subscribe level swaps after) ()) := by
  obtain ⟨-, hundisturbed⟩ := h.ready _ (List.mem_of_getElem? hk)
  obtain ⟨hup, hold⟩ := hundisturbed hswaps
  refine ⟨?_, fun hdown => absurd (hup.symm.trans hdown) Bool.true_eq_false_eq_False, ?_, ?_, ?_⟩
  · intro n hn
    rcases List.mem_cons.mp hn with rfl | hn
    · exact .inl rfl
    · rcases h.owned n hn with hown | ⟨after', hmem⟩
      · exact absurd hn (hold n hown)
      · rcases mem_set_or_eq hk hmem with hmem | heq
        · exact .inr ⟨after', hmem⟩
        · cases heq
  · intro n hn
    rcases List.mem_cons.mp hn with rfl | hn
    · exact Nat.lt_succ_self _
    · exact Nat.lt_succ_of_lt (h.numbered n hn)
  · exact List.nodup_cons.mpr ⟨fun hmem => lt_irrefl _ (h.numbered _ hmem), h.nodup⟩
  · exact forall_mem_set (fun k hk => (h.ready k hk).later rfl) (ready_after _ after)

/-- `stop` takes the context out of the collector; it is cancelled in the next step. -/
theorem StreamInv.stop {after : After} (hk : p.calls[i]? = some (.stop after)) :
    StreamInv ((calls sdk).turned p i (.stop after) ()) := by
  refine ⟨?_, fun _ => rfl, h.numbered, h.nodup, ?_⟩
  · intro n hn
    rcases h.owned n hn with hown | ⟨after', hmem⟩
    · refine .inr ⟨after, ?_⟩
      have hlt : i < p.calls.length := (List.getElem?_eq_some_iff.mp hk).1
      change _ ∈ p.calls.set i (Call.cancel p.shared.streamCancel after)
      rw [hown]
      exact List.mem_set hlt _
    · rcases mem_set_or_eq hk hmem with hmem | heq
      · exact .inr ⟨after', hmem⟩
      · cases heq
  · exact forall_mem_set (fun k hk => (h.ready k hk).later rfl) trivial

end

theorem startPipeline_up (sdk : Sdk) (c : Collector) (addr : String) (source : AddrSource)
    (node : NodeView) (now : Time) (h : c.pipeline.isSome) :
    (c.startPipeline sdk addr source node now).2.pipeline.isSome := by
  unfold startPipeline
  split
  · exact h
  · split
    · exact h
    · rfl

theorem ready_decideStream (sdk : Sdk) (s : Shared) (level : String) (set : PolicySet)
    (force : Bool) : Ready s (decideStream sdk level set force) := by
  unfold decideStream
  split <;> exact trivial

theorem StreamInv.turn (h : StreamInv p) {k : Call} (hk : p.calls[i]? = some k)
    (hok : subscribesUndisturbed p (.turn i ())) : StreamInv ((calls sdk).turned p i k ()) := by
  cases k with
  | expire | apply =>
    dsimp only [turned, calls, Concurrent.turn]
    split <;>
      exact h.frame hk (fun _ _ => Call.noConfusion) rfl rfl rfl rfl (fun hup => hup) trivial
  | writeBack now set skew =>
    refine h.frame hk (fun _ _ => Call.noConfusion) rfl rfl rfl rfl (fun hup => hup) ?_
    dsimp only [calls, Concurrent.turn]
    split <;> exact trivial
  | restart level after => exact h.restart hk
  | subscribe level swaps after =>
    refine h.subscribe hk ?_
    simpa only [subscribesUndisturbed, hk, decide_eq_true_eq] using hok
  | stop after => exact h.stop hk
  | cancel ctx after =>
    refine h.cancelled hk (fun n after' heq => ?_) (ready_after _ after)
    cases heq
    rfl
  | install | keep | status | unlock | done =>
    exact h.frame hk (fun _ _ => Call.noConfusion) rfl rfl rfl rfl (fun hup => hup) trivial
  | budget cfg node now seen =>
    refine h.frame hk (fun _ _ => Call.noConfusion) rfl rfl rfl rfl (fun hup => ?_) ?_
    · simpa [calls, Concurrent.turn, setBudget] using hup
    · dsimp only [calls, Concurrent.turn, decideAddr]
      split
      · exact trivial
      · split <;> exact trivial
  | discovered detail addr source node now seen =>
    refine h.frame hk (fun _ _ => Call.noConfusion) rfl rfl rfl rfl (fun hup => hup) ?_
    dsimp only [calls, Concurrent.turn, decidePipeline]
    split
    · split <;> exact trivial
    · exact trivial
  | start addr source node now set =>
    refine h.frame hk (fun _ _ => Call.noConfusion) rfl rfl rfl rfl
      (startPipeline_up sdk p.shared.c addr source node now) ?_
    dsimp only [calls, Concurrent.turn]
    split
    · exact ready_decideStream _ _ _ _ _
    · exact trivial
  | refresh node seen =>
    refine h.frame hk (fun _ _ => Call.noConfusion) rfl rfl rfl rfl (fun hup => ?_)
      (ready_decideStream _ _ _ _ _)
    dsimp only [calls, Concurrent.turn, refreshSecret]
    split
    · exact hup
    · simpa using hup

end Streams

/-- **At most one subscription is live** as long as no `restartStream` is disturbed between its
two sections: whenever no call is in progress, every live context is the one the collector
would cancel, and there is none without a pipeline. -/
theorem one_live_subscription {sdk : Sdk} {nodeID : String} {start : Time}
    {moves : List (Move Entry Unit)} {p : Pool Shared Call}
    (hok : (calls sdk).Along subscribesUndisturbed (fresh nodeID start) moves)
    (hp : p = (calls sdk).run (fresh nodeID start) moves) (hidle : Idle p) :
    p.shared.live.length ≤ 1 ∧ (∀ n ∈ p.shared.live, p.shared.streamCancel = some n) ∧
      (p.shared.c.pipeline.isSome = false → p.shared.live = []) := by
  have hfresh : StreamInv (fresh nodeID start) :=
    ⟨fun n hn => absurd hn List.not_mem_nil, fun _ => rfl, fun n hn => absurd hn List.not_mem_nil,
      .nil, fun k hk => absurd hk List.not_mem_nil⟩
  have hinv : StreamInv p := by
    rw [hp]
    refine run_invariant StreamInv (fun p e h _ => ?_) (fun p i k a h hk hok => h.turn hk hok)
      hfresh hok
    refine ⟨fun n hn => (h.owned n hn).imp_right fun ⟨after, hmem⟩ =>
      ⟨after, List.mem_append_left _ hmem⟩, h.down, h.numbered, h.nodup, ?_⟩
    intro k hk
    rcases List.mem_append.mp hk with hk | hk
    · exact h.ready k hk
    · rw [List.mem_singleton.mp hk]
      cases e <;> exact trivial
  have hown : ∀ n ∈ p.shared.live, p.shared.streamCancel = some n := by
    intro n hn
    refine (hinv.owned n hn).resolve_right fun ⟨after, hmem⟩ => ?_
    exact absurd (hidle _ hmem) Bool.false_ne_true
  refine ⟨?_, hown, fun hdown => List.eq_nil_iff_forall_not_mem.mpr fun n hn => ?_⟩
  · -- All live contexts are the same one, and none is listed twice.
    have hnodup := hinv.nodup
    rcases hlive : p.shared.live with - | ⟨a, - | ⟨b, rest⟩⟩
    · exact Nat.zero_le 1
    · exact le_rfl
    · rw [hlive] at hown hnodup
      have ha := hown a List.mem_cons_self
      have hb := hown b (List.mem_cons_of_mem _ List.mem_cons_self)
      cases ha.symm.trans hb
      simp at hnodup
  · exact absurd ((hown n hn).symm.trans (hinv.down hdown)) nofun

open Collector in
/-- A pipeline is up with one subscription, and an expiry and a config at another level restart
it side by side: both cancel the old subscription before either has installed its own. -/
def twoRestarts : List (Move Entry Unit) :=
  .enter (.apply { minuteConfig with sessions := [{ oneMinute with level := "debug" }] } openNode
      1) :: List.replicate 9 (.turn 0 ()) ++
    .enter (.expire (Clock.unix 60)) :: List.replicate 3 (.turn 1 ()) ++
    .enter (.apply nextConfig openNode (.unix 61)) ::
      List.replicate 9 (.turn 2 ()) ++ List.replicate 2 (.turn 1 ())

theorem one_live_subscription_sample :
    let p := (calls asciiSdk).run (fresh "node" 0) (twoRestarts.take 10)
    p.shared.live = [0] ∧ p.shared.live.length ≤ 1 := by
  have hok : (calls asciiSdk).Along subscribesUndisturbed (fresh "node" 0) (twoRestarts.take 10) := by
    decide +kernel
  exact ⟨by decide +kernel, (@one_live_subscription asciiSdk "node" 0 _ _ hok rfl
    (by decide +kernel)).1⟩

/-- An expiry restarts the subscription of a pipeline that a `stop` takes down in between. -/
def stopDuringRestart : List (Move Entry Unit) :=
  twoRestarts.take 14 ++ .enter .stop :: List.replicate 2 (.turn 2 ()) ++ [.turn 1 ()]

/-- No call is in progress, and two subscriptions are live in the one case, and one without a
pipeline in the other. -/
theorem restart_leaks_subscription :
    let p := (calls asciiSdk).run (fresh "node" 0) twoRestarts
    let q := (calls asciiSdk).run (fresh "node" 0) stopDuringRestart
    (Idle p ∧ p.shared.live = [2, 1] ∧ p.shared.streamCancel = some 2) ∧
      Idle q ∧ q.shared.live = [1] ∧ q.shared.c.pipeline.isSome = false := by
  decide +kernel

end LatticeAgent.Trace.Concurrent
