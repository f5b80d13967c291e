import LatticeAgent.Trace.Sessions

/-! # When a capture session ends

A session has a deadline, and the agent keeps it without the server: every tick of a running
pipeline ends in `expireSessionsLocally`, which drops the sessions whose deadline has passed by
the server's clock.

Three questions are answered here, each by an equivalence. Does an ended session still get
lines (`expired_session_silent_iff`)? Is the collector left where a config with the remaining
sessions would put it (`expiry_agrees_with_config_iff`)? Is it the server's clock that decides
(`server_clock_decides_iff`)? -/

namespace LatticeAgent.Trace

open List PolicySet

namespace Collector

/-- The policy is one that `Build` makes, and a running pipeline is subscribed. -/
structure Sound (sdk : Sdk) (c : Collector) : Prop where
  built : c.policy.Built sdk
  subscribed : c.Subscribed

theorem sound_new (sdk : Sdk) (nodeID : String) (start : Time) :
    (newTraceCollector nodeID start).Sound sdk :=
  ⟨built_empty sdk, fun h => absurd h Bool.false_ne_true⟩

variable {sdk : Sdk} {c : Collector} {sess : TraceAgentSession}

theorem mem_expire (h : c.policy.Built sdk) (now : Time) :
    sess ∈ (c.expireSessionsLocally sdk now).policy.sessions ↔
      sess ∈ c.policy.sessions ∧ now + c.serverSkew < sess.expiresAt := by
  rw [expire_policy]
  split
  · -- Nothing is due before the next deadline, so the cut would drop no one.
    rename_i hearly
    rw [Bool.or_eq_true, decide_eq_true_eq] at hearly
    exact ⟨fun hs => ⟨hs, h.next.running hearly sess hs⟩, fun h => h.1⟩
  · exact mem_rebuild h.normal

theorem expire_streamCancel (sdk : Sdk) (now : Time) (h : c.streamCancel) :
    (c.expireSessionsLocally sdk now).streamCancel := by
  unfold expireSessionsLocally
  dsimp only
  split
  · exact h
  · split
    · simp [restartStream, h]
    · exact h

theorem applyConfig_subscribed (sdk : Sdk) (h : c.Subscribed) (cfg : TraceAgentConfig)
    (node : NodeView) (now : Time) : (c.applyConfig sdk cfg node now).Subscribed := by
  intro hup
  cases applyConfig_configured sdk c cfg node now with
  | stopped hdown => exact absurd (hup.symm.trans (congrArg Option.isSome hdown)) nofun
  | kept hp hp' haddr hasm hlevel => exact (hlevel (h (by rw [hp]; rfl))).1
  | starts hp' hasm hother hopen => exact hopen

/-! ### Runs -/

theorem Subscribed.step (sdk : Sdk) (h : c.Subscribed) (now : Clock) (input : Input) :
    (c.step sdk now input).Subscribed := by
  cases input with
  | entry entry =>
    rcases hp : c.pipeline with - | p
    · simpa [Collector.step, onEntry_stopped hp] using h
    · intro _
      rw [Collector.step, onEntry_eq]
      exact h (by rw [hp]; rfl)
  | tick taken =>
    rcases hp : c.pipeline with - | p
    · simpa [Collector.step, tick, hp] using h
    · intro _
      have hup : c.streamCancel := h (by rw [hp]; rfl)
      rw [Collector.step, tick_eq sdk hp]
      exact expire_streamCancel sdk now hup
  | poll answer =>
    rcases hp : c.pipeline with - | p
    · simpa [Collector.step, pollConnections, hp] using h
    · intro _
      rw [Collector.step, poll_eq]
      exact h (by rw [hp]; rfl)
  | streamOpen | streamError =>
    rw [step_hook sdk c now rfl]
    exact h
  | config cfg node => exact applyConfig_subscribed sdk h cfg node now

theorem step_up {now : Clock} {input : Input} (h : ∀ cfg node, input ≠ .config cfg node)
    (hup : c.pipeline.isSome) : (c.step sdk now input).pipeline.isSome ∧
      (c.step sdk now input).serverSkew = c.serverSkew := by
  obtain ⟨p, hp⟩ := Option.isSome_iff_exists.mp hup
  cases input with
  | entry entry =>
    obtain ⟨p', hp', -⟩ := onEntry_pipeline sdk hp entry now
    exact ⟨congrArg Option.isSome hp', by rw [step, onEntry_eq]⟩
  | tick taken =>
    rw [step, tick_eq sdk hp, expire_eq]
    exact ⟨rfl, rfl⟩
  | poll answer =>
    obtain ⟨p', hp', -⟩ := poll_pipeline sdk hp answer now
    exact ⟨congrArg Option.isSome hp', by rw [step, poll_eq]⟩
  | streamOpen | streamError =>
    rw [step_hook sdk c now rfl]
    exact ⟨hup, rfl⟩
  | config cfg node => exact absurd rfl (h cfg node)

theorem expire_built (h : c.policy.Built sdk) (now : Time) :
    (c.expireSessionsLocally sdk now).policy.Built sdk := by
  rw [expire_policy]
  split
  · exact h
  · exact build_built sdk fun raw hraw => .inl (h.next.positive raw hraw)

theorem config_policy (sdk : Sdk) (c : Collector) (now : Clock) (cfg : TraceAgentConfig)
    (node : NodeView) : (c.step sdk now (.config cfg node)).policy = build sdk cfg now :=
  (c.applyConfig_books sdk cfg node now).policy

theorem step_built (h : c.policy.Built sdk) (now : Clock) (input : Input) :
    (c.step sdk now input).policy.Built sdk := by
  by_cases hconfig : ∃ cfg node, input = .config cfg node
  · obtain ⟨cfg, node, rfl⟩ := hconfig
    rw [config_policy]
    exact build_built sdk fun _ _ => .inr now.2.le
  · rcases @step_policy sdk c now input (fun cfg node he => hconfig ⟨cfg, node, he⟩) with
      ⟨hpol, -⟩ | ⟨-, -, hpol⟩
    · exact hpol ▸ h
    · exact hpol ▸ expire_built h now

theorem Sound.step (h : c.Sound sdk) (now : Clock) (input : Input) :
    (c.step sdk now input).Sound sdk :=
  ⟨step_built h.built now input, h.subscribed.step sdk now input⟩

theorem Sound.run (h : c.Sound sdk) (inputs : List (Clock × Input)) :
    (c.run sdk inputs).Sound sdk := by
  induction inputs generalizing c with
  | nil => exact h
  | cons i inputs ih => exact ih (h.step i.1 i.2)

/-! ### The lines of an ended session -/

/-- The condition on a step: the line is of no connection that `s` holds. -/
def unclaimed (sdk : Sdk) (s : String) (c : Collector) (now : Clock) : Input → Bool
  | .entry entry =>
    (c.admitted sdk entry now).elim true fun (l, _) =>
      match l.hasLogID, c.tagged.lookup l.logID with
      | true, some held => decide (s ∉ held)
      | _, _ => true
  | _ => true

/-- The policy knows no session `s`. -/
def Absent (sdk : Sdk) (s : String) (c : Collector) : Prop :=
  c.policy.Normal sdk ∧ ∀ sess ∈ c.policy.sessions, sess.id ≠ s

/-- No config of this input brings `s` back. -/
def NotInstalled (s : String) (input : Input) : Prop :=
  ∀ cfg node, input = .config cfg node → ∀ raw ∈ cfg.sessions, trimSpace raw.id ≠ s

theorem Absent.step {s : String} (h : c.Absent sdk s) {now : Clock} {input : Input}
    (hi : NotInstalled s input) : (c.step sdk now input).Absent sdk s := by
  by_cases hconfig : ∃ cfg node, input = .config cfg node
  · obtain ⟨cfg, node, rfl⟩ := hconfig
    rw [Absent, config_policy]
    refine ⟨build_normal sdk cfg now, fun sess hs => ?_⟩
    obtain ⟨⟨raw, hraw, hn⟩, -⟩ := mem_build.mp hs
    rw [(normalizeSession_fields hn).1]
    exact hi cfg node rfl raw hraw
  · obtain ⟨hn, hsub⟩ :=
      @step_sessions sdk c now input (fun cfg node he => hconfig ⟨cfg, node, he⟩) h.1
    exact ⟨hn, fun sess hs => h.2 sess (hsub sess hs)⟩

/-- A line for a session the policy does not know comes from the sessions that hold its
connection, and from nowhere else. -/
theorem newLines_silent_iff {s : String} (h : c.Absent sdk s) (now : Clock) (input : Input) :
    (∀ line ∈ c.newLines sdk now input, line.sessionID ≠ s) ↔
      c.unclaimed sdk s now input := by
  cases input with
  | entry entry =>
    rcases hadm : c.admitted sdk entry now with - | ⟨l, p⟩
    · simp [newLines, entryLines, unclaimed, hadm]
    · simp only [newLines, entryLines, unclaimed, hadm, Option.elim_some, routeLines]
      have hids : ∀ id ∈ (c.decide_ sdk p.asm l).sessionIDs, id ≠ s := by
        intro id hid
        obtain ⟨sess, hsess, rfl, -⟩ := mem_match.mp hid
        exact h.2 sess hsess
      have hown : ∀ line ∈ (c.decide_ sdk p.asm l).sessionIDs.map (stamp (c.baseLine l now)),
          line.sessionID ≠ s := by
        intro line hline
        obtain ⟨id, hid, rfl⟩ := mem_map.mp hline
        exact hids id hid
      rcases l.hasLogID with - | -
      · exact iff_of_true hown rfl
      · rcases c.tagged.lookup l.logID with - | held
        · refine iff_of_true (forall_mem_append.mpr ⟨fun line hline => ?_, hown⟩) rfl
          obtain ⟨id, hid, hline⟩ := mem_flatMap.mp hline
          obtain ⟨q, -, rfl⟩ := mem_map.mp hline
          exact hids id hid
        · simp only [mem_map, decide_eq_true_eq]
          constructor
          · intro hlines hs
            exact hlines _ ⟨s, hs, rfl⟩ rfl
          · rintro hs _ ⟨id, hid, rfl⟩ (rfl : id = s)
            exact hs hid
  | _ => simp [newLines, unclaimed]

/-- **An ended session gets no line exactly when** none arrives for a connection it held.
The tick at `now` finds the deadline of `s` past by the server's clock, and no later config
has `s`; only the connections that `s` took before can still bring it lines. -/
theorem expired_session_silent_iff {sdk : Sdk} {nodeID s : String} {start : Time}
    {pre post : List (Clock × Input)} {now : Clock} {taken : Bool} {c c' : Collector}
    (hc : c = (newTraceCollector nodeID start).run sdk pre) (hup : c.pipeline.isSome = true)
    (hdue : ∀ sess ∈ c.policy.sessions, sess.id = s → sess.expiresAt ≤ now + c.serverSkew)
    (hc' : c' = c.step sdk now (.tick taken)) (hpost : ∀ i ∈ post, NotInstalled s i.2) :
    ∃ new, (c'.run sdk post).lines = c'.lines ++ new ∧
      ((∀ line ∈ new, line.sessionID ≠ s) ↔ Along sdk (unclaimed sdk s) c' post) := by
  have hsound : c.Sound sdk := by
    rw [hc]
    exact (sound_new sdk nodeID start).run pre
  have habsent : c'.Absent sdk s := by
    obtain ⟨p, hp⟩ := Option.isSome_iff_exists.mp hup
    have hpol : c'.policy = (c.expireSessionsLocally sdk now).policy := by
      rw [hc', step, tick_eq sdk hp]
    rw [Absent, hpol]
    refine ⟨(expire_built hsound.built now).normal, fun sess hs hid => ?_⟩
    obtain ⟨hmem, halive⟩ := (mem_expire hsound.built now).mp hs
    have := hdue sess hmem hid
    lia
  exact run_lines_iff (Absent sdk s) (NotInstalled s) (fun c now input h hi => h.step hi)
    (fun c now input h => newLines_silent_iff h now input) habsent hpost

/-- A session of one minute, for the whole node. -/
def oneMinute : TraceAgentSession where
  id := "minute"
  level := "info"
  expiresAt := Clock.unix 60

/-- A node whose Clash API has no secret. -/
def openNode : NodeView where
  clashAPI := .error "unread"
  secret := .ok ""
  validateLoopbackAddr := .ok

/-- The config of one session, with the floor off. -/
def minuteConfig : TraceAgentConfig where
  policy := { clashAPIAddr := "127.0.0.1:9090" }
  sessions := [oneMinute]

/-- The session starts and takes a connection. -/
def minuteStarts : List (Clock × Input) :=
  [(1, .config minuteConfig openNode), (2, .entry (some acceptLine))]

/-- The session once its minute is over. -/
def minuteOver : Collector :=
  ((newTraceCollector "node" 0).run asciiSdk minuteStarts).step asciiSdk
    (.unix 60) (.tick true)

/-- The same, beside a session of fifteen minutes. -/
def besideOver : Collector :=
  ((newTraceCollector "node" 0).run asciiSdk
    [(1, .config { minuteConfig with sessions := [oneMinute, wholeNode] } openNode),
      (2, .entry (some acceptLine))]).step asciiSdk (.unix 60) (.tick true)

theorem expired_session_silent_iff_sample :
    let post := [(Clock.unix 61, Input.entry (some { acceptLine with logID := 8 }))]
    ((besideOver.run asciiSdk post).lines.map fun line => (line.logID, line.sessionID)) =
        [(7, "minute"), (7, "whole"), (8, "whole")] ∧
      Along asciiSdk (unclaimed asciiSdk "minute") besideOver post ∧
      ∃ new, (besideOver.run asciiSdk post).lines = besideOver.lines ++ new ∧
        ((∀ line ∈ new, line.sessionID ≠ "minute") ↔
          Along asciiSdk (unclaimed asciiSdk "minute") besideOver post) :=
  ⟨by decide +kernel, by decide +kernel, expired_session_silent_iff rfl (by decide +kernel)
    (by decide +kernel) rfl (by simp [NotInstalled])⟩

/-- The session has ended, and the next line of the connection it took is still added for it. -/
theorem line_after_deadline :
    minuteOver.policy.sessions = [] ∧
      ∃ line ∈ ((minuteOver.run asciiSdk
          [(.unix 61, .entry (some identityLine))]).lines.drop
            minuteOver.lines.length), line.sessionID = "minute" := by
  decide +kernel

/-! ### Where an expiry leaves the collector -/

/-- The level of the `/logs` subscription, where there is one. -/
def subscription (c : Collector) : Option String :=
  if c.streamCancel then some c.haveLevel else none

/-- The two run a pipeline or not alike, and are subscribed alike. -/
def Agree (c c' : Collector) : Prop :=
  c.pipeline.isSome = c'.pipeline.isSome ∧ c.subscription = c'.subscription

instance (c c' : Collector) : Decidable (c.Agree c') := inferInstanceAs (Decidable (_ ∧ _))

theorem expire_rebuilds {now : Time} (hmem : sess ∈ c.policy.sessions)
    (hgone : sess ∉ (c.expireSessionsLocally sdk now).policy.sessions) :
    (c.policy.expiresNext.isZero || decide (now + c.serverSkew < c.policy.expiresNext)) = false := by
  by_contra hearly
  rw [Bool.not_eq_false] at hearly
  rw [expire_policy, if_pos hearly] at hgone
  exact hgone hmem

theorem expire_level (h : c.Subscribed) (hup : c.pipeline.isSome) {now : Time}
    (hlate : (c.policy.expiresNext.isZero ||
      decide (now + c.serverSkew < c.policy.expiresNext)) = false) :
    (c.expireSessionsLocally sdk now).pipeline.isSome ∧
      (c.expireSessionsLocally sdk now).subscription =
        some ((c.expireSessionsLocally sdk now).policy.subscribeLevel sdk) := by
  have hopen := h hup
  unfold expireSessionsLocally
  simp only [hlate, Bool.false_eq_true, if_false]
  split
  · simp [restartStream, subscription, hup]
  · rename_i hsame
    rw [not_not] at hsame
    simp [subscription, hup, hopen, hsame]

/-- A config that reaches the running pipeline's address leaves it running at the policy's
level if the policy collects anything, and takes it down if not. -/
theorem applyConfig_level (h : c.Subscribed) {p : Pipeline} (hp : c.pipeline = some p)
    {cfg : TraceAgentConfig} {node : NodeView} {source : AddrSource}
    (haddr : c.resolveAddr sdk cfg.policy node = .ok (p.addr, source)) (now : Time) :
    ((c.applyConfig sdk cfg node now).pipeline.isSome = (build sdk cfg now).enabled) ∧
      ((build sdk cfg now).enabled →
        (c.applyConfig sdk cfg node now).subscription =
          some ((build sdk cfg now).subscribeLevel sdk)) := by
  have hpol : (c.install sdk cfg now).policy = build sdk cfg now := rfl
  unfold applyConfig
  dsimp only
  rw [hpol]
  cases henabled : (build sdk cfg now).enabled with
  | false => exact ⟨rfl, fun h => absurd h Bool.false_ne_true⟩
  | true =>
    have haddr' : (c.install sdk cfg now).resolveAddr sdk cfg.policy node =
        .ok (p.addr, source) := haddr
    have hup : c.pipeline.isSome := by rw [hp]; rfl
    let noted := (c.install sdk cfg now).noteDiscovery sdk "" now
    have hpipe : noted.pipeline =
        some { p with guard := p.guard.setBudget (effectiveBudget cfg.policy.budgetLinesPerSec) } := by
      change (c.pipeline.map fun p =>
        { p with guard := p.guard.setBudget (effectiveBudget cfg.policy.budgetLinesPerSec) }) = _
      rw [hp]
      rfl
    have hstays : noted.leave p.addr = noted := by
      unfold leave
      rw [hpipe]
      simp
    obtain ⟨p', hp', -, -, hlevel⟩ := keepUp_kept sdk hpipe p.addr source node
    have hkeep := hlevel (h hup)
    simp only [Bool.not_true, Bool.false_eq_true, if_false, haddr']
    change (noted.reach sdk p.addr source node now).pipeline.isSome = true ∧ (_ →
      (noted.reach sdk p.addr source node now).subscription = _)
    unfold reach
    rw [hstays]
    simp only [hpipe]
    refine ⟨congrArg Option.isSome hp', fun _ => ?_⟩
    rw [subscription, hkeep.1, hkeep.2, (keepUp_books sdk noted p.addr source node).policy]
    rfl

/-- **An expiry leaves the collector where a config with the sessions left puts it exactly when**
that config collects anything, and at the same level. While the sessions left are running by
the agent's clock too, that is: exactly when the floor is on or a session is left. An expiry
never takes a pipeline down. -/
theorem expiry_agrees_with_config_iff {sdk : Sdk} {nodeID : String} {start : Time}
    {inputs : List (Clock × Input)} {c : Collector} {p : Pipeline} {now : Time}
    {sess : TraceAgentSession} {left : PolicySet} {cfg : TraceAgentConfig} {node : NodeView}
    {source : AddrSource} (hc : c = (newTraceCollector nodeID start).run sdk inputs)
    (hp : c.pipeline = some p) (hmem : sess ∈ c.policy.sessions)
    (hleft : left = (c.expireSessionsLocally sdk now).policy) (hgone : sess ∉ left.sessions)
    (henabled : cfg.policy.enabled = c.policy.nodeEnabled)
    (hlevel : normalizeLevel sdk cfg.policy.level = c.policy.nodeLevel)
    (haddr : c.resolveAddr sdk cfg.policy node = .ok (p.addr, source))
    (hsessions : cfg.sessions = left.sessions) (later : Clock) :
    ((c.expireSessionsLocally sdk now).Agree (c.applyConfig sdk cfg node later) ↔
      (build sdk cfg later).enabled = true ∧
        (build sdk cfg later).subscribeLevel sdk = left.subscribeLevel sdk) ∧
    ((∀ sess ∈ left.sessions, later < sess.expiresAt) →
      ((c.expireSessionsLocally sdk now).Agree (c.applyConfig sdk cfg node later) ↔
        left.enabled = true)) := by
  have hsound : c.Sound sdk := by
    rw [hc]
    exact (sound_new sdk nodeID start).run inputs
  have hlate := expire_rebuilds hmem (hleft ▸ hgone)
  obtain ⟨hup, hat⟩ := @expire_level sdk c hsound.subscribed (by rw [hp]; rfl) now hlate
  obtain ⟨hup', hat'⟩ := applyConfig_level hsound.subscribed hp haddr later
  have hiff : (c.expireSessionsLocally sdk now).Agree (c.applyConfig sdk cfg node later) ↔
      (build sdk cfg later).enabled = true ∧
        (build sdk cfg later).subscribeLevel sdk = left.subscribeLevel sdk := by
    rw [Agree, hup, hup', hat, ← hleft]
    constructor
    · rintro ⟨hen, hsub⟩
      rw [hat' hen.symm] at hsub
      exact ⟨hen.symm, (Option.some.inj hsub).symm⟩
    · rintro ⟨hen, hsub⟩
      exact ⟨hen.symm, by rw [hat' hen, hsub]⟩
  refine ⟨hiff, fun halive => ?_⟩
  have hfloor := floor_policy sdk henabled.symm hlevel.symm
  have hbuilt : left = build sdk
      { policy := c.policy.policy, sessions := c.policy.sessions } (now + c.serverSkew) := by
    rw [hleft, expire_policy, hlate]
    rfl
  have hagain : build sdk cfg later = left := by
    have := build_left hsound.built.normal hsound.built.sorted hbuilt hfloor halive
    rwa [← hsessions] at this
  rw [hiff, hagain]
  exact and_iff_left rfl

/-- The collector of a session of one minute and one of fifteen. -/
def twoSessions : Collector :=
  (newTraceCollector "node" 0).run asciiSdk
    [(1, .config { minuteConfig with sessions := [oneMinute, wholeNode] } openNode)]

theorem expiry_agrees_with_config_iff_sample :
    (twoSessions.expireSessionsLocally asciiSdk (Clock.unix 60)).Agree
      (twoSessions.applyConfig asciiSdk { minuteConfig with sessions := [wholeNode] } openNode
        (Clock.unix 60)) := by
  have haddr : twoSessions.pipeline.map (·.addr) = some "127.0.0.1:9090" := by decide +kernel
  obtain ⟨p, hp, haddr⟩ := Option.map_eq_some_iff.mp haddr
  have h := @expiry_agrees_with_config_iff asciiSdk "node" 0 _ twoSessions p (Clock.unix 60)
    oneMinute _ { minuteConfig with sessions := [wholeNode] } openNode .policy rfl hp
    (by decide +kernel) rfl (by decide +kernel) (by decide +kernel) (by decide +kernel)
    (by rw [haddr]; rfl) (by decide +kernel) (.unix 60)
  exact (h.2 (by decide +kernel)).mpr (by decide +kernel)

/-- The last session ends with the floor off: the pipeline stays, where a config without the
session takes it down. -/
theorem last_expiry_keeps_collecting :
    let c := (newTraceCollector "node" 0).run asciiSdk minuteStarts
    let left := c.expireSessionsLocally asciiSdk (Clock.unix 60)
    left.policy.enabled = false ∧ left.pipeline.isSome = true ∧
      left.subscription = some "info" ∧
      (c.applyConfig asciiSdk { minuteConfig with sessions := [] } openNode
        (Clock.unix 60)).pipeline.isSome = false := by
  decide +kernel

/-! ### Which clock decides -/

/-- A session of a config that is not malformed: it has an id and a deadline. -/
def Valid (sdk : Sdk) (cfg : TraceAgentConfig) (sess : TraceAgentSession) : Prop :=
  (∃ raw ∈ cfg.sessions, normalizeSession sdk raw = some sess) ∧ sess.expiresAt.isZero = false

/-- The sessions of the policy are exactly the valid ones with a deadline after `t`. -/
def RunsAt (sdk : Sdk) (cfg : TraceAgentConfig) (t : Time) (policy : PolicySet) : Prop :=
  ∀ sess, sess ∈ policy.sessions ↔ Valid sdk cfg sess ∧ t < sess.expiresAt

theorem config_runs (sdk : Sdk) (c : Collector) (now : Clock) (cfg : TraceAgentConfig)
    (node : NodeView) : RunsAt sdk cfg now (c.step sdk now (.config cfg node)).policy := by
  intro sess
  rw [config_policy, mem_build, Valid]
  refine ⟨fun ⟨hraw, ht⟩ => ⟨⟨hraw, ?_⟩, ht⟩, fun ⟨⟨hraw, _⟩, ht⟩ => ⟨hraw, ht⟩⟩
  have := now.2
  simp only [Time.isZero, beq_eq_false_iff_ne]
  lia

/-- The sessions of a running pipeline, after steps without a config: those at the start that
have outlived every tick. -/
theorem mem_run (h : c.policy.Built sdk) (hup : c.pipeline.isSome) {inputs : List (Clock × Input)}
    (hfixed : ∀ i ∈ inputs, ∀ cfg node, i.2 ≠ .config cfg node) (sess : TraceAgentSession) :
    sess ∈ (c.run sdk inputs).policy.sessions ↔ sess ∈ c.policy.sessions ∧
      ∀ t taken, (t, .tick taken) ∈ inputs → t + c.serverSkew < sess.expiresAt := by
  induction inputs generalizing c with
  | nil => simp [run]
  | cons i inputs ih =>
    have hi := hfixed i mem_cons_self
    obtain ⟨hup', hskew⟩ := @step_up sdk c i.1 i.2 hi hup
    have hrest := ih (step_built h i.1 i.2) hup' fun j hj => hfixed j (mem_cons_of_mem _ hj)
    rw [hskew] at hrest
    refine hrest.trans ?_
    rcases @step_policy sdk c i.1 i.2 hi with ⟨hpol, hidle⟩ | ⟨⟨taken, htick⟩, -, hpol⟩
    · rw [hpol]
      refine and_congr_right fun _ => ⟨fun hall t taken hmem => ?_, fun hall t taken hmem =>
        hall t taken (mem_cons_of_mem _ hmem)⟩
      rcases mem_cons.mp hmem with rfl | hmem
      · exact absurd (hup.symm.trans (hidle taken rfl)) Bool.true_eq_false_eq_False
      · exact hall t taken hmem
    · rw [hpol, mem_expire h, and_assoc]
      refine and_congr_right fun _ => ⟨?_, fun hall =>
        ⟨hall i.1 taken (by rw [← htick]; exact mem_cons_self), fun t taken' hmem =>
          hall t taken' (mem_cons_of_mem _ hmem)⟩⟩
      rintro ⟨hthis, hall⟩ t taken' hmem
      rcases mem_cons.mp hmem with rfl | hmem
      · exact hthis
      · exact hall t taken' hmem

/-- **The server's clock decides which sessions run exactly when** no valid deadline lies
between the agent's clock and the server's time at the config, and no session that should run
at a tick was already cut by the config or by an earlier tick. The config is cut by the
agent's clock, the ticks by the server's. -/
theorem server_clock_decides_iff {sdk : Sdk} {c c' : Collector} {cfg : TraceAgentConfig}
    {node : NodeView} {now : Clock} {post : List (Clock × Input)}
    (hserver : cfg.serverTime.isZero = false) (hc' : c' = c.step sdk now (.config cfg node))
    (hpost : ∀ i ∈ post, ∀ cfg node, i.2 ≠ .config cfg node) :
    c'.serverSkew = cfg.serverTime.sub now ∧
    ((RunsAt sdk cfg cfg.serverTime c'.policy ∧
        ∀ (pre rest : List (Clock × Input)) (t : Clock) (taken : Bool),
          post = pre ++ (t, .tick taken) :: rest → c'.pipeline.isSome = true →
          RunsAt sdk cfg (t + c'.serverSkew) (c'.run sdk (pre ++ [(t, .tick taken)])).policy) ↔
      (∀ sess, Valid sdk cfg sess → (now < sess.expiresAt ↔ cfg.serverTime < sess.expiresAt)) ∧
        ∀ (pre rest : List (Clock × Input)) (t : Clock) (taken : Bool),
          post = pre ++ (t, .tick taken) :: rest → c'.pipeline.isSome = true →
          ∀ sess, Valid sdk cfg sess → t + c'.serverSkew < sess.expiresAt →
            now < sess.expiresAt ∧ ∀ (t' : Clock) taken', (t', .tick taken') ∈ pre →
              t' + c'.serverSkew < sess.expiresAt) := by
  have hruns : RunsAt sdk cfg now c'.policy := hc' ▸ config_runs sdk c now cfg node
  have hbuilt : c'.policy.Built sdk := by
    rw [hc', config_policy]
    exact build_built sdk fun _ _ => .inr now.2.le
  have hskew : c'.serverSkew = cfg.serverTime.sub now := by
    rw [hc']
    rw [step, (c.applyConfig_books sdk cfg node now).eq]
    simp [install, setBudget, setRawSource, hserver]
  refine ⟨hskew, and_congr ?_ ?_⟩
  · refine forall_congr' fun sess => ?_
    rw [hruns sess, and_congr_right_iff]
  · refine forall₄_congr fun pre rest t taken => forall_congr' fun heq =>
      forall_congr' fun hup => forall_congr' fun sess => ?_
    have hmem := @mem_run sdk c' hbuilt hup (pre ++ [(t, .tick taken)])
      (fun i hi => hpost i (by rw [heq]; simp at hi ⊢; tauto)) sess
    rw [hmem, hruns sess]
    constructor
    · intro hiff hvalid ht
      obtain ⟨⟨-, hnow⟩, hall⟩ := hiff.mpr ⟨hvalid, ht⟩
      exact ⟨hnow, fun t' taken' hpre => hall t' taken' (mem_append_left _ hpre)⟩
    · intro himp
      constructor
      · rintro ⟨⟨hvalid, -⟩, hall⟩
        exact ⟨hvalid, hall t taken (mem_append_right _ mem_cons_self)⟩
      · rintro ⟨hvalid, ht⟩
        obtain ⟨hnow, hpre⟩ := himp hvalid ht
        refine ⟨⟨hvalid, hnow⟩, fun t' taken' hin => ?_⟩
        rcases mem_append.mp hin with hin | hin
        · exact hpre t' taken' hin
        · cases mem_singleton.mp hin
          exact ht

/-- A config of one session, with the server's time. -/
def stampedConfig (server deadline : Clock) : TraceAgentConfig :=
  { minuteConfig with
    serverTime := server
    sessions := [{ oneMinute with expiresAt := deadline }] }

/-- A config read when the agent's clock shows `agent` and the server's `server`. -/
def clocksApart (agent server deadline : Clock) : Collector :=
  (newTraceCollector "node" 0).step asciiSdk agent (.config (stampedConfig server deadline) openNode)

theorem server_clock_decides_iff_sample :
    let cfg := stampedConfig 200 300
    let c' := clocksApart 100 200 300
    c'.serverSkew = 100 ∧ c'.policy.sessions.map (·.id) = ["minute"] ∧
      (∀ sess, Valid asciiSdk cfg sess →
        ((100 : Clock) < sess.expiresAt ↔ cfg.serverTime < sess.expiresAt)) ∧
      RunsAt asciiSdk cfg cfg.serverTime c'.policy ∧
      RunsAt asciiSdk cfg ((150 : Clock) + c'.serverSkew)
        (c'.run asciiSdk [(150, .tick true)]).policy := by
  intro cfg c'
  have hdeadline : ∀ sess, Valid asciiSdk cfg sess → sess.expiresAt = (300 : Clock) := by
    rintro sess ⟨⟨raw, hraw, hsess⟩, -⟩
    cases mem_singleton.mp hraw
    have hnorm : (normalizeSession asciiSdk { oneMinute with expiresAt := (300 : Clock) }).map
        (·.expiresAt) = some (300 : Clock).1 := by decide +kernel
    rw [hsess] at hnorm
    exact Option.some.inj hnorm
  obtain ⟨hskew, hiff⟩ := @server_clock_decides_iff asciiSdk (newTraceCollector "node" 0) c' cfg
    openNode 100 [(150, .tick true)] (by decide) rfl (by simp)
  have hsplit : ∀ sess, Valid asciiSdk cfg sess →
      ((100 : Clock) < sess.expiresAt ↔ cfg.serverTime < sess.expiresAt) := by
    intro sess hvalid
    rw [hdeadline sess hvalid]
    decide
  have hruns := hiff.mpr ⟨hsplit, fun pre rest t taken heq _ sess hvalid _ => by
    obtain ⟨rfl, -⟩ | ⟨pre, -, hnil⟩ := cons_eq_append_iff.mp heq
    · rw [hdeadline sess hvalid]
      exact ⟨by decide, nofun⟩
    · simp at hnil⟩
  exact ⟨by decide +kernel, by decide +kernel, hsplit, hruns.1,
    hruns.2 [] [] 150 true rfl (by decide +kernel)⟩

/-- The deadline is past by the server's clock and the session is installed, and the other way
round it is still ahead and the session is not. -/
theorem agent_clock_cuts_config :
    (clocksApart 100 200 150).policy.sessions.map (·.id) = ["minute"] ∧
      (clocksApart 200 100 150).policy.sessions.map (·.id) = [] := by
  decide +kernel

end Collector

end LatticeAgent.Trace
