import LatticeAgent.Prober.Icmp

/-! # Checks dial only judged addresses

Whatever a resolver answers, a run looks its target's name up at most once and reaches only
addresses that this lookup returned, or the target's own literal; and nothing is dialed when one of
them is refused, unless the control plane resolved a tcp or icmp target from a node
(`probe_reaches_judged`).

Every exchange of a run is a program that keeps `Reaches addrs start`: since the target was
resolved, the log has grown by events to the addresses only. -/

namespace LatticeAgent.Prober

open List CutProg CutProg.Prog

variable (pkg : Packages)

def Event.isLookup : Event → Bool
  | .lookup _ _ => true
  | .dial _ _ => false
  | .echo _ => false

/-- The event goes to an address. -/
def Event.To (a : Addr) : Event → Prop
  | .lookup _ _ => False
  | .dial _ address => ∃ port, address = joinHostPort (pkg.addrString a) port
  | .echo ip => ip = a.asSlice

/-- Since `start` the log has grown by events to some of `addrs` only. -/
def Reaches (addrs : List Addr) (start log : List Event) : Prop :=
  ∃ sent, log = start ++ sent ∧ ∀ e ∈ sent, ∃ a ∈ addrs, e.To pkg a

/-- However it ends, a program reaches only `addrs`. -/
abbrev Stays {α : Type} (addrs : List Addr) (start : List Event) (p : Run α) : Prop :=
  Keeps (fun _ => True) (Reaches pkg addrs start) (Reaches pkg addrs start) p

section Stays

variable {pkg} {addrs : List Addr} {start log : List Event}

theorem Reaches.refl : Reaches pkg addrs start start := ⟨[], (append_nil _).symm, by simp⟩

variable (r : DnsResolver) {a : Addr} {l : List Addr}

theorem Reaches.snoc (h : Reaches pkg addrs start log) {e : Event} (ha : a ∈ addrs)
    (he : e.To pkg a) : Reaches pkg addrs start (log ++ [e]) := by
  obtain ⟨sent, rfl, hsent⟩ := h
  refine ⟨sent ++ [e], append_assoc .., ?_⟩
  intro e' he'
  rcases mem_append.1 he' with hold | hnew
  · exact hsent e' hold
  · rw [mem_singleton.1 hnew]
    exact ⟨a, ha, he⟩

theorem keeps_ask {α : Type} {I : List Event → Prop} (call : Answer → Except Err α) :
    Keeps (fun _ => True) I I (ask call) := by
  intro log h
  refine wp_step h fun answer _ => ?_
  cases call answer with
  | ok | error => exact h

theorem dial_stays (ha : a ∈ addrs) (network port : Bytes) :
    Stays pkg addrs start (dial network (joinHostPort (pkg.addrString a) port)) := by
  intro log h
  refine wp_step h fun answer _ => ?_
  have hnext := h.snoc ha (e := .dial network (joinHostPort (pkg.addrString a) port)) ⟨port, rfl⟩
  cases hdial : answer.dial with
  | none | some => simpa [hdial] using hnext

theorem dialNext_stays (network port : Bytes) (hl : l ⊆ addrs) (firstErr : Option Err) :
    Stays pkg addrs start (dialNext pkg network port l firstErr) := by
  induction l generalizing firstErr with
  | nil => exact keeps_fail
  | cons addr l ih =>
    refine keeps_bind (keeps_attempt (dial_stays (hl (.head _)) network port)) fun r => ?_
    cases r with
    | ok conn => exact keeps_pure
    | error err =>
      refine keeps_bind (keeps_ask _) fun ended => keeps_ite (fun _ => keeps_fail) fun _ => ?_
      exact ih (subset_of_cons_subset hl) _

theorem dialJudged_stays (network port : Bytes) (hl : l ⊆ addrs) :
    Stays pkg addrs start (dialJudged pkg network l port) := dialNext_stays network port hl none

theorem httpTransport_stays (host address : Bytes) :
    Stays pkg addrs start (httpTransport pkg host addrs address) := by
  refine keeps_bind keeps_lift fun split => keeps_ite (fun _ => keeps_fail) fun _ => ?_
  exact dialJudged_stays _ _ (List.Subset.refl _)

theorem clientDo_stays {transport : Bytes → Run Conn}
    (h : ∀ address, Stays pkg addrs start (transport address)) :
    Stays pkg addrs start (clientDo transport) := by
  refine keeps_loop (fun _ h => h) (fun _ => keeps_bind (keeps_ask _) fun move => ?_) ()
  cases move with
  | dial address => exact keeps_bind (keeps_attempt (h address)) fun _ => keeps_pure
  | done result => exact keeps_bind keeps_lift fun _ => keeps_pure

/-! ### The exchanges of a dns check -/

theorem readAnswer_stays (conn : Conn) (id : UInt16) :
    Stays pkg addrs start (readAnswer pkg conn id) :=
  keeps_loop (fun _ h => h) (fun _ => keeps_bind (keeps_ask _) fun _ =>
    keeps_unless fun _ => keeps_pure) ()

theorem askUDP_stays (ha : a ∈ addrs) (port query : Bytes) (id : UInt16) :
    Stays pkg addrs start (askUDP pkg a port query id) := by
  refine keeps_bind (dialJudged_stays _ _ (by simpa using ha)) fun conn => ?_
  exact keeps_bind (keeps_ask _) fun _ => readAnswer_stays conn id

theorem readFull_stays (conn : Conn) (n : Nat) : Stays pkg addrs start (readFull conn n) :=
  keeps_bind (keeps_ask _) fun _ => keeps_ite (fun _ => keeps_fail) fun _ => keeps_pure

theorem dnsStreamExchange_stays (conn : Conn) (query : Bytes) :
    Stays pkg addrs start (dnsStreamExchange conn query) :=
  keeps_bind (keeps_ask _) fun _ => keeps_bind (readFull_stays conn 2) fun _ =>
    readFull_stays conn _

theorem exchangeTCP_stays (hl : l ⊆ addrs) (port query : Bytes) :
    Stays pkg addrs start (exchangeTCP pkg l port query) :=
  keeps_bind (dialJudged_stays _ _ hl) fun conn => dnsStreamExchange_stays conn query

theorem exchangeDoT_stays (query : Bytes) :
    Stays pkg addrs start (exchangeDoT pkg r addrs query) := by
  refine keeps_bind (keeps_attempt (dialJudged_stays _ _ (List.Subset.refl _))) fun conn => ?_
  cases conn with
  | error err => exact keeps_pure
  | ok conn =>
    refine keeps_bind (keeps_attempt (keeps_ask _)) fun chain => ?_
    cases chain with
    | error err =>
      exact keeps_bind (keeps_ask _) fun _ => keeps_unless fun _ => keeps_pure
    | ok chain =>
      exact keeps_bind (keeps_attempt (dnsStreamExchange_stays conn query)) fun _ => keeps_pure

theorem exchangeDoH_stays : Stays pkg addrs start (exchangeDoH pkg r addrs) := by
  unfold exchangeDoH
  cases pkg.newRequest r.url with
  | some err => exact keeps_pure
  | none =>
    refine keeps_bind (keeps_attempt (clientDo_stays (httpTransport_stays r.host))) fun resp => ?_
    cases resp with
    | ok resp => exact keeps_pure
    | error err =>
      dsimp only
      cases err.destination with
      | some msg => exact keeps_pure
      | none => exact keeps_unless fun _ => keeps_pure

/-- The address that answered over UDP is one of those that were asked. -/
theorem exchangeNext_spec (port query : Bytes) (id : UInt16) (hl : l ⊆ addrs)
    (firstErr : Option Err) (hlog : Reaches pkg addrs start log) :
    Leaves (fun _ => True) (exchangeNext pkg port query id l firstErr)
      (fun r log => r.2 ∈ addrs ∧ Reaches pkg addrs start log) (Reaches pkg addrs start) log := by
  induction l generalizing firstErr log with
  | nil => exact wp_fail hlog
  | cons addr l ih =>
    have haddr : addr ∈ addrs := hl (.head _)
    refine wp_then (keeps_attempt (askUDP_stays haddr port query id) log hlog) ?_
    intro r log hlog
    cases r with
    | ok raw => exact wp_pure ⟨haddr, hlog⟩
    | error err =>
      refine wp_then (keeps_ask _ log hlog) (fun ended log hlog => ?_)
      split_ifs
      · exact wp_fail hlog
      · exact ih (subset_of_cons_subset hl) _ hlog

theorem exchangeUDP_spec (port query : Bytes) (id : UInt16) (hlog : Reaches pkg addrs start log) :
    Leaves (fun _ => True) (attempt (exchangeUDP pkg addrs port query id))
      (fun out log => (∀ raw a, out = .ok (raw, a) → a ∈ addrs) ∧ Reaches pkg addrs start log)
      (Reaches pkg addrs start) log := by
  refine wp_attempt (wp_mono
    (exchangeNext_spec port query id (List.Subset.refl addrs) none hlog) ?_ ?_ fun _ h => h)
  · intro out log h
    refine ⟨fun raw a heq => ?_, h.2⟩
    cases heq
    exact h.1
  · intro err log h
    refine ⟨fun raw a heq => ?_, h⟩
    cases heq

/-- An answer that comes with an address comes from one of those that were asked. -/
theorem exchange_spec (query : Bytes) (id : UInt16) (hlog : Reaches pkg addrs start log) :
    Leaves (fun _ => True) (exchange pkg r addrs query id)
      (fun out log => (∀ raw a, out.2 = .ok (raw, some a) → a ∈ addrs) ∧
        Reaches pkg addrs start log) (Reaches pkg addrs start) log := by
  -- the other transports answer without an address
  have hnone : ∀ (raw : Except Err Bytes) bytes a,
      raw.map (·, (none : Option Addr)) = .ok (bytes, some a) → a ∈ addrs := by
    intro raw bytes a heq
    cases raw with
    | error | ok => cases heq
  unfold exchange
  cases r.transport with
  | doh =>
    refine wp_then (exchangeDoH_stays r log hlog) (fun out log hlog => ?_)
    exact wp_pure ⟨hnone out.2, hlog⟩
  | dot =>
    refine wp_then (exchangeDoT_stays r query log hlog) (fun out log hlog => ?_)
    exact wp_pure ⟨hnone out.2, hlog⟩
  | tcp =>
    refine wp_then (keeps_attempt (exchangeTCP_stays (List.Subset.refl _) _ query) log hlog)
      (fun out log hlog => ?_)
    exact wp_pure ⟨hnone out, hlog⟩
  | udp =>
    refine wp_then (exchangeUDP_spec _ query id hlog) (fun out log hlog => ?_)
    refine wp_pure ⟨fun bytes a heq => ?_, hlog.2⟩
    cases out with
    | error err => cases heq
    | ok out =>
      cases heq
      exact hlog.1 _ _ rfl

variable (q : DnsQuestion)

theorem retryTCP_stays (query : Bytes) (id : UInt16) (answer : DnsAnswer) {answeredBy : Option Addr}
    (h : ∀ a, answeredBy = some a → a ∈ addrs) :
    Stays pkg addrs start (retryTCP pkg r q query id answer answeredBy) := by
  have hasked : answeredBy.toList ⊆ addrs := fun a ha => h a (by simpa using ha)
  refine keeps_ite (fun _ => ?_) fun _ => keeps_pure
  exact keeps_bind (keeps_attempt (exchangeTCP_stays hasked _ query)) fun _ => keeps_pure

theorem dnsAnswerOf_stays (query : Bytes) (id : UInt16) :
    Stays pkg addrs start (dnsAnswerOf pkg r q addrs query id) := by
  intro log hlog
  refine wp_then (exchange_spec r query id hlog) (fun out log hlog => ?_)
  obtain ⟨cert, raw⟩ := out
  obtain ⟨hfrom, hlog⟩ := hlog
  cases raw with
  | error err => exact wp_pure hlog
  | ok raw =>
    dsimp only
    split
    · exact wp_pure hlog
    · have hasked : ∀ a, raw.2 = some a → a ∈ addrs := fun a ha => hfrom raw.1 a (by rw [← ha])
      exact keeps_bind (retryTCP_stays r q query id _ hasked) (fun _ => keeps_pure) log hlog

theorem dnsResult_stays (cert : Option Time) (answer : Except Err DnsAnswer) :
    Stays pkg addrs start (dnsResult pkg q cert answer) := by
  unfold dnsResult
  cases answer with
  | error err =>
    dsimp only
    cases err.destination with
    | some msg => exact keeps_pure
    | none => exact keeps_bind (keeps_ask _) fun _ => keeps_pure
  | ok answer =>
    dsimp only
    cases q.judge pkg answer <;> exact keeps_pure

theorem dnsQuery_stays (doh : Bool) : Stays pkg addrs start (dnsQuery pkg q doh) := by
  have hid : Stays pkg addrs start (dnsID doh) :=
    keeps_unless fun _ => keeps_bind (keeps_ask _) fun _ => keeps_pure
  refine keeps_bind hid fun id => ?_
  cases pkg.newName (q.name ++ utf8 ".") with
  | some err => exact keeps_fail
  | none => exact keeps_bind keeps_lift fun _ => keeps_pure

/-! ### Echoes -/

theorem writeTo_stays (ha : a ∈ addrs) (wire : Bytes) :
    Stays pkg addrs start (writeTo a.asSlice wire) := by
  intro log h
  refine wp_step h fun answer _ => ?_
  have hnext := h.snoc ha (e := .echo a.asSlice) rfl
  cases hwrite : answer.write with
  | none | some => simpa [hwrite] using hnext

theorem sendEcho_stays (ha : a ∈ addrs) (timeout : Duration) (st : EchoRun) (e : Echo) :
    Stays pkg addrs start (sendEcho pkg a timeout st e) := by
  unfold sendEcho
  split
  · exact keeps_pure
  · refine keeps_bind (keeps_ask _) fun sentAt => ?_
    refine keeps_bind (keeps_attempt (writeTo_stays ha _)) fun r => ?_
    cases r <;> exact keeps_pure

theorem readEcho_stays (a : Addr) (timeout : Duration) (deadline : Time) (st : EchoRun) :
    Stays pkg addrs start (readEcho pkg a timeout deadline st) := by
  refine keeps_bind (keeps_ask _) fun failed => ?_
  cases failed with
  | some err => exact keeps_pure
  | none =>
    refine keeps_bind (keeps_attempt (keeps_ask _)) fun read => ?_
    refine keeps_bind (keeps_ask _) fun recvAt => ?_
    cases read with
    | error err =>
      refine keeps_unless fun _ => keeps_unless fun _ => ?_
      exact keeps_bind (keeps_ask _) fun _ => keeps_unless fun _ => keeps_pure
    | ok datagram =>
      dsimp only
      split <;> exact keeps_pure

theorem echoRound_stays (ha : a ∈ addrs) (cfg : Config) (timeout : Duration) (begun : Time)
    (st : EchoRun) : Stays pkg addrs start (echoRound pkg cfg a timeout begun st) := by
  refine keeps_bind (keeps_ask _) fun ended => keeps_unless fun _ => ?_
  refine keeps_bind (keeps_ask _) fun now => ?_
  cases st.dueEcho cfg begun now with
  | some e => exact keeps_bind (sendEcho_stays ha timeout st e) fun _ => keeps_pure
  | none => exact keeps_unless fun _ => readEcho_stays a timeout _ st

theorem runEchoes_stays (ha : a ∈ addrs) (cfg : Config) (echoes : List Echo) (timeout : Duration) :
    Stays pkg addrs start (runEchoes pkg cfg a echoes timeout) :=
  keeps_bind (keeps_ask _) fun begun =>
    keeps_loop (fun _ h => h) (echoRound_stays ha cfg timeout begun) _

theorem newEchoes_stays (n : Nat) : Stays pkg addrs start (newEchoes n) := by
  induction n with
  | zero => exact keeps_pure
  | succ n ih =>
    refine keeps_bind (keeps_bind (keeps_ask _) fun _ => keeps_pure) fun e => ?_
    exact keeps_bind ih fun _ => keeps_pure

end Stays

/-! ### The target -/

/-- The host that a check resolves. -/
def targetHost (m : Monitor) : Option Bytes :=
  match m.type with
  | .tcp => (splitHostPort pkg m.target).toOption.map (·.1)
  | .http => (pkg.parse (pkg.trimSpace m.target)).bind fun u =>
    (asciiHost pkg (pkg.hostname u)).toOption
  | .dns => (pkg.parseDNSResolver m.target).toOption.map (·.host)
  | .icmp => some (icmpHost pkg m)
  | .other _ => none

/-- The name under which a host is looked up. -/
def NameOf (host : Option Bytes) (name : Bytes) : Prop :=
  ∃ h, host = some h ∧ asciiHost pkg (trimBrackets h) = .ok name

/-- At most one lookup, of the name of the host, and nothing else. -/
def Quiet (host : Option Bytes) (log : List Event) : Prop :=
  log = [] ∨ ∃ name found, NameOf pkg host name ∧ log = [.lookup name found]

/-- What `resolveTarget` returns, and the log it leaves: a literal is not looked up. -/
def Resolved (host : Bytes) (addrs : List Addr) (log : List Event) : Prop :=
  (∃ a, pkg.parseAddr (trimBrackets host) = some a ∧ log = [] ∧ addrs = [a.unmap]) ∨
    ∃ name found, pkg.parseAddr (trimBrackets host) = none ∧ NameOf pkg (some host) name ∧
      log = [.lookup name (.ok found)] ∧ addrs = found.map Addr.unmap

theorem lookupTarget_spec (host : Bytes) :
    Leaves (fun _ => True) (lookupTarget pkg (trimBrackets host))
      (fun addrs => Resolved pkg host (addrs.map Addr.unmap)) (Quiet pkg (some host)) [] := by
  unfold lookupTarget
  cases hparse : pkg.parseAddr (trimBrackets host) with
  | some a => exact wp_pure (.inl ⟨a, hparse, rfl, rfl⟩)
  | none =>
    refine wp_bind (wp_lift (fun name hname => ?_) fun _ _ => .inl rfl)
    have hname : NameOf pkg (some host) name := ⟨host, rfl, hname⟩
    refine wp_bind (wp_step (.inl rfl) fun answer _ => ?_)
    cases answer.lookup with
    | error err => exact .inr ⟨name, .error err, hname, rfl⟩
    | ok found =>
      show wp _ _ _ _ _ _
      split_ifs
      · exact wp_fail (.inr ⟨name, .ok found, hname, rfl⟩)
      · exact wp_pure (.inr ⟨name, found, hparse, hname, rfl, rfl⟩)

variable {addrs : List Addr} {log : List Event}

theorem Resolved.quiet {pkg : Packages} {host : Bytes} (h : Resolved pkg host addrs log) :
    Quiet pkg (some host) log := by
  rcases h with ⟨a, -, rfl, -⟩ | ⟨name, found, -, hname, rfl, -⟩
  · exact .inl rfl
  · exact .inr ⟨name, .ok found, hname, rfl⟩

theorem resolveTarget_spec (host : Bytes) (nodeTarget : Bool) :
    Leaves (fun _ => True) (resolveTarget pkg host nodeTarget)
      (fun addrs log => Resolved pkg host addrs log ∧
        (nodeTarget = false → ∀ a ∈ addrs, pkg.monitorDestinationRefused a = false))
      (Quiet pkg (some host)) [] := by
  refine wp_then (lookupTarget_spec pkg host) (fun addrs log h => ?_)
  dsimp only
  split_ifs with hnode
  · exact wp_pure ⟨h, fun hfalse => absurd hnode (by simp [hfalse])⟩
  · split
    · exact wp_fail h.quiet
    · rename_i hfind
      refine wp_pure ⟨h, fun _ a ha => ?_⟩
      simpa using find?_eq_none.1 hfind a ha

/-! ### Whole runs -/

/-- The control plane resolved the target from a node. -/
def NodeTarget (m : Monitor) : Prop := (m.type = .tcp ∨ m.type = .icmp) ∧ m.targetNode ≠ []

/-- The target is resolved and judged. -/
structure Known (m : Monitor) (addrs : List Addr) (log : List Event) : Prop where
  resolved : ∃ host, targetHost pkg m = some host ∧ Resolved pkg host addrs log
  judged : ¬ NodeTarget m → ∀ a ∈ addrs, pkg.monitorDestinationRefused a = false

/-- All a run has done is look its target up, or reach addresses of its target since. -/
def Safe (m : Monitor) (log : List Event) : Prop :=
  Quiet pkg (targetHost pkg m) log ∨
    ∃ addrs start, Known pkg m addrs start ∧ Reaches pkg addrs start log

/-- A program that starts a run. -/
abbrev SafeRun {α : Type} (m : Monitor) (p : Run α) : Prop :=
  wp (fun _ => True) p (fun _ => Safe pkg m) (fun _ => Safe pkg m) (Safe pkg m) []

section Runs

variable {pkg} {m : Monitor}

theorem resolveTarget_known {host : Bytes} {node : Bool} (hhost : targetHost pkg m = some host)
    (hnode : ¬ NodeTarget m → node = false) :
    Leaves (fun _ => True) (resolveTarget pkg host node) (Known pkg m)
      (Quiet pkg (targetHost pkg m)) [] := by
  rw [hhost]
  exact wp_weaken (resolveTarget_spec pkg host node)
    (fun _ _ h => ⟨⟨host, hhost, h.1⟩, fun hm => h.2 (hnode hm)⟩)

theorem Known.quiet (h : Known pkg m addrs log) : Quiet pkg (targetHost pkg m) log := by
  obtain ⟨host, hhost, h⟩ := h.resolved
  rw [hhost]
  exact h.quiet

theorem Known.safe {α : Type} {p : Run α} (h : Known pkg m addrs log)
    (hp : ∀ start, Stays pkg addrs start p) :
    Leaves (fun _ => True) p (fun _ => Safe pkg m) (Safe pkg m) log := by
  have hsafe : ∀ log', Reaches pkg addrs log log' → Safe pkg m log' :=
    fun log' hlog' => .inr ⟨addrs, log, h, hlog'⟩
  exact wp_mono (hp log log .refl) (fun _ => hsafe) (fun _ => hsafe) hsafe

theorem attempt_known {α : Type} {p : Run α} {Q : α → List Event → Prop}
    (h : Leaves (fun _ => True) p Q (Quiet pkg (targetHost pkg m)) []) :
    Leaves (fun _ => True) (attempt p)
      (fun r log => match r with
        | .ok a => Q a log
        | .error _ => Safe pkg m log)
      (Safe pkg m) [] :=
  wp_attempt (wp_mono h (fun _ _ h => h) (fun _ _ => .inl) fun _ => .inl)

theorem safe_nil : Safe pkg m [] := .inl (.inl rfl)

theorem probeTCP_safe (htype : m.type = .tcp) : SafeRun pkg m (probeTCP pkg m) := by
  refine wp_bind (wp_lift (fun target htarget => ?_) fun _ _ => safe_nil)
  have hhost : targetHost pkg m = some target.1 := by
    simp [targetHost, htype, htarget, Except.toOption]
  have hnode : ¬ NodeTarget m → decide (m.targetNode ≠ []) = false := by
    intro hm
    simpa [NodeTarget, htype] using hm
  refine wp_seq (resolveTarget_known hhost hnode) (fun addrs log h => h.safe fun start => ?_)
    (fun _ _ => .inl) fun _ => .inl
  exact keeps_bind (dialJudged_stays _ _ (List.Subset.refl _)) fun _ => keeps_ask _

theorem probeHTTP_safe (htype : m.type = .http) : SafeRun pkg m (probeHTTP pkg m) := by
  unfold probeHTTP
  cases hparse : pkg.parse (pkg.trimSpace m.target) with
  | none => exact wp_fail safe_nil
  | some u =>
    dsimp only
    split
    · exact wp_fail safe_nil
    refine wp_bind (wp_lift (fun expect _ => ?_) fun _ _ => safe_nil)
    refine wp_bind (wp_lift (fun header _ => ?_) fun _ _ => safe_nil)
    refine wp_bind (wp_lift (fun host hhost => ?_) fun _ _ => safe_nil)
    have htarget : targetHost pkg m = some host := by
      simp [targetHost, htype, hparse, hhost, Except.toOption]
    refine wp_seq (resolveTarget_known htarget fun _ => rfl)
      (fun addrs log h => h.safe fun start => ?_) (fun _ _ => .inl) fun _ => .inl
    refine keeps_ite (fun _ => keeps_fail) fun _ => ?_
    refine keeps_bind (keeps_attempt (clientDo_stays (httpTransport_stays host))) fun r => ?_
    cases r with
    | ok resp => exact keeps_unless fun _ => keeps_fail
    | error err =>
      dsimp only
      cases err.destination <;> exact keeps_fail

theorem runDNS_safe (htype : m.type = .dns) : SafeRun pkg m (runDNS pkg m) := by
  unfold runDNS
  cases hparse : pkg.parseDNSResolver m.target with
  | error err => exact wp_pure safe_nil
  | ok resolver =>
    dsimp only
    cases dnsQuestionOf pkg m with
    | error err => exact wp_pure safe_nil
    | ok q =>
      have htarget : targetHost pkg m = some resolver.host := by
        simp [targetHost, htype, hparse, Except.toOption]
      refine wp_then (attempt_known (resolveTarget_known htarget fun _ => rfl)) ?_
      intro r log h
      cases r with
      | error err =>
        dsimp only
        cases err.destination <;> exact wp_pure h
      | ok addrs =>
        refine h.safe fun start => ?_
        refine keeps_bind (keeps_attempt (dnsQuery_stays q _)) fun query => ?_
        cases query with
        | error err => exact keeps_pure
        | ok query =>
          refine keeps_bind (dnsAnswerOf_stays resolver q query.1 query.2) fun out => ?_
          exact dnsResult_stays q out.1 out.2

theorem probeDNS_safe (htype : m.type = .dns) : SafeRun pkg m (probeDNS pkg m) :=
  wp_then (runDNS_safe htype) (fun _ _ h => wp_pure h)

theorem icmpTarget_known (htype : m.type = .icmp) :
    Leaves (fun _ => True) (icmpTarget pkg m)
      (fun a log => ∃ addrs, a ∈ addrs ∧ Known pkg m addrs log)
      (Quiet pkg (targetHost pkg m)) [] := by
  have htarget : targetHost pkg m = some (icmpHost pkg m) := by simp [targetHost, htype]
  have hnode : ¬ NodeTarget m → decide (m.targetNode ≠ []) = false := by
    intro hm
    simpa [NodeTarget, htype] using hm
  unfold icmpTarget
  dsimp only
  split
  · exact wp_fail (.inl rfl)
  · refine wp_then (resolveTarget_known htarget hnode) (fun addrs log h => ?_)
    cases hfind : addrs.find? Addr.is4 with
    | some a => exact wp_pure ⟨addrs, mem_of_find?_eq_some hfind, h⟩
    | none => exact wp_fail h.quiet

theorem probeICMP_safe (htype : m.type = .icmp) (cfg : Config) :
    SafeRun pkg m (probeICMP pkg cfg m) := by
  refine wp_then (attempt_known (icmpTarget_known htype)) ?_
  intro r log h
  cases r with
  | error err => exact wp_pure h
  | ok a =>
    obtain ⟨addrs, ha, h⟩ := h
    refine h.safe fun start => keeps_bind (keeps_ask _) fun failed => ?_
    cases failed with
    | some err => exact keeps_unless fun _ => keeps_pure
    | none =>
      refine keeps_bind (keeps_attempt (newEchoes_stays _)) fun echoes => ?_
      cases echoes with
      | error err => exact keeps_pure
      | ok echoes =>
        exact keeps_bind (runEchoes_stays ha cfg echoes _) fun _ => keeps_pure

theorem checkResult_safe {check : Run Unit} (h : SafeRun pkg m check) :
    SafeRun pkg m (checkResult check) := by
  refine wp_then (wp_attempt (Q := fun _ => Safe pkg m) h) (fun r log hlog => ?_)
  cases r with
  | ok _ => exact wp_pure hlog
  | error err =>
    dsimp only
    cases err.destination <;> exact wp_pure hlog

theorem probeKind_safe (cfg : Config) (m : Monitor) : SafeRun pkg m (probeKind pkg cfg m) := by
  unfold probeKind
  cases htype : m.type with
  | tcp => exact checkResult_safe (probeTCP_safe htype)
  | http => exact checkResult_safe (probeHTTP_safe htype)
  | icmp => exact probeICMP_safe htype cfg
  | dns => exact probeDNS_safe htype
  | other text => exact wp_pure safe_nil

theorem probe_safe (cfg : Config) (m : Monitor) : SafeRun pkg m (probe pkg cfg m) :=
  wp_then (probeKind_safe cfg m) (fun _ _ h => wp_pure h)

end Runs

/-! ### What a run reaches -/

/-- The addresses of a target: those that the run's lookup returned, or the target's own literal,
with IPv4-mapped addresses unmapped. -/
inductive TargetAddr (m : Monitor) (log : List Event) : Addr → Prop
  | found {name : Bytes} {found : List Addr} {a : Addr} : NameOf pkg (targetHost pkg m) name →
      .lookup name (.ok found) ∈ log → a ∈ found → TargetAddr m log a.unmap
  | literal {host : Bytes} {a : Addr} :
      targetHost pkg m = some host → pkg.parseAddr (trimBrackets host) = some a →
        TargetAddr m log a.unmap

section Reached

variable {pkg} {m : Monitor} {addrs : List Addr} {start log : List Event}

theorem Quiet.isLookup {host : Option Bytes} (h : Quiet pkg host log) :
    ∀ e ∈ log, ∃ name found, NameOf pkg host name ∧ e = .lookup name found := by
  rcases h with rfl | ⟨name, found, hname, rfl⟩
  · simp
  · exact fun e he => ⟨name, found, hname, mem_singleton.1 he⟩

theorem Quiet.countP_le {host : Option Bytes} (h : Quiet pkg host log) :
    log.countP Event.isLookup ≤ 1 := by
  rcases h with rfl | ⟨name, found, -, rfl⟩ <;> simp [Event.isLookup]

theorem Event.To.not_isLookup {e : Event} {a : Addr} (h : e.To pkg a) : e.isLookup = false := by
  cases e with
  | lookup name found => exact h.elim
  | dial | echo => rfl

section

variable (h : Reaches pkg addrs start log)

include h

theorem Reaches.countP_eq : log.countP Event.isLookup = start.countP Event.isLookup := by
  obtain ⟨sent, rfl, hsent⟩ := h
  have hnone : sent.countP Event.isLookup = 0 := by
    rw [countP_eq_zero]
    intro e he
    obtain ⟨a, -, hto⟩ := hsent e he
    simp [hto.not_isLookup]
  rw [countP_append, hnone, Nat.add_zero]

theorem Reaches.to {host : Option Bytes} (hstart : Quiet pkg host start) {e : Event} (he : e ∈ log) :
    (∃ name found, NameOf pkg host name ∧ e = .lookup name found) ∨ ∃ a ∈ addrs, e.To pkg a := by
  obtain ⟨sent, rfl, hsent⟩ := h
  rcases mem_append.1 he with hold | hnew
  · exact .inl (hstart.isLookup e hold)
  · exact .inr (hsent e hnew)

theorem Reaches.mem_lookup {name : Bytes} {found : Except Err (List Addr)} :
    .lookup name found ∈ log ↔ .lookup name found ∈ start := by
  obtain ⟨sent, rfl, hsent⟩ := h
  have hnone : .lookup name found ∉ sent := by
    intro hmem
    obtain ⟨a, -, hto⟩ := hsent _ hmem
    exact hto
  simp [hnone]

end

theorem Known.mem_iff (h : Known pkg m addrs start) (hlog : Reaches pkg addrs start log) {a : Addr} :
    a ∈ addrs ↔ TargetAddr pkg m log a := by
  obtain ⟨host, hhost, h⟩ := h.resolved
  constructor
  · intro ha
    rcases h with ⟨b, hparse, -, rfl⟩ | ⟨name, found, -, hname, rfl, rfl⟩
    · rw [mem_singleton.1 ha]
      exact .literal hhost hparse
    · obtain ⟨b, hb, rfl⟩ := mem_map.1 ha
      exact .found (hhost ▸ hname) (hlog.mem_lookup.2 (.head _)) hb
  · rintro (⟨-, hmem, hb⟩ | ⟨hhost', hparse⟩)
    · rcases h with ⟨b, -, rfl, -⟩ | ⟨name, found, -, -, rfl, rfl⟩
      · cases hlog.mem_lookup.1 hmem
      · have heq := mem_singleton.1 (hlog.mem_lookup.1 hmem)
        cases heq
        exact mem_map_of_mem hb
    · cases hhost.symm.trans hhost'
      rcases h with ⟨b, hparse', -, rfl⟩ | ⟨name, found, hparse', -⟩
      · cases hparse.symm.trans hparse'
        exact .head _
      · cases hparse.symm.trans hparse'

end Reached

/-- **Checks reach only judged addresses.**  Whatever the resolver and the network answer, and
wherever the run is cut: there is at most one lookup; every event is a lookup of the name of the
target's host, or goes to one of the target's addresses; and when one of those is refused, nothing
is dialed or sent, unless the target was resolved from a node. -/
theorem probe_reaches_judged (cfg : Config) (m : Monitor) (script : List Answer) :
    let log := (probe pkg cfg m).after script []
    log.countP Event.isLookup ≤ 1 ∧
      (∀ e ∈ log, (∃ name found, NameOf pkg (targetHost pkg m) name ∧ e = .lookup name found) ∨
        ∃ a, TargetAddr pkg m log a ∧ e.To pkg a) ∧
      (¬ NodeTarget m → ∀ a, TargetAddr pkg m log a → pkg.monitorDestinationRefused a = true →
        ∀ e ∈ log, e.isLookup = true) := by
  intro log
  have hsafe : Safe pkg m log :=
    wp_after (probe_safe cfg m) (fun _ _ => trivial) (fun _ _ h => h) (fun _ _ h => h) fun _ h => h
  rcases hsafe with hquiet | ⟨addrs, start, hknown, hreaches⟩
  · refine ⟨hquiet.countP_le, fun e he => .inl (hquiet.isLookup e he), fun _ _ _ _ e he => ?_⟩
    obtain ⟨name, found, -, rfl⟩ := hquiet.isLookup e he
    rfl
  · refine ⟨?_, fun e he => ?_, fun hm a ha hrefused => ?_⟩
    · rw [hreaches.countP_eq]
      exact hknown.quiet.countP_le
    · rcases hreaches.to hknown.quiet he with hlookup | ⟨a, ha, hto⟩
      · exact .inl hlookup
      · exact .inr ⟨a, (hknown.mem_iff hreaches).1 ha, hto⟩
    · have hjudged := hknown.judged hm a ((hknown.mem_iff hreaches).2 ha)
      rw [hrefused] at hjudged
      cases hjudged

/-- A target `host:80` whose name is looked up. -/
def namedPackages : Packages :=
  { (default : Packages) with
    splitHostPort := fun _ => .ok (utf8 "host", utf8 "80")
    parseUint16 := fun _ => some 80
    addrString := fun
      | .v4 _ => utf8 "192.0.2.1"
      | .v6 _ _ => utf8 "2001:db8::1" }

def namedMonitor : Monitor where
  type := .tcp
  target := utf8 "host:80"

/-- The name resolves to an IPv4-mapped address, and the dial succeeds. -/
def mappedScript : List Answer :=
  [{ (default : Answer) with lookup := .ok [.v6 0xffffc0000201#128 []] }, default,
    { (default : Answer) with close := none }]

/-- The host's name is looked up, and the mapped address is dialed as the IPv4 address it stands
for. -/
theorem probe_reaches_judged_mapped :
    let log := (probe namedPackages { spacing := 0 } namedMonitor).after mappedScript []
    NameOf namedPackages (targetHost namedPackages namedMonitor) (utf8 "host") ∧
      log = [.lookup (utf8 "host") (.ok [.v6 0xffffc0000201#128 []]),
        .dial (utf8 "tcp") (utf8 "192.0.2.1:80")] ∧
      ∃ a, TargetAddr namedPackages namedMonitor log a ∧
        (Event.dial (utf8 "tcp") (utf8 "192.0.2.1:80")).To namedPackages a := by
  intro log
  have hlog : log = [.lookup (utf8 "host") (.ok [.v6 0xffffc0000201#128 []]),
      .dial (utf8 "tcp") (utf8 "192.0.2.1:80")] := rfl
  have hdial : .dial (utf8 "tcp") (utf8 "192.0.2.1:80") ∈ log := by simp [hlog]
  obtain ⟨-, hto, -⟩ :=
    probe_reaches_judged namedPackages { spacing := 0 } namedMonitor mappedScript
  have hname : NameOf namedPackages (targetHost namedPackages namedMonitor) (utf8 "host") :=
    ⟨utf8 "host", rfl, rfl⟩
  exact ⟨hname, hlog, (hto _ hdial).resolve_left (by simp)⟩

end LatticeAgent.Prober
