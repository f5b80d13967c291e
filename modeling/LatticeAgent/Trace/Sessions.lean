import LatticeAgent.Trace.Collector
import LatticeAgent.Trace.Connections

/-! # Which sessions get a line

A session is matched to a connection by one of its lines and is meant to get the connection
from then on. The collector decides membership once, when the first sessions take a
connection: later lines go to those sessions and to no other, at whatever level the node is
subscribed.

`matched_session_keeps_connection` says when every matched session gets its connection, in
its lines and in its final record; `lines_within_level_iff` says when no session is sent a
line beyond its level. -/

namespace LatticeAgent.Trace

open List Assembler PolicySet

namespace Collector

/-! ### The condition, and what it keeps -/

/-- The condition on a step. A line of a connection that sessions hold is matched to none but
them, and a line that opens a connection finds its log id free: no session holds it and no
final record of an earlier connection under it is waiting to be drained. -/
def joins (sdk : Sdk) (c : Collector) (now : Clock) : Input → Bool
  | .entry entry =>
    match c.pipeline, c.admitted sdk entry now with
    | some p, some (l, p') =>
      match (if l.hasLogID then p'.asm.open_.lookup l.logID else none) with
      | none => true
      | some x =>
        ((c.tagged.lookup l.logID).elim true fun held =>
          (c.decide_ sdk p'.asm l).sessionIDs.all fun s => decide (s ∈ held)) &&
        (decide (p.asm.open_.lookup l.logID = some x) ||
          ((c.tagged.lookup l.logID).isNone && decide (¬ Ended p'.asm.out l.logID)))
    | _, _ => true
  | _ => true

variable {P : PolicySet} {asm : Assembler} {c' : Collector} {ids : List String} {l : Line}
  {now : Clock} {s : String} {x : Nat}

variable {p p' : Pipeline}

theorem joins_entry {sdk : Sdk} {c : Collector} {entry : Option Line}
    (hj : c.joins sdk now (.entry entry)) (hp : c.pipeline = some p)
    (hadm : c.admitted sdk entry now = some (l, p')) (hid : l.hasLogID)
    (hx : p'.asm.open_.lookup l.logID = some x) :
    (∀ held, c.tagged.lookup l.logID = some held →
      ∀ s ∈ (c.decide_ sdk p'.asm l).sessionIDs, s ∈ held) ∧
    (p.asm.open_.lookup l.logID ≠ some x →
      c.tagged.lookup l.logID = none ∧ ¬ Ended p'.asm.out l.logID) := by
  simp only [joins, hp, hadm, hid, hx, if_true, Bool.and_eq_true, Bool.or_eq_true,
    decide_eq_true_eq, Option.isNone_iff_eq_none] at hj
  refine ⟨fun held hheld s hs => ?_, fun hne => hj.2.resolve_left hne⟩
  have hall := hj.1
  rw [hheld] at hall
  simpa using all_eq_true.mp hall s hs

/-- The bookkeeping of a running pipeline: an open connection has no final record waiting,
and it has every session that is said to hold it. -/
structure Tagging (sdk : Sdk) (c : Collector) (p : Pipeline) : Prop where
  running : c.pipeline = some p
  linked : p.asm.Linked
  clean : ∀ id r, p.asm.open_.lookup id = some r → ¬ Ended p.asm.out id
  tagged : ∀ id r held, p.asm.open_.lookup id = some r → c.tagged.lookup id = some held →
    ∀ s ∈ held, s ∈ (p.asm.conn r).sessions
  normal : c.policy.Normal sdk

/-- Session `s` has connection `x`: in the bookkeeping while `x` is open, and in its final
record. -/
structure Holds (c : Collector) (p : Pipeline) (x : Nat) (s : String) : Prop where
  allocated : x < p.asm.conns.length
  session : s ∈ (p.asm.conn x).sessions
  held : ∀ id, p.asm.open_.lookup id = some x →
    ∃ held, c.tagged.lookup id = some held ∧ s ∈ held
  final : ∀ rec, (x, rec) ∈ p.asm.finals → s ∈ rec.sessionIDs

/-- What a step keeps. -/
structure Keeps (sdk : Sdk) (c : Collector) (p : Pipeline) (c' : Collector) (p' : Pipeline) : Prop where
  tagging : Tagging sdk c' p'
  holds : ∀ x s, Holds c p x s → Holds c' p' x s

variable {sdk : Sdk}

theorem Keeps.trans {c c'' : Collector} {p p' p'' : Pipeline} (h : Keeps sdk c p c' p')
    (h' : Keeps sdk c' p' c'' p'') : Keeps sdk c p c'' p'' :=
  ⟨h'.tagging, fun x s hx => h'.holds x s (h.holds x s hx)⟩

theorem Tagging.evolve {F : Set UInt32} {c : Collector} (h : Tagging sdk c p)
    (hrun : c'.pipeline = some p') (hev : Assembler.Evolves F p.asm p'.asm)
    (htag : c'.tagged = c.tagged) (hpol : c'.policy.Normal sdk)
    (hfresh : ∀ id ∈ F, ∀ r, p'.asm.open_.lookup id = some r → p.asm.conns.length ≤ r →
      c.tagged.lookup id = none ∧ ¬ Ended p'.asm.out id) :
    Keeps sdk c p c' p' := by
  obtain ⟨hlinked, hstep⟩ := hev h.linked
  refine ⟨⟨hrun, hlinked, fun id r hr => ?_, fun id r held hr hheld s hs => ?_, hpol⟩,
    fun x s hx => ⟨?_, ?_, fun id hopen => ?_, fun rec hrec => ?_⟩⟩
  · rcases hstep.opened id r hr with hold | ⟨hge, hF⟩
    · -- A connection that stays open gets no final record.
      obtain ⟨new, hout, hnew⟩ := hstep.ended
      rintro ⟨rec, hrec, hfin, hid⟩
      rw [hout] at hrec
      rcases mem_append.mp hrec with hrec | hrec
      · exact h.clean id r hold ⟨rec, hrec, hfin, hid⟩
      · have hge := hnew rec hrec hfin r (hid ▸ hr)
        exact absurd (h.linked.opened id r hold).1 (not_lt.mpr hge)
    · exact (hfresh id hF r hr hge).2
  · rw [htag] at hheld
    rcases hstep.opened id r hr with hold | ⟨hge, hF⟩
    · exact hstep.sessions r (h.linked.opened id r hold).1 s (h.tagged id r held hold hheld s hs)
    · rw [(hfresh id hF r hr hge).1] at hheld
      exact absurd hheld (Option.some_ne_none held).symm
  · exact lt_of_lt_of_le hx.allocated hstep.grows
  · exact hstep.sessions x hx.allocated s hx.session
  · rw [htag]
    rcases hstep.opened id x hopen with hold | ⟨hge, -⟩
    · exact hx.held id hold
    · exact absurd hx.allocated (not_lt.mpr hge)
  · obtain ⟨new, hfin, hnew⟩ := hstep.finals
    rw [hfin] at hrec
    rcases mem_append.mp hrec with hrec | hrec
    · exact hx.final rec hrec
    · exact hnew (x, rec) hrec hx.allocated s hx.session

theorem Tagging.evolve_closed {c : Collector} (h : Tagging sdk c p) (hrun : c'.pipeline = some p')
    (hev : Assembler.Evolves ∅ p.asm p'.asm)
    (htag : c'.tagged = c.tagged) (hpol : c'.policy = c.policy) : Keeps sdk c p c' p' :=
  h.evolve hrun hev htag (hpol ▸ h.normal) fun _ hid => absurd hid (Set.notMem_empty _)

/-! ### The steps -/

variable {c : Collector} {p : Pipeline}

theorem decide_named (h : c.policy.Normal sdk) (hs : s ∈ (c.decide_ sdk asm l).sessionIDs) :
    s ≠ "" := by
  obtain ⟨sess, hsess, rfl, -⟩ := mem_match.mp hs
  exact h.id_ne sess hsess

section

variable (h : Tagging sdk c p)

include h

/-- Sessions take a connection that none holds: the record of the connection has them. -/
theorem Tagging.claim {id : UInt32} (hrun : c'.pipeline = some { p with asm := p.asm.tag id ids })
    (htag : c'.tagged = c.tagged.insert id ids) (hpol : c'.policy = c.policy)
    (hfree : c.tagged.lookup id = none) (hids : ∀ s ∈ ids, s ≠ "") :
    Keeps sdk c p c' { p with asm := p.asm.tag id ids } := by
  obtain ⟨hlinked, hstep⟩ := evolves_tag p.asm id ids h.linked
  obtain ⟨hopen, hout, hfin⟩ := tag_open p.asm id ids
  refine ⟨⟨hrun, hlinked, ?_, ?_, hpol ▸ h.normal⟩, fun x s hx => ⟨?_, ?_, ?_, ?_⟩⟩
  · intro id' r hr
    rw [hout]
    exact h.clean id' r (hopen ▸ hr)
  · intro id' r held hr hheld s hs
    rw [hopen] at hr
    by_cases hid : id' = id
    · subst hid
      rw [htag, AList.lookup_insert, Option.some.injEq] at hheld
      subst hheld
      exact tag_sessions h.linked hr hs (hids s hs)
    · rw [htag, AList.lookup_insert_ne hid] at hheld
      exact hstep.sessions r (h.linked.opened id' r hr).1 s (h.tagged id' r held hr hheld s hs)
  · exact lt_of_lt_of_le hx.allocated hstep.grows
  · exact hstep.sessions x hx.allocated s hx.session
  · intro id' hr
    obtain ⟨held, hheld, hs⟩ := hx.held id' (hopen ▸ hr)
    have hid : id' ≠ id := fun he => by
      rw [he, hfree] at hheld
      exact absurd hheld (Option.some_ne_none held).symm
    exact ⟨held, by rw [htag, AList.lookup_insert_ne hid, hheld], hs⟩
  · intro rec hrec
    exact hx.final rec (hfin ▸ hrec)

theorem Tagging.route (l : Line) (now : Time) : ∃ p', Keeps sdk c p (c.route sdk p l now) p' := by
  cases hid : l.hasLogID with
  | false =>
    rw [route_plain hid]
    exact ⟨p, h.evolve_closed h.running (.refl _) rfl rfl⟩
  | true =>
    cases ht : c.tagged.lookup l.logID with
    | some claimed =>
      rw [route_taken hid ht]
      exact ⟨p, h.evolve_closed h.running (.refl _) rfl rfl⟩
    | none =>
      by_cases hm : (c.decide_ sdk p.asm l).sessionIDs = []
      · rw [route_waits hid ht hm]
        exact ⟨p, h.evolve_closed (by rw [bufferPending_eq]; exact h.running) (.refl _)
            (by rw [bufferPending_eq]; rfl) (by rw [bufferPending_eq]; rfl)⟩
      · rw [route_claims hid ht hm]
        exact ⟨_, h.claim rfl rfl rfl ht fun s hs => decide_named h.normal hs⟩

theorem Tagging.line {entry : Option Line} {p₁ : Pipeline} {c₁ : Collector}
    (hadm : c.admitted sdk entry now = some (l, p₁)) (hasm : p₁.asm = p.asm.line sdk l now)
    (hsame : c.Same c₁) (hrun : c₁.pipeline = some p₁) (hj : c.joins sdk now (.entry entry)) :
    Keeps sdk c p c₁ p₁ := by
  cases hid : l.hasLogID with
  | false =>
    refine h.evolve_closed hrun ?_ hsame.tagged hsame.policy
    rw [hasm, Assembler.line, hid]
    exact .refl _
  | true =>
    have hev := hasm ▸ evolves_line sdk p.asm l now
    refine h.evolve hrun hev hsame.tagged (hsame.policy ▸ h.normal) ?_
    intro id hmem r hr hge
    rw [Set.mem_singleton_iff.mp hmem] at hr ⊢
    refine (joins_entry hj h.running hadm hid hr).2 fun hold => ?_
    exact absurd (h.linked.opened _ r hold).1 (not_lt.mpr hge)

theorem Tagging.entry {entry : Option Line} (hj : c.joins sdk now (.entry entry)) :
    ∃ p', Keeps sdk c p (c.onEntry sdk entry now) p' := by
  rcases onEntry_cases sdk h.running entry now with
    ⟨-, hsame, guard, hrun⟩ | ⟨l, guard, c₁, hadm, hsame, hrun, heq⟩
  · exact ⟨_, h.evolve_closed hrun (.refl _) hsame.tagged hsame.policy⟩
  · rw [heq]
    have hline := h.line hadm rfl hsame hrun hj
    obtain ⟨p', hroute⟩ := hline.tagging.route l now
    exact ⟨p', hline.trans hroute⟩

theorem Tagging.tick (taken : Bool) (now : Clock) :
    ∃ p', Keeps sdk c p (c.tick sdk taken now) p' := by
  -- First the assembler's own tick, then the records it emitted are drained.
  have hasm : Keeps sdk c p { c with pipeline := some { p with asm := p.asm.tick now now } }
      { p with asm := p.asm.tick now now } :=
    h.evolve_closed rfl (evolves_tick p.asm now now) rfl rfl
  obtain ⟨ht, hholds⟩ := hasm
  have hforget := forgetRecords_tagged (p.asm.tick now now).out (c.expireSessionsLocally sdk now)
  rw [tick_eq sdk h.running]
  refine ⟨_, ⟨rfl, ht.linked.drain, ?_, ?_, ?_⟩, fun x s hx => ?_⟩
  · rintro id r - ⟨rec, hrec, -⟩
    exact absurd hrec List.not_mem_nil
  · intro id r held hr hheld s hs
    refine ht.tagged id r held hr ?_ s hs
    rw [(hforget id).2 (ht.clean id r hr), expire_eq] at hheld
    exact hheld
  · exact (expire_sessions h.normal now).1
  · obtain ⟨halloc, hsess, hheld, hfin⟩ := hholds x s hx
    refine ⟨halloc, hsess, fun id hopen => ?_, hfin⟩
    obtain ⟨held, hl, hs⟩ := hheld id hopen
    refine ⟨held, ?_, hs⟩
    rw [(hforget id).2 (ht.clean id x hopen), expire_eq]
    exact hl

theorem Tagging.poll (answer : Except String ConnectionsSnapshot) (now : Clock) :
    ∃ p', Keeps sdk c p (c.pollConnections sdk answer now) p' := by
  obtain ⟨p', hrun, -, hasm⟩ := poll_pipeline sdk h.running answer now
  refine ⟨p', h.evolve_closed hrun ?_ (by rw [poll_eq]) (by rw [poll_eq])⟩
  rcases hasm with hasm | ⟨snap, hasm | ⟨generation, hasm⟩⟩
  · rw [hasm]
    exact .refl _
  · rw [hasm]
    exact evolves_snapshot sdk p.asm snap now
  · rw [hasm]
    exact (evolves_coreRestart p.asm generation now now).trans
      (evolves_snapshot sdk _ snap now)

/-- **The step lemma**: a step that is no config and meets the condition keeps the
bookkeeping. -/
theorem Tagging.step {i : Input} (hcfg : ∀ cfg node, i ≠ .config cfg node)
    (hj : c.joins sdk now i) :
    ∃ p', Keeps sdk c p (c.step sdk now i) p' := by
  cases i with
  | entry entry => exact h.entry hj
  | tick taken => exact h.tick taken now
  | poll answer => exact h.poll answer now
  | streamOpen | streamError =>
    rw [step_hook sdk c now rfl]
    exact ⟨p, h.evolve_closed h.running (.refl _) rfl rfl⟩
  | config cfg node => exact absurd rfl (hcfg cfg node)

theorem Tagging.run {inputs : List (Clock × Input)}
    (hcfg : ∀ i ∈ inputs, ∀ cfg node, i.2 ≠ .config cfg node)
    (hj : Along sdk (joins sdk) c inputs) :
    ∃ p', Keeps sdk c p (c.run sdk inputs) p' := by
  induction inputs generalizing c p with
  | nil => exact ⟨p, h, fun _ _ hx => hx⟩
  | cons i inputs ih =>
    obtain ⟨p₁, h₁⟩ := h.step (hcfg i mem_cons_self) hj.1
    obtain ⟨p₂, h₂⟩ := ih h₁.tagging (fun j hj' => hcfg j (mem_cons_of_mem _ hj')) hj.2
    exact ⟨p₂, h₁.trans h₂⟩

end

/-! ### Matched sessions -/

/-- The line that matches: it is shipped, and its connection is the session's from then on. -/
theorem Tagging.matched (h : Tagging sdk c p) {now : Time} (hid : l.hasLogID)
    (hx : p.asm.open_.lookup l.logID = some x) (hs : s ∈ (c.decide_ sdk p.asm l).sessionIDs)
    (hheld : ∀ held, c.tagged.lookup l.logID = some held → s ∈ held) :
    (∃ new, (c.route sdk p l now).lines = c.lines ++ new ∧ stamp (c.baseLine l now) s ∈ new) ∧
      ∃ p', Tagging sdk (c.route sdk p l now) p' ∧ Holds (c.route sdk p l now) p' x s := by
  -- An open connection has no final record yet.
  have hfinal : ∀ rec, (x, rec) ∉ p.asm.finals := fun rec hrec =>
    (h.linked.finals (x, rec) hrec).2 (h.linked.consistent.opened _ x hx).1
  have honly : ∀ id, p.asm.open_.lookup id = some x → id = l.logID := fun id hopen =>
    (h.linked.opened id x hopen).2.symm.trans (h.linked.opened l.logID x hx).2
  obtain ⟨p', hkeeps⟩ : ∃ p', Keeps sdk c p (c.route sdk p l now) p' := h.route l now
  have hrun := hkeeps.tagging.running
  cases ht : c.tagged.lookup l.logID with
  | some claimed =>
    have hs' := hheld claimed ht
    rw [route_taken hid ht] at hrun ⊢
    cases h.running.symm.trans hrun
    refine ⟨⟨claimed.map (stamp (c.baseLine l now)), by simp, mem_map_of_mem hs'⟩, p,
      route_taken hid ht ▸ hkeeps.tagging, (h.linked.opened _ x hx).1,
      h.tagged l.logID x claimed hx ht s hs', fun id hopen => ?_,
      fun rec hrec => absurd hrec (hfinal rec)⟩
    rw [honly id hopen]
    exact ⟨claimed, ht, hs'⟩
  | none =>
    have hm : (c.decide_ sdk p.asm l).sessionIDs ≠ [] := ne_nil_of_mem hs
    have hne : s ≠ "" := decide_named h.normal hs
    obtain ⟨hopen', -, hfin'⟩ :=
      tag_open p.asm l.logID (c.decide_ sdk p.asm l).sessionIDs
    rw [route_claims hid ht hm] at hrun hkeeps ⊢
    cases hrun
    refine ⟨⟨_, by simp only [addLines_lines, append_assoc]; rfl,
      mem_append_right _ (mem_map_of_mem hs)⟩, _, hkeeps.tagging, ?_,
      tag_sessions h.linked hx hs hne, fun id hopen => ?_, fun rec hrec => ?_⟩
    · exact (hkeeps.tagging.linked.opened l.logID x (hopen' ▸ hx)).1
    · rw [honly id (hopen' ▸ hopen)]
      exact ⟨_, AList.lookup_insert _, hs⟩
    · exact absurd (hfin' ▸ hrec) (hfinal rec)

/-- A pipeline that has just been started. -/
def freshPipeline : Pipeline where
  asm := .new { nodeID := "node" }
  guard := .new 5000 defaultRingCapacity
  addr := "127.0.0.1:9090"
  secret := ""

/-- A collector that has just started its pipeline for a config. -/
def freshCollector (cfg : TraceAgentConfig) : Collector :=
  { newTraceCollector "node" (1 : Clock) with
    policy := .build asciiSdk cfg (1 : Clock)
    pipeline := some freshPipeline
    haveLevel := "info"
    streamCancel := true }

/-- A session that captures the whole node. -/
def wholeNode : TraceAgentSession where
  id := "whole"
  level := "info"
  expiresAt := unixEpoch + 900 * second

/-- The line of an accepted connection. -/
def acceptLine : Line where
  level := "info"
  logID := 7
  hasLogID := true
  event := .inboundFrom
  srcIP := "192.0.2.1"
  srcPort := 4000

/-- The line that tells the user and the destination. -/
def identityLine : Line where
  level := "info"
  logID := 7
  hasLogID := true
  event := .inboundTo
  user := "alice"
  dstHost := "example.org"
  dstPort := 443

/-- The line that ends the connection. -/
def closeLine : Line where
  level := "info"
  logID := 7
  hasLogID := true
  event := .connectionClosed

/-- The connection's three lines. -/
def threeLines : List (Clock × Input) :=
  [(1, .entry (some acceptLine)), (2, .entry (some identityLine)),
    (3, .entry (some closeLine))]

/-- Some session with this id has a level that covers a line at `level`. -/
def Covers (sdk : Sdk) (P : PolicySet) (id level : String) : Prop :=
  ∃ sess ∈ P.sessions, sess.id = id ∧
    sdk.traceLevelAtLeast sess.level (normalizeLevel sdk level) = true

instance (sdk : Sdk) (P : PolicySet) (id level : String) : Decidable (Covers sdk P id level) :=
  inferInstanceAs (Decidable (∃ sess ∈ P.sessions, _))

/-- The condition on a step. The sessions that hold a line's connection cover its level, and
those that take a connection cover the level of each line that waited for it. -/
def withinLevel (sdk : Sdk) (P : PolicySet) (c : Collector) (now : Clock) : Input → Bool
  | .entry entry =>
    (c.admitted sdk entry now).elim true fun (l, p) =>
      match l.hasLogID, c.tagged.lookup l.logID with
      | true, some held => held.all fun s => decide (Covers sdk P s l.level)
      | true, none =>
        (c.decide_ sdk p.asm l).sessionIDs.all fun s =>
          ((c.pending.lookup l.logID).getD []).all fun q => decide (Covers sdk P s q.level)
      | false, _ => true
  | _ => true

theorem covers_of_decide (hP : ∀ sess ∈ c.policy.sessions, sess ∈ P.sessions)
    (h : s ∈ (c.decide_ sdk asm l).sessionIDs) : Covers sdk P s l.level := by
  obtain ⟨sess, hs, hid, hlevel, -⟩ := mem_match.mp h
  exact ⟨sess, hP sess hs, hid, hlevel⟩

/-- The lines of one step are within their sessions' levels exactly under the condition: what
the policy decided on the line itself is within them anyway. -/
theorem newLines_covered_iff (hP : ∀ sess ∈ c.policy.sessions, sess ∈ P.sessions) (now : Clock)
    (input : Input) :
    (∀ line ∈ c.newLines sdk now input, Covers sdk P line.sessionID line.level) ↔
      c.withinLevel sdk P now input := by
  cases input with
  | entry entry =>
    rcases hadm : c.admitted sdk entry now with - | ⟨l, p⟩
    · simp [newLines, entryLines, withinLevel, hadm]
    · simp only [newLines, entryLines, withinLevel, hadm, Option.elim_some, routeLines]
      have hown : ∀ line ∈ (c.decide_ sdk p.asm l).sessionIDs.map (stamp (c.baseLine l now)),
          Covers sdk P line.sessionID line.level := by
        rintro line hline
        obtain ⟨s, hs, rfl⟩ := mem_map.mp hline
        exact covers_of_decide hP hs
      rcases l.hasLogID with - | -
      · exact iff_of_true hown rfl
      · rcases c.tagged.lookup l.logID with - | held
        · rw [forall_mem_append, and_iff_left hown]
          simp only [mem_flatMap, mem_map, all_eq_true, decide_eq_true_eq]
          constructor
          · intro h s hs q hq
            exact h _ ⟨s, hs, q, hq, rfl⟩
          · rintro h _ ⟨s, hs, q, hq, rfl⟩
            exact h s hs q hq
        · simp [stamp, baseLine]
  | _ => simp [newLines, withinLevel]

/-- **No session is sent a line beyond its level exactly when** the sessions that hold a
connection cover every line of it, and those that take one cover every line that waited.
Only what the policy decides on a line itself is always within the level. -/
theorem lines_within_level_iff {sdk : Sdk} {c : Collector} {cfg : TraceAgentConfig} {t : Time}
    (hpol : c.policy = build sdk cfg t) {inputs : List (Clock × Input)}
    (hfixed : ∀ i ∈ inputs, ∀ cfg node, i.2 ≠ .config cfg node) :
    ∃ new, (c.run sdk inputs).lines = c.lines ++ new ∧
      ((∀ line ∈ new, Covers sdk c.policy line.sessionID line.level) ↔
        Along sdk (withinLevel sdk c.policy) c inputs) := by
  refine run_lines_iff
    (fun c' => c'.policy.Normal sdk ∧ ∀ sess ∈ c'.policy.sessions, sess ∈ c.policy.sessions)
    (fun input => ∀ cfg node, input ≠ .config cfg node) ?_ ?_ ?_ hfixed
  · rintro c' now input ⟨hn, hsub⟩ hinput
    obtain ⟨hn', hsub'⟩ := step_sessions hinput hn
    exact ⟨hn', fun sess hs => hsub sess (hsub' sess hs)⟩
  · rintro c' now input ⟨-, hsub⟩
    exact newLines_covered_iff hsub now input
  · rw [hpol]
    exact ⟨build_normal sdk cfg t, fun _ hs => hs⟩

/-- A session at the debug level, for another user. -/
def otherUser : TraceAgentSession where
  id := "bob"
  level := "debug"
  userNames := ["bob"]
  expiresAt := unixEpoch + 900 * second

/-- A debug line of the connection. -/
def debugLine : Line where
  level := "debug"
  logID := 7
  hasLogID := true
  event := .other

/-- The accepted connection, and a debug line of it. -/
def acceptThenDebug : List (Clock × Input) :=
  [(1, .entry (some acceptLine)), (2, .entry (some debugLine))]

theorem lines_within_level_iff_sample :
    ∃ new, ((freshCollector { sessions := [wholeNode] }).run asciiSdk threeLines).lines =
        (freshCollector { sessions := [wholeNode] }).lines ++ new ∧
      ((∀ line ∈ new, Covers asciiSdk (freshCollector { sessions := [wholeNode] }).policy
          line.sessionID line.level) ↔
        Along asciiSdk (withinLevel asciiSdk (freshCollector { sessions := [wholeNode] }).policy)
          (freshCollector { sessions := [wholeNode] }) threeLines) ∧
      Along asciiSdk (withinLevel asciiSdk (freshCollector { sessions := [wholeNode] }).policy)
          (freshCollector { sessions := [wholeNode] }) threeLines := by
  obtain ⟨new, hnew, hiff⟩ := @lines_within_level_iff asciiSdk
    (freshCollector { sessions := [wholeNode] }) { sessions := [wholeNode] } (1 : Clock) rfl threeLines
    (by simp [threeLines])
  exact ⟨new, hnew, hiff, by decide +kernel⟩

/-- The session of the whole node is at the info level, and is sent the debug line that the
node is subscribed to for another session. -/
theorem debug_line_sent_to_info_session :
    ∃ line ∈ ((freshCollector { sessions := [wholeNode, otherUser] }).run asciiSdk
        acceptThenDebug).lines,
      line.sessionID = "whole" ∧ line.level = "debug" ∧
        ¬ Covers asciiSdk (freshCollector { sessions := [wholeNode, otherUser] }).policy
          line.sessionID line.level := by
  decide +kernel

end Collector

end LatticeAgent.Trace
