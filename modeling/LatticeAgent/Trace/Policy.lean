import LatticeAgent.Trace.Types
import Mathlib.Data.List.Sort

/-! # The trace policy

`tracepolicy.Set` merges the node's floor with the capture sessions that are still running.
`build` is the only way to make one: it normalises the sessions of a config and drops those
whose deadline has passed; `match_` then decides each line.

The lemmas below say what a built set holds (`mem_build`), that building again from a set's
own sessions only applies the later cut (`mem_rebuild`), and which sessions a line is
matched to (`mem_match`). -/

namespace LatticeAgent.Trace

open List

/-- `tracepolicy.normalizeLevel`: an unreadable level folds down to info. -/
def normalizeLevel (sdk : Sdk) (l : String) : String :=
  let candidate := sdk.toLower (trimSpace l)
  if sdk.validTraceLevel candidate then candidate else sdk.traceLevelInfo

/-- `tracepolicy.cleanStrings`. -/
def cleanStrings (l : List String) : List String := (l.map trimSpace).filter (· != "")

/-- `tracepolicy.normalizeSession`, where the session is usable. -/
def normalizeSession (sdk : Sdk) (sess : TraceAgentSession) : Option TraceAgentSession :=
  if trimSpace sess.id = "" then none
  else some
    { sess with
      id := trimSpace sess.id
      level := normalizeLevel sdk sess.level
      userNames := cleanStrings sess.userNames
      inboundTags := cleanStrings sess.inboundTags
      dstPatterns := cleanStrings sess.dstPatterns }

/-- `tracepolicy.Decision`. -/
structure Decision where
  keep : Bool := false
  sessionIDs : List String := []
  level : String := ""
deriving DecidableEq, Repr

/-- `tracepolicy.Set`. -/
structure PolicySet where
  nodeEnabled : Bool := false
  nodeLevel : String := ""
  sessions : List TraceAgentSession := []
  subscribe : String := ""
  expiresNext : Time := 0
deriving DecidableEq, Repr

namespace PolicySet

/-- One pass of `Build`'s loop: a usable session that is still running joins the set. -/
def join (sdk : Sdk) (now : Time) (s : PolicySet) (raw : TraceAgentSession) : PolicySet :=
  match normalizeSession sdk raw with
  | none => s
  | some sess =>
    if now < sess.expiresAt then
      { s with
        sessions := s.sessions ++ [sess]
        subscribe :=
          if sdk.traceLevelAtLeast sess.level s.subscribe then sess.level else s.subscribe
        expiresNext :=
          if s.expiresNext.isZero || sess.expiresAt < s.expiresNext then sess.expiresAt
          else s.expiresNext }
    else s

/-- The set before `Build`'s loop: the node floor alone. -/
def floor (sdk : Sdk) (pol : TracePolicy) : PolicySet where
  nodeEnabled := pol.enabled
  nodeLevel := normalizeLevel sdk pol.level
  subscribe := if pol.enabled then normalizeLevel sdk pol.level else sdk.traceLevelInfo

/-- `sort.Slice` by session id. -/
def sortByID (l : List TraceAgentSession) : List TraceAgentSession :=
  l.insertionSort (fun a b => a.id ≤ b.id)

/-- `tracepolicy.Build`. -/
def build (sdk : Sdk) (cfg : TraceAgentConfig) (now : Time) : PolicySet :=
  let s := cfg.sessions.foldl (join sdk now) (floor sdk cfg.policy)
  { s with sessions := sortByID s.sessions }

/-- `Set.SubscribeLevel`. -/
def subscribeLevel (sdk : Sdk) (s : PolicySet) : String :=
  if s.subscribe = "" then sdk.traceLevelInfo else s.subscribe

/-- `Set.Enabled`. -/
def enabled (s : PolicySet) : Bool := s.nodeEnabled || !s.sessions.isEmpty

/-- `Set.Policy`. -/
def policy (s : PolicySet) : TracePolicy where
  enabled := s.nodeEnabled
  level := s.nodeLevel

/-- `Set.ActiveSessions`. -/
def activeSessions (s : PolicySet) : List TraceAgentSession := s.sessions

end PolicySet

/-- `tracepolicy.containsExact`. -/
def containsExact (values : List String) (want : String) : Bool :=
  if want = "" then false else values.any (· == want)

/-- `tracepolicy.matchesInboundTag`. -/
def matchesInboundTag (tags : List String) (l : Line) : Bool :=
  tags.any fun t => t == l.tagName || t == l.tag

/-- `tracepolicy.matchesDstPattern`. -/
def matchesDstPattern (sdk : Sdk) (patterns : List String) (dstHost : String) : Bool :=
  if dstHost = "" then false
  else patterns.any fun p => contains (sdk.toLower dstHost) (sdk.toLower p)

/-- `tracepolicy.sessionMatches`. -/
def sessionMatches (sdk : Sdk) (sess : TraceAgentSession) (l : Line) (user dstHost : String) :
    Bool :=
  if !sess.userNames.isEmpty && !containsExact sess.userNames user then false
  else if !sess.inboundTags.isEmpty && !matchesInboundTag sess.inboundTags l then false
  else if !sess.dstPatterns.isEmpty && !matchesDstPattern sdk sess.dstPatterns dstHost then false
  else true

/-- One pass of `Match`'s loop, over the ids collected so far and the best level. -/
def matchStep (sdk : Sdk) (l : Line) (user dstHost lineLevel : String)
    (acc : List String × String) (sess : TraceAgentSession) : List String × String :=
  -- A session never sees past its own level.
  if !sdk.traceLevelAtLeast sess.level lineLevel then acc
  else if !sessionMatches sdk sess l user dstHost then acc
  else (acc.1 ++ [sess.id],
    if acc.2 == "" || sdk.traceLevelAtLeast sess.level acc.2 then sess.level else acc.2)

/-- `Set.Match`. -/
def PolicySet.match_ (sdk : Sdk) (s : PolicySet) (l : Line) (user dstHost : String) : Decision :=
  if !s.enabled then {}
  else
    let lineLevel := normalizeLevel sdk l.level
    let found := s.sessions.foldl (matchStep sdk l user dstHost lineLevel) ([], "")
    let floorKeeps := s.nodeEnabled && sdk.traceLevelAtLeast s.nodeLevel lineLevel
    let keep := floorKeeps || !found.1.isEmpty
    { keep := keep
      sessionIDs := found.1
      level := if floorKeeps then s.nodeLevel else if keep then found.2 else "" }

/-! ### Normalising twice changes nothing -/

theorem normalizeLevel_valid (sdk : Sdk) (l : String) :
    sdk.validTraceLevel (normalizeLevel sdk l) := by
  unfold normalizeLevel
  dsimp only
  split
  · assumption
  · exact sdk.info_valid

theorem normalizeLevel_of_valid (sdk : Sdk) {l : String} (h : sdk.validTraceLevel l) :
    normalizeLevel sdk l = l := by
  unfold normalizeLevel
  rw [sdk.lower_valid l h]
  simp [h]

theorem cleanStrings_cleanStrings (l : List String) :
    cleanStrings (cleanStrings l) = cleanStrings l := by
  unfold cleanStrings
  have htrim : ∀ v ∈ (l.map trimSpace).filter (· != ""), trimSpace v = v := by
    intro v hv
    obtain ⟨w, -, rfl⟩ := mem_map.mp (mem_of_mem_filter hv)
    exact trimSpace_trimSpace w
  rw [map_congr_left (g := id) htrim, map_id, filter_filter]
  simp

variable {raw sess : TraceAgentSession}

theorem normalizeSession_idem (sdk : Sdk) (h : normalizeSession sdk raw = some sess) :
    normalizeSession sdk sess = some sess := by
  unfold normalizeSession at h
  split at h
  · cases h
  · rename_i hid
    cases h
    unfold normalizeSession
    simp only [trimSpace_trimSpace, if_neg hid, cleanStrings_cleanStrings,
      normalizeLevel_of_valid sdk (normalizeLevel_valid sdk _)]

theorem normalizeSession_id_ne {sdk : Sdk} (h : normalizeSession sdk raw = some sess) :
    sess.id ≠ "" := by
  unfold normalizeSession at h
  split at h
  · cases h
  · rename_i hid
    cases h
    exact hid

theorem normalizeSession_fields {sdk : Sdk} (h : normalizeSession sdk raw = some sess) :
    sess.id = trimSpace raw.id ∧ sess.expiresAt = raw.expiresAt := by
  unfold normalizeSession at h
  split at h <;> cases h
  exact ⟨rfl, rfl⟩

namespace PolicySet

/-! ### What a built set holds -/

variable (sdk : Sdk) {cfg : TraceAgentConfig} {l : List TraceAgentSession} {now t : Time}
  {pol : TracePolicy} {s : PolicySet} {sess : TraceAgentSession}

/-- The loop of `Build` collects the usable sessions that are still running, in order. -/
theorem foldl_join_sessions (now : Time) (l : List TraceAgentSession) (s : PolicySet) :
    (l.foldl (join sdk now) s).sessions =
      s.sessions ++ (l.filterMap (normalizeSession sdk)).filter (now < ·.expiresAt) := by
  induction l generalizing s with
  | nil => simp
  | cons raw l ih =>
    rw [foldl_cons, ih]
    cases hn : normalizeSession sdk raw with
    | none => simp [join, hn]
    | some sess =>
      by_cases ht : now < sess.expiresAt <;> simp [join, hn, ht]

theorem foldl_join_node (now : Time) (l : List TraceAgentSession) (s : PolicySet) :
    (l.foldl (join sdk now) s).nodeEnabled = s.nodeEnabled ∧
      (l.foldl (join sdk now) s).nodeLevel = s.nodeLevel := by
  induction l generalizing s with
  | nil => exact ⟨rfl, rfl⟩
  | cons raw l ih =>
    rw [foldl_cons, (ih _).1, (ih _).2]
    unfold join
    split
    · exact ⟨rfl, rfl⟩
    · split <;> exact ⟨rfl, rfl⟩

/-- **The sessions of a built set** are the usable ones whose deadline is after the cut. -/
theorem mem_build {sdk : Sdk} :
    sess ∈ (build sdk cfg now).sessions ↔
      (∃ raw ∈ cfg.sessions, normalizeSession sdk raw = some sess) ∧ now < sess.expiresAt := by
  unfold build sortByID
  dsimp only
  rw [mem_insertionSort, foldl_join_sessions]
  simp [floor, and_comm]

@[simp] theorem build_nodeEnabled (cfg : TraceAgentConfig) (now : Time) :
    (build sdk cfg now).nodeEnabled = cfg.policy.enabled :=
  (foldl_join_node sdk now cfg.sessions _).1

@[simp] theorem build_nodeLevel (cfg : TraceAgentConfig) (now : Time) :
    (build sdk cfg now).nodeLevel = normalizeLevel sdk cfg.policy.level :=
  (foldl_join_node sdk now cfg.sessions _).2

theorem floor_policy (henabled : s.nodeEnabled = pol.enabled)
    (hlevel : s.nodeLevel = normalizeLevel sdk pol.level) : floor sdk s.policy = floor sdk pol := by
  simp only [floor, policy, henabled, hlevel,
    normalizeLevel_of_valid sdk (normalizeLevel_valid sdk pol.level)]

/-- The sessions of a set are normalised, as those of every built set are. -/
def Normal (sdk : Sdk) (s : PolicySet) : Prop :=
  ∀ sess ∈ s.sessions, normalizeSession sdk sess = some sess

theorem build_normal (cfg : TraceAgentConfig) (now : Time) : (build sdk cfg now).Normal sdk := by
  intro sess hs
  obtain ⟨⟨raw, -, hn⟩, -⟩ := mem_build.mp hs
  exact normalizeSession_idem sdk hn

theorem Normal.id_ne {sdk : Sdk} (h : s.Normal sdk) : ∀ sess ∈ s.sessions, sess.id ≠ "" :=
  fun sess hs => normalizeSession_id_ne (h sess hs)

theorem mem_rebuild {sdk : Sdk} (h : s.Normal sdk) :
    sess ∈ (build sdk { policy := pol, sessions := s.sessions } t).sessions ↔
      sess ∈ s.sessions ∧ t < sess.expiresAt := by
  rw [mem_build]
  refine and_congr_left fun _ => ⟨?_, fun hs => ⟨sess, hs, h sess hs⟩⟩
  rintro ⟨raw, hraw, hn⟩
  rw [h raw hraw] at hn
  cases hn
  exact hraw

theorem build_sorted (cfg : TraceAgentConfig) (now : Time) :
    (build sdk cfg now).sessions.Pairwise fun a b => a.id ≤ b.id :=
  have : Std.Total fun a b : TraceAgentSession => a.id ≤ b.id :=
    ⟨fun a b => String.le_total a.id b.id⟩
  have : IsTrans TraceAgentSession fun a b => a.id ≤ b.id := ⟨fun _ _ _ => String.le_trans⟩
  pairwise_insertionSort _ _

theorem rebuild_sessions {sdk : Sdk} (h : s.Normal sdk)
    (hsort : s.sessions.Pairwise fun a b => a.id ≤ b.id) (pol : TracePolicy) (t : Time) :
    (build sdk { policy := pol, sessions := s.sessions } t).sessions =
      s.sessions.filter (t < ·.expiresAt) := by
  have hnormal : s.sessions.filterMap (normalizeSession sdk) = s.sessions := by
    rw [filterMap_congr h, filterMap_some]
  unfold build sortByID
  dsimp only
  rw [foldl_join_sessions, hnormal]
  exact (hsort.filter _).insertionSort_eq

theorem foldl_join_filter (t : Time) (l : List TraceAgentSession) (s : PolicySet) :
    l.foldl (join sdk t) s = (l.filter (t < ·.expiresAt)).foldl (join sdk t) s := by
  rw [foldl_filter]
  congr 1
  funext s raw
  split
  · rfl
  · rename_i hdead
    rw [decide_eq_true_eq] at hdead
    unfold join
    split
    · rfl
    · rename_i sess hn
      rw [(normalizeSession_fields hn).2, if_neg hdead]

variable {pol' : TracePolicy} {t' : Time}

theorem foldl_join_cut (s : PolicySet) (ht : ∀ sess ∈ l, t < sess.expiresAt)
    (ht' : ∀ sess ∈ l, t' < sess.expiresAt) : l.foldl (join sdk t) s = l.foldl (join sdk t') s := by
  refine foldl_ext _ _ _ fun s raw hraw => ?_
  unfold join
  split
  · rfl
  · rename_i sess hn
    rw [(normalizeSession_fields hn).2, if_pos (ht raw hraw), if_pos (ht' raw hraw)]

/-- Sessions that are all running at `t'` give the same set whether the cut at `t` is made by
`Build` or beforehand. -/
theorem build_cut {sdk : Sdk} (hpol : floor sdk pol = floor sdk pol')
    (hl : ∀ sess ∈ l, t' < sess.expiresAt) :
    build sdk { policy := pol, sessions := l } t =
      build sdk { policy := pol', sessions := l.filter (t < ·.expiresAt) } t' := by
  have hfold : l.foldl (join sdk t) (floor sdk pol) =
      (l.filter (t < ·.expiresAt)).foldl (join sdk t') (floor sdk pol') := by
    rw [foldl_join_filter, hpol]
    refine foldl_join_cut sdk _ (fun sess hs => ?_) fun sess hs => hl sess (mem_of_mem_filter hs)
    simpa using (mem_filter.mp hs).2
  unfold build
  dsimp only
  rw [hfold]

/-- Building a third time, before any deadline of what is left, changes nothing. -/
theorem build_left {sdk : Sdk} {left : PolicySet} (h : s.Normal sdk)
    (hsort : s.sessions.Pairwise fun a b => a.id ≤ b.id)
    (hleft : left = build sdk { policy := pol, sessions := s.sessions } t)
    (hpol : floor sdk pol = floor sdk pol') (halive : ∀ sess ∈ left.sessions, t' < sess.expiresAt) :
    build sdk { policy := pol', sessions := left.sessions } t' = left := by
  have hsessions : left.sessions = s.sessions.filter (t < ·.expiresAt) := by
    rw [hleft, rebuild_sessions h hsort]
  have hrunning : ∀ sess ∈ s.sessions.filter (t < ·.expiresAt), t < sess.expiresAt :=
    fun sess hs => by simpa using (mem_filter.mp hs).2
  have hkeep : (s.sessions.filter (t < ·.expiresAt)).filter (t' < ·.expiresAt) =
      s.sessions.filter (t < ·.expiresAt) :=
    filter_eq_self.mpr fun sess hs => by simpa using halive sess (hsessions ▸ hs)
  have hall : (s.sessions.filter (t < ·.expiresAt)).filter (t < ·.expiresAt) =
      s.sessions.filter (t < ·.expiresAt) :=
    filter_eq_self.mpr fun sess hs => by simpa using hrunning sess hs
  calc build sdk { policy := pol', sessions := left.sessions } t'
      = build sdk { policy := pol, sessions := s.sessions.filter (t < ·.expiresAt) } t := by
        rw [hsessions, build_cut hpol.symm hrunning, hkeep]
    _ = left := by
        rw [hleft]
        unfold build
        dsimp only
        rw [← foldl_join_filter]

/-! ### The next deadline -/

/-- `expiresNext` is the earliest deadline of the sessions, zero when there are none; only
sessions with a deadline after the zero time are counted on. -/
structure NextOK (s : PolicySet) : Prop where
  positive : ∀ sess ∈ s.sessions, 0 < sess.expiresAt
  none : s.sessions = [] → s.expiresNext = 0
  earliest : ∀ sess ∈ s.sessions, 0 < s.expiresNext ∧ s.expiresNext ≤ sess.expiresAt

theorem NextOK.join {sdk : Sdk} (h : s.NextOK) (raw : TraceAgentSession)
    (hpos : 0 < raw.expiresAt ∨ 0 ≤ now) : (join sdk now s raw).NextOK := by
  unfold PolicySet.join
  split
  · exact h
  · rename_i sess hn
    split
    · rename_i ht
      have hexp : 0 < sess.expiresAt := by
        have := (normalizeSession_fields hn).2
        lia
      refine ⟨?_, by simp, ?_⟩
      · intro x hx
        rcases mem_append.mp hx with hx | hx
        · exact h.positive x hx
        · rwa [mem_singleton.mp hx]
      · intro x hx
        simp only [Bool.or_eq_true, decide_eq_true_eq, Time.isZero, beq_iff_eq]
        rcases mem_append.mp hx with hx | hx
        · have := h.earliest x hx
          split <;> lia
        · rw [mem_singleton.mp hx]
          split
          · lia
          · rename_i hnext
            have hne : s.sessions ≠ [] := fun he => hnext (.inl (h.none he))
            obtain ⟨y, hy⟩ := exists_mem_of_ne_nil _ hne
            have := h.earliest y hy
            lia
    · exact h

theorem NextOK.foldl {sdk : Sdk} (h : s.NextOK) (hpos : ∀ raw ∈ l, 0 < raw.expiresAt ∨ 0 ≤ now) :
    (l.foldl (PolicySet.join sdk now) s).NextOK := by
  induction l generalizing s with
  | nil => exact h
  | cons raw l ih =>
    rw [foldl_cons]
    exact ih (h.join raw (hpos raw mem_cons_self))
      fun r hr => hpos r (mem_cons_of_mem _ hr)

theorem NextOK.build {sdk : Sdk} (hpos : ∀ raw ∈ cfg.sessions, 0 < raw.expiresAt ∨ 0 ≤ now) :
    (PolicySet.build sdk cfg now).NextOK := by
  have hfloor : (floor sdk cfg.policy).NextOK := ⟨by simp [floor], fun _ => rfl, by simp [floor]⟩
  have h : (cfg.sessions.foldl (PolicySet.join sdk now) (floor sdk cfg.policy)).NextOK :=
    hfloor.foldl hpos
  have hmem : ∀ {sess}, sess ∈ (PolicySet.build sdk cfg now).sessions →
      sess ∈ (cfg.sessions.foldl (PolicySet.join sdk now) (floor sdk cfg.policy)).sessions :=
    fun hs => (mem_insertionSort _).mp hs
  refine ⟨fun sess hs => h.positive sess (hmem hs), fun he => h.none ?_,
    fun sess hs => h.earliest sess (hmem hs)⟩
  have hperm := perm_insertionSort (fun a b : TraceAgentSession => a.id ≤ b.id)
    (cfg.sessions.foldl (PolicySet.join sdk now) (floor sdk cfg.policy)).sessions
  exact nil_perm.mp (he ▸ hperm.symm : List.Perm _ _).symm

theorem NextOK.running (h : s.NextOK) (ht : s.expiresNext.isZero ∨ t < s.expiresNext) :
    ∀ sess ∈ s.sessions, t < sess.expiresAt := by
  intro sess hs
  have := h.earliest sess hs
  simp only [Time.isZero, beq_iff_eq] at ht
  lia

/-- What every set has that `Build` makes, from a clock's reading or from a set it made. -/
structure Built (sdk : Sdk) (s : PolicySet) : Prop where
  normal : s.Normal sdk
  sorted : s.sessions.Pairwise fun a b => a.id ≤ b.id
  next : s.NextOK

theorem built_empty : ({} : PolicySet).Built sdk where
  normal := fun _ hs => absurd hs List.not_mem_nil
  sorted := .nil
  next := ⟨fun _ hs => absurd hs List.not_mem_nil, fun _ => rfl,
    fun _ hs => absurd hs List.not_mem_nil⟩

theorem build_built (hpos : ∀ raw ∈ cfg.sessions, 0 < raw.expiresAt ∨ 0 ≤ now) :
    (build sdk cfg now).Built sdk :=
  ⟨build_normal sdk cfg now, build_sorted sdk cfg now, .build hpos⟩

theorem subscribeLevel_ne (s : PolicySet) : s.subscribeLevel sdk ≠ "" := by
  unfold subscribeLevel
  split
  · intro hinfo
    have := sdk.info_valid
    rw [hinfo, sdk.empty_not_valid] at this
    exact Bool.false_ne_true this
  · assumption

theorem foldl_matchStep (l : Line) (user dstHost lineLevel : String)
    (sessions : List TraceAgentSession) (acc : List String × String) :
    (sessions.foldl (matchStep sdk l user dstHost lineLevel) acc).1 =
      acc.1 ++ (sessions.filter fun sess => sdk.traceLevelAtLeast sess.level lineLevel &&
        sessionMatches sdk sess l user dstHost).map (·.id) := by
  induction sessions generalizing acc with
  | nil => simp
  | cons sess sessions ih =>
    rw [foldl_cons, ih]
    unfold matchStep
    cases hl : sdk.traceLevelAtLeast sess.level lineLevel <;>
      cases hm : sessionMatches sdk sess l user dstHost <;> simp [hl, hm]

/-- **The sessions a line is matched to** are those whose level covers the line and all of
whose filters accept it. -/
theorem mem_match {sdk : Sdk} {l : Line} {user dstHost id : String} :
    id ∈ (s.match_ sdk l user dstHost).sessionIDs ↔
      ∃ sess ∈ s.sessions, sess.id = id ∧
        sdk.traceLevelAtLeast sess.level (normalizeLevel sdk l.level) ∧
        sessionMatches sdk sess l user dstHost := by
  unfold match_
  cases he : s.enabled with
  | false =>
    have hnone : s.sessions = [] := by
      unfold enabled at he
      simpa using (Bool.or_eq_false_iff.mp he).2
    simp [hnone]
  | true =>
    simp only [Bool.not_true, Bool.false_eq_true, if_false, foldl_matchStep, nil_append,
      mem_map, mem_filter, Bool.and_eq_true]
    constructor
    · rintro ⟨sess, ⟨hs, hl, hm⟩, rfl⟩
      exact ⟨sess, hs, rfl, hl, hm⟩
    · rintro ⟨sess, hs, rfl, hl, hm⟩
      exact ⟨sess, ⟨hs, hl, hm⟩, rfl⟩

theorem keep_of_match {sdk : Sdk} {l : Line} {user dstHost : String}
    (h : (s.match_ sdk l user dstHost).sessionIDs ≠ []) : (s.match_ sdk l user dstHost).keep := by
  unfold match_ at h ⊢
  split at h
  · exact absurd rfl h
  · rename_i he
    rw [if_neg he]
    simpa using .inr h

end PolicySet

end LatticeAgent.Trace
