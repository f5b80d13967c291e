import LatticeAgent.Trace.Policy

/-! # Local rebuilds of the policy

When a session expires, the agent rebuilds its policy from the set it has, without asking the
server. A set is determined by its node floor and the sessions that are running: the level of the
subscription is the greatest, the next deadline the earliest of them, in whatever order they were
seen (`Greatest`, `Earliest`). So a chain of local rebuilds ends in the set the server's config
gives (`rebuilds_eq_build`), unless a session without a deadline is still running. -/

namespace LatticeAgent.Trace.PolicySet

open List

variable {sdk : Sdk}

/-- `Build` from `Policy()` and `ActiveSessions()`. -/
def rebuild (sdk : Sdk) (s : PolicySet) (t : Time) : PolicySet :=
  build sdk { policy := s.policy, sessions := s.activeSessions } t

/-- The usable sessions of a list that are running at a time, in order. -/
def running (sdk : Sdk) (l : List TraceAgentSession) (t : Time) : List TraceAgentSession :=
  (l.filterMap (normalizeSession sdk)).filter (t < ·.expiresAt)

/-! ### The level of the subscription -/

/-- The valid levels are ordered, not only compared. -/
def LevelsOrdered (sdk : Sdk) : Prop :=
  ∀ a b, sdk.validTraceLevel a = true → sdk.validTraceLevel b = true →
    sdk.traceLevelAtLeast a b = true → sdk.traceLevelAtLeast b a = true → a = b

/-- A level is the greatest of a level and of those of some sessions. -/
structure Greatest (sdk : Sdk) (floor : String) (l : List TraceAgentSession) (level : String) :
    Prop where
  mem : level = floor ∨ ∃ sess ∈ l, sess.level = level
  ge_floor : sdk.traceLevelAtLeast level floor = true
  ge : ∀ sess ∈ l, sdk.traceLevelAtLeast level sess.level = true

theorem atLeast_refl {a : String} (h : sdk.validTraceLevel a) :
    sdk.traceLevelAtLeast a a := (sdk.atLeast_total a a h h).elim id id

variable {cfg : TraceAgentConfig} {l : List TraceAgentSession} {s : PolicySet}
  {sess : TraceAgentSession} {t t' : Time} {times : List Time}

theorem Greatest.valid {floor a : String} (h : Greatest sdk floor l a)
    (hfloor : sdk.validTraceLevel floor)
    (hvalid : ∀ sess ∈ l, sdk.validTraceLevel sess.level) : sdk.validTraceLevel a := by
  rcases h.mem with rfl | ⟨sess, hs, rfl⟩
  · exact hfloor
  · exact hvalid sess hs

variable {cfg' : TraceAgentConfig} {l' : List TraceAgentSession}

theorem Greatest.unique (hord : LevelsOrdered sdk) {floor a b : String}
    (hmem : ∀ sess, sess ∈ l ↔ sess ∈ l') (hfloor : sdk.validTraceLevel floor)
    (hvalid : ∀ sess ∈ l, sdk.validTraceLevel sess.level) (ha : Greatest sdk floor l a)
    (hb : Greatest sdk floor l' b) : a = b := by
  have hvb := hb.valid hfloor fun sess hs => hvalid sess ((hmem sess).mpr hs)
  refine hord a b (ha.valid hfloor hvalid) hvb ?_ ?_
  · rcases hb.mem with rfl | ⟨sess, hs, rfl⟩
    · exact ha.ge_floor
    · exact ha.ge sess ((hmem sess).mpr hs)
  · rcases ha.mem with rfl | ⟨sess, hs, rfl⟩
    · exact hb.ge_floor
    · exact hb.ge sess ((hmem sess).mp hs)

theorem normalizeSession_level {raw : TraceAgentSession} (h : normalizeSession sdk raw = some sess) :
    sdk.validTraceLevel sess.level := by
  unfold normalizeSession at h
  split at h <;> cases h
  exact normalizeLevel_valid sdk raw.level

theorem running_append (l : List TraceAgentSession) (raw : TraceAgentSession) (t : Time) :
    running sdk (l ++ [raw]) t = running sdk l t ++ running sdk [raw] t := by
  simp [running, filterMap_append]

theorem running_valid (h : sess ∈ running sdk l t) : sdk.validTraceLevel sess.level := by
  obtain ⟨raw, -, hn⟩ := mem_filterMap.mp (mem_of_mem_filter h)
  exact normalizeSession_level hn

theorem join_cases (sdk : Sdk) (t : Time) (s : PolicySet) (raw : TraceAgentSession) :
    (running sdk [raw] t = [] ∧ join sdk t s raw = s) ∨
      ∃ sess, running sdk [raw] t = [sess] ∧
        (join sdk t s raw).subscribe =
          (if sdk.traceLevelAtLeast sess.level s.subscribe then sess.level else s.subscribe) ∧
        (join sdk t s raw).expiresNext =
          (if s.expiresNext.isZero || sess.expiresAt < s.expiresNext then sess.expiresAt
            else s.expiresNext) := by
  unfold running join
  cases hn : normalizeSession sdk raw with
  | none => simp [hn]
  | some sess => by_cases ht : t < sess.expiresAt <;> simp [hn, ht]

theorem foldl_greatest {floor : PolicySet} (hfloor : sdk.validTraceLevel floor.subscribe)
    (l : List TraceAgentSession) (t : Time) :
    Greatest sdk floor.subscribe (running sdk l t) (l.foldl (join sdk t) floor).subscribe := by
  induction l using reverseRecOn with
  | nil => exact ⟨.inl rfl, atLeast_refl hfloor, by simp [running]⟩
  | append_singleton l raw ih =>
    rw [foldl_append, running_append]
    simp only [foldl_cons, foldl_nil]
    set s := l.foldl (join sdk t) floor
    have hvalid := ih.valid hfloor fun sess hs => running_valid hs
    rcases join_cases sdk t s raw with ⟨hnone, hjoin⟩ | ⟨sess, hone, hsub, -⟩
    · rw [hnone, hjoin, append_nil]
      exact ih
    · have hsess : sdk.validTraceLevel sess.level :=
        running_valid (hone ▸ mem_singleton_self sess)
      rw [hone, hsub]
      split
      · -- the session is the most verbose so far
        rename_i hge
        have htrans : ∀ b, sdk.validTraceLevel b = true → sdk.traceLevelAtLeast s.subscribe b = true →
            sdk.traceLevelAtLeast sess.level b = true := fun b hb =>
          sdk.atLeast_trans _ _ b hsess hvalid hb hge
        refine ⟨.inr ⟨sess, by simp, rfl⟩, htrans _ hfloor ih.ge_floor, fun x hx => ?_⟩
        rcases mem_append.mp hx with hx | hx
        · exact htrans _ (running_valid hx) (ih.ge x hx)
        · rw [mem_singleton.mp hx]
          exact atLeast_refl hsess
      · rename_i hlt
        refine ⟨ih.mem.imp_right fun ⟨x, hx, h⟩ => ⟨x, mem_append_left _ hx, h⟩, ih.ge_floor,
          fun x hx => ?_⟩
        rcases mem_append.mp hx with hx | hx
        · exact ih.ge x hx
        · rw [mem_singleton.mp hx]
          exact (sdk.atLeast_total _ _ hvalid hsess).resolve_right hlt

/-- A time is the earliest deadline of some sessions, zero if there are none. -/
structure Earliest (l : List TraceAgentSession) (next : Time) : Prop where
  none : l = [] → next = 0
  mem : l ≠ [] → ∃ sess ∈ l, sess.expiresAt = next
  le : ∀ sess ∈ l, next ≤ sess.expiresAt

theorem Earliest.unique (hmem : ∀ sess, sess ∈ l ↔ sess ∈ l') {a b : Time} (ha : Earliest l a)
    (hb : Earliest l' b) : a = b := by
  by_cases hnil : l = []
  · have hnil' : l' = [] :=
      eq_nil_iff_forall_not_mem.mpr fun x hx => by simpa [hnil] using (hmem x).mpr hx
    rw [ha.none hnil, hb.none hnil']
  · have hnil' : l' ≠ [] := by
      rintro rfl
      exact hnil (eq_nil_iff_forall_not_mem.mpr fun x hx => by simpa using (hmem x).mp hx)
    obtain ⟨x, hx, hxa⟩ := ha.mem hnil
    obtain ⟨y, hy, hyb⟩ := hb.mem hnil'
    have hle := ha.le y ((hmem y).mpr hy)
    have hge := hb.le x ((hmem x).mp hx)
    lia

/-- Where every running session has a deadline, the loop of `Build` finds the earliest. -/
theorem foldl_earliest {floor : PolicySet} (hfloor : floor.expiresNext = 0)
    (hl : ∀ sess ∈ running sdk l t, sess.expiresAt ≠ 0) :
    Earliest (running sdk l t) (l.foldl (join sdk t) floor).expiresNext := by
  induction l using reverseRecOn with
  | nil => exact ⟨fun _ => hfloor, fun h => absurd rfl h, by simp [running]⟩
  | append_singleton l raw ih =>
    rw [running_append] at hl
    have ih := ih fun sess hs => hl sess (mem_append_left _ hs)
    rw [foldl_append, running_append]
    simp only [foldl_cons, foldl_nil]
    set s := l.foldl (join sdk t) floor
    rcases join_cases sdk t s raw with ⟨hnone, hjoin⟩ | ⟨sess, hone, -, hnext⟩
    · rw [hnone, hjoin, append_nil]
      exact ih
    · rw [hone, hnext]
      rw [hone] at hl
      refine ⟨by simp, fun _ => ?_, fun x hx => ?_⟩
      · split
        · exact ⟨sess, by simp, rfl⟩
        · rename_i hkeep
          have hne : running sdk l t ≠ [] := by
            intro hnil
            simp [ih.none hnil, Time.isZero] at hkeep
          obtain ⟨x, hx, h⟩ := ih.mem hne
          exact ⟨x, mem_append_left _ hx, h⟩
      · -- a zero that is found so far says that there was no session yet
        have hzero : s.expiresNext = 0 → running sdk l t = [] := by
          intro hz
          by_contra hne
          obtain ⟨y, hy, h⟩ := ih.mem hne
          exact hl y (mem_append_left _ hy) (h.trans hz)
        simp only [Bool.or_eq_true, decide_eq_true_eq, Time.isZero, beq_iff_eq]
        rcases mem_append.mp hx with hx | hx
        · have hle := ih.le x hx
          split
          · rename_i h
            rcases h with hz | hlt
            · rw [hzero hz] at hx
              cases hx
            · lia
          · exact hle
        · rw [mem_singleton.mp hx]
          split
          · exact le_rfl
          · lia

/-! ### The sessions -/

theorem build_sessions (sdk : Sdk) (cfg : TraceAgentConfig) (t : Time) :
    (build sdk cfg t).sessions = sortByID (running sdk cfg.sessions t) := by
  simp [build, foldl_join_sessions, floor, running]

theorem mem_sessions : sess ∈ (build sdk cfg t).sessions ↔ sess ∈ running sdk cfg.sessions t := by
  rw [build_sessions]
  exact mem_insertionSort _

/-- The trimmed ids of a config that are not blank. -/
def trimmedIDs (cfg : TraceAgentConfig) : List String :=
  (cfg.sessions.map fun sess => trimSpace sess.id).filter (· ≠ "")

theorem usable_ids (sdk : Sdk) (l : List TraceAgentSession) :
    (l.filterMap (normalizeSession sdk)).map (·.id) =
      (l.map fun sess => trimSpace sess.id).filter (· ≠ "") := by
  induction l with
  | nil => rfl
  | cons raw l ih =>
    by_cases hid : trimSpace raw.id = ""
    · simpa [normalizeSession, hid] using ih
    · simpa [normalizeSession, hid] using ih

theorem eq_of_id (hids : (trimmedIDs cfg).Nodup) {a b : TraceAgentSession}
    (ha : a ∈ running sdk cfg.sessions t) (hb : b ∈ running sdk cfg.sessions t') (h : a.id = b.id) :
    a = b := by
  have hnodup : ((cfg.sessions.filterMap (normalizeSession sdk)).map (·.id)).Nodup := by
    rw [usable_ids]
    exact hids
  exact inj_on_of_nodup_map hnodup (mem_of_mem_filter ha) (mem_of_mem_filter hb) h

theorem running_filter (l : List TraceAgentSession) (h : t ≤ t') :
    (running sdk l t).filter (t' < ·.expiresAt) = running sdk l t' := by
  unfold running
  rw [filter_filter]
  refine filter_congr fun sess _ => ?_
  by_cases ht : t' < sess.expiresAt
  · simp [ht, lt_of_le_of_lt h ht]
  · simp [ht]

theorem sessions_cut (hids : (trimmedIDs cfg).Nodup) (h : t ≤ t') :
    (build sdk cfg t).sessions.filter (t' < ·.expiresAt) = (build sdk cfg t').sessions := by
  have hperm : ((build sdk cfg t).sessions.filter (t' < ·.expiresAt)).Perm
      (build sdk cfg t').sessions := by
    rw [build_sessions, build_sessions]
    refine ((perm_insertionSort _ _).filter _).trans ?_
    rw [running_filter cfg.sessions h]
    exact (perm_insertionSort _ _).symm
  refine hperm.eq_of_pairwise (fun a b ha hb hab hba => ?_)
    ((build_sorted sdk cfg t).filter _) (build_sorted sdk cfg t')
  exact eq_of_id hids (mem_sessions.mp (mem_of_mem_filter ha)) (mem_sessions.mp hb)
    (String.le_antisymm hab hba)

/-! ### Rebuilding -/

theorem floor_valid (sdk : Sdk) (policy : TracePolicy) :
    sdk.validTraceLevel (floor sdk policy).subscribe := by
  unfold floor
  dsimp only
  split
  · exact normalizeLevel_valid sdk _
  · exact sdk.info_valid

theorem running_congr (hsess : (build sdk cfg t).sessions = (build sdk cfg' t').sessions)
    (sess : TraceAgentSession) :
    sess ∈ running sdk cfg.sessions t ↔ sess ∈ running sdk cfg'.sessions t' := by
  rw [← mem_sessions, ← mem_sessions, hsess]

section

variable (hord : LevelsOrdered sdk) (hfloor : floor sdk cfg.policy = floor sdk cfg'.policy)
  (hsess : (build sdk cfg t).sessions = (build sdk cfg' t').sessions)

include hord hfloor hsess

theorem subscribe_congr : (build sdk cfg t).subscribe = (build sdk cfg' t').subscribe := by
  have ha := foldl_greatest (floor_valid sdk cfg.policy) cfg.sessions t
  have hb := foldl_greatest (floor_valid sdk cfg'.policy) cfg'.sessions t'
  rw [hfloor] at ha
  refine Greatest.unique hord (running_congr hsess) (floor_valid sdk _)
    (fun sess hs => running_valid hs) ?_ hb
  rw [← hfloor] at ha ⊢
  exact ha

/-- A set is determined by its floor and its sessions, where each of these has a deadline. -/
theorem build_congr (hzero : ∀ sess ∈ (build sdk cfg t).sessions, sess.expiresAt ≠ 0) :
    build sdk cfg t = build sdk cfg' t' := by
  have hsub := subscribe_congr hord hfloor hsess
  have hnext : (build sdk cfg t).expiresNext = (build sdk cfg' t').expiresNext := by
    refine Earliest.unique (running_congr hsess)
      (foldl_earliest rfl fun sess hs => hzero sess (mem_sessions.mpr hs))
      (foldl_earliest rfl fun sess hs => hzero sess ?_)
    rw [hsess]
    exact mem_sessions.mpr hs
  have hnode : (build sdk cfg t).nodeEnabled = (build sdk cfg' t').nodeEnabled ∧
      (build sdk cfg t).nodeLevel = (build sdk cfg' t').nodeLevel := by
    simp only [build_nodeEnabled, build_nodeLevel]
    exact ⟨congrArg PolicySet.nodeEnabled hfloor, congrArg PolicySet.nodeLevel hfloor⟩
  generalize build sdk cfg t = a at hsub hnext hnode hsess
  generalize build sdk cfg' t' = b at hsub hnext hnode hsess
  cases a
  cases b
  simp_all

end

/-- The sets that agree with that of the server's config at a time, but for what is folded over the
sessions. -/
structure Follows (sdk : Sdk) (cfg : TraceAgentConfig) (t : Time) (s : PolicySet) : Prop where
  nodeEnabled : s.nodeEnabled = cfg.policy.enabled
  nodeLevel : s.nodeLevel = normalizeLevel sdk cfg.policy.level
  sessions : s.sessions = (build sdk cfg t).sessions

theorem follows_build (sdk : Sdk) (cfg : TraceAgentConfig) (t : Time) :
    Follows sdk cfg t (build sdk cfg t) := ⟨build_nodeEnabled .., build_nodeLevel .., rfl⟩

theorem Follows.floor_eq (h : Follows sdk cfg t s) : floor sdk s.policy = floor sdk cfg.policy :=
  floor_policy sdk h.nodeEnabled h.nodeLevel

section

variable (hids : (trimmedIDs cfg).Nodup) (h : Follows sdk cfg t s) (ht : t ≤ t')

include hids h ht

theorem Follows.rebuild_sessions : (rebuild sdk s t').sessions = (build sdk cfg t').sessions := by
  have hnormal : s.Normal sdk := by
    intro sess hs
    rw [h.sessions] at hs
    exact build_normal sdk cfg t sess hs
  have hsorted : s.sessions.Pairwise fun a b => a.id ≤ b.id := by
    rw [h.sessions]
    exact build_sorted sdk cfg t
  unfold rebuild activeSessions
  rw [PolicySet.rebuild_sessions hnormal hsorted, h.sessions, sessions_cut hids ht]

theorem Follows.rebuild : Follows sdk cfg t' (rebuild sdk s t') := by
  have hfloor := h.floor_eq
  refine ⟨?_, ?_, h.rebuild_sessions hids ht⟩
  · exact (build_nodeEnabled ..).trans (congrArg PolicySet.nodeEnabled hfloor)
  · exact (build_nodeLevel ..).trans (congrArg PolicySet.nodeLevel hfloor)

end

theorem Follows.rebuild_eq (hord : LevelsOrdered sdk) (hids : (trimmedIDs cfg).Nodup)
    (h : Follows sdk cfg t s) (ht : t ≤ t')
    (hzero : ∀ sess ∈ (build sdk cfg t').sessions, sess.expiresAt ≠ 0) :
    PolicySet.rebuild sdk s t' = build sdk cfg t' := by
  have hsess := h.rebuild_sessions hids ht
  exact build_congr hord h.floor_eq hsess (hsess ▸ hzero)

/-- Rebuilding at one time after the other. -/
def rebuilds (sdk : Sdk) (s : PolicySet) (times : List Time) : PolicySet :=
  times.foldl (PolicySet.rebuild sdk) s

theorem pairwise_concat_times (h : (t :: (times ++ [t'])).Pairwise (· ≤ ·)) :
    (t :: times).Pairwise (· ≤ ·) ∧ times.getLastD t ≤ t' := by
  rw [← cons_append] at h
  obtain ⟨hbefore, -, hlast⟩ := pairwise_append.mp h
  refine ⟨hbefore, hlast _ ?_ t' (mem_singleton_self t')⟩
  rw [getLastD_eq_getLast?]
  rcases hl : times.getLast? with - | u
  · exact mem_cons_self
  · exact mem_cons_of_mem _ (mem_of_getLast? hl)

theorem follows_rebuilds (hids : (trimmedIDs cfg).Nodup) (hmono : (t :: times).Pairwise (· ≤ ·)) :
    Follows sdk cfg (times.getLastD t) (rebuilds sdk (build sdk cfg t) times) := by
  induction times using reverseRecOn with
  | nil => exact follows_build sdk cfg t
  | append_singleton times t' ih =>
    obtain ⟨hbefore, hle⟩ := pairwise_concat_times hmono
    rw [rebuilds, foldl_append, getLastD_concat]
    exact (ih hbefore).rebuild hids hle

/-- **Local rebuilds equal the server's.**  From the set of a config with distinct ids, rebuilding
at later and later times gives the set of the config at the last of them: the same floor, sessions,
level, next deadline, and so the same decisions. This holds where no usable session without a
deadline is still running at that time, which is never the case from the zero time on. -/
theorem rebuilds_eq_build (hord : LevelsOrdered sdk) {cfg : TraceAgentConfig}
    (hids : (trimmedIDs cfg).Nodup) {t : Time} {times : List Time}
    (hmono : (t :: times).Pairwise (· ≤ ·))
    (hzero : ∀ raw ∈ cfg.sessions, trimSpace raw.id ≠ "" → raw.expiresAt = 0 →
      0 ≤ times.getLastD t) :
    let s := rebuilds sdk (build sdk cfg t) times
    let built := build sdk cfg (times.getLastD t)
    s.nodeEnabled = built.nodeEnabled ∧ s.nodeLevel = built.nodeLevel ∧
      s.sessions = built.sessions ∧ s.subscribeLevel sdk = built.subscribeLevel sdk ∧
      s.expiresNext = built.expiresNext ∧
      ∀ l user dstHost, s.match_ sdk l user dstHost = built.match_ sdk l user dstHost := by
  intro s built
  have hrunning : ∀ sess ∈ built.sessions, sess.expiresAt ≠ 0 := by
    intro sess hs h0
    obtain ⟨⟨raw, hraw, hn⟩, hlt⟩ := mem_build.mp hs
    obtain ⟨hid, hexp⟩ := normalizeSession_fields hn
    have := hzero raw hraw (hid ▸ normalizeSession_id_ne hn) (hexp ▸ h0)
    lia
  have heq : s = built := by
    rcases eq_nil_or_concat times with rfl | ⟨before, t', rfl⟩
    · rfl
    · rw [concat_eq_append] at hmono
      obtain ⟨hbefore, hle⟩ := pairwise_concat_times hmono
      simp only [s, built, rebuilds, concat_eq_append, foldl_append,
        getLastD_concat] at hrunning ⊢
      exact (follows_rebuilds hids hbefore).rebuild_eq hord hids hle hrunning
  rw [heq]
  exact ⟨rfl, rfl, rfl, rfl, rfl, fun _ _ _ => rfl⟩

theorem levelsOrdered_ascii : LevelsOrdered asciiSdk := by
  intro a b ha hb hab hba
  simp only [asciiSdk, decide_eq_true_eq] at ha hb hab hba
  exact (idxOf_inj ha).mp (le_antisymm hba hab)

/-- Two sessions, the later id first, each with a deadline. -/
def bothBounded : TraceAgentConfig where
  sessions :=
    [{ id := "b", level := "debug", expiresAt := 5 }, { id := "a", level := "info", expiresAt := 9 }]

theorem rebuilds_eq_build_bothBounded :
    (trimmedIDs bothBounded).Nodup ∧
      (rebuilds asciiSdk (build asciiSdk bothBounded 1) [2, 6]).expiresNext = 9 := by
  have hids : (trimmedIDs bothBounded).Nodup := by decide +kernel
  have hmono : ([1, 2, 6] : List Time).Pairwise (· ≤ ·) := by decide
  have hsame := rebuilds_eq_build levelsOrdered_ascii hids hmono (by decide)
  refine ⟨hids, hsame.2.2.2.2.1.trans ?_⟩
  decide +kernel

/-- The same two sessions, the second without a deadline. -/
def oneUnbounded : TraceAgentConfig where
  sessions :=
    [{ id := "b", level := "debug", expiresAt := 5 }, { id := "a", level := "info", expiresAt := 0 }]

/-- Before the zero time a session without a deadline is not dropped, and its zero is taken for "no
deadline yet" by whatever session comes after it: the next deadline depends on the order. -/
theorem unbounded_session_reorders :
    (trimmedIDs oneUnbounded).Nodup ∧
      (build asciiSdk oneUnbounded (-1)).expiresNext = 0 ∧
      (rebuilds asciiSdk (build asciiSdk oneUnbounded (-1)) [-1]).expiresNext = 5 := by
  refine ⟨?_, ?_, ?_⟩ <;> decide +kernel

end LatticeAgent.Trace.PolicySet
