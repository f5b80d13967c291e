import LatticeAgent.Trace.Rebuilds

/-! # The subscription and the policy

The agent subscribes at one level for the whole node and then keeps lines by the node floor and by
session. The level is the greatest of those asked for (`subscribeLevel_greatest`). So it covers
every line that is kept, is no more verbose than needed and, like every decision, does not depend
on the order of the sessions (`subscription_covers_policy`). -/

namespace LatticeAgent.Trace.PolicySet

open List

variable {sdk : Sdk} {cfg : TraceAgentConfig} {t : Time}

theorem subscribeLevel_eq (sdk : Sdk) (cfg : TraceAgentConfig) (t : Time) :
    (build sdk cfg t).subscribeLevel sdk = (build sdk cfg t).subscribe := by
  have hgreatest := foldl_greatest (floor_valid sdk cfg.policy) cfg.sessions t
  have hvalid := hgreatest.valid (floor_valid sdk cfg.policy) fun sess hs => running_valid hs
  refine if_neg fun hempty => ?_
  rw [show (cfg.sessions.foldl (join sdk t) (floor sdk cfg.policy)).subscribe = "" from hempty,
    sdk.empty_not_valid] at hvalid
  exact Bool.false_ne_true hvalid

theorem subscribeLevel_greatest (sdk : Sdk) (cfg : TraceAgentConfig) (t : Time) :
    Greatest sdk (floor sdk cfg.policy).subscribe (running sdk cfg.sessions t)
      ((build sdk cfg t).subscribeLevel sdk) := by
  rw [subscribeLevel_eq]
  exact foldl_greatest (floor_valid sdk cfg.policy) cfg.sessions t

/-- A line that is kept is within the level of the node floor or of a session. -/
theorem level_covers {l : Line} {user dstHost : String}
    (h : ((build sdk cfg t).match_ sdk l user dstHost).keep) :
    sdk.traceLevelAtLeast ((build sdk cfg t).subscribeLevel sdk)
      (normalizeLevel sdk l.level) := by
  have hgreatest := subscribeLevel_greatest sdk cfg t
  have hvalid := hgreatest.valid (floor_valid sdk cfg.policy) fun sess hs => running_valid hs
  have hline := normalizeLevel_valid sdk l.level
  unfold match_ at h
  split at h
  · cases h
  · simp only [Bool.or_eq_true, Bool.and_eq_true, build_nodeEnabled, build_nodeLevel] at h
    rcases h with ⟨hon, hfloor⟩ | hfound
    · refine sdk.atLeast_trans _ _ _ hvalid (floor_valid sdk cfg.policy) hline hgreatest.ge_floor ?_
      simpa [floor, hon] using hfloor
    · rw [foldl_matchStep, nil_append] at hfound
      simp only [Bool.not_eq_true', isEmpty_eq_false_iff, ne_eq, map_eq_nil_iff] at hfound
      obtain ⟨sess, hs⟩ := exists_mem_of_ne_nil _ hfound
      simp only [mem_filter, Bool.and_eq_true] at hs
      have hrunning := mem_sessions.mp hs.1
      exact sdk.atLeast_trans _ _ _ hvalid (running_valid hrunning) hline
        (hgreatest.ge sess hrunning) hs.2.1

/-- With distinct ids, the order of the sessions is lost when they are sorted. -/
theorem sessions_perm (sdk : Sdk) {l : List TraceAgentSession} (hperm : cfg.sessions.Perm l)
    (hids : (trimmedIDs cfg).Nodup) (t : Time) :
    (build sdk { cfg with sessions := l } t).sessions = (build sdk cfg t).sessions := by
  have hrunning : (running sdk cfg.sessions t).Perm (running sdk l t) :=
    (hperm.filterMap _).filter _
  have hsorted := build_sorted sdk { cfg with sessions := l } t
  have hsessions : (build sdk { cfg with sessions := l } t).sessions.Perm
      (build sdk cfg t).sessions := by
    rw [build_sessions, build_sessions]
    exact ((perm_insertionSort _ _).trans hrunning.symm).trans (perm_insertionSort _ _).symm
  refine hsessions.eq_of_pairwise (fun a b ha hb hab hba => ?_) hsorted (build_sorted sdk cfg t)
  exact eq_of_id hids (mem_sessions.mp (hsessions.mem_iff.mp ha)) (mem_sessions.mp hb)
    (String.le_antisymm hab hba)

/-- **The subscription covers everything the policy can keep**, is no more verbose than what was
asked for, and does not depend on the order of the sessions; nor does any decision. -/
theorem subscription_covers_policy (hord : LevelsOrdered sdk) (cfg : TraceAgentConfig) (t : Time) :
    (∀ l user dstHost, ((build sdk cfg t).match_ sdk l user dstHost).keep = true →
      sdk.traceLevelAtLeast ((build sdk cfg t).subscribeLevel sdk)
        (normalizeLevel sdk l.level) = true) ∧
    (∀ top, sdk.traceLevelAtLeast top sdk.traceLevelInfo = true →
      (cfg.policy.enabled = true →
        sdk.traceLevelAtLeast top (normalizeLevel sdk cfg.policy.level) = true) →
      (∀ sess ∈ (build sdk cfg t).activeSessions,
        sdk.traceLevelAtLeast top sess.level = true) →
      sdk.traceLevelAtLeast top ((build sdk cfg t).subscribeLevel sdk) = true) ∧
    ∀ sessions, cfg.sessions.Perm sessions → (trimmedIDs cfg).Nodup →
      (build sdk { cfg with sessions } t).subscribeLevel sdk =
          (build sdk cfg t).subscribeLevel sdk ∧
        ∀ l user dstHost, (build sdk { cfg with sessions } t).match_ sdk l user dstHost =
          (build sdk cfg t).match_ sdk l user dstHost := by
  refine ⟨fun l user dstHost hkeep => level_covers hkeep, fun top hinfo hnode hsessions => ?_,
    fun sessions hperm hids => ?_⟩
  · rcases (subscribeLevel_greatest sdk cfg t).mem with hfloor | ⟨sess, hs, hlevel⟩
    · rw [hfloor]
      cases hon : cfg.policy.enabled with
      | false => simpa [floor, hon] using hinfo
      | true => simpa [floor, hon] using hnode hon
    · rw [← hlevel]
      exact hsessions sess (mem_sessions.mpr hs)
  · have hsame := sessions_perm sdk hperm hids t
    refine ⟨?_, fun l user dstHost => ?_⟩
    · rw [subscribeLevel_eq, subscribeLevel_eq]
      exact subscribe_congr hord rfl hsame
    · simp only [match_, enabled, hsame, build_nodeEnabled, build_nodeLevel]

/-- Two sessions on a node whose floor is off. -/
def twoSessions : TraceAgentConfig where
  sessions := [⟨"s1", " Debug", [], [], [], 9⟩, ⟨"s2", "warn", [], [], [], 9⟩]

theorem subscription_covers_twoSessions :
    (build asciiSdk twoSessions 1).subscribeLevel asciiSdk = "debug" ∧
      asciiSdk.traceLevelAtLeast ((build asciiSdk twoSessions 1).subscribeLevel asciiSdk)
        (normalizeLevel asciiSdk "DEBUG") = true ∧
      (build asciiSdk { twoSessions with sessions := twoSessions.sessions.reverse } 1).subscribeLevel
          asciiSdk = (build asciiSdk twoSessions 1).subscribeLevel asciiSdk :=
  have h := subscription_covers_policy levelsOrdered_ascii twoSessions 1
  ⟨by decide +kernel, h.1 { level := "DEBUG" } "" "" (by decide +kernel),
    (h.2.2 _ (Perm.swap _ _ _) (by decide +kernel)).1⟩

end LatticeAgent.Trace.PolicySet
