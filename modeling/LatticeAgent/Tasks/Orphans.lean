import LatticeAgent.Linechain.Journals
import LatticeAgent.Outbox.Entries
import LatticeAgent.Tasks.AtMostOnce

/-! # Journals and outbox entries across power loss

A linechain journal without its outbox entry blocks the agent for good: no poll gets past
`captureLinechainAuthority` then. The two directories are synced separately, so this is a
matter of their order: the entry is durable before the helper can write a journal, and it
is removed only when the journal is gone.

`Guarded K`: every journal belongs to a lease of `K`, none is durable only, and the outbox
holds all of `K` durably. A poll that returns a batch, and each task of the batch, leaves
no journal at all (`Free`), and an error leaves a guarded world behind. The removal of a
journal is the weak point: `Cleanup` unlinks it and then syncs the directory, and where that
sync fails nothing syncs it again before the entry is removed. So `journal_has_entry` holds
as long as the directory sync of `Cleanup` does not fail, and `journal_orphaned` is a run in
which it fails once. -/

namespace LatticeAgent.Tasks

open CutProg Outbox Linechain

/-- The directory sync of `Cleanup` does not fail. -/
def Choice.CleanupSynced (c : Choice) : Prop := c.host.syncDirectory = none

section guarded
variable (cfg : Config)

/-- A journal under its own name, for a lease of `K`. -/
def Named (K : Set Outbox.Lease) (name taskID leaseID : String) : Prop :=
  name = Linechain.journalKey cfg.linechain taskID leaseID ∧ (taskID, leaseID) ∈ K

/-- Every journal belongs to a lease of `K`, and the outbox holds these leases. -/
structure Guarded (K : Set Outbox.Lease) (w : World) : Prop where
  host : w.host.Kept (Named cfg K)
  box : w.box.Holds cfg.outbox protocolV2 K

/-- What is left of it where a process is cut: a journal may be durable only. -/
def Covered (w : World) : Prop :=
  ∃ K, w.host.Within (Named cfg K) ∧ w.box.Holds cfg.outbox protocolV2 K

/-- There is no journal, visible or durable. -/
def Free (w : World) : Prop := w.host.Kept fun _ _ _ => False

variable {cfg} {K : Set Outbox.Lease} {w : World} {α : Type}

theorem Guarded.covered (h : Guarded cfg K w) : Covered cfg w := ⟨K, h.host.within, h.box⟩

theorem Free.guarded (h : Free w) : Guarded cfg ∅ w :=
  ⟨h.mono fun _ _ _ hf => hf.elim, ⟨fun _ hk => absurd hk (Set.notMem_empty _),
    fun _ hk => absurd hk (Set.notMem_empty _)⟩⟩

theorem Free.covered (h : Free w) : Covered cfg w := Guarded.covered h.guarded

/-! ### Programs of one part -/

variable {p : Linechain.HostProg α} {rest : List String}

theorem wp_onHost {Q : α → Linechain.Host → Prop} {E : String → Linechain.Host → Prop}
    {C : Linechain.Host → Prop} {Q' : α → World → Prop} {E' : String → World → Prop}
    {C' : World → Prop} (h : wp (fun c => c.syncDirectory = none) p Q E C w.host)
    (hQ : ∀ a h, Q a h → Q' a { w with host := h }) (hE : ∀ e h, E e h → E' e { w with host := h })
    (hC : ∀ h, C h → C' { w with host := h }) : wp Choice.CleanupSynced (onHost p) Q' E' C' w :=
  wp_embed (fun _ hc => hc) h hQ hE hC

theorem onHost_guarded
    (hp : Linechain.KeepsJournals (fun c => c.syncDirectory = none) (Named cfg K) p) :
    Keeps Choice.CleanupSynced (Guarded cfg K) (Guarded cfg K) (onHost p) :=
  fun w h => wp_onHost (hp w.host h.host) (fun _ _ hk => ⟨hk, h.box⟩) (fun _ _ hk => ⟨hk, h.box⟩)
    fun _ hk => ⟨hk, h.box⟩

theorem onBox_guarded {p : Outbox.StoreProg α}
    (hp : Outbox.KeepsEntries cfg.outbox protocolV2 K (fun _ => True) p) :
    Keeps Choice.CleanupSynced (Guarded cfg K) (Guarded cfg K) (onBox p) :=
  fun w h => wp_onBox (hp w.box h.box) (fun _ _ hb => ⟨h.host, hb⟩) (fun _ _ hb => ⟨h.host, hb⟩)
    fun _ hb => ⟨h.host, hb⟩

theorem onBox_free {p : Outbox.StoreProg α} : Keeps Choice.CleanupSynced Free Free (onBox p) :=
  keeps_frame (fun _ _ h => h) fun _ h => h

theorem wrapErr_keeps {p : AgentProg α} {I C : World → Prop} (hp : Keeps Choice.CleanupSynced I C p)
    (wrap : String → String) : Keeps Choice.CleanupSynced I C (wrapErr p wrap) :=
  fun w h => wp_wrapErr (hp w h)

theorem postResult_keeps {I : World → Prop} (hI : ∀ w ev, I w → I (w.record ev))
    (r : TaskResult) : Keeps Choice.CleanupSynced I I (postResult r) := by
  intro w h
  refine wp_step h fun c _ => ?_
  cases hp : c.post with
  | some e => exact hI _ _ h
  | none => exact hI _ _ (hI _ _ h)

theorem Guarded.record (h : Guarded cfg K w) (ev : Outbox.Event) :
    Guarded cfg K (w.record ev) := ⟨h.host, h.box.congr rfl⟩

theorem timeNow_free : Keeps Choice.CleanupSynced Free Free timeNow :=
  fun _ h => wp_timeNow h fun _ => h

/-! ### Recovery -/

/-- A recovery pass has still to visit the journals named in `rest`. -/
structure Visiting (cfg : Config) (K : Set Outbox.Lease) (rest : List String) (w : World) :
    Prop where
  host : w.host.Kept fun n t l => Named cfg K n t l ∧ n ∈ rest
  box : w.box.Holds cfg.outbox protocolV2 K

theorem Visiting.guarded (h : Visiting cfg K rest w) : Guarded cfg K w :=
  ⟨h.host.mono fun _ _ _ hn => hn.1, h.box⟩

theorem completeRecovered_visiting {names : List String} (r : TaskResult) :
    Keeps Choice.CleanupSynced (Visiting cfg K names) (Visiting cfg K names)
      (completeRecovered cfg r) := by
  have hbox : ∀ {α : Type} {p : Outbox.StoreProg α},
      Outbox.KeepsEntries cfg.outbox protocolV2 K (fun _ => True) p →
      Keeps Choice.CleanupSynced (Visiting cfg K names) (Visiting cfg K names) (onBox p) :=
    fun hp w h => wp_onBox (hp w.box h.box) (fun _ _ hb => ⟨h.host, hb⟩)
      (fun _ _ hb => ⟨h.host, hb⟩) fun _ hb => ⟨h.host, hb⟩
  refine keeps_bind (hbox (complete_holds r)) fun out => ?_
  split
  · exact keeps_ret
  · exact keeps_ite (fun _ => hbox confirmDurability_holds) fun _ => keeps_fail

theorem recoverAndComplete_visiting {m : Linechain.Manager} {name : String}
    (expected : Option Linechain.RecoveryAuthority) (h : Visiting cfg K (name :: rest) w) :
    wp Choice.CleanupSynced
      (recoverAndComplete cfg.linechain m onHost (completeRecovered cfg) name cfg.nodeID
        expected)
      (fun _ => Visiting cfg K rest) (fun _ => Guarded cfg K) (Covered cfg) w := by
  refine wp_bind (wp_onHost (recoverOne_kept _ _ _ w.host h.host) (fun j h₁ hk₁ => ?_)
    (fun _ h₁ hk₁ => ⟨hk₁.mono fun _ _ _ hn => hn.1, h.box⟩)
    fun h₁ hk₁ => ⟨K, hk₁.within.mono fun _ _ _ hn => hn.1, h.box⟩)
  obtain ⟨hk₁, ⟨⟨hname, -⟩, -⟩, hres⟩ := hk₁
  obtain ⟨r, hr⟩ := Option.isSome_iff_exists.mp hres
  simp only [hr]
  refine wp_seq (completeRecovered_visiting r _ ⟨hk₁, h.box⟩) (fun _ w₂ h₂ => ?_)
    (fun _ _ he => he.guarded)
    fun _ hc => hc.guarded.covered
  refine wp_onHost (cleanup_kept (fun _ hc => hc) j.taskID j.leaseID h₂.host)
    (fun _ h₃ hk₃ => ⟨hk₃.mono fun n t l hn => ?_, h₂.box⟩)
    (fun _ h₃ hk₃ => ⟨hk₃.mono fun _ _ _ hn => hn.1, h₂.box⟩)
    fun h₃ hk₃ => ⟨K, hk₃.mono fun _ _ _ hn => hn.1, h₂.box⟩
  obtain ⟨⟨hnamed, hmem⟩, hne⟩ := hn
  rw [← hname] at hne
  exact ⟨hnamed, (List.mem_cons.mp hmem).resolve_left hne⟩

/-- **A recovery pass that succeeds leaves no journal.** -/
theorem requireLinechainRecovered_free (m : Linechain.Manager) (h : Guarded cfg K w) :
    wp Choice.CleanupSynced (requireLinechainRecovered cfg m) (fun _ => Free)
      (fun _ => Guarded cfg K) (Covered cfg) w := by
  have hcapture : Keeps Choice.CleanupSynced (Guarded cfg K) (Guarded cfg K)
      (captureLinechainAuthority cfg m) :=
    keeps_bind (onBox_guarded snapshot_holds) fun _ =>
      keeps_bind (onHost_guarded snapshot_kept) fun _ => keeps_lift
  refine wp_seq (hcapture w h) (fun authority w₁ h₁ => ?_) (fun _ _ he => he)
    fun _ hc => hc.covered
  refine wp_bind (wp_onHost (readDir_kept h₁.host) (fun names h₂ hk₂ => ?_)
    (fun _ _ hk => ⟨hk, h₁.box⟩) fun _ hk => ⟨K, hk.within, h₁.box⟩)
  refine wp_weaken (wp_forEach (Visiting cfg K) ⟨hk₂, h₁.box⟩ fun name rest w₃ h₃ => ?_)
    (fun _ w₃ h₃ => h₃.host.mono fun _ _ _ hn => by simp at hn)
  refine wp_bind (wp_onHost (expectedAuthority_kept name _ w₃.host h₃.host)
    (fun expected h₄ hk₄ => ?_) (fun _ h₄ hk₄ => ⟨hk₄.mono fun _ _ _ hn => hn.1, h₃.box⟩)
    fun h₄ hk₄ => ⟨K, hk₄.within.mono fun _ _ _ hn => hn.1, h₃.box⟩)
  exact recoverAndComplete_visiting expected ⟨hk₄, h₃.box⟩

/-- The entries an upload removes are none of `K`: retention spares them, or there are none. -/
theorem flushTaskResultsRetain_guarded {retain : Bool} (hK : retain = false → K = ∅) :
    Keeps Choice.CleanupSynced (Guarded cfg K) (Guarded cfg K)
      (flushTaskResultsRetain cfg retain) := by
  intro w h
  refine wp_bind (wp_wrapErr (wp_onBox (pending_holds h.box) (fun es b hb => ?_)
    (fun _ _ hb => ⟨h.host, hb⟩) fun _ hb => ⟨h.host, hb⟩))
  obtain ⟨hbox, hother⟩ := hb
  refine wp_weaken (wp_forEach (fun rest w => Guarded cfg K w ∧ ∀ e ∈ rest,
    e.durableProtocol ≠ protocolV2 → ∀ k ∈ K,
      entryKey cfg.outbox k.1 k.2 ≠ e.key cfg.outbox) ⟨⟨h.host, hbox⟩, hother⟩
    fun e rest w₁ h₁ => ?_) (fun _ _ hw => hw.1)
  obtain ⟨hg, hother⟩ := h₁
  have hrest := fun e' he' => hother e' (List.mem_cons_of_mem e he')
  unfold flushEntry
  split
  · exact wp_fail hg
  refine wp_then (wrapErr_keeps (postResult_keeps (fun _ _ hg => hg.record _) _) _ w₁ hg)
    (fun _ w₂ hg₂ => ?_)
  split_ifs with hretain
  · exact wp_ret ⟨hg₂, hrest⟩
  · have hne : ∀ k ∈ K, entryKey cfg.outbox k.1 k.2 ≠ e.key cfg.outbox := by
      cases retain with
      | false =>
        rw [hK rfl]
        exact fun k hk => absurd hk (Set.notMem_empty k)
      | true => exact hother e List.mem_cons_self (by simpa using hretain)
    exact wp_weaken (wrapErr_keeps (onBox_guarded (remove_holds hne)) _ w₂ hg₂)
      (fun _ _ hg => ⟨hg, hrest⟩)

theorem flushTaskResults_free : Keeps Choice.CleanupSynced Free Free (flushTaskResults cfg) := by
  refine keeps_bind (wrapErr_keeps onBox_free _) fun es => keeps_forEach (fun e => ?_) es
  unfold flushEntry
  split
  · exact keeps_fail
  · refine keeps_bind (wrapErr_keeps (postResult_keeps (fun _ _ h => h) _) _) fun _ => ?_
    exact keeps_ite (fun _ => keeps_ret) fun _ => wrapErr_keeps onBox_free _

/-- Some set of leases is guarded: where an activity of the agent may end. -/
def Quiet (cfg : Config) (w : World) : Prop := ∃ K, Guarded cfg K w

theorem Free.quiet (h : Free w) : Quiet cfg w := ⟨∅, h.guarded⟩

theorem Quiet.covered (h : Quiet cfg w) : Covered cfg w :=
  let ⟨_, h⟩ := h
  h.covered

/-- What a part of the agent's loop leaves when it returns; one that fails leaves as much as the
next poll needs. -/
abbrev Ends (cfg : Config) (p : AgentProg α) (Q : World → Prop) (w : World) : Prop :=
  wp Choice.CleanupSynced p (fun _ => Q) (fun _ => Quiet cfg) (Covered cfg) w

theorem Free.ends {p : AgentProg α} (h : Free w) (hp : Keeps Choice.CleanupSynced Free Free p) :
    Ends cfg p Free w :=
  wp_mono (hp w h) (fun _ _ h => h) (fun _ _ he => he.quiet) fun _ hc => hc.covered

/-- **A poll that returns a batch leaves no journal.** -/
theorem pollTasks_free (hm : cfg.manager.isSome) (h : Quiet cfg w) :
    Ends cfg (pollTasks cfg) Free w := by
  obtain ⟨m, hm⟩ := Option.isSome_iff_exists.mp hm
  obtain ⟨K, h⟩ := h
  have hrecover : withManager cfg (requireLinechainRecovered cfg) =
      requireLinechainRecovered cfg m := by
    unfold withManager
    rw [hm]
  unfold pollTasks
  rw [hrecover]
  refine wp_seq (requireLinechainRecovered_free m h) (fun _ w₁ h₁ => ?_) (fun _ _ he => ⟨K, he⟩)
    fun _ hc => hc
  refine wp_mono (keeps_bind (wrapErr_keeps onBox_free _) (fun _ => ?_) w₁ h₁)
    (fun _ _ h => h) (fun _ _ he => he.quiet) fun _ hc => hc.covered
  refine keeps_bind flushTaskResults_free fun _ w₂ h₂ => wp_step h₂ fun c _ => ?_
  cases c.fetch with
  | ok | error => exact h₂

variable {t : LeasedAgentTask}

theorem runTask_free (ht : isLinechainTask t = false) :
    Keeps Choice.CleanupSynced Free Free (runTask cfg t) := by
  refine fun w h => wp_step h fun c _ => ?_
  show Free { w with host := _, box := _ }
  unfold Free
  rw [ht]
  exact h

theorem executePlain_free (ht : isLinechainTask t = false) :
    Keeps Choice.CleanupSynced Free Free (executePlain cfg t) :=
  keeps_bind (runTask_free ht) fun _ => keeps_bind timeNow_free fun _ =>
    wrapErr_keeps (postResult_keeps (fun _ _ h => h) _) _

theorem refuseLease_free (committed : Bool) (err : String) :
    Keeps Choice.CleanupSynced Free Free (refuseLease cfg t committed err) := by
  refine keeps_ite (fun _ => keeps_fail) fun _ => keeps_bind timeNow_free fun _ => ?_
  exact keeps_bind (wrapErr_keeps (postResult_keeps (fun _ _ h => h) _) _) fun _ => keeps_fail

theorem reportResult_free (ht : managed cfg t = false) (r : TaskResult) :
    Keeps Choice.CleanupSynced Free Free (reportResult cfg t r) := by
  refine keeps_bind onBox_free fun out => ?_
  split
  · refine keeps_ite (fun _ => keeps_bind (wrapErr_keeps onBox_free _) fun _ => ?_)
      fun _ => keeps_fail
    rw [ht]
    exact keeps_bind (wrapErr_keeps flushTaskResults_free _) fun _ => keeps_fail
  · rw [ht]
    exact flushTaskResults_free

theorem executeDurable_free (ht : isLinechainTask t = false) :
    Keeps Choice.CleanupSynced Free Free (executeDurable cfg t) := by
  have hm : managed cfg t = false := by simp [managed, ht]
  refine keeps_bind onBox_free fun out => ?_
  split
  · exact refuseLease_free _ _
  · refine keeps_ite (fun _ => keeps_ret) fun _ => keeps_bind (runTask_free ht) fun r => ?_
    rw [hm]
    exact reportResult_free hm _

/-! ### Linechain tasks -/

/-- The lease of a task. -/
abbrev LeasedAgentTask.lease (t : LeasedAgentTask) : Outbox.Lease := (t.task.id, t.task.leaseID)

theorem helperRuns_kept {h : Linechain.Host} (hk : h.Kept (Named cfg {t.lease}))
    (attempts : List (Bytes × List Linechain.Choice)) :
    (helperRuns cfg t.task attempts h).Kept (Named cfg {t.lease}) := by
  unfold helperRuns
  split
  · exact hk
  · rename_i m _
    induction attempts generalizing h with
    | nil => exact hk
    | cons a attempts ih =>
      refine ih ?_
      have happly := apply_kept (A := fun _ => True) (m := m)
        (P := Named cfg {t.lease}) ⟨rfl, rfl⟩ a.1 (linechainTaskScriptSHA cfg t.task.script)
      exact wp_after (happly h hk) (fun _ _ => trivial) (fun _ _ hk => hk) (fun _ _ hk => hk)
        fun _ hk => hk

theorem runTask_guarded (h : Free w) (hbox : w.box.Holds cfg.outbox protocolV2 {t.lease}) :
    Ends cfg (runTask cfg t) (Guarded cfg {t.lease}) w := by
  have hk : w.host.Kept (Named cfg {t.lease}) := h.mono fun _ _ _ hf => hf.elim
  refine wp_step h.covered fun c _ => ⟨?_, hbox.congr rfl⟩
  show Linechain.Host.Kept _ (if isLinechainTask t then _ else _)
  split_ifs
  · exact helperRuns_kept hk c.run.attempts
  · exact hk

theorem cleanupOrRetain_free (h : Guarded cfg {t.lease} w) (label : String)
    (replayable : String → String) :
    Ends cfg (cleanupOrRetain cfg t label replayable) Free w := by
  refine wp_bind (wp_attempt (wp_onHost
    (cleanup_kept (fun _ hc => hc) t.task.id t.task.leaseID h.host)
    (fun _ h₁ hk₁ => wp_ret (hk₁.mono fun n tid lid hn => ?_)) (fun _ h₁ hk₁ => ?_)
    fun h₁ hk₁ => ⟨_, hk₁, h.box⟩))
  · obtain ⟨⟨hname, hmem⟩, hne⟩ := hn
    obtain ⟨rfl, rfl⟩ := Prod.mk.inj (Set.mem_singleton_iff.mp hmem)
    exact hne hname
  · have hflush : Keeps Choice.CleanupSynced (Guarded cfg {t.lease}) _
        (flushTaskResultsRetain cfg true) :=
      flushTaskResultsRetain_guarded fun hc => Bool.noConfusion hc
    exact wp_seq (wrapErr_keeps hflush _ _ ⟨hk₁, h.box⟩) (fun _ _ hg => wp_fail ⟨_, hg⟩)
      (fun _ _ hg => ⟨_, hg⟩) fun _ hg => hg.covered

theorem completionFailed_quiet (ht : managed cfg t) (committed : Bool) (err : String)
    (h : Guarded cfg {t.lease} w) :
    Ends cfg (completionFailed cfg t committed err) Free w := by
  unfold completionFailed
  dsimp only
  split
  · refine wp_seq (wrapErr_keeps (onBox_guarded confirmDurability_holds) _ w h)
      (fun _ w₁ h₁ => ?_) (fun _ _ hg => ⟨_, hg⟩) fun _ hg => hg.covered
    refine wp_then (cleanupOrRetain_free h₁ _ _) (fun _ w₂ h₂ => ?_)
    exact wp_seq (wrapErr_keeps flushTaskResults_free _ w₂ h₂) (fun _ _ h => wp_fail h.quiet)
      (fun _ _ he => he.quiet) fun _ hc => hc.covered
  · exact wp_fail ⟨_, h⟩

theorem reportResult_quiet (ht : managed cfg t) (r : TaskResult) (h : Guarded cfg {t.lease} w) :
    Ends cfg (reportResult cfg t r) Free w := by
  refine wp_seq (onBox_guarded (complete_holds r) w h) (fun out w₁ h₁ => ?_)
    (fun _ _ hg => ⟨_, hg⟩) fun _ hg => hg.covered
  split
  · exact completionFailed_quiet ht _ _ h₁
  · rw [if_pos ht]
    exact wp_then (cleanupOrRetain_free h₁ _ _) fun _ _ h₂ => h₂.ends flushTaskResults_free

section

variable (hm : cfg.manager.isSome)

include hm

theorem executeDurable_quiet (ht : isLinechainTask t) (h : Free w) :
    Ends cfg (executeDurable cfg t) Free w := by
  have hproto : t.durableProtocol = protocolV2 := by
    simp only [isLinechainTask, Bool.and_eq_true, beq_iff_eq] at ht
    exact ht.2
  have hmt : managed cfg t := by simp [managed, hm, ht]
  have hbegin : wp (fun _ => True) (begin cfg.outbox t.task protocolV2) _ _ _ w.box :=
    begin_holds t.task
  unfold executeDurable
  rw [hproto]
  refine wp_bind (wp_onBox hbegin (fun out b hb => ?_) (fun _ _ he => he.elim) fun _ _ => ?_)
  · have hfree : Free { w with box := b } := h
    cases herr : out.err with
    | some err => exact hfree.ends (refuseLease_free _ _)
    | none =>
      dsimp only
      split_ifs with hc
      · exact wp_ret hfree
      refine wp_then (runTask_guarded hfree (hb herr (by simpa using hc))) (fun r w₁ h₁ => ?_)
      dsimp only
      rw [if_pos hmt]
      refine wp_seq (wrapErr_keeps (onHost_guarded (resolveAfterRun_kept _ _ _)) _ w₁ h₁)
        (fun r w₂ h₂ => reportResult_quiet hmt r h₂) (fun _ _ hg => ⟨_, hg⟩)
        fun _ hg => hg.covered
  · exact Free.covered h

/-- **One task of a batch.**  Without an error it leaves no journal. -/
theorem executeTask_free (h : Free w) : Ends cfg (executeTask cfg t) Free w := by
  refine wp_bind (wp_lift (fun _ _ => wp_bind (wp_lift (fun _ _ => ?_) fun _ _ => h.quiet))
    fun _ _ => h.quiet)
  split_ifs with hd
  · refine h.ends (executePlain_free ?_)
    simp only [isLinechainTask, Bool.and_eq_false_iff]
    exact .inl (by simpa using hd)
  · cases ht : isLinechainTask t with
    | true => exact executeDurable_quiet hm ht h
    | false => exact h.ends (executeDurable_free ht)

theorem executeTasks_quiet (ts : List LeasedAgentTask) (h : Free w) :
    Ends cfg (executeTasks cfg ts) (Quiet cfg) w := by
  induction ts generalizing w with
  | nil => exact wp_ret h.quiet
  | cons t ts ih =>
    refine wp_bind (wp_step h.covered fun c _ => ?_)
    simp only [outcome_ok]
    split_ifs
    · exact wp_ret h.quiet
    · exact wp_then (executeTask_free hm h) (fun _ _ h => ih h)

/-! ### Every run -/

theorem activity_quiet (a : Activity) :
    Keeps Choice.CleanupSynced (Quiet cfg) (Covered cfg) (a.prog cfg) := by
  intro w h
  cases a with
  | recover =>
    obtain ⟨m, hm⟩ := Option.isSome_iff_exists.mp hm
    obtain ⟨K, h⟩ := h
    unfold Activity.prog withManager
    rw [hm]
    exact wp_mono (requireLinechainRecovered_free m h) (fun _ _ h => h.quiet)
      (fun _ _ he => ⟨K, he⟩) fun _ hc => hc
  | cycle =>
    exact wp_then (pollTasks_free hm h) (fun ts _ h => executeTasks_quiet hm ts h)

/-- **One process**, cut anywhere. -/
theorem process_covered (acts : List Activity) (h : Covered cfg w) :
    Leaves Choice.CleanupSynced (process cfg acts) (fun _ => Covered cfg) (Covered cfg) w := by
  obtain ⟨K, hw, hb⟩ := h
  have hopen : wp (fun _ => True) (openStore cfg.outbox) _ _ _ w.box :=
    openStore_holds w.box hb
  refine wp_bind (wp_onBox hopen (fun _ b hb => ?_) (fun _ b hb => ⟨K, hw, hb⟩)
    fun b hb => ⟨K, hw, hb⟩)
  obtain ⟨m, hmm⟩ := Option.isSome_iff_exists.mp hm
  unfold withManager
  rw [hmm]
  refine wp_bind (wp_onHost (openManager_kept hw) (fun _ h₁ hk => ?_)
    (fun _ h₁ hk => ⟨K, hk, hb⟩) fun h₁ hk => ⟨K, hk, hb⟩)
  have hacts := keeps_forEach (fun a => keeps_bind (keeps_attempt (activity_quiet hm a)) fun _ =>
    keeps_pure (a := ())) acts
  exact wp_mono (hacts _ ⟨K, hk, hb⟩) (fun _ _ h => h.covered) (fun _ _ he => he.covered)
    fun _ hc => hc

end

end guarded

/-- One life of the agent as `main` starts it, always with a manager, and how it ended: the
process was cut, or the node lost power. -/
structure Era where
  nodeID : String
  linechainReady : Bool
  manager : Linechain.Manager
  acts : List Activity
  script : List Choice
  powerLost : Bool

/-- The two directories after a power loss. -/
def World.powerLoss (w : World) : World :=
  { host := { w.host with txn := w.host.txn.powerLoss },
    box := { w.box with dir := w.box.dir.powerLoss } }

def Era.life (e : Era) : Lifetime :=
  { nodeID := e.nodeID, linechainReady := e.linechainReady, manager := some e.manager,
    acts := e.acts, script := e.script }

/-- What an era leaves behind. -/
def Era.after (cfg : Config) (w : World) (e : Era) : World :=
  if e.powerLost then (e.life.after cfg w).powerLoss else e.life.after cfg w

/-- A node on which neither directory has a file. -/
def emptyNode (files : Linechain.Path → Option Bytes) : World :=
  { host := ⟨files, ⟨⟨∅, fun _ _ => none⟩, ⟨∅, fun _ _ => none⟩⟩⟩, box := ⟨⟨∅, ∅⟩, false, []⟩ }

theorem Covered.powerLoss {cfg : Config} {w : World} (h : Covered cfg w) :
    Covered cfg w.powerLoss := by
  obtain ⟨K, hw, hb⟩ := h
  refine ⟨K, fun name j hj => ?_, ⟨hb.durable, hb.durable⟩⟩
  exact hw name j (.inr (by simpa [World.powerLoss] using hj))

theorem eras_covered {cfg : Config} {w : World} (h : Covered cfg w) (eras : List Era)
    (hsync : ∀ e ∈ eras, ∀ c ∈ e.script, c.CleanupSynced) :
    Covered cfg (eras.foldl (Era.after cfg) w) := by
  induction eras generalizing w with
  | nil => exact h
  | cons e eras ih =>
    have hlife : Covered cfg (e.life.after cfg w) :=
      wp_after (I := Covered cfg) (process_covered (by rfl) e.acts h)
        (hsync e List.mem_cons_self) (fun _ _ h => h) (fun _ _ h => h) fun _ h => h
    refine ih ?_ fun e' he' => hsync e' (List.mem_cons_of_mem _ he')
    unfold Era.after
    split_ifs
    · exact hlife.powerLoss
    · exact hlife

theorem emptyNode_covered (cfg : Config) (files : Linechain.Path → Option Bytes) :
    Covered cfg (emptyNode files) := by
  have hfree : Free (emptyNode files) := by
    refine ⟨fun name j hj => ?_, fun name _ => AList.lookup_empty name⟩
    simp [emptyNode] at hj
  exact hfree.covered

/-- **No orphaned journal.**  Let any number of eras follow each other on a node, each cut
anywhere and with or without a power loss at its end, with any answers of the server, any
failing writes and any failing syncs but those of the directory at the end of `Cleanup`. In
the durable state they leave, every linechain journal has an outbox entry of its lease. -/
theorem journal_has_entry (cfg : Config) (files : Linechain.Path → Option Bytes)
    (eras : List Era) (hsync : ∀ e ∈ eras, ∀ c ∈ e.script, c.host.syncDirectory = none) :
    let w := eras.foldl (Era.after cfg) (emptyNode files)
    ∀ name j, w.host.txn.durable.journal.lookup name = some j →
      ∃ key e, w.box.dir.durable.lookup key = some e ∧ e.lease = (j.taskID, j.leaseID) := by
  intro w name j hj
  obtain ⟨K, hw, hb⟩ := eras_covered (emptyNode_covered cfg files) eras hsync
  obtain ⟨e, he, hlease, -⟩ := hb.durable _ (hw name j (.inr hj)).2
  exact ⟨_, e, he, hlease⟩

/-! ### A run cut before `ResolveAfterRun` -/

/-- A linechain task whose helper applies its document. -/
def orphanTask : LeasedAgentTask :=
  { task := { id := "t", leaseID := "l" }, durableResult := true, durableProtocol := protocolV2 }

def orphanChoice : Choice :=
  { fetch := .ok [orphanTask], run := { attempts := [([], List.replicate 22 {})] } }

/-- The process is cut right after the helper has returned. -/
def heldEra : Era :=
  { nodeID := "node", linechainReady := true, manager := Linechain.Transaction.sampleManager,
    acts := [.cycle], script := List.replicate 21 orphanChoice, powerLost := true }

theorem journal_has_entry_sample :
    let w := [heldEra].foldl (Era.after sampleConfig)
      (emptyNode Linechain.Transaction.sampleHost.files)
    ∃ name j, w.host.txn.durable.journal.lookup name = some j ∧
      ∃ key e, w.box.dir.durable.lookup key = some e ∧ e.lease = (j.taskID, j.leaseID) := by
  intro w
  have hsome : (w.host.txn.durable.journal.lookup
      (journalKey sampleConfig.linechain "t" "l")).isSome := by decide +kernel
  obtain ⟨j, hj⟩ := Option.isSome_iff_exists.mp hsome
  refine ⟨_, j, hj, journal_has_entry sampleConfig _ [heldEra] (fun e he c hc => ?_) _ j hj⟩
  rw [List.mem_singleton.mp he] at hc
  rw [List.eq_of_mem_replicate hc]
  rfl

section refused
variable {cfg : Config} {A : Choice → Prop} {w : World}

theorem crossCheck_matched {entries : List Outbox.Entry} {refs : List Linechain.JournalRef}
    {authority : List (String × Linechain.RecoveryAuthority)}
    (h : crossCheck cfg entries refs = .ok authority) : ∀ ref ∈ refs, matchedRef entries ref := by
  unfold crossCheck at h
  obtain ⟨_, -, h⟩ := bind_eq_ok.mp h
  cases hf : refs.find? fun ref => !matchedRef entries ref with
  | some ref => simp [hf] at h
  | none =>
    intro ref hr
    simpa using List.find?_eq_none.mp hf ref hr

/-- **A visible journal without its entry blocks every poll.** -/
theorem pollTasks_refused {m : Linechain.Manager} (hm : cfg.manager = some m) {name : String}
    {j : Linechain.Journal} (hj : w.host.txn.visible.journal.lookup name = some j)
    (horphan : ∀ key e, w.box.dir.visible.lookup key = some e →
      refKey e.task.id e.task.leaseID ≠ refKey j.taskID j.leaseID) :
    wp A (pollTasks cfg) (fun _ _ => False) (fun _ w' => w' = w) (fun w' => w' = w) w := by
  have hcapture : wp A (captureLinechainAuthority cfg m) (fun _ _ => False) (fun _ w' => w' = w)
      (fun w' => w' = w) w := by
    have hsnap : wp (fun _ => True) (Outbox.snapshot cfg.outbox) (fun es b => b = w.box ∧
        checkAll cfg.outbox w.box.dir.visible = .ok es) (fun _ b => b = w.box)
        (fun b => b = w.box) w.box :=
      Outbox.wp_read rfl (fun _ => rfl) fun es hes => ⟨rfl, hes⟩
    refine wp_bind (wp_onBox hsnap (fun es b hb => ?_) (fun _ b hb => by rw [hb])
      fun b hb => by rw [hb])
    obtain ⟨rfl, hes⟩ := hb
    have hrefs : wp (fun _ => True) (Linechain.snapshot cfg.linechain m) _ _ _ w.host :=
      snapshot_refs
    refine wp_bind (wp_embed (fun _ _ => trivial) hrefs (fun refs h' hr => ?_)
      (fun _ h' hh => by rw [hh]) fun h' hh => by rw [hh])
    obtain ⟨rfl, hall⟩ := hr
    refine wp_lift (fun authority ha => ?_) fun _ _ => rfl
    have hmatched := crossCheck_matched ha _ (hall name j hj)
    obtain ⟨e, he, hkey⟩ := List.any_eq_true.mp hmatched
    have hl := ((mem_checkAll hes).1 e he).1
    refine horphan _ e hl ?_
    simp only [Bool.and_eq_true, beq_iff_eq] at hkey
    exact hkey.1
  unfold pollTasks withManager
  rw [hm]
  refine wp_bind (wp_bind (wp_weaken hcapture (fun _ _ hf => hf.elim)))

end refused

/-- The task runs and its result is completed, the sync of `Cleanup` fails, and the next poll
uploads and removes the entry; then the node loses power. -/
def orphanEra : Era :=
  { nodeID := "node", linechainReady := true, manager := Linechain.Transaction.sampleManager,
    acts := [.cycle, .cycle],
    script := List.replicate 37 orphanChoice ++
      { host := { syncDirectory := some "EIO" } } :: List.replicate 20 { fetch := .ok [] },
    powerLost := true }

def orphanWorld : World :=
  Era.after sampleConfig (emptyNode Linechain.Transaction.sampleHost.files) orphanEra

theorem journal_orphaned :
    (∃ name j, orphanWorld.host.txn.durable.journal.lookup name = some j ∧
      ∀ key e, orphanWorld.box.dir.durable.lookup key = some e →
        e.lease ≠ (j.taskID, j.leaseID)) ∧
    ∀ sc tasks rest w', pollTasks sampleConfig sc orphanWorld ≠ (.done tasks rest, w') := by
  have heval : orphanWorld.box.dir.durable.keys = [] ∧ (orphanWorld.host.txn.durable.journal.lookup
      (journalKey sampleConfig.linechain "t" "l")).isSome := by decide +kernel
  obtain ⟨hkeys, hsome⟩ := heval
  have hnone : ∀ key, orphanWorld.box.dir.durable.lookup key = none := by
    intro key
    rw [AList.lookup_eq_none, AList.mem_keys, hkeys]
    simp
  obtain ⟨j, hj⟩ := Option.isSome_iff_exists.mp hsome
  refine ⟨⟨_, j, hj, fun key e he => ?_⟩, fun sc tasks rest w' hdone => ?_⟩
  · rw [hnone] at he
    cases he
  · -- after the power loss the durable directories are the visible ones
    have hrefused : wp (fun _ => True) (pollTasks sampleConfig) _ _ _ orphanWorld :=
      pollTasks_refused rfl (w := orphanWorld) hj fun key e he => by
        rw [show orphanWorld.box.dir.visible = orphanWorld.box.dir.durable from rfl, hnone] at he
        cases he
    have hrun : Exit.Holds _ _ _ _ (pollTasks sampleConfig sc orphanWorld) :=
      hrefused.run fun _ _ => trivial
    rw [hdone] at hrun
    exact hrun.1

end LatticeAgent.Tasks
