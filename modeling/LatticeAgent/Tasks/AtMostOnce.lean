import LatticeAgent.Linechain.Runs
import LatticeAgent.Outbox.Leases
import LatticeAgent.Tasks.Agent

/-! # At most once

Every program of the task cycle keeps the outbox coherent with its history, wherever it is
cut. A poll that returns a batch has recovered and uploaded everything first, so the outbox
is empty then (`pollTasks_empty`), and it is empty again after each task of the batch that
returns without an error (`executeTask_empty`). A lease is thus journaled, run, completed
and removed while it is the only one on disk, and whatever an error or a crash leaves behind
is resolved by the next poll before anything runs.

`at_most_once`: over any number of lives of the agent, a lease is run at most once between
its journaling and its removal, never without its journal, it is removed only after an
acknowledgement, and all its uploads carry one result. -/

namespace LatticeAgent.Tasks

open CutProg Lifecycle Outbox

section agent
variable {cfg : Config} {A : Choice → Prop} {w : World} {α : Type}

/-- The outbox of a world agrees with its history. -/
abbrev World.Coherent (cfg : Config) (w : World) : Prop := w.box.Coherent cfg.outbox

theorem World.Coherent.of_box {w' : World} (h : w.Coherent cfg) (hb : w'.box = w.box) :
    w'.Coherent cfg := by
  unfold World.Coherent
  rw [hb]
  exact h

/-- **An upload.**  The journal of the lease, where there is one, holds the result. -/
theorem postResult_coherent (h : w.Coherent cfg) {r : TaskResult}
    (hj : ∀ e, w.box.journalOf cfg.outbox (r.taskID, r.leaseID) = some e →
      e.state = .completed ∧ e.result = some r) :
    Leaves A (postResult r)
      (fun _ w' => w'.Coherent cfg ∧ w'.box.dir = w.box.dir ∧
        ∀ e, w.box.journalOf cfg.outbox (r.taskID, r.leaseID) = some e →
          ∃ ran sent, life (r.taskID, r.leaseID) w'.box.history = some (.live ran sent true))
      (World.Coherent cfg) w := by
  have hup : (w.record (.uploaded (r.taskID, r.leaseID) r)).Coherent cfg := h.uploaded hj
  refine wp_step h fun c _ => ?_
  cases hp : c.post with
  | some e => exact hup
  | none =>
    obtain ⟨hack, hlife⟩ := hup.acked (r := r) fun e he => (hj e he).1
    exact ⟨hack, rfl, hlife⟩

/-! ### Uploading -/

/-- What the loop of `flushTaskResultsRetain` has still to upload; `clears` says that it
started with completed journals only and removes them. -/
structure Uploads (cfg : Config) (clears : Prop) (rest : List Entry) (w : World) : Prop where
  coherent : w.Coherent cfg
  visits : w.box.Visits cfg.outbox rest
  done : ∀ e ∈ rest, e.state = .completed ∧ ∃ r, e.result = some r ∧
    (r.taskID, r.leaseID) = e.lease
  only : clears → ∀ key e, w.box.dir.visible.lookup key = some e → e ∈ rest

variable {e : Entry} {t : LeasedAgentTask}

theorem flushEntry_uploads {clears : Prop} {retain : Bool} (hclears : clears → retain = false)
    {rest : List Entry} (h : Uploads cfg clears (e :: rest) w) :
    Leaves A (flushEntry cfg retain e) (fun _ => Uploads cfg clears rest)
      (World.Coherent cfg) w := by
  obtain ⟨hst, r, hr, hk⟩ := h.done e List.mem_cons_self
  have hl := h.visits.lookup e List.mem_cons_self
  have hdone : ∀ e' ∈ rest, _ := fun e' he' => h.done e' (List.mem_cons_of_mem _ he')
  have hjk : w.box.journalOf cfg.outbox (r.taskID, r.leaseID) = some e := by
    rw [hk]
    exact Store.journalOf_lease hl
  unfold flushEntry
  rw [hr]
  refine wp_bind (wp_wrapErr (wp_weaken (postResult_coherent h.coherent fun e' he' => ?_)
    (fun _ w' hw' => ?_)))
  · rw [hjk] at he'
    rw [← Option.some.inj he']
    exact ⟨hst, hr⟩
  obtain ⟨hco, hdir, hlife⟩ := hw'
  split_ifs with hretain
  · -- a retained entry stays; nothing is said of the rest of the directory then
    refine wp_ret ⟨hco, ⟨fun e' he' => ?_, h.visits.tail.nodup⟩, hdone, fun hc => ?_⟩
    · rw [hdir]
      exact h.visits.tail.lookup e' he'
    · rw [hclears hc] at hretain
      simp at hretain
  · obtain ⟨ran, sent, hlife⟩ := hlife e hjk
    rw [hk] at hlife
    have hl' : w'.box.dir.visible.lookup (e.key cfg.outbox) = some e := by rw [hdir]; exact hl
    refine wp_wrapErr (wp_onBox (remove_coherent hco hl' hlife) (fun _ b hb => ?_)
      (fun _ _ he => he) fun _ hc => hc)
    obtain ⟨hco', hvis⟩ := hb
    rw [hdir] at hvis
    refine ⟨hco', h.visits.frame fun key hkey => ?_, hdone, fun hc key e' he' => ?_⟩
    · rw [hvis, AList.lookup_erase_ne hkey]
    · simp only [hvis] at he'
      by_cases hkey : key = e.key cfg.outbox
      · rw [hkey, AList.lookup_erase] at he'
        cases he'
      · rw [AList.lookup_erase_ne hkey] at he'
        refine (List.mem_cons.mp (h.only hc key e' he')).resolve_left ?_
        rintro rfl
        exact hkey (h.coherent.keyed key e' he')

theorem flushTaskResultsRetain_coherent (h : w.Coherent cfg) (retain : Bool) :
    Leaves A (flushTaskResultsRetain cfg retain)
      (fun _ w' => w'.Coherent cfg ∧ (retain = false ∧ w.box.AllDone → w'.box.Empty))
      (World.Coherent cfg) w := by
  unfold flushTaskResultsRetain
  refine wp_bind (wp_wrapErr (wp_onBox (pending_coherent h) (fun es b hb => ?_)
    (fun _ b hb => ?_) fun _ hc => hc))
  · obtain ⟨rfl, hvisits, hres, hall⟩ := hb
    refine wp_weaken (wp_forEach (Uploads cfg (retain = false ∧ w.box.AllDone))
      ⟨h, hvisits, hres, fun hc key e he => ?_⟩
      fun e rest w' hw' => flushEntry_uploads And.left hw')
      (fun _ w' hw' => ?_)
    · exact hall key e he (hc.2 key e he)
    · refine ⟨hw'.coherent, fun hc key => ?_⟩
      cases hl : w'.box.dir.visible.lookup key with
      | none => rfl
      | some e => exact absurd (hw'.only hc key e hl) (by simp)
  · subst hb
    exact h

theorem flushTaskResults_coherent (h : w.Coherent cfg) :
    Leaves A (flushTaskResults cfg)
      (fun _ w' => w'.Coherent cfg ∧ (w.box.AllDone → w'.box.Empty)) (World.Coherent cfg) w :=
  wp_weaken (flushTaskResultsRetain_coherent h false) (fun _ _ hw => ⟨hw.1, fun hd => hw.2 ⟨rfl, hd⟩⟩)

theorem completeRecovered_coherent (r : TaskResult) :
    Keeps A (World.Coherent cfg) (World.Coherent cfg) (completeRecovered cfg r) := by
  intro w h
  refine wp_bind (wp_onBox (complete_coherent h r) (fun out b hb => ?_) (fun _ _ he => he.elim)
    fun _ hc => hc)
  split
  · exact wp_ret hb.1
  · split_ifs
    · exact wp_onBox (confirmDurability_coherent hb.1) (fun _ _ h => h.1) (fun _ _ he => he)
        fun _ hc => hc
    · exact wp_fail hb.1

theorem requireLinechainRecovered_coherent (m : Linechain.Manager) :
    Keeps A (World.Coherent cfg) (World.Coherent cfg) (requireLinechainRecovered cfg m) := by
  refine keeps_bind (keeps_bind (onBox_keeps ?_) fun entries => ?_) fun authority => ?_
  · exact fun s h => wp_read h (fun _ => h) fun _ _ => h
  · exact keeps_bind onHost_frame fun refs => keeps_lift
  · refine keeps_bind onHost_frame fun names => keeps_forEach (fun name => ?_) names
    refine keeps_bind onHost_frame fun expected => keeps_bind onHost_frame fun j => ?_
    dsimp only
    split
    · exact keeps_ret
    · exact keeps_bind (completeRecovered_coherent _) fun _ => onHost_frame

variable (cfg A) in
/-- A program that leaves the outbox empty when it returns, and is coherent in any case. -/
abbrev Empties (p : AgentProg α) (w : World) : Prop :=
  Leaves A p (fun _ w' => w'.Coherent cfg ∧ w'.box.Empty) (World.Coherent cfg) w

section

variable (h : w.Coherent cfg)

include h

/-- **A poll that returns a batch leaves no journal.** -/
theorem pollTasks_empty :
    Empties cfg A (pollTasks cfg) w := by
  refine wp_then (withManager_keeps requireLinechainRecovered_coherent w h) (fun _ w₁ h₁ => ?_)
  refine wp_bind (wp_wrapErr (wp_onBox (recoverInterrupted_coherent h₁ cfg.nodeID)
    (fun _ b hb => ?_) (fun _ _ he => he) fun _ hc => hc))
  refine wp_then (flushTaskResults_coherent hb.1) (fun _ w₂ h₂ => ?_)
  refine wp_step h₂.1 fun c _ => ?_
  cases c.fetch with
  | ok tasks => exact ⟨h₂.1, h₂.2 hb.2⟩
  | error e => exact h₂.1

/-! ### Executing -/

theorem postResult_empty (hempty : w.box.Empty) (r : TaskResult) :
    Empties cfg A (postResult r) w := by
  refine wp_weaken (postResult_coherent h fun e he => ?_) (fun _ w' hw' => ?_)
  · rw [hempty.journalOf] at he
    cases he
  · exact ⟨hw'.1, hempty.of_visible (by rw [hw'.2.1])⟩

theorem runTask_coherent (hdisk : t.durableResult → w.journaled cfg t.task)
    (hfresh : ∀ e, w.box.journalOf cfg.outbox (t.task.id, t.task.leaseID) = some e →
      life (t.task.id, t.task.leaseID) w.box.history = some (.live false none false)) :
    wp A (runTask cfg t) (fun _ w' => w'.Coherent cfg ∧ w'.box.dir = w.box.dir)
      (fun _ _ => False) (World.Coherent cfg) w :=
  wp_step h fun _ _ => ⟨h.ran hdisk hfresh, rfl⟩

theorem executePlain_empty (hempty : w.box.Empty) (ht : t.durableResult = false) :
    Empties cfg A (executePlain cfg t) w := by
  refine wp_seq (runTask_coherent h (fun hc => ?_) fun e he => ?_) (fun r w₁ h₁ => ?_)
    (fun _ _ he => he.elim) fun _ hc => hc
  · rw [ht] at hc
    cases hc
  · rw [hempty.journalOf] at he
    cases he
  · have hempty₁ : w₁.box.Empty := hempty.of_visible (by rw [h₁.2])
    exact wp_bind (wp_timeNow h₁.1 fun now => wp_wrapErr (postResult_empty h₁.1 hempty₁ _))

theorem refuseLease_coherent (t : LeasedAgentTask) {committed : Bool}
    (hempty : committed = false → w.box.Empty) (err : String) :
    Leaves A (refuseLease cfg t committed err) (fun _ _ => False) (World.Coherent cfg) w := by
  unfold refuseLease
  dsimp only
  split_ifs with hc
  · exact wp_fail h
  · refine wp_bind (wp_timeNow h fun now => wp_bind (wp_wrapErr ?_))
    exact wp_weaken (postResult_empty h (hempty (by simpa using hc)) _)
      (fun _ _ hw => wp_fail hw.1)

/-- Cleaning up the transaction leaves the outbox alone; where it fails, so does the task. -/
theorem cleanupOrRetain_coherent (t : LeasedAgentTask) (label : String)
    (replayable : String → String) :
    Leaves A (cleanupOrRetain cfg t label replayable) (fun _ w' => w'.box = w.box)
      (World.Coherent cfg) w := by
  refine wp_bind (wp_attempt (wp_mono (onHost_frame (I := fun b => b = w.box) w rfl)
    (fun _ w' hw' => wp_ret hw') (fun _ w' hw' => ?_) fun w' hw' => h.of_box hw'))
  refine wp_bind (wp_wrapErr ?_)
  exact wp_weaken (flushTaskResultsRetain_coherent (h.of_box hw') true) (fun _ _ hw => wp_fail hw.1)

theorem completionFailed_coherent (t : LeasedAgentTask) (committed : Bool) (err : String) :
    Leaves A (completionFailed cfg t committed err) (fun _ _ => False) (World.Coherent cfg) w := by
  unfold completionFailed
  dsimp only
  split
  · refine wp_bind (wp_wrapErr (wp_onBox (confirmDurability_coherent h) (fun _ b hb => ?_)
      (fun _ _ he => he) fun _ hc => hc))
    have hflush : ∀ {w : World} {wrap : String → String} {e : String}, w.Coherent cfg →
        Leaves A (do wrapErr (flushTaskResults cfg) wrap; .fail e : AgentProg Unit)
          (fun _ _ => False) (World.Coherent cfg) w := by
      intro w wrap e hw
      exact wp_bind (wp_wrapErr (wp_weaken (flushTaskResults_coherent hw) (fun _ _ hw => wp_fail hw.1)))
    split
    · exact wp_then (cleanupOrRetain_coherent hb.1 t _ _)
        (fun _ w' hw' => hflush (World.Coherent.of_box hb.1 hw'))
    · exact hflush hb.1
  · exact wp_fail h

theorem reportResult_empty (honly : w.box.Only cfg.outbox e) (t : LeasedAgentTask)
    (r : TaskResult) :
    Empties cfg A (reportResult cfg t r) w := by
  refine wp_bind (wp_onBox (complete_coherent h r) (fun out b hb => ?_) (fun _ _ he => he.elim)
    fun _ hc => hc)
  obtain ⟨hco, hdone⟩ := hb
  cases herr : out.err with
  | some err =>
    exact wp_weaken (completionFailed_coherent hco t out.committed err) (fun _ _ hw => hw.elim)
  | none =>
    obtain ⟨⟨e', he'⟩, hdone⟩ := hdone herr
    -- the journal of the result can only be the one on disk
    have hkey : entryKey cfg.outbox r.taskID r.leaseID = e.key cfg.outbox := by
      rw [honly] at he'
      split_ifs at he' with hkey
      exact hkey
    have hall : b.AllDone := by
      intro key e'' hl
      rcases hdone key e'' hl with hst | ⟨hne, hl'⟩
      · exact hst
      · rw [honly, if_neg (hkey ▸ hne)] at hl'
        cases hl'
    have hflush : ∀ {w : World}, w.box = b → Empties cfg A (flushTaskResults cfg) w := by
      rintro w rfl
      exact wp_weaken (flushTaskResults_coherent hco) (fun _ _ hw => ⟨hw.1, hw.2 hall⟩)
    dsimp only
    split_ifs
    · exact wp_then (cleanupOrRetain_coherent hco t _ _) (fun _ w' hw' => hflush hw')
    · exact hflush rfl

theorem runJournaled_empty (honly : w.box.Only cfg.outbox e)
    (hlease : e.lease = (t.task.id, t.task.leaseID))
    (hlife : life e.lease w.box.history = some (.live false none false))
    (hdur : w.box.dir.durable = w.box.dir.visible) :
    Empties cfg A (runJournaled cfg t) w := by
  have hkey : entryKey cfg.outbox t.task.id t.task.leaseID = e.key cfg.outbox := by
    rw [show e.key cfg.outbox = entryKey cfg.outbox e.lease.1 e.lease.2 from rfl, hlease]
  refine wp_seq (runTask_coherent h (fun _ => ?_) fun e' _ => ?_) (fun r w₁ h₁ => ?_)
    (fun _ _ he => he.elim) fun _ hc => hc
  · have hin : inDir cfg t.task w.box.dir.visible := by
      rw [inDir, hkey, honly, if_pos rfl]
      simp [hlease]
    rw [World.journaled, hdur, hin]
    rfl
  · rw [← hlease]
    exact hlife
  · have honly₁ : w₁.box.Only cfg.outbox e := by
      intro key
      rw [h₁.2]
      exact honly key
    dsimp only
    split
    · refine wp_bind (wp_wrapErr (wp_mono (onHost_frame (I := fun b => b = w₁.box) w₁ rfl)
        (fun r w₂ h₂ => ?_) (fun _ w₂ h₂ => h₁.1.of_box h₂) fun w₂ h₂ => h₁.1.of_box h₂))
      exact reportResult_empty (h₁.1.of_box h₂) (h₂ ▸ honly₁) t r
    · exact reportResult_empty h₁.1 honly₁ t _

/-- **One task of a batch.**  Started over an empty outbox, it leaves it empty unless it
reports an error. -/
theorem executeTask_empty (hempty : w.box.Empty) (t : LeasedAgentTask) :
    Empties cfg A (executeTask cfg t) w := by
  unfold executeTask
  refine wp_bind (wp_lift (fun _ _ => wp_bind (wp_lift (fun _ _ => ?_) fun _ _ => h)) fun _ _ => h)
  split_ifs with ht
  · exact executePlain_empty h hempty (by simpa using ht)
  have hbegin := begin_coherent (A := fun _ => True) h hempty t.task t.durableProtocol
  refine wp_bind (wp_onBox hbegin (fun out b hb => ?_) (fun _ _ he => he.elim) fun _ hc => hc)
  obtain ⟨hco, hrep⟩ := hb
  cases herr : out.err with
  | some err =>
    exact wp_weaken (refuseLease_coherent hco t (fun hc => (hrep.no hc).2) err)
      (fun _ _ hw => hw.elim)
  | none =>
    cases hc : out.committed with
    | false => exact absurd herr (hrep.no hc).1
    | true =>
      obtain ⟨e, hlease, -, honly, hlife, hdur⟩ := hrep.yes hc
      exact runJournaled_empty hco honly hlease hlife (hdur herr)

theorem executeTasks_coherent (hempty : w.box.Empty) (ts : List LeasedAgentTask) :
    Leaves A (executeTasks cfg ts) (fun _ w' => w'.Coherent cfg) (World.Coherent cfg) w := by
  induction ts generalizing w with
  | nil => exact wp_ret h
  | cons t ts ih =>
    refine wp_bind (wp_step h fun c _ => ?_)
    simp only [outcome_ok]
    split_ifs
    · exact wp_ret h
    · exact wp_then (executeTask_empty h hempty t) (fun _ _ hw => ih hw.1 hw.2)

end

theorem runTasks_coherent : Keeps A (World.Coherent cfg) (World.Coherent cfg) (runTasks cfg) :=
  fun _ h => wp_then (pollTasks_empty h) (fun ts _ hw => executeTasks_coherent hw.1 hw.2 ts)

/-- **One process**, cut anywhere. -/
theorem process_coherent (acts : List Activity) :
    Keeps A (World.Coherent cfg) (World.Coherent cfg) (process cfg acts) := by
  refine keeps_bind (onBox_keeps fun s h => openStore_coherent h) fun _ => ?_
  refine keeps_bind (withManager_keeps fun _ => onHost_frame) fun _ => ?_
  refine keeps_forEach (fun a => keeps_bind (keeps_attempt ?_) fun _ => keeps_pure) acts
  cases a with
  | recover => exact withManager_keeps requireLinechainRecovered_coherent
  | cycle => exact runTasks_coherent

end agent

/-- What any number of lives leave behind, one after the other. -/
def World.afterLives (cfg : Config) (w : World) (lives : List Lifetime) : World :=
  lives.foldl (fun w l => l.after cfg w) w

theorem afterLives_coherent {cfg : Config} {w : World} (h : w.Coherent cfg)
    (lives : List Lifetime) : (w.afterLives cfg lives).Coherent cfg := by
  induction lives generalizing w with
  | nil => exact h
  | cons l lives ih =>
    refine ih ?_
    exact wp_after (I := World.Coherent cfg) (A := fun _ => True)
      (process_coherent l.acts w h) (fun _ _ => trivial) (fun _ _ h => h) (fun _ _ h => h)
      fun _ h => h

/-- A node on which the agent has not run. -/
def freshWorld (host : Linechain.Host) : World := ⟨host, ⟨⟨∅, ∅⟩, false, []⟩⟩

theorem freshWorld_coherent (cfg : Config) (host : Linechain.Host) :
    (freshWorld host).Coherent cfg := by
  have hnone : ∀ key, (freshWorld host).box.dir.visible.lookup key = none :=
    fun key => AList.lookup_empty key
  refine ⟨fun key e he => ?_, fun k => ⟨.absent, rfl, ?_⟩⟩
  · rw [hnone] at he
    cases he
  · simp [Store.journalOf, hnone, Agrees]

/-- **At most once, and no lost result.**  Let any number of lives of the agent follow each
other on a node, each cut anywhere, with any answers of the server, any failing writes and
syncs and any outcome of the tasks. Between the journaling of a lease and its next removal
the runner is invoked for it at most once and all uploads for it carry the same result, the
removal comes after an acknowledgement, and the runner is never invoked for a durable task
whose journal is not on disk. -/
theorem at_most_once (cfg : Config) (host : Linechain.Host) (lives : List Lifetime) :
    let tr := ((freshWorld host).afterLives cfg lives).box.history
    (∀ k pre mid post, tr = pre ++ .journaled k :: mid ++ post → .removed k ∉ mid →
      runs k mid ≤ 1) ∧
    (∀ k, .ran k true false ∉ tr) ∧
    (∀ k pre post, tr = pre ++ .removed k :: post →
      ∃ pre' mid r, pre = pre' ++ .journaled k :: mid ∧ .removed k ∉ mid ∧ .acked k r ∈ mid) ∧
    (∀ k pre mid post r r', tr = pre ++ .journaled k :: mid ++ post → .removed k ∉ mid →
      .uploaded k r ∈ mid → .uploaded k r' ∈ mid → r = r') := by
  intro tr
  have hfollows : Follows tr := fun k =>
    let ⟨l, hl, _⟩ := (afterLives_coherent (freshWorld_coherent cfg host) lives).agrees k
    ⟨l, hl⟩
  refine ⟨fun k pre mid post htr hmid => hfollows.once htr hmid, hfollows.never_blind, ?_,
    fun k pre mid post r r' htr hmid => hfollows.one_result htr hmid⟩
  intro k pre post htr
  exact hfollows.acked_before_removed htr

/-! ### A crash after the run -/

def sampleConfig : Config :=
  { nodeID := "node", linechainReady := true, manager := some Linechain.Transaction.sampleManager,
    linechain := Linechain.Transaction.sampleCodec, outbox := Outbox.sampleCodec,
    artifactSHA := fun _ => .ok (Linechain.Transaction.sampleDigest [5]) }

/-- A task that needs no linechain. -/
def sampleTask : LeasedAgentTask :=
  { task := { id := "t", leaseID := "l" }, durableResult := true, durableProtocol := "netguard-v1" }

/-- One life with a single task cycle. -/
def sampleLife (script : List Choice) : Lifetime :=
  { nodeID := "node", linechainReady := true, manager := some Linechain.Transaction.sampleManager,
    acts := [.cycle], script := script }

/-- The first life is cut right after the run; the second one uploads an unknown outcome, gets
the same lease again, and completes it. -/
def sampleLives : List Lifetime :=
  [sampleLife (List.replicate 20 { fetch := .ok [sampleTask] }),
   sampleLife (List.replicate 60 { fetch := .ok [sampleTask] })]

def sampleHistory : List Outbox.Event :=
  ((freshWorld Linechain.Transaction.sampleHost).afterLives sampleConfig sampleLives).box.history

theorem at_most_once_sample : ∃ mid post,
    sampleHistory = .journaled ("t", "l") :: mid ++ .removed ("t", "l") :: post ∧
    .ran ("t", "l") true true ∈ mid ∧ .journaled ("t", "l") ∈ post ∧
    runs ("t", "l") mid ≤ 1 ∧ .ran ("t", "l") true false ∉ sampleHistory ∧
    (∃ r, .acked ("t", "l") r ∈ mid) ∧
    ∀ r r', .uploaded ("t", "l") r ∈ mid → .uploaded ("t", "l") r' ∈ mid → r = r' := by
  obtain ⟨honce, hblind, hacked, hsame⟩ :=
    at_most_once sampleConfig Linechain.Transaction.sampleHost sampleLives
  have htr : sampleHistory = .journaled ("t", "l") :: (sampleHistory.drop 1).take 3 ++
      .removed ("t", "l") :: sampleHistory.drop 5 := by decide +kernel
  have hmid : .removed ("t", "l") ∉ (sampleHistory.drop 1).take 3 := by decide +kernel
  have hhead : ∀ pre' mid' : List Outbox.Event, .journaled ("t", "l") ::
      (sampleHistory.drop 1).take 3 = pre' ++ .journaled ("t", "l") :: mid' →
      mid' = (sampleHistory.drop 1).take 3 := by
    have hnone : .journaled ("t", "l") ∉ (sampleHistory.drop 1).take 3 := by decide +kernel
    intro pre' mid' heq
    cases pre' with
    | nil => exact (List.cons.inj heq).2.symm
    | cons x pre' => exact absurd ((List.cons.inj heq).2 ▸ by simp) hnone
  obtain ⟨pre', mid', r, hpre, -, hr⟩ := hacked _ _ _ htr
  exact ⟨(sampleHistory.drop 1).take 3, sampleHistory.drop 5, htr, by decide +kernel,
    by decide +kernel, honce _ [] _ _ htr hmid, hblind _, ⟨r, hhead pre' mid' hpre ▸ hr⟩,
    fun r r' => hsame _ [] _ _ r r' htr hmid⟩

end LatticeAgent.Tasks
