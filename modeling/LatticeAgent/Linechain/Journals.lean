import LatticeAgent.Linechain.HostLogic

/-! # Which journals there are

The transaction directory, as a set of journals: `Host.Within P` says that every journal,
visible or durable, has a name and an identity that satisfy `P`, and `Host.Settled` that no
journal is durable only. Every program of the manager writes journals under the name and
the identity it was called for, so it keeps both (`apply_kept`, `resolveAfterRun_kept`,
`recoverOne_kept`). What a program keeps of the journals is argued once for all such invariants
(`Ledger`): a journal is written from a document, and later only its phase and result change.
`Cleanup` is the one that removes: between its unlink and its sync a
journal is durable only, and where the sync fails it stays so. -/

namespace LatticeAgent.Linechain

open CutProg

/-- Every journal, visible or durable, is one that `W` allows under its name. -/
def Host.Holds (W : String → Journal → Prop) (h : Host) : Prop :=
  ∀ name j, h.txn.visible.journal.lookup name = some j ∨
    h.txn.durable.journal.lookup name = some j → W name j

/-- Every journal, visible or durable, has a name and an identity that satisfy `P`. -/
def Host.Within (P : String → String → String → Prop) (h : Host) : Prop :=
  ∀ name j, h.txn.visible.journal.lookup name = some j ∨
    h.txn.durable.journal.lookup name = some j → P name j.taskID j.leaseID

/-- No journal is durable only. -/
def Host.Settled (h : Host) : Prop :=
  ∀ name, h.txn.visible.journal.lookup name = none → h.txn.durable.journal.lookup name = none

/-- Both. -/
structure Host.Kept (P : String → String → String → Prop) (h : Host) : Prop where
  within : h.Within P
  settled : h.Settled

variable {P P' : String → String → String → Prop} {h : Host}

theorem Host.Within.mono (hw : h.Within P) (hP : ∀ n t l, P n t l → P' n t l) : h.Within P' :=
  fun name j hj => hP _ _ _ (hw name j hj)

theorem Host.Kept.mono (hk : h.Kept P) (hP : ∀ n t l, P n t l → P' n t l) : h.Kept P' :=
  ⟨hk.within.mono hP, hk.settled⟩

/-! ### The updates -/

section updates
variable {W : String → Journal → Prop} {h' : Host}

theorem Host.Holds.congr (hw : h.Holds W) (hv : h'.txn.visible.journal = h.txn.visible.journal)
    (hd : h'.txn.durable.journal = h.txn.durable.journal) : h'.Holds W := by
  intro name j hj
  rw [hv, hd] at hj
  exact hw name j hj

theorem Host.Holds.sync (hw : h.Holds W) : h.syncTxn.Holds W :=
  fun name j hj => hw name j (.inl (by simpa using hj))

theorem Host.Holds.setJournal (hw : h.Holds W) {key : String} {j : Journal} (hj : W key j) :
    (h.writeTxn (·.setJournal key j)).Holds W := by
  intro name j' hj'
  simp only [writeTxn_visible, writeTxn_durable, setJournal_journal] at hj'
  rcases hj' with hj' | hj'
  · by_cases hn : name = key
    · rw [hn, AList.lookup_insert] at hj'
      rw [hn, ← Option.some.inj hj']
      exact hj
    · rw [AList.lookup_insert_ne hn] at hj'
      exact hw name j' (.inl hj')
  · exact hw name j' (.inr hj')

theorem Host.Holds.eraseJournal (hw : h.Holds W) (key : String) :
    (h.writeTxn (·.eraseJournal key)).Holds W := by
  intro name j hj
  simp only [writeTxn_visible, writeTxn_durable, eraseJournal_journal] at hj
  rcases hj with hj | hj
  · by_cases hn : name = key
    · rw [hn, AList.lookup_erase] at hj
      cases hj
    · rw [AList.lookup_erase_ne hn] at hj
      exact hw name j (.inl hj)
  · exact hw name j (.inr hj)

theorem Host.Kept.congr (hk : h.Kept P) (hv : h'.txn.visible.journal = h.txn.visible.journal)
    (hd : h'.txn.durable.journal = h.txn.durable.journal) : h'.Kept P := by
  refine ⟨Host.Holds.congr hk.within hv hd, fun name hn => ?_⟩
  rw [hv] at hn
  rw [hd]
  exact hk.settled name hn

theorem Host.Within.sync (hw : h.Within P) : h.syncTxn.Kept P :=
  ⟨Host.Holds.sync hw, fun _ hn => hn⟩

theorem Host.Kept.setJournal (hk : h.Kept P) {key : String} {j : Journal}
    (hj : P key j.taskID j.leaseID) : (h.writeTxn (·.setJournal key j)).Kept P := by
  refine ⟨Host.Holds.setJournal hk.within hj, fun name hn => ?_⟩
  simp only [writeTxn_visible, setJournal_journal] at hn
  by_cases hkey : name = key
  · rw [hkey, AList.lookup_insert] at hn
    cases hn
  · rw [AList.lookup_insert_ne hkey] at hn
    exact hk.settled name hn

end updates

/-! ### Invariants of the journals -/

/-- An invariant `I` of the journals, by what it says of each: `J` holds of those found and lets
one be written, and does not depend on how far the transaction has come. -/
structure Ledger (I : Host → Prop) (J : String → Journal → Prop) : Prop where
  congr : ∀ {h h' : Host}, I h → h'.txn.visible.journal = h.txn.visible.journal →
    h'.txn.durable.journal = h.txn.durable.journal → I h'
  set : ∀ {h : Host} {key : String} {j : Journal}, I h → J key j →
    I (h.writeTxn (·.setJournal key j))
  sync : ∀ {h : Host}, I h → I h.syncTxn
  found : ∀ {h : Host} {key : String} {j : Journal}, I h →
    h.txn.visible.journal.lookup key = some j → J key j
  settle : ∀ {key : String} {j : Journal}, J key j → ∀ (phase : Phase) (r : Option TaskResult),
    J key { j with phase := phase, result := r }

theorem kept_ledger : Ledger (Host.Kept P) fun key j => P key j.taskID j.leaseID where
  congr hk hv hd := hk.congr hv hd
  set hk hj := hk.setJournal hj
  sync hk := hk.within.sync
  found hk hl := hk.within _ _ (.inl hl)
  settle hj _ _ := hj

theorem holds_ledger {W : String → Journal → Prop}
    (hW : ∀ {key j}, W key j → ∀ (phase : Phase) (r : Option TaskResult),
      W key { j with phase := phase, result := r }) : Ledger (Host.Holds W) W where
  congr hw hv hd := hw.congr hv hd
  set hw hj := hw.setJournal hj
  sync hw := hw.sync
  found hw hl := hw _ _ (.inl hl)
  settle := hW

section keeps
variable {A : Choice → Prop} {α : Type}

/-- A program that keeps the journals within `P` and settled, wherever it is cut. -/
abbrev KeepsJournals (A : Choice → Prop) (P : String → String → String → Prop)
    (p : HostProg α) : Prop := Keeps A (Host.Kept P) (Host.Kept P) p

/-- A program that returns a journal to be kept under `key`. -/
abbrev Returns (A : Choice → Prop) (P : String → String → String → Prop) (key : String)
    (R : Journal → Prop) (p : HostProg Journal) : Prop :=
  ∀ h : Host, h.Kept P → wp A p (fun j h' => h'.Kept P ∧ P key j.taskID j.leaseID ∧ R j)
    (fun _ => Host.Kept P) (Host.Kept P) h

variable {seam : Choice → Option String} {I : Host → Prop}

theorem access_keeps {f : Host → Except String α × Host} (hf : ∀ h : Host, I h → I (f h).2) :
    Keeps A I I (access seam f) := by
  intro h hk
  refine wp_step hk fun c _ => ?_
  cases hs : seam c with
  | some e => exact hk
  | none =>
    have hf := hf h hk
    simp only
    generalize f h = r at hf ⊢
    obtain ⟨r, h'⟩ := r
    cases r <;> exact hf

theorem read_keeps {f : Host → Except String α} : Keeps A I I (access seam fun h => (f h, h)) :=
  access_keeps fun _ hI => hI

theorem checkRestartVerify_keeps : Keeps A I I checkRestartVerify :=
  fun _ hI => wp_checkRestartVerify hI (fun _ _ => hI) hI

theorem validateJournal_keeps {cx : Codec} {m : Manager} (key : String) (j : Journal) :
    Keeps A I I (validateJournal cx m key j) := by
  refine keeps_bind keeps_lift fun _ => keeps_ite (fun _ => keeps_ret) fun _ => ?_
  exact keeps_forEach (fun a => keeps_bind read_keeps fun data => keeps_lift) _

theorem pairMatches_keeps {cx : Codec} (j : Journal) (desired : Bool) :
    Keeps A I I (pairMatches cx j desired) := by
  refine keeps_bind (keeps_attempt read_keeps) fun a =>
    keeps_bind (keeps_attempt read_keeps) fun b => ?_
  split
  · exact keeps_pure
  · exact keeps_pure

namespace Ledger
variable {I : Host → Prop} {J : String → Journal → Prop} (L : Ledger I J)
include L

theorem publish (p : Path) (content : Option Bytes) : Keeps A I I (publish p content) :=
  keeps_bind (access_keeps fun _ hk => L.congr hk rfl rfl) fun _ => read_keeps

theorem writeBackup (a : Artifact) (key : String) (b : Option Bytes) :
    Keeps A I I (writeBackup a key b) := by
  cases b with
  | none => exact keeps_ret
  | some b =>
    exact keeps_bind (access_keeps fun _ hk => L.congr hk rfl rfl) fun _ =>
      access_keeps fun _ hk => L.sync hk

theorem writeJournal {key : String} {j : Journal} (hj : J key j) :
    Keeps A I I (writeJournal key j) :=
  keeps_bind (access_keeps fun _ hk => L.set hk hj) fun _ => access_keeps fun _ hk => L.sync hk

/-! ### Settling a journal -/

/-- A program that returns a journal to be kept under `key`. -/
abbrev Hands (A : Choice → Prop) (_ : Ledger I J) (key : String) (R : Journal → Prop)
    (p : HostProg Journal) : Prop :=
  ∀ h : Host, I h → wp A p (fun j h' => I h' ∧ J key j ∧ R j) (fun _ => I) I h

variable {cx : Codec} {m : Manager} {key : String} {j : Journal}

theorem restoreArtifact (key : String) (j : Journal) (a : Artifact) :
    Keeps A I I (restoreArtifact cx key j a) := by
  unfold Linechain.restoreArtifact
  split_ifs
  · refine keeps_bind read_keeps fun data => ?_
    split
    · exact keeps_fail
    · exact keeps_bind keeps_lift fun _ => L.publish _ _
  · exact L.publish _ _

section

variable (hj : J key j)

include hj

theorem restoreOld : Hands A L key (fun _ => True) (restoreOld cx key j) := by
  intro h hk
  refine wp_then (keeps_forEach (L.restoreArtifact key j) _ h hk) (fun _ h₁ hk₁ => ?_)
  refine wp_then (pairMatches_keeps j false h₁ hk₁) (fun b h₂ hk₂ => ?_)
  split_ifs
  · exact wp_fail hk₂
  · have hj' := L.settle hj .oldRestored j.result
    exact wp_then (L.writeJournal hj' h₂ hk₂) (fun _ _ hk => wp_pure ⟨hk, hj', trivial⟩)

theorem rollback (cause : String) : Keeps A I I (rollback cx key j cause) := by
  intro h hk
  refine wp_bind (wp_orFail (wp_weaken (L.restoreOld hj h hk) (fun _ h₁ hk₁ => ?_)))
  exact wp_bind (wp_orFail (wp_checkRestartVerify hk₁.1 (fun _ _ => hk₁.1) (wp_fail hk₁.1)))

theorem settleOld (wrapRestore wrapVerify : String → String) (r : TaskResult) :
    Hands A L key (fun j => j.result.isSome) (settleOld cx key j wrapRestore wrapVerify r) := by
  intro h hk
  refine wp_bind (wp_orFail (wp_weaken (L.restoreOld hj h hk) (fun j' h₁ hk₁ => ?_)))
  exact wp_bind (wp_orFail (wp_checkRestartVerify hk₁.1 (fun _ _ => hk₁.1)
    (wp_pure ⟨hk₁.1, L.settle hk₁.2.1 _ _, rfl⟩)))

theorem settleDesired (label : String) (desired old : TaskResult) :
    Hands A L key (fun j => j.result.isSome) (settleDesired cx key j label desired old) := by
  intro h hk
  refine wp_bind (wp_attempt (wp_mono (checkRestartVerify_keeps h hk) (fun _ _ hk => ?_)
    (fun _ h₁ hk₁ => ?_) fun _ hc => hc))
  · exact wp_pure ⟨hk, L.settle hj _ _, rfl⟩
  · exact L.settleOld hj _ _ _ h₁ hk₁

theorem settleInterrupted (r : TaskResult) :
    Hands A L key (fun j => j.result.isSome) (settleInterrupted cx key j r) := by
  intro h hk
  have hstands : Keeps A I I (desiredStands cx j) :=
    keeps_ite (fun _ => pairMatches_keeps j true) fun _ => keeps_pure
  refine wp_then (hstands h hk) (fun b h₁ hk₁ => ?_)
  split_ifs
  · exact L.settleDesired hj _ _ _ h₁ hk₁
  · exact L.settleOld hj _ _ _ h₁ hk₁

theorem settleAfterRun (r : TaskResult) :
    Hands A L key (fun j => j.result.isSome) (settleAfterRun cx key j r) := by
  intro h hk
  unfold Linechain.settleAfterRun
  split
  · refine wp_then (pairMatches_keeps j true h hk) (fun b h₁ hk₁ => ?_)
    split_ifs
    · exact wp_fail hk₁
    · exact L.settleDesired hj _ _ _ h₁ hk₁
  · exact L.settleOld hj _ _ _ h hk

end

/-! ### The calls -/

/-- Reading a journal that is there tells what the invariant says of it. -/
theorem readJournal (hk : I h) :
    Leaves A (readJournal cx key) (fun j? h' => I h' ∧ ∀ j, j? = some j → J key j) I h := by
  refine wp_readJournal hk (fun _ _ => hk) (fun _ => ?_) (fun j hl _ => ?_) fun _ _ _ _ => hk
  · exact ⟨hk, fun j hj => by cases hj⟩
  · refine ⟨hk, fun j' hj' => ?_⟩
    rw [← Option.some.inj hj']
    exact L.found hk hl

/-- `recoverOne` rewrites the journal it finds, and returns it with a result. -/
theorem recoverOne (nodeID expectedScriptSHA : String) (expected : Option RecoveryAuthority) :
    Hands A L key (fun j => j.result.isSome)
      (recoverOne cx m key nodeID expectedScriptSHA expected) := by
  intro h hk
  refine wp_then (L.readJournal hk) (fun j? h₁ hk₁ => ?_)
  obtain ⟨hk₁, hid⟩ := hk₁
  cases j? with
  | none => exact wp_fail hk₁
  | some j =>
    have hj := hid j rfl
    refine wp_then (validateJournal_keeps key j h₁ hk₁) (fun _ h₂ hk₂ => ?_)
    refine wp_refuse (fun _ => wp_refuse (fun _ => ?_) fun _ => hk₂) fun _ => hk₂
    split_ifs with hres
    · refine wp_bind (wp_timeNow hk₂ fun now => ?_)
      refine wp_then (L.settleInterrupted hj _ h₂ hk₂) (fun j' h₃ hk₃ => ?_)
      exact wp_then (L.writeJournal hk₃.2.1 h₃ hk₃.1)
        (fun _ _ hk => wp_pure ⟨hk, hk₃.2.1, hk₃.2.2⟩)
    · exact wp_pure ⟨hk₂, hj, by simpa [Option.isSome_iff_ne_none] using hres⟩

theorem publishPhase (hj : J key j) (label : String) (p : Path) (content : Option Bytes)
    (phase : Phase) :
    Hands A L key (fun _ => True) (publishPhase cx key j label p content phase) := by
  intro h hk
  refine wp_bind (wp_attempt (wp_mono (L.publish p content h hk) (fun _ h₁ hk₁ => ?_)
    (fun e h₁ hk₁ => ?_) fun _ hc => hc))
  · have hj' := L.settle hj phase j.result
    exact wp_then (L.writeJournal hj' h₁ hk₁) (fun _ _ hk => wp_pure ⟨hk, hj', trivial⟩)
  · exact wp_then (L.rollback hj _ h₁ hk₁) (fun _ _ hk => wp_pure ⟨hk, hj, trivial⟩)

theorem applyPublish (hj : J key j) (d : Document) (out : Bytes) :
    Keeps A I I (applyPublish cx key d out j) := by
  intro h hk
  refine wp_then (L.writeJournal hj h hk) (fun _ h₁ hk₁ => ?_)
  refine wp_then (L.publishPhase hj _ _ _ _ h₁ hk₁) (fun j₁ h₂ hk₂ => ?_)
  refine wp_then (L.publishPhase hk₂.2.1 _ _ _ _ h₂ hk₂.1) (fun j₂ h₃ hk₃ => ?_)
  refine wp_bind (wp_attempt (wp_mono (checkRestartVerify_keeps h₃ hk₃.1) (fun _ h₄ hk₄ => ?_)
    (fun e h₄ hk₄ => ?_) fun _ hc => hc))
  · exact L.writeJournal (L.settle hk₃.2.1 _ _) h₄ hk₄
  · exact L.rollback hk₃.2.1 e h₄ hk₄

theorem apply {taskID leaseID : String} {raw : Bytes}
    (hJ : ∀ d, decodeDocument cx m raw = .ok d → validateShape cx m d = .ok () →
      ∀ script fragmentOld sidecarOld output, J (journalKey cx taskID leaseID)
        (preparedJournal cx d taskID leaseID script fragmentOld sidecarOld output))
    (script : String) : Keeps A I I (apply cx m raw taskID leaseID script) := by
  refine keeps_bind keeps_lift fun _ => keeps_bind keeps_lift fun _ => fun h hk => ?_
  refine wp_bind (wp_lift (fun d hd => ?_) fun _ _ => hk)
  refine wp_bind (wp_bind (wp_lift (fun _ hshape => ?_) fun _ _ => hk))
  have hparents : Keeps A I I (do
      validateParents d.fragmentPath
      validateParents d.sidecarPath
      .lift (validateDigests d)) :=
    keeps_bind read_keeps fun _ => keeps_bind read_keeps fun _ => keeps_lift
  refine wp_weaken (hparents h hk) (fun _ h₁ hk₁ => ?_)
  refine keeps_bind read_keeps (fun exists? => keeps_ite (fun _ => ?_) fun _ => ?_) h₁ hk₁
  · intro h hk
    exact wp_then (L.recoverOne _ _ _ h hk) (fun _ _ hk => wp_pure hk.1)
  · refine keeps_bind read_keeps fun fragmentOld => keeps_bind read_keeps fun sidecarOld => ?_
    refine keeps_bind keeps_lift fun _ => ?_
    split
    · exact keeps_fail
    · refine keeps_bind keeps_lift fun merged => keeps_bind (L.writeBackup _ _ _) fun _ => ?_
      exact keeps_bind (L.writeBackup _ _ _) fun _ => L.applyPublish (hJ d hd hshape _ _ _ _) _ _

theorem resolveAfterRun (taskID leaseID : String) (r : TaskResult) :
    Keeps A I I (resolveAfterRun cx taskID leaseID r) := by
  intro h hk
  refine wp_then (L.readJournal hk) (fun j? h₁ hk₁ => ?_)
  obtain ⟨hk₁, hid⟩ := hk₁
  cases j? with
  | none =>
    simp only
    split
    · exact wp_bind (wp_timeNow hk₁ fun now => wp_pure hk₁)
    · exact wp_fail hk₁
  | some j =>
    simp only
    split
    · exact wp_pure hk₁
    · refine wp_bind (wp_timeNow hk₁ fun now => ?_)
      refine wp_then (L.settleAfterRun (hid j rfl) _ h₁ hk₁) (fun j' h₂ hk₂ => ?_)
      exact wp_then (L.writeJournal hk₂.2.1 h₂ hk₂.1) (fun _ _ hk => wp_pure hk)

theorem expectedAuthority (name : String) (authority : Option (List (String × RecoveryAuthority))) :
    Keeps A I I (expectedAuthority cx name authority) := by
  cases authority with
  | none => exact keeps_pure
  | some authority =>
    intro h hk
    refine wp_then (L.readJournal hk) (fun j? h₁ hk₁ => ?_)
    cases j? with
    | none => exact wp_fail hk₁.1
    | some j =>
      simp only
      split
      · exact wp_fail hk₁.1
      · exact wp_pure hk₁.1

end Ledger

/-! ### Which journals the calls leave -/

variable {cx : Codec} {m : Manager} {key : String}

/-- **`recoverOne`** rewrites the journal it finds, and returns it with a result. -/
theorem recoverOne_kept (nodeID expectedScriptSHA : String) (expected : Option RecoveryAuthority) :
    Returns A P key (fun j => j.result.isSome)
      (recoverOne cx m key nodeID expectedScriptSHA expected) :=
  kept_ledger.recoverOne nodeID expectedScriptSHA expected

/-- **`Apply`** writes journals under the identity of its task. -/
theorem apply_kept {taskID leaseID : String} (hP : P (journalKey cx taskID leaseID) taskID leaseID)
    (raw : Bytes) (script : String) : KeepsJournals A P (apply cx m raw taskID leaseID script) :=
  kept_ledger.apply (fun _ _ _ _ _ _ _ => hP) script

/-- **`ResolveAfterRun`** rewrites the journal of the task. -/
theorem resolveAfterRun_kept (taskID leaseID : String) (r : TaskResult) :
    KeepsJournals A P (resolveAfterRun cx taskID leaseID r) :=
  kept_ledger.resolveAfterRun taskID leaseID r

theorem expectedAuthority_kept (name : String)
    (authority : Option (List (String × RecoveryAuthority))) :
    KeepsJournals A P (expectedAuthority cx name authority) :=
  kept_ledger.expectedAuthority name authority

/-- **`Cleanup`.**  Where its sync cannot fail it either removes the journal for good, or
leaves every journal it found both visible and durable. -/
theorem cleanup_kept (hA : ∀ c, A c → c.syncDirectory = none) (taskID leaseID : String)
    (hk : h.Kept P) :
    wp A (cleanup cx taskID leaseID)
      (fun _ => Host.Kept fun n t l => P n t l ∧ n ≠ journalKey cx taskID leaseID)
      (fun _ => Host.Kept P) (Host.Within P) h := by
  have hbackup : ∀ a key, Keeps A (Host.Kept P) (Host.Within P) (removeBackup a key) :=
    fun a key h hk => wp_access (fun _ calm => calm.remove) hk.within (fun _ _ => hk)
      (hk.congr rfl rfl)
  refine wp_then (hbackup .fragment _ h hk) (fun _ h₁ hk₁ => ?_)
  refine wp_then (hbackup .sidecar _ h₁ hk₁) (fun _ h₂ hk₂ => ?_)
  refine wp_bind (wp_access (fun _ calm => calm.remove) hk₂.within (fun _ _ => hk₂) ?_)
  have hw := Host.Holds.eraseJournal hk₂.within (journalKey cx taskID leaseID)
  refine wp_step hw fun c hc => ?_
  rw [hA c hc]
  refine ⟨fun name j hj => ?_, fun name hn => hn⟩
  have hl : (h₂.txn.visible.journal.erase (journalKey cx taskID leaseID)).lookup name = some j := by
    simpa using hj
  refine ⟨hw name j (.inl hl), ?_⟩
  rintro rfl
  rw [AList.lookup_erase] at hl
  cases hl

/-- **`Open`** settles what the last process left. -/
theorem openManager_kept (hw : h.Within P) :
    Leaves A openManager (fun _ => Host.Kept P) (Host.Within P) h :=
  wp_bind (wp_access (fun _ calm => calm.read) hw (fun _ _ => hw)
    (wp_access (fun _ calm => calm.sync) hw (fun _ _ => hw) hw.sync))

/-- **`ReadDir`** names every journal there is. -/
theorem readDir_kept (hk : h.Kept P) :
    Leaves A readDir (fun names => Host.Kept fun n t l => P n t l ∧ n ∈ names) (Host.Kept P) h := by
  refine wp_access (fun _ calm => calm.read) hk (fun _ _ => hk) ⟨fun name j hj => ?_, hk.settled⟩
  refine ⟨hk.within name j hj, ?_⟩
  rw [List.mem_insertionSort, ← AList.mem_keys, ← AList.lookup_isSome]
  rcases hj with hj | hj
  · rw [hj]
    rfl
  · cases hl : h.txn.visible.journal.lookup name with
    | some _ => rfl
    | none =>
      rw [hk.settled name hl] at hj
      cases hj

theorem snapshotFrom_kept (names : List String) (refs : List JournalRef) :
    KeepsJournals A P (snapshotFrom cx m names refs) := by
  induction names generalizing refs with
  | nil => exact keeps_pure
  | cons name names ih =>
    refine keeps_bind keeps_lift fun _ => fun h hk => ?_
    refine wp_then (kept_ledger.readJournal hk) (fun j? h₁ hk₁ => ?_)
    cases j? with
    | none => exact wp_fail hk₁.1
    | some j =>
      exact keeps_bind keeps_lift (fun _ => keeps_bind keeps_lift fun _ =>
        keeps_bind (validateJournal_keeps name j) fun _ => ih _) h₁ hk₁.1

theorem snapshot_kept : KeepsJournals A P (snapshot cx m) :=
  keeps_bind read_keeps fun names => snapshotFrom_kept names []

theorem snapshotFrom_refs (names : List String) (refs : List JournalRef) :
    wp A (snapshotFrom cx m names refs)
      (fun refs' h' => h' = h ∧ refs ⊆ refs' ∧ ∀ name ∈ names, ∀ j,
        h.txn.visible.journal.lookup name = some j → j.ref cx ∈ refs')
      (fun _ h' => h' = h) (fun h' => h' = h) h := by
  induction names generalizing refs with
  | nil => exact wp_pure ⟨rfl, fun _ hr => hr, fun name hn => by simp at hn⟩
  | cons name names ih =>
    refine wp_refuse (fun _ => ?_) fun _ => rfl
    refine wp_bind (wp_access (fun _ calm => calm.read) rfl (fun _ _ => rfl) ?_)
    cases hl : h.txn.visible.journal.lookup name with
    | none => exact wp_fail rfl
    | some j =>
      simp only
      cases hc : checkJournal cx j with
      | error e => exact rfl
      | ok u =>
        refine wp_refuse (fun _ => wp_refuse (fun _ => ?_) fun _ => rfl) fun _ => rfl
        refine wp_then (validateJournal_keeps (I := fun h' => h' = h) name j h rfl)
          (fun _ h' hh' => ?_)
        subst hh'
        refine wp_weaken (ih _) (fun refs' _ hr => ?_)
        obtain ⟨hh, hsub, hall⟩ := hr
        refine ⟨hh, fun r hr => hsub (List.mem_append_left _ hr), fun name' hn j' hj' => ?_⟩
        rcases List.mem_cons.mp hn with rfl | hn
        · rw [hl] at hj'
          rw [← Option.some.inj hj']
          exact hsub (by simp)
        · exact hall name' hn j' hj'

/-- **`Snapshot`** shows every visible journal. -/
theorem snapshot_refs :
    wp A (snapshot cx m)
      (fun refs h' => h' = h ∧ ∀ name j, h.txn.visible.journal.lookup name = some j →
        j.ref cx ∈ refs)
      (fun _ h' => h' = h) (fun h' => h' = h) h := by
  refine wp_bind (wp_access (fun _ calm => calm.read) rfl (fun _ _ => rfl) ?_)
  refine wp_weaken (snapshotFrom_refs _ []) (fun refs h' hr => ⟨hr.1, fun name j hj => ?_⟩)
  refine hr.2.2 name ?_ j hj
  rw [List.mem_insertionSort, ← AList.mem_keys, ← AList.lookup_isSome, hj]
  rfl

end keeps
end LatticeAgent.Linechain
