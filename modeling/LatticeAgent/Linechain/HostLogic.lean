import LatticeAgent.Linechain.Manager

/-! # Proof rules for programs of the host

One rule for each access of the manager to the host. An access can fail only where the
outside world makes its seam fail; `Faulty A` says that the admitted choices `A` contain
one that does, so a specification whose errors are all `Faulty` also says that the program
cannot fail when nothing outside fails. -/

namespace LatticeAgent.Linechain

open CutProg

/-- A choice in which no seam fails. -/
structure Choice.Calm (c : Choice) : Prop where
  read : c.read = none
  write : c.write = none
  sync : c.sync = none
  remove : c.remove = none
  syncDirectory : c.syncDirectory = none
  run : c.run = none
  complete : c.complete = none

/-- Some admitted choice makes a seam fail. -/
def Faulty (A : Choice → Prop) : Prop := ∃ c, A c ∧ ¬ c.Calm

theorem not_faulty_calm : ¬ Faulty Choice.Calm := fun ⟨_, h, hn⟩ => hn h

/-! ### What the updates leave -/

section updates
variable (h : Host) (f : TxnDir → TxnDir) (t : TxnDir) (a b : Artifact) (key name : String)

/-- A host with one artifact file replaced. -/
def Host.setFile (p : Path) (content : Option Bytes) : Host :=
  { h with files := Function.update h.files p content }

@[simp] theorem writeTxn_files : (h.writeTxn f).files = h.files := rfl
@[simp] theorem writeTxn_visible : (h.writeTxn f).txn.visible = f h.txn.visible := rfl
@[simp] theorem writeTxn_durable : (h.writeTxn f).txn.durable = h.txn.durable := rfl
@[simp] theorem syncTxn_files : h.syncTxn.files = h.files := rfl
@[simp] theorem syncTxn_visible : h.syncTxn.txn.visible = h.txn.visible := rfl
@[simp] theorem syncTxn_durable : h.syncTxn.txn.durable = h.txn.visible := rfl
@[simp] theorem setFile_txn (p : Path) (c : Option Bytes) : (h.setFile p c).txn = h.txn := rfl
@[simp] theorem setFile_files (p : Path) (c : Option Bytes) :
    (h.setFile p c).files = Function.update h.files p c := rfl
@[simp] theorem setJournal_backup (j : Journal) : (t.setJournal key j).backup = t.backup := rfl
@[simp] theorem setJournal_journal (j : Journal) :
    (t.setJournal key j).journal = t.journal.insert key j := rfl
@[simp] theorem eraseJournal_backup : (t.eraseJournal key).backup = t.backup := rfl
@[simp] theorem eraseJournal_journal :
    (t.eraseJournal key).journal = t.journal.erase key := rfl
@[simp] theorem setBackup_journal (c : Option Bytes) :
    (t.setBackup a key c).journal = t.journal := rfl

theorem setBackup_backup (c : Option Bytes) :
    (t.setBackup a key c).backup b name =
      if b = a ∧ name = key then c else t.backup b name := by
  by_cases hb : b = a
  · subst hb
    by_cases hn : name = key
    · subst hn; simp [TxnDir.setBackup]
    · simp [TxnDir.setBackup, hn]
  · simp [TxnDir.setBackup, hb]

end updates

/-! ### Accesses -/

section rules
variable {A : Choice → Prop} {α : Type} {Q : α → Host → Prop} {E : String → Host → Prop}
  {C : Host → Prop} {h : Host}

theorem wp_access {seam : Choice → Option String} {f : Host → Except String α × Host}
    (hseam : ∀ c, c.Calm → seam c = none) (hC : C h) (hE : ∀ e, Faulty A → E e h)
    (hf : Outcome Q E (f h)) : wp A (access seam f) Q E C h := by
  refine wp_step hC fun c hc => ?_
  cases hs : seam c with
  | none => simpa only [hs] using hf
  | some e => exact hE e ⟨c, hc, fun calm => by rw [hseam c calm] at hs; cases hs⟩

theorem wp_read {f : Host → Except String α} (hC : C h) (hE : ∀ e, Faulty A → E e h)
    (hok : ∀ a, f h = .ok a → Q a h) (herr : ∀ e, f h = .error e → E e h) :
    wp A (access Choice.read fun h => (f h, h)) Q E C h := by
  refine wp_access (fun _ calm => calm.read) hC hE ?_
  cases hf : f h with
  | ok a => exact hok a hf
  | error e => exact herr e hf

/-- A write, of a file or of the transaction directory, and the sync after it. -/
theorem wp_writeSync {Q : Unit → Host → Prop} {f g : Host → Host} (hC : C h) (hC' : C (f h))
    (hE : ∀ e, Faulty A → E e h) (hE' : ∀ e, Faulty A → E e (f h)) (hQ : Q () (g (f h))) :
    wp A (do
      access Choice.write fun h => (.ok (), f h)
      access Choice.sync fun h => (.ok (), g h)) Q E C h := by
  refine wp_bind (wp_access (fun _ calm => calm.write) hC hE ?_)
  exact wp_access (fun _ calm => calm.sync) hC' hE' hQ

theorem wp_refuse {bad : Bool} {msg : String} {f : Unit → HostProg α}
    (hgood : bad = false → wp A (f ()) Q E C h) (hbad : bad → E msg h) :
    wp A (.lift (refuse bad msg) >>= f) Q E C h := by
  cases bad with
  | false => exact wp_bind (wp_ret (hgood rfl))
  | true => exact wp_bind (wp_fail (hbad rfl))

theorem wp_timeNow {Q : Time → Host → Prop} (hC : C h) (hQ : ∀ t, Q t h) : wp A timeNow Q E C h :=
  wp_step hC fun c _ => hQ c.now

theorem wp_orFail {p : HostProg α} {wrap : String → String}
    (hp : wp A p Q (fun e => E (wrap e)) C h) : wp A (orFail p wrap) Q E C h := by
  refine wp_bind (wp_attempt ?_)
  exact wp_mono hp (fun _ _ hQ => wp_pure hQ) (fun _ _ hE => wp_fail hE) (fun _ hC => hC)

theorem wp_runCommand {Q : Unit → Host → Prop} {msg : String} (hC : C h)
    (hE : Faulty A → E msg h) (hQ : Q () h) : wp A (runCommand msg) Q E C h := by
  refine wp_step hC fun c hc => ?_
  cases hr : c.run with
  | none => exact hQ
  | some e => exact hE ⟨c, hc, fun calm => by rw [calm.run] at hr; cases hr⟩

section

variable (hC : C h) (hE : ∀ e, Faulty A → E e h)

include hC hE

/-- The commands of the runtime change nothing the manager looks at. -/
theorem wp_checkRestartVerify {Q : Unit → Host → Prop} (hQ : Q () h) :
    wp A checkRestartVerify Q E C h :=
  wp_bind (wp_runCommand hC (hE _) (wp_bind (wp_runCommand hC (hE _)
    (wp_runCommand hC (hE _) hQ))))

theorem wp_validateParents {Q : Unit → Host → Prop} {p : Path} (hQ : Q () h) :
    wp A (validateParents p) Q E C h :=
  wp_access (fun _ calm => calm.read) hC hE hQ

theorem wp_journalExists {Q : Bool → Host → Prop} {key : String}
    (hQ : Q (h.txn.visible.journal.lookup key).isSome h) : wp A (journalExists key) Q E C h :=
  wp_access (fun _ calm => calm.read) hC hE hQ

theorem wp_readJournal {cx : Codec} {key : String} {Q : Option Journal → Host → Prop}
    (hnone : h.txn.visible.journal.lookup key = none → Q none h)
    (hsome : ∀ j, h.txn.visible.journal.lookup key = some j → checkJournal cx j = .ok () →
      Q (some j) h)
    (herr : ∀ j e, h.txn.visible.journal.lookup key = some j → checkJournal cx j = .error e →
      E e h) :
    wp A (readJournal cx key) Q E C h := by
  refine wp_access (fun _ calm => calm.read) hC hE ?_
  cases hl : h.txn.visible.journal.lookup key with
  | none => exact hnone hl
  | some j =>
    cases hj : checkJournal cx j with
    | ok u => simp only [hj]; exact hsome j hl hj
    | error e => simp only [hj]; exact herr j e hl hj

end

end rules

theorem sized_of_le {name : String} {c : Option Bytes}
    (hc : ∀ b, c = some b → b.length ≤ maxArtifactSize) : sized name c = .ok c := by
  cases c with
  | none => rfl
  | some b => simp [sized, Nat.not_lt.mpr (hc b rfl)]

theorem sized_eq_ok {name : String} {c c' : Option Bytes} (h : sized name c = .ok c') :
    c' = c ∧ ∀ b, c = some b → b.length ≤ maxArtifactSize := by
  cases c with
  | none => cases h; exact ⟨rfl, fun _ hb => by cases hb⟩
  | some b =>
    by_cases hb : maxArtifactSize < b.length
    · simp [sized, hb] at h
    · simp only [sized, hb, if_false, Except.ok.injEq] at h
      refine ⟨h.symm, fun b' hb' => ?_⟩
      cases hb'
      exact Nat.le_of_not_lt hb

theorem wp_readCurrent {A : Choice → Prop} {Q : Except String (Option Bytes) → Host → Prop}
    {E : String → Host → Prop} {C : Host → Prop} {h : Host} {p : Path} (hC : C h)
    (hok : (∀ b, h.files p = some b → b.length ≤ maxArtifactSize) → Q (.ok (h.files p)) h)
    (herr : ∀ e, (Faulty A ∨ ∃ b, h.files p = some b ∧ maxArtifactSize < b.length) →
      Q (.error e) h) : wp A (.attempt (readCurrent p)) Q E C h := by
  refine wp_attempt (wp_read hC (fun e hf => herr e (.inl hf)) (fun x hx => ?_) fun e he => ?_)
  · obtain ⟨rfl, hle⟩ := sized_eq_ok hx
    exact hok hle
  · refine herr e (.inr ?_)
    by_contra hsmall
    push Not at hsmall
    rw [sized_of_le hsmall] at he
    cases he

theorem wp_pairMatches {A : Choice → Prop} {Q : Bool → Host → Prop} {E : String → Host → Prop}
    {C : Host → Prop} {h : Host} {cx : Codec} {j : Journal} {desired : Bool} (hC : C h)
    (hread : Q (j.names cx desired (h.files j.fragmentPath) (h.files j.sidecarPath)) h)
    (hunread : (Faulty A ∨ ∃ a b, h.files (j.path a) = some b ∧ maxArtifactSize < b.length) →
      Q false h) : wp A (pairMatches cx j desired) Q E C h := by
  refine wp_bind (wp_readCurrent hC (fun _ => ?_) fun e he => ?_)
  · refine wp_bind (wp_readCurrent hC (fun _ => wp_pure hread) fun e he => wp_pure ?_)
    exact hunread (he.imp_right fun hb => ⟨.sidecar, hb⟩)
  · have hq : Q false h := hunread (he.imp_right fun hb => ⟨.fragment, hb⟩)
    exact wp_bind (wp_readCurrent hC (fun _ => wp_pure hq) fun _ _ => wp_pure hq)

/-! ### Step bounds -/

section bounds
variable {α : Type} {n : ℕ} (cx : Codec) (key : String) (j : Journal)

theorem bounded_access (seam : Choice → Option String) (f : Host → Except String α × Host) :
    Bounded 1 (access seam f) := bounded_step _

theorem bounded_publish (p : Path) (content : Option Bytes) : Bounded 2 (publish p content) :=
  bounded_bind (bounded_access _ _) (fun _ => bounded_access _ _) le_rfl

theorem bounded_writeJournal : Bounded 2 (writeJournal key j) :=
  bounded_bind (bounded_access _ _) (fun _ => bounded_access _ _) le_rfl

theorem bounded_checkRestartVerify : Bounded 3 checkRestartVerify :=
  bounded_bind (bounded_step _) (fun _ => bounded_bind (bounded_step _)
    (fun _ => bounded_step _) le_rfl) le_rfl

theorem bounded_orFail {p : HostProg α} (hp : Bounded n p) (wrap : String → String) :
    Bounded n (orFail p wrap) := by
  refine bounded_bind (n := 0) (bounded_attempt hp) (fun r => ?_) le_rfl
  cases r with
  | ok a => exact bounded_pure a
  | error e => exact bounded_fail _

theorem bounded_pairMatches (desired : Bool) : Bounded 2 (pairMatches cx j desired) := by
  refine bounded_bind (bounded_attempt (bounded_access _ _)) (fun a =>
    bounded_bind (n := 0) (bounded_attempt (bounded_access _ _)) (fun b => ?_) le_rfl) le_rfl
  cases a <;> cases b <;> exact bounded_pure _

theorem bounded_restoreArtifact (a : Artifact) : Bounded 3 (restoreArtifact cx key j a) := by
  unfold restoreArtifact
  refine bounded_ite (bounded_bind (n := 2) (bounded_access _ _) (fun data => ?_) le_rfl)
    (bounded_publish _ _) le_rfl (by omega)
  cases data with
  | none => exact (bounded_fail _).mono (by omega)
  | some data => exact bounded_bind (bounded_lift _) (fun _ => bounded_publish _ _) le_rfl

theorem bounded_restoreOld : Bounded 10 (restoreOld cx key j) := by
  refine bounded_bind (bounded_forEach (bounded_restoreArtifact cx key j) [.fragment, .sidecar])
    (fun _ => ?_) (show 2 * 3 + 4 ≤ 10 by omega)
  refine bounded_bind (bounded_pairMatches cx j false) (fun ok => ?_) (show 2 + 2 ≤ 4 by omega)
  exact bounded_ite (bounded_fail _) (bounded_bind (bounded_writeJournal key _)
    (fun _ => bounded_pure _) le_rfl) (by omega) le_rfl

theorem bounded_settleOld (w₁ w₂ : String → String) (r : TaskResult) :
    Bounded 13 (settleOld cx key j w₁ w₂ r) :=
  bounded_bind (bounded_orFail (bounded_restoreOld cx key j) w₁) (fun _ =>
    bounded_bind (bounded_orFail bounded_checkRestartVerify w₂) (fun _ => bounded_pure _)
      le_rfl) le_rfl

theorem bounded_settleDesired (label : String) (r r' : TaskResult) :
    Bounded 16 (settleDesired cx key j label r r') := by
  refine bounded_bind (bounded_attempt bounded_checkRestartVerify) (fun v => ?_)
    (show 3 + 13 ≤ 16 by omega)
  cases v with
  | ok _ => exact (bounded_pure _).mono (by omega)
  | error e => exact bounded_settleOld cx key j _ _ _

theorem bounded_settleInterrupted (r : TaskResult) : Bounded 18 (settleInterrupted cx key j r) := by
  refine bounded_bind (m := 2) (n := 16) ?_ (fun desired => ?_) le_rfl
  · exact bounded_ite (bounded_pairMatches cx j true) (bounded_pure _) le_rfl (by omega)
  · exact bounded_ite (bounded_settleDesired cx key j _ _ _) (bounded_settleOld cx key j _ _ _)
      le_rfl (by omega)

theorem bounded_resolveInterrupted (nodeID : String) :
    Bounded 21 (resolveInterrupted cx key j nodeID) := by
  refine bounded_bind (bounded_step _) (fun now => ?_) (show 1 + 20 ≤ 21 by omega)
  refine bounded_bind (bounded_settleInterrupted cx key j _) (fun j' => ?_)
    (show 18 + 2 ≤ 20 by omega)
  exact bounded_bind (bounded_writeJournal key j') (fun _ => bounded_pure _) le_rfl

theorem bounded_validateJournal (m : Manager) : Bounded 2 (validateJournal cx m key j) := by
  refine bounded_bind (n := 2) (bounded_lift _) (fun _ => ?_) le_rfl
  refine bounded_ite (bounded_ret _) (bounded_forEach (n := 1) (fun a => ?_) _) (by omega) le_rfl
  exact bounded_bind (bounded_access _ _) (fun _ => bounded_lift _) le_rfl

/-- The number of steps a recovery may take. -/
def recoverySteps : ℕ := 24

theorem bounded_recoverOne (m : Manager) (nodeID scriptSHA : String)
    (expected : Option RecoveryAuthority) :
    Bounded recoverySteps (recoverOne cx m key nodeID scriptSHA expected) := by
  refine bounded_bind (n := 23) (bounded_access _ _) (fun found => ?_) le_rfl
  cases found with
  | none => exact (bounded_fail _).mono (by omega)
  | some j =>
    refine bounded_bind (n := 21) (bounded_validateJournal cx key j m) (fun _ => ?_) le_rfl
    refine bounded_bind (n := 21) (bounded_lift _) (fun _ => ?_) le_rfl
    refine bounded_bind (n := 21) (bounded_lift _) (fun _ => ?_) le_rfl
    exact bounded_ite (bounded_resolveInterrupted cx key j nodeID) (bounded_pure _) le_rfl
      (by omega)

end bounds

end LatticeAgent.Linechain
