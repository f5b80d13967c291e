import Mathlib.Data.Set.Function
import LatticeAgent.Linechain.HostLogic

/-! # Crash atomicity of a linechain transaction

One document applied under one lease, with no other writer of its two artifacts. Between
calls, and at every point at which a call can be cut, the host is in one of three states:
*idle* (no journal; the backups, if any, are of the pair on disk), *live* (a journal without
a result; both backups hold the pair `Apply` started from, and each artifact is the old or
the desired one) or *done* (a terminal journal whose result agrees with the pair on disk).

Every program of the manager keeps this (`apply_spec`, `resolveAfterRun_spec`,
`recoverOne_spec`, `cleanup_spec`), so every run does, and from a live state a recovery in
which nothing outside fails ends done. -/

namespace LatticeAgent.Linechain

open CutProg

/-- The content of both artifacts. -/
abbrev Pair := Artifact → Option Bytes

def Document.path (d : Document) : Artifact → Path
  | .fragment => d.fragmentPath
  | .sidecar => d.sidecarPath

/-- A document that decoded, and the lease it is applied under. -/
structure Transaction where
  cx : Codec
  m : Manager
  raw : Bytes
  doc : Document
  taskID : String
  leaseID : String
  taskScriptSHA : String
  decoded : decodeDocument cx m raw = .ok doc

namespace Transaction
variable (T : Transaction)

def key : String := journalKey T.cx T.taskID T.leaseID

def script : String := trimSpace T.taskScriptSHA

/-- The pair on disk. -/
def pair (h : Host) : Pair := fun a => h.files (T.doc.path a)

/-- The pair the document asks for, given the merged sidecar. -/
def desired (merged : Bytes) : Pair
  | .fragment => T.doc.fragment
  | .sidecar => some merged

/-- The journal of a transaction that started from `start`, in a given phase. -/
def journalAt (start : Pair) (merged : Bytes) (phase : Phase) (result : Option TaskResult) :
    Journal :=
  { preparedJournal T.cx T.doc T.taskID T.leaseID T.script (start .fragment) (start .sidecar)
      (some merged) with phase := phase, result := result }

/-- The contents `S` that can be on disk, on which the digest is collision-free. -/
structure CollisionFree (S : Set Bytes) : Prop where
  fragment_mem : ∀ b, T.doc.fragment = some b → b ∈ S
  merged_mem : ∀ b ∈ S, ∀ merged,
    T.cx.mergeManagedSidecar b T.doc.sidecarPatch = .ok merged → merged ∈ S
  injOn : Set.InjOn T.cx.digest S
  digest_sha : ∀ b ∈ S, validSHA (T.cx.digest b) = true

/-! ### The three states -/

variable (S : Set Bytes)

/-- What `Apply` has established when it writes its first journal. -/
structure Begun (start : Pair) (merged : Bytes) : Prop where
  merge : ∃ b, start .sidecar = some b ∧
    T.cx.mergeManagedSidecar b T.doc.sidecarPatch = .ok merged
  small : ∀ a b, start a = some b → b.length ≤ maxArtifactSize
  mem : ∀ a b, start a = some b → b ∈ S
  bound : T.doc.Bound T.m
  taskID_ne : T.taskID ≠ ""
  leaseID_ne : T.leaseID ≠ ""
  script_sha : validSHA T.script = true

/-- No journal but the transaction's own. -/
def Alone (h : Host) : Prop :=
  ∀ name j, h.txn.visible.journal.lookup name = some j → name = T.key

structure Idle (h : Host) : Prop where
  alone : T.Alone h
  lookup : h.txn.visible.journal.lookup T.key = none
  mem : ∀ a b, T.pair h a = some b → b ∈ S
  backup : ∀ a, h.txn.visible.backup a T.key = none ∨ h.txn.visible.backup a T.key = T.pair h a

structure Live (start : Pair) (merged : Bytes) (phase : Phase) (h : Host) : Prop where
  alone : T.Alone h
  lookup : h.txn.visible.journal.lookup T.key = some (T.journalAt start merged phase none)
  nonterminal : phase.terminal = false
  backup : ∀ a, h.txn.visible.backup a T.key = start a
  mixed : ∀ a, T.pair h a = start a ∨ T.pair h a = T.desired merged a

/-- The pair on disk is the one a terminal phase and its result speak of. -/
inductive Verdict (start : Pair) (merged : Bytes) (h : Host) : Phase → TaskResult → Prop
  | desired {r : TaskResult} (pair : T.pair h = T.desired merged) (exit : r.exitCode = 0)
      (error : r.error = "") : Verdict start merged h .terminalDesired r
  | old {r : TaskResult} (pair : T.pair h = start) (failed : r.exitCode ≠ 0 ∨ r.error ≠ "") :
      Verdict start merged h .terminalOld r

structure Done (start : Pair) (merged : Bytes) (phase : Phase) (r : TaskResult) (h : Host) :
    Prop where
  alone : T.Alone h
  lookup : h.txn.visible.journal.lookup T.key =
    some (T.journalAt start merged phase (some r))
  verdict : T.Verdict start merged h phase r

/-- The invariant of a run in which `start` is the pair the last fresh `Apply` read. -/
inductive Inv (start : Pair) (h : Host) : Prop
  | idle (i : T.Idle S h)
  | live (merged : Bytes) (phase : Phase) (b : T.Begun S start merged)
      (l : T.Live start merged phase h)
  | done (merged : Bytes) (phase : Phase) (r : TaskResult) (b : T.Begun S start merged)
      (d : T.Done start merged phase r h)

variable {T S} {start : Pair} {merged : Bytes} {phase : Phase} {h h' : Host}

theorem Live.congr (l : T.Live start merged phase h) (hp : T.pair h' = T.pair h)
    (ht : h'.txn.visible = h.txn.visible) : T.Live start merged phase h' := by
  refine ⟨?_, ?_, l.nonterminal, ?_, ?_⟩
  · simpa only [Alone, ht] using l.alone
  · simpa only [ht] using l.lookup
  · simpa only [ht] using l.backup
  · simpa only [hp] using l.mixed

variable {r : TaskResult}

theorem Verdict.congr (v : T.Verdict start merged h phase r) (hp : T.pair h' = T.pair h) :
    T.Verdict start merged h' phase r := by
  cases v with
  | desired pair exit error => exact .desired (hp.trans pair) exit error
  | old pair failed => exact .old (hp.trans pair) failed

theorem Verdict.terminal (v : T.Verdict start merged h phase r) : phase.terminal := by
  cases v <;> rfl

theorem Begun.desired_mem (b : T.Begun S start merged) (hS : T.CollisionFree S)
    (a : Artifact) (x : Bytes) (hx : T.desired merged a = some x) : x ∈ S := by
  cases a with
  | fragment => exact hS.fragment_mem x hx
  | sidecar =>
    obtain ⟨so, hso, hm⟩ := b.merge
    cases hx
    exact hS.merged_mem so (b.mem _ _ hso) merged hm

theorem journalAt_path (r : Option TaskResult) (a : Artifact) :
    (T.journalAt start merged phase r).path a = T.doc.path a := by
  cases a <;> rfl

theorem journalAt_had (r : Option TaskResult) (a : Artifact) :
    (T.journalAt start merged phase r).had a = (start a).isSome := by
  cases a <;> rfl

theorem journalAt_old (r : Option TaskResult) (a : Artifact) :
    (T.journalAt start merged phase r).old a = digestMaybe T.cx (start a) := by
  cases a <;> rfl

/-! ### Updates of the host -/

theorem Begun.path_injective (b : T.Begun S start merged) : Function.Injective T.doc.path := by
  intro x y hxy
  cases x <;> cases y
  · rfl
  · exact absurd hxy b.bound.paths_ne
  · exact absurd hxy.symm b.bound.paths_ne
  · rfl

theorem pair_setFile (b : T.Begun S start merged) (a : Artifact) (c : Option Bytes) :
    T.pair (h.setFile (T.doc.path a) c) = Function.update (T.pair h) a c := by
  funext x
  by_cases hx : x = a
  · subst hx; simp [pair]
  · have hp : T.doc.path x ≠ T.doc.path a := fun hxa => hx (b.path_injective hxa)
    simp [pair, hx, hp]

theorem Live.setFile (l : T.Live start merged phase h) (b : T.Begun S start merged)
    {a : Artifact} {c : Option Bytes} (hc : c = start a ∨ c = T.desired merged a) :
    T.Live start merged phase (h.setFile (T.doc.path a) c) := by
  refine ⟨l.alone, l.lookup, l.nonterminal, l.backup, fun x => ?_⟩
  rw [pair_setFile b]
  by_cases hx : x = a
  · subst hx; simpa using hc
  · simpa [hx] using l.mixed x

theorem Alone.setJournal (al : T.Alone h) (j : Journal) :
    T.Alone (h.writeTxn (·.setJournal T.key j)) := by
  intro name j' hj'
  by_cases hn : name = T.key
  · exact hn
  · rw [writeTxn_visible, setJournal_journal, AList.lookup_insert_ne hn] at hj'
    exact al name j' hj'

section

variable (l : T.Live start merged phase h)

include l

theorem Live.setPhase (phase' : Phase) (hp : phase'.terminal = false) : T.Live start merged phase'
      (h.writeTxn (·.setJournal T.key (T.journalAt start merged phase' none))) where
  alone := Alone.setJournal l.alone _
  lookup := by simp
  nonterminal := hp
  backup := l.backup
  mixed := l.mixed

theorem Live.setDone {phase' : Phase} (v : T.Verdict start merged h phase' r) :
    T.Done start merged phase' r
      (h.writeTxn (·.setJournal T.key (T.journalAt start merged phase' (some r)))) where
  alone := Alone.setJournal l.alone _
  lookup := by simp
  verdict := v.congr rfl

theorem Live.syncTxn : T.Live start merged phase h.syncTxn :=
  l.congr rfl rfl

end

theorem Done.syncTxn (d : T.Done start merged phase r h) : T.Done start merged phase r h.syncTxn :=
  ⟨d.alone, d.lookup, d.verdict.congr rfl⟩

/-! ### Restoring the old pair -/

variable {A : Choice → Prop}

variable (T) in
/-- Live in some phase: what a failed or cut restoration leaves. -/
def LiveSome (start : Pair) (merged : Bytes) (h : Host) : Prop :=
  ∃ phase, T.Live start merged phase h

variable (T A) in
/-- A failure inside a live transaction: the outside world caused it. -/
def Stuck (start : Pair) (merged : Bytes) (_ : String) (h : Host) : Prop :=
  T.LiveSome start merged h ∧ Faulty A

theorem restoreArtifact_spec (b : T.Begun S start merged) (l : T.Live start merged phase h)
    (a : Artifact) :
    wp A (restoreArtifact T.cx T.key (T.journalAt start merged phase none) a)
      (fun _ h' => T.Live start merged phase h' ∧
        T.pair h' = Function.update (T.pair h) a (start a))
      (T.Stuck A start merged) (T.LiveSome start merged) h := by
  have hstuck : ∀ {x : Host} (e : String), T.Live start merged phase x → Faulty A →
      T.Stuck A start merged e x := fun _ lx hf => ⟨⟨phase, lx⟩, hf⟩
  have hpub : wp A (publish (T.doc.path a) (start a))
      (fun _ h' => T.Live start merged phase h' ∧
        T.pair h' = Function.update (T.pair h) a (start a))
      (T.Stuck A start merged) (T.LiveSome start merged) h :=
    have l' := l.setFile b (a := a) (.inl rfl)
    wp_writeSync ⟨phase, l⟩ ⟨phase, l'⟩ (fun e => hstuck e l) (fun e => hstuck e l')
      ⟨l', pair_setFile b a _⟩
  unfold restoreArtifact
  rw [journalAt_had, journalAt_path, journalAt_old]
  cases ha : start a with
  | none => simpa [ha] using hpub
  | some data =>
    simp only [Option.isSome_some, if_true]
    refine wp_bind (wp_read ⟨phase, l⟩ (fun e => hstuck e l) (fun x hx => ?_) fun e he => ?_)
    · obtain ⟨rfl, -⟩ := sized_eq_ok hx
      rw [l.backup, ha]
      refine wp_bind (wp_lift (fun _ _ => ?_) fun e he => ?_)
      · rwa [ha] at hpub
      · simp [digestMaybe, refuse] at he
    · rw [sized_of_le (by rw [l.backup]; exact b.small a)] at he
      cases he

theorem CollisionFree.digestMaybe_inj (hS : T.CollisionFree S) {x y : Option Bytes}
    (hx : ∀ b, x = some b → b ∈ S) (hy : ∀ b, y = some b → b ∈ S)
    (hxy : digestMaybe T.cx x = digestMaybe T.cx y) : x = y := by
  -- an absent file has the empty digest, which no content has
  have hempty : ∀ b ∈ S, T.cx.digest b ≠ "" := by
    intro b hb h0
    have hsha := hS.digest_sha b hb
    rw [h0] at hsha
    exact absurd hsha (by decide +kernel)
  cases x with
  | none =>
    cases y with
    | none => rfl
    | some b => exact absurd hxy.symm (hempty b (hy b rfl))
  | some a =>
    cases y with
    | none => exact absurd hxy (hempty a (hx a rfl))
    | some b => exact congrArg some (hS.injOn (hx a rfl) (hy b rfl) hxy)

section

variable (l : T.Live start merged phase h) (b : T.Begun S start merged) (hS : T.CollisionFree S)

include l b hS

theorem Live.pair_mem (a : Artifact) (x : Bytes) (hx : T.pair h a = some x) : x ∈ S := by
  rcases l.mixed a with ha | ha
  · exact b.mem a x (ha ▸ hx)
  · exact b.desired_mem hS a x (ha ▸ hx)

theorem Live.desired_of_names
    (hn : (T.journalAt start merged phase none).names T.cx true (T.pair h .fragment) (T.pair h
      .sidecar)) :
    T.pair h = T.desired merged := by
  simp only [Journal.names, if_true, Bool.and_eq_true, beq_iff_eq] at hn
  funext a
  refine hS.digestMaybe_inj (l.pair_mem b hS a) (b.desired_mem hS a) ?_
  cases a
  · exact hn.1
  · exact hn.2

end

theorem names_old (hp : T.pair h = start) :
    (T.journalAt start merged phase none).names T.cx false
      (h.files (T.journalAt start merged phase none).fragmentPath)
      (h.files (T.journalAt start merged phase none).sidecarPath) := by
  have hf : h.files (T.journalAt start merged phase none).fragmentPath = start .fragment :=
    congrFun hp .fragment
  have hs : h.files (T.journalAt start merged phase none).sidecarPath = start .sidecar :=
    congrFun hp .sidecar
  rw [hf, hs]
  simp [Journal.names, journalAt, preparedJournal]

theorem restoreOld_spec (b : T.Begun S start merged) (l : T.Live start merged phase h) :
    wp A (restoreOld T.cx T.key (T.journalAt start merged phase none))
      (fun j h' => j = T.journalAt start merged .oldRestored none ∧
        T.Live start merged .oldRestored h' ∧ T.pair h' = start)
      (T.Stuck A start merged) (T.LiveSome start merged) h := by
  unfold restoreOld
  -- the loop restores one artifact after the other; what is not to come is restored
  refine wp_then (wp_forEach (fun rest h' => T.Live start merged phase h' ∧
    ∀ a, a ∉ rest → T.pair h' a = start a) ⟨l, fun a ha => ?_⟩ fun a rest h' hI => ?_)
    (fun _ h' hI => ?_)
  · cases a <;> simp at ha
  · refine wp_weaken (restoreArtifact_spec b hI.1 a) (fun _ x hx => ⟨hx.1, fun a' ha' => ?_⟩)
    rw [hx.2]
    by_cases haa : a' = a
    · subst haa; simp
    · simpa [haa] using hI.2 a' (by simp [haa, ha'])
  · obtain ⟨l', hall⟩ := hI
    have hp : T.pair h' = start := funext fun a => hall a (by simp)
    refine wp_bind (wp_pairMatches ⟨phase, l'⟩ ?_ fun hbad => ?_)
    · rw [names_old hp]
      have l'' := l'.setPhase .oldRestored rfl
      refine wp_bind (wp_writeSync ⟨phase, l'⟩ ⟨_, l''⟩ (fun _ hf => ⟨⟨phase, l'⟩, hf⟩)
        (fun _ hf => ⟨⟨_, l''⟩, hf⟩) (wp_pure ⟨rfl, l''.syncTxn, hp⟩))
    · refine wp_fail ⟨⟨phase, l'⟩, hbad.resolve_right ?_⟩
      rintro ⟨a, x, hx, hbig⟩
      rw [journalAt_path] at hx
      have hle := b.small a x (by rw [← hp]; exact hx)
      omega

/-! ### Terminal outcomes -/

variable (T) in
/-- A journal that is true of the host as soon as it is written. -/
def Ready (start : Pair) (merged : Bytes) (j : Journal) (h : Host) : Prop :=
  ∃ phase r, j = T.journalAt start merged phase (some r) ∧ T.LiveSome start merged h ∧
    T.Verdict start merged h phase r

section

variable (b : T.Begun S start merged) (l : T.Live start merged phase h)

include b l

theorem settleOld_spec {w₁ w₂ : String → String} (hr : r.exitCode ≠ 0 ∨ r.error ≠ "") :
    wp A (settleOld T.cx T.key (T.journalAt start merged phase none) w₁ w₂ r)
      (T.Ready start merged) (T.Stuck A start merged) (T.LiveSome start merged) h := by
  refine wp_then (wp_orFail (restoreOld_spec b l)) (fun j h' hj => ?_)
  obtain ⟨rfl, l', hp⟩ := hj
  have hlive : T.LiveSome start merged h' := ⟨_, l'⟩
  refine wp_bind (wp_orFail (wp_checkRestartVerify hlive (fun _ hf => ⟨hlive, hf⟩) ?_))
  exact wp_pure ⟨_, r, rfl, hlive, .old hp hr⟩

theorem settleDesired_spec (hp : T.pair h = T.desired merged) {label : String} {r r' : TaskResult}
    (hr : r.exitCode = 0 ∧ r.error = "") (hr' : r'.exitCode ≠ 0 ∨ r'.error ≠ "") :
    wp A (settleDesired T.cx T.key (T.journalAt start merged phase none) label r r')
      (T.Ready start merged) (T.Stuck A start merged) (T.LiveSome start merged) h := by
  refine wp_bind (wp_attempt (wp_checkRestartVerify ⟨phase, l⟩ (fun e _ => ?_) ?_))
  · exact settleOld_spec b l hr'
  · exact wp_pure ⟨_, r, rfl, ⟨phase, l⟩, .desired hp hr.1 hr.2⟩

variable (hS : T.CollisionFree S)

include hS

theorem settleInterrupted_spec (hr : r.exitCode ≠ 0) :
    wp A (settleInterrupted T.cx T.key (T.journalAt start merged phase none) r)
      (T.Ready start merged) (T.Stuck A start merged) (T.LiveSome start merged) h := by
  have hold : wp A (settleOld T.cx T.key (T.journalAt start merged phase none) id
      (fun e => "recover old linechain pair service state: " ++ e) r) (T.Ready start merged)
      (T.Stuck A start merged) (T.LiveSome start merged) h := settleOld_spec b l (.inl hr)
  refine wp_bind ?_
  unfold desiredStands
  split_ifs with hph
  · refine wp_pairMatches ⟨phase, l⟩ ?_ fun _ => hold
    split_ifs with hn
    · exact settleDesired_spec b l (l.desired_of_names b hS hn) ⟨rfl, rfl⟩ (.inl hr)
    · exact hold
  · exact wp_pure hold

theorem settleAfterRun_spec (r : TaskResult) :
    Leaves A (settleAfterRun T.cx T.key (T.journalAt start merged phase none) r)
      (T.Ready start merged) (T.LiveSome start merged) h := by
  unfold settleAfterRun
  by_cases hok : r.exitCode = 0 ∧ r.error = "" ∧
    (T.journalAt start merged phase none).phase = .desiredVerified
  · rw [if_pos hok]
    refine wp_bind (wp_pairMatches ⟨phase, l⟩ ?_ fun _ => wp_fail ⟨phase, l⟩)
    split_ifs with hn
    · exact wp_fail ⟨phase, l⟩
    · rw [Bool.not_eq_true', Bool.not_eq_false] at hn
      have hp := l.desired_of_names b hS hn
      exact wp_mono (settleDesired_spec b l hp ⟨hok.1, hok.2.1⟩ (.inl (by simp)))
        (fun _ _ hq => hq) (fun _ _ he => he.1) fun _ hc => hc
  · rw [if_neg hok]
    refine wp_mono (settleOld_spec b l (.inl ?_)) (fun _ _ hq => hq) (fun _ _ he => he.1)
      fun _ hc => hc
    by_cases h0 : r.exitCode = 0 <;> simp [h0]

end

/-! ### Recovery -/

theorem LiveSome.inv (hl : T.LiveSome start merged h) (b : T.Begun S start merged) :
    T.Inv S start h :=
  let ⟨phase, l⟩ := hl
  .live merged phase b l

variable (T) in
/-- The terminal journal `j` is on disk. -/
def Recorded (S : Set Bytes) (start : Pair) (j : Journal) (h : Host) : Prop :=
  ∃ merged phase r, T.Begun S start merged ∧ j = T.journalAt start merged phase (some r) ∧
    T.Done start merged phase r h

theorem Recorded.inv {j : Journal} (hj : T.Recorded S start j h) : T.Inv S start h :=
  let ⟨merged, phase, r, b, _, d⟩ := hj
  .done merged phase r b d

theorem writeJournal_ready (b : T.Begun S start merged) {j : Journal}
    (hj : T.Ready start merged j h) :
    wp A (writeJournal T.key j) (fun _ => T.Recorded S start j)
      (fun _ h' => T.Inv S start h' ∧ Faulty A) (T.Inv S start) h := by
  obtain ⟨phase', r, rfl, ⟨phase, l⟩, v⟩ := hj
  have d := l.setDone v
  have hlive : T.Inv S start h := .live merged phase b l
  have hdone := Inv.done merged phase' r b d
  exact wp_writeSync hlive hdone (fun _ hf => ⟨hlive, hf⟩) (fun _ hf => ⟨hdone, hf⟩)
    ⟨merged, phase', r, b, rfl, d.syncTxn⟩

theorem resolveInterrupted_spec (hS : T.CollisionFree S) (b : T.Begun S start merged)
    (l : T.Live start merged phase h) (nodeID : String) :
    wp A (resolveInterrupted T.cx T.key (T.journalAt start merged phase none) nodeID)
      (T.Recorded S start) (fun _ h' => T.Inv S start h' ∧ Faulty A) (T.Inv S start) h := by
  refine wp_bind (wp_timeNow (.live merged phase b l) fun now => ?_)
  refine wp_seq (settleInterrupted_spec b l hS (by simp [interruptedResult]))
    (fun j h' hj => ?_) (fun _ _ he => ⟨he.1.inv b, he.2⟩) fun _ hc => hc.inv b
  exact wp_then (writeJournal_ready b hj) (fun _ _ hd => wp_pure hd)

theorem validateJournalShape_live (hS : T.CollisionFree S) (b : T.Begun S start merged)
    (hp : phase.terminal = false) :
    validateJournalShape T.cx T.m T.key (T.journalAt start merged phase none) = .ok () := by
  have hold : ∀ a, ((start a).isSome = true → validSHA (digestMaybe T.cx (start a)) = true) ∧
      ((start a).isSome = false → digestMaybe T.cx (start a) = "") := by
    intro a
    cases ha : start a with
    | none => simp [digestMaybe]
    | some x => simpa [digestMaybe] using hS.digest_sha x (b.mem a x ha)
  have hfrag : digestMaybe T.cx T.doc.fragment = "" ∨
      validSHA (digestMaybe T.cx T.doc.fragment) = true := by
    cases hf : T.doc.fragment with
    | none => exact .inl rfl
    | some x => exact .inr (hS.digest_sha x (hS.fragment_mem x hf))
  have hmerged := hS.digest_sha merged (b.desired_mem hS .sidecar merged rfl)
  have hdig : journalDigestsOk (T.journalAt start merged phase none) := by
    have h1 := hold .fragment
    have h2 := hold .sidecar
    have h3 := b.bound.patch_sha
    have h4 := b.bound.artifact_sha
    have h5 := b.script_sha
    simp only [journalDigestsOk, journalAt, preparedJournal, digestPtr]
    rcases hfrag with hf | hf <;> cases hs : (start .fragment).isSome <;>
      cases ht : (start .sidecar).isSome <;> simp_all [digestMaybe]
  simp [validateJournalShape, bind_eq_ok, journalAt, preparedJournal, b.bound.configured,
    b.bound.fragment_dir, b.bound.fragment_base, b.bound.sidecar_path, hp, key]
  exact hdig

theorem validateBackup_live (b : T.Begun S start merged) (l : T.Live start merged phase h)
    (a : Artifact) :
    wp A (validateBackup T.cx T.key (T.journalAt start merged phase none) a)
      (fun _ h' => h' = h) (fun _ h' => h' = h ∧ Faulty A) (fun h' => h' = h) h := by
  refine wp_bind (wp_read rfl (fun _ hf => ⟨rfl, hf⟩) (fun x hx => ?_) fun e he => ?_)
  · obtain ⟨rfl, -⟩ := sized_eq_ok hx
    refine wp_lift (fun _ _ => rfl) fun e he => ?_
    rw [l.backup, journalAt_had, journalAt_old] at he
    cases ha : start a <;> simp [ha, digestMaybe, refuse] at he
  · rw [sized_of_le (by rw [l.backup]; exact b.small a)] at he
    cases he

theorem validateJournal_live (hS : T.CollisionFree S) (b : T.Begun S start merged)
    (l : T.Live start merged phase h) :
    wp A (validateJournal T.cx T.m T.key (T.journalAt start merged phase none))
      (fun _ h' => h' = h) (fun _ h' => h' = h ∧ Faulty A) (fun h' => h' = h) h := by
  have hph : (T.journalAt start merged phase none).phase.terminal = false := l.nonterminal
  unfold validateJournal
  rw [validateJournalShape_live hS b l.nonterminal, if_neg (by simp [hph])]
  refine wp_bind (wp_ret (wp_forEach (fun _ h' => h' = h) rfl fun a _ h' hI => ?_))
  subst hI
  exact validateBackup_live b l a

variable (T) in
/-- A recovery that no check of the caller turns away. -/
structure Admitted (expectedScriptSHA : String) (expected : Option RecoveryAuthority)
    (j : Journal) : Prop where
  readable : (T.cx.marshalJournal j).length ≤ maxDocumentSize
  script : expectedScriptSHA = "" ∨ expectedScriptSHA = T.script
  authority : ∀ want, expected = some want → want.admits T.cx j = true

theorem checkJournal_live (b : T.Begun S start merged) {r : Option TaskResult}
    (hr : (T.cx.marshalJournal (T.journalAt start merged phase r)).length ≤ maxDocumentSize) :
    checkJournal T.cx (T.journalAt start merged phase r) = .ok () := by
  unfold checkJournal
  rw [refuse_bind_eq_ok, refuse_eq_ok]
  refine ⟨decide_eq_false (Nat.not_lt.mpr hr), ?_⟩
  simp [journalAt, preparedJournal, b.taskID_ne, b.leaseID_ne]

/-- **Recovery of a live transaction.**  It ends with a terminal journal on disk; where no
check of the caller turns it away, only the outside world can make it fail. -/
theorem recoverOne_live (hS : T.CollisionFree S) (b : T.Begun S start merged)
    (l : T.Live start merged phase h) (nodeID scriptSHA : String)
    (expected : Option RecoveryAuthority) :
    wp A (recoverOne T.cx T.m T.key nodeID scriptSHA expected) (T.Recorded S start)
      (fun _ h' => T.Inv S start h' ∧
        (T.Admitted scriptSHA expected (T.journalAt start merged phase none) → Faulty A))
      (T.Inv S start) h := by
  have hinv : T.Inv S start h := .live merged phase b l
  unfold recoverOne
  refine wp_bind (wp_readJournal hinv (fun _ hf => ⟨hinv, fun _ => hf⟩)
    (fun hn => ?_) (fun j hj _ => ?_) fun j e hj he => ?_)
  · rw [l.lookup] at hn; cases hn
  · obtain rfl : T.journalAt start merged phase none = j := Option.some.inj (l.lookup.symm.trans hj)
    refine wp_seq (validateJournal_live hS b l) (fun _ h' hh => ?_)
      (fun _ _ he => ⟨he.1 ▸ hinv, fun _ => he.2⟩) fun _ hc => hc ▸ hinv
    subst hh
    refine wp_bind (wp_lift (fun _ _ => ?_) fun e he => ⟨hinv, fun adm => ?_⟩)
    · refine wp_bind (wp_lift (fun _ _ => ?_) fun e he => ⟨hinv, fun adm => ?_⟩)
      · exact wp_mono (resolveInterrupted_spec hS b l nodeID) (fun _ _ hq => hq)
          (fun _ _ he => ⟨he.1, fun _ => he.2⟩) fun _ hc => hc
      · cases expected with
        | none => simp [refuse] at he
        | some want => simp [refuse, adm.authority want rfl] at he
    · rcases adm.script with hs | hs
      · simp [refuse, hs] at he
      · have hjs : (T.journalAt start merged phase none).taskScriptSHA = T.script := rfl
        simp [refuse, hs, hjs] at he
  · obtain rfl : T.journalAt start merged phase none = j := Option.some.inj (l.lookup.symm.trans hj)
    refine ⟨hinv, fun adm => ?_⟩
    rw [checkJournal_live b adm.readable] at he
    cases he

theorem Done.recorded (d : T.Done start merged phase r h) (b : T.Begun S start merged) :
    T.Recorded S start (T.journalAt start merged phase (some r)) h :=
  ⟨merged, phase, r, b, rfl, d⟩

theorem recoverOne_done (b : T.Begun S start merged) (d : T.Done start merged phase r h)
    (nodeID scriptSHA : String) (expected : Option RecoveryAuthority) :
    Leaves A (recoverOne T.cx T.m T.key nodeID scriptSHA expected) (T.Recorded S start)
      (T.Inv S start) h := by
  have hinv : T.Inv S start h := .done merged phase r b d
  have hterm : (T.journalAt start merged phase (some r)).phase.terminal :=
    d.verdict.terminal
  unfold recoverOne
  refine wp_bind (wp_readJournal hinv (fun _ _ => hinv) (fun hn => ?_) (fun j hj _ => ?_)
    fun _ _ _ _ => hinv)
  · rw [d.lookup] at hn; cases hn
  · obtain rfl : T.journalAt start merged phase (some r) = j :=
      Option.some.inj (d.lookup.symm.trans hj)
    refine wp_bind ?_
    unfold validateJournal
    rw [if_pos hterm]
    refine wp_bind (wp_lift (fun _ _ => wp_ret ?_) fun _ _ => hinv)
    refine wp_bind (wp_lift (fun _ _ => ?_) fun _ _ => hinv)
    refine wp_bind (wp_lift (fun _ _ => ?_) fun _ _ => hinv)
    exact wp_pure (d.recorded b)

theorem recoverOne_idle (i : T.Idle S h) (nodeID scriptSHA : String)
    (expected : Option RecoveryAuthority) :
    Leaves A (recoverOne T.cx T.m T.key nodeID scriptSHA expected) (T.Recorded S start)
      (T.Inv S start) h := by
  refine wp_bind (wp_readJournal (.idle i) (fun _ _ => .idle i) (fun _ => wp_fail (.idle i))
    (fun j hj => ?_) fun _ _ _ _ => .idle i)
  rw [i.lookup] at hj
  cases hj

theorem recoverOne_spec (hS : T.CollisionFree S) (hI : T.Inv S start h)
    (nodeID scriptSHA : String) (expected : Option RecoveryAuthority) :
    Leaves A (recoverOne T.cx T.m T.key nodeID scriptSHA expected) (T.Recorded S start)
      (T.Inv S start) h := by
  cases hI with
  | idle i => exact recoverOne_idle i nodeID scriptSHA expected
  | live merged phase b l =>
    exact wp_mono (recoverOne_live hS b l nodeID scriptSHA expected) (fun _ _ hq => hq)
      (fun _ _ he => he.1) fun _ hc => hc
  | done merged phase r b d => exact recoverOne_done b d nodeID scriptSHA expected

variable (T) in
/-- No journal, or a terminal one: the states in which the transaction may be cleaned up. -/
def Closed (S : Set Bytes) (start : Pair) (h : Host) : Prop :=
  T.Idle S h ∨ ∃ j, T.Recorded S start j h

theorem Closed.inv (hc : T.Closed S start h) : T.Inv S start h := by
  rcases hc with i | ⟨j, hj⟩
  · exact .idle i
  · exact hj.inv

theorem resolveAfterRun_spec (hS : T.CollisionFree S) (hI : T.Inv S start h) (result : TaskResult) :
    Leaves A (resolveAfterRun T.cx T.taskID T.leaseID result) (fun _ => T.Closed S start)
      (T.Inv S start) h := by
  -- The invariant is both what is split and what a failure leaves.
  have hcases := hI
  unfold resolveAfterRun
  refine wp_bind (wp_readJournal hI (fun _ _ => hI) (fun hn => ?_) (fun j hj _ => ?_)
    fun _ _ _ _ => hI)
  · -- without a journal the transaction is idle, and the helper's failure stands
    have hidle : T.Idle S h := by
      cases hcases with
      | idle i => exact i
      | live merged phase b l => exact absurd (l.lookup.symm.trans hn) (by simp)
      | done merged phase r b d => exact absurd (d.lookup.symm.trans hn) (by simp)
    split_ifs
    · exact wp_bind (wp_timeNow hI fun _ => wp_pure (.inl hidle))
    · exact wp_fail hI
  · cases hcases with
    | idle i => exact absurd (i.lookup.symm.trans hj) (by simp)
    | live merged phase b l =>
      obtain rfl : T.journalAt start merged phase none = j :=
        Option.some.inj (l.lookup.symm.trans hj)
      refine wp_bind (wp_timeNow hI fun now => ?_)
      refine wp_seq (settleAfterRun_spec b l hS _) (fun j h' hj => ?_)
        (fun _ _ he => he.inv b) fun _ hc => hc.inv b
      exact wp_seq (writeJournal_ready b hj) (fun _ _ hd => wp_pure (.inr ⟨j, hd⟩))
        (fun _ _ he => he.1) fun _ hc => hc
    | done merged phase r b d =>
      obtain rfl : T.journalAt start merged phase (some r) = j :=
        Option.some.inj (d.lookup.symm.trans hj)
      exact wp_pure (.inr ⟨_, d.recorded b⟩)

theorem Closed.pair_mem (hS : T.CollisionFree S) (hc : T.Closed S start h) (a : Artifact)
    (x : Bytes) (hx : T.pair h a = some x) : x ∈ S := by
  rcases hc with i | ⟨_, merged, phase, r, b, -, d⟩
  · exact i.mem a x hx
  · cases hv : d.verdict with
    | desired pair _ _ => exact b.desired_mem hS a x (by rw [← pair]; exact hx)
    | old pair _ => exact b.mem a x (by rw [← pair]; exact hx)

theorem Closed.alone (hc : T.Closed S start h) : T.Alone h := by
  rcases hc with i | ⟨_, merged, phase, r, b, -, d⟩
  · exact i.alone
  · exact d.alone

theorem Closed.removeBackup (hc : T.Closed S start h) (a : Artifact) :
    T.Closed S start (h.writeTxn (·.setBackup a T.key none)) := by
  rcases hc with i | ⟨j, merged, phase, r, b, hj, d⟩
  · refine .inl ⟨i.alone, i.lookup, i.mem, fun x => ?_⟩
    rw [writeTxn_visible, setBackup_backup]
    split_ifs with hx
    · exact .inl rfl
    · exact i.backup x
  · exact .inr ⟨j, merged, phase, r, b, hj, d.alone, d.lookup, d.verdict.congr rfl⟩

theorem Closed.removeJournal (hS : T.CollisionFree S) (hc : T.Closed S start h)
    (hb : ∀ a, h.txn.visible.backup a T.key = none) :
    T.Idle S (h.writeTxn (·.eraseJournal T.key)) where
  alone := by
    intro name j hj
    by_cases hn : name = T.key
    · exact hn
    · rw [writeTxn_visible, eraseJournal_journal, AList.lookup_erase_ne hn] at hj
      exact hc.alone name j hj
  lookup := by simp
  mem := fun a x hx => hc.pair_mem hS a x hx
  backup := fun a => .inl (hb a)

theorem cleanup_spec (hS : T.CollisionFree S) (hc : T.Closed S start h) :
    Leaves A (cleanup T.cx T.taskID T.leaseID) (fun _ => T.Idle S) (T.Inv S start) h := by
  have hc₁ := hc.removeBackup .fragment
  have hc₂ := hc₁.removeBackup .sidecar
  have hi := hc₂.removeJournal hS fun a => by
    cases a <;> simp [setBackup_backup]
  have hrem : ∀ c : Choice, c.Calm → c.remove = none := fun _ calm => calm.remove
  refine wp_bind (wp_access hrem hc.inv (fun _ _ => hc.inv) ?_)
  refine wp_bind (wp_access hrem hc₁.inv (fun _ _ => hc₁.inv) ?_)
  refine wp_bind (wp_access hrem hc₂.inv (fun _ _ => hc₂.inv) ?_)
  refine wp_access (fun _ calm => calm.syncDirectory) (.idle hi) (fun _ _ => .idle hi) ?_
  exact ⟨hi.alone, hi.lookup, hi.mem, hi.backup⟩

/-! ### Applying the document -/

theorem rollback_spec (b : T.Begun S start merged) (l : T.Live start merged phase h)
    {Q : Unit → Host → Prop} (cause : String) :
    Leaves A (rollback T.cx T.key (T.journalAt start merged phase none) cause) Q
      (T.LiveSome start merged) h := by
  refine wp_seq (wp_orFail (E := T.Stuck A start merged) (restoreOld_spec b l))
    (fun j h' hj => ?_) (fun _ _ he => he.1) fun _ hc => hc
  have hlive : T.LiveSome start merged h' := ⟨_, hj.2.1⟩
  exact wp_bind (wp_orFail (wp_checkRestartVerify hlive (fun _ _ => hlive) (wp_fail hlive)))

theorem publishPhase_spec (b : T.Begun S start merged) (l : T.Live start merged phase h)
    (label : String) (a : Artifact) {phase' : Phase} (hp : phase'.terminal = false) :
    Leaves A (publishPhase T.cx T.key (T.journalAt start merged phase none) label (T.doc.path a)
        (T.desired merged a) phase')
      (fun j h' => j = T.journalAt start merged phase' none ∧ T.Live start merged phase' h')
      (T.LiveSome start merged) h := by
  have l' := l.setFile b (a := a) (.inr rfl)
  have hback : ∀ {x : Host} (e : String), T.Live start merged phase x → _ :=
    fun {x} e (lx : T.Live start merged phase x) =>
      wp_bind (rollback_spec (A := A) b lx
        (Q := fun _ => wp A (pure (T.journalAt start merged phase none))
          (fun j h' => j = T.journalAt start merged phase' none ∧ T.Live start merged phase' h')
          (fun _ => T.LiveSome start merged) (T.LiveSome start merged))
        ("publish " ++ label ++ ": " ++ e))
  refine wp_bind (wp_attempt (wp_writeSync ⟨phase, l⟩ ⟨phase, l'⟩ (fun e _ => hback e l)
    (fun e _ => hback e l') ?_))
  have l'' := l'.setPhase phase' hp
  exact wp_bind (wp_writeSync ⟨phase, l'⟩ ⟨_, l''⟩ (fun _ _ => ⟨phase, l'⟩)
    (fun _ _ => ⟨_, l''⟩) (wp_pure ⟨rfl, l''.syncTxn⟩))

theorem applyPublish_spec (b : T.Begun S start merged) (i : T.Idle S h)
    (hp : T.pair h = start) (hback : ∀ a, h.txn.visible.backup a T.key = start a) :
    Leaves A (applyPublish T.cx T.key T.doc merged (T.journalAt start merged .prepared none))
      (fun _ => T.Inv S start) (T.Inv S start) h := by
  have l : T.Live start merged .prepared
      (h.writeTxn (·.setJournal T.key (T.journalAt start merged .prepared none))) :=
    ⟨Alone.setJournal i.alone _, by simp, rfl, hback, fun a => .inl (congrFun hp a)⟩
  have hlive : ∀ {x : Host}, T.LiveSome start merged x → T.Inv S start x := fun hx => hx.inv b
  unfold applyPublish
  refine wp_bind (wp_writeSync (.idle i) (hlive ⟨_, l⟩) (fun _ _ => .idle i)
    (fun _ _ => hlive ⟨_, l⟩) ?_)
  refine wp_seq (publishPhase_spec b l.syncTxn "fragment" .fragment rfl) (fun j₁ h₁ hj₁ => ?_)
    (fun _ _ he => hlive he) fun _ hc => hlive hc
  obtain ⟨rfl, l₁⟩ := hj₁
  refine wp_seq (publishPhase_spec b l₁ "sidecar" .sidecar rfl) (fun j₂ h₂ hj₂ => ?_)
    (fun _ _ he => hlive he) fun _ hc => hlive hc
  obtain ⟨rfl, l₂⟩ := hj₂
  refine wp_bind (wp_attempt (wp_checkRestartVerify (hlive ⟨_, l₂⟩) (fun e _ => ?_) ?_))
  · exact wp_mono (rollback_spec (Q := fun _ => T.Inv S start) b l₂ e) (fun _ _ hq => hq)
      (fun _ _ he => hlive he) fun _ hc => hlive hc
  · have l₃ := l₂.setPhase .desiredVerified rfl
    exact wp_writeSync (hlive ⟨_, l₂⟩) (hlive ⟨_, l₃⟩) (fun _ _ => hlive ⟨_, l₂⟩)
      (fun _ _ => hlive ⟨_, l₃⟩) (hlive ⟨_, l₃.syncTxn⟩)

theorem Idle.setBackup (i : T.Idle S h) (a : Artifact) :
    T.Idle S (h.writeTxn (·.setBackup a T.key (T.pair h a))) := by
  refine ⟨i.alone, i.lookup, i.mem, fun x => ?_⟩
  rw [writeTxn_visible, setBackup_backup]
  split_ifs with hx
  · exact .inr (by rw [hx.1]; rfl)
  · exact i.backup x

theorem writeBackup_spec (i : T.Idle S h) (hp : T.pair h = start) (a : Artifact) :
    Leaves A (writeBackup a T.key (start a))
      (fun _ h' => T.Idle S h' ∧ T.pair h' = start ∧ h'.txn.visible.backup a T.key = start a ∧
        ∀ x, x ≠ a → h'.txn.visible.backup x T.key = h.txn.visible.backup x T.key)
      (T.Idle S) h := by
  cases ha : start a with
  | none =>
    have hnone : h.txn.visible.backup a T.key = none := by
      rcases i.backup a with hb | hb
      · exact hb
      · rw [hb, hp, ha]
    exact wp_ret ⟨i, hp, hnone, fun _ _ => rfl⟩
  | some data =>
    have i' := i.setBackup a
    rw [hp, ha] at i'
    refine wp_writeSync i i' (fun _ _ => i) (fun _ _ => i') ⟨?_, hp, ?_, fun x hx => ?_⟩
    · exact ⟨i'.alone, i'.lookup, i'.mem, i'.backup⟩
    · simp [setBackup_backup]
    · simp [setBackup_backup, hx]

theorem applyFresh_spec (i : T.Idle S h) (hbound : T.doc.Bound T.m) (htask : T.taskID ≠ "")
    (hlease : T.leaseID ≠ "") (hscript : validSHA T.script) :
    Leaves A (applyFresh T.cx T.key T.doc T.taskID T.leaseID T.script)
      (fun _ => T.Inv S (T.pair h)) (T.Inv S (T.pair h)) h := by
  have hidle : ∀ {x : Host}, T.Idle S x → T.Inv S (T.pair h) x := fun hx => .idle hx
  unfold applyFresh
  refine wp_bind (wp_read (hidle i) (fun _ _ => hidle i) (fun fo hfo => ?_) fun _ _ => hidle i)
  refine wp_bind (wp_read (hidle i) (fun _ _ => hidle i) (fun so hso => ?_) fun _ _ => hidle i)
  obtain ⟨rfl, hfsmall⟩ := sized_eq_ok hfo
  obtain ⟨hso, hssmall⟩ := sized_eq_ok hso
  refine wp_bind (wp_lift (fun _ _ => ?_) fun _ _ => hidle i)
  cases so with
  | none => exact wp_fail (hidle i)
  | some current =>
    refine wp_bind (wp_lift (fun merged hm => ?_) fun _ _ => hidle i)
    have hcur : T.pair h .sidecar = some current := hso.symm
    have b : T.Begun S (T.pair h) merged :=
      { merge := ⟨current, hcur, hm⟩
        small := fun a x hx => by
          cases a with
          | fragment => exact hfsmall x hx
          | sidecar => exact hssmall x hx
        mem := i.mem, bound := hbound, taskID_ne := htask, leaseID_ne := hlease
        script_sha := hscript }
    refine wp_seq (writeBackup_spec i rfl .fragment) (fun _ h₁ hb₁ => ?_)
      (fun _ _ he => hidle he) fun _ hc => hidle hc
    obtain ⟨i₁, hp₁, hfb, -⟩ := hb₁
    rw [← hcur]
    refine wp_seq (writeBackup_spec i₁ hp₁ .sidecar) (fun _ h₂ hb₂ => ?_)
      (fun _ _ he => hidle he) fun _ hc => hidle hc
    obtain ⟨i₂, hp₂, hsb, hrest⟩ := hb₂
    refine applyPublish_spec b i₂ hp₂ fun a => ?_
    cases a with
    | fragment => rw [hrest .fragment (by decide), hfb]
    | sidecar => exact hsb

variable (T) in
/-- The pair read by the last `Apply` that found no journal. -/
def startOf (start : Pair) (h : Host) : Pair :=
  if (h.txn.visible.journal.lookup T.key).isNone then T.pair h else start

theorem startOf_inv (hI : T.Inv S start h) : T.Inv S (T.startOf start h) h := by
  have hkeep : h.txn.visible.journal.lookup T.key ≠ none → T.startOf start h = start := by
    intro hn
    simp [startOf, hn]
  cases hI with
  | idle i => exact .idle i
  | live merged phase b l => rw [hkeep (by simp [l.lookup])]; exact .live merged phase b l
  | done merged phase r b d => rw [hkeep (by simp [d.lookup])]; exact .done merged phase r b d

theorem ne_empty_of_trimSpace {s : String} (h : (trimSpace s == "") = false) : s ≠ "" := by
  rintro rfl
  exact absurd h (by decide)

theorem apply_spec (hS : T.CollisionFree S) (hI : T.Inv S start h) :
    Leaves A (apply T.cx T.m T.raw T.taskID T.leaseID T.taskScriptSHA)
      (fun _ => T.Inv S (T.startOf start h)) (T.Inv S (T.startOf start h)) h := by
  have hI' := startOf_inv hI
  unfold apply
  dsimp only
  refine wp_refuse (fun hids => wp_refuse (fun hsha => ?_) fun _ => hI') fun _ => hI'
  rw [Bool.or_eq_false_iff] at hids
  rw [Bool.not_eq_false'] at hsha
  rw [T.decoded]
  refine wp_bind (wp_ret (wp_bind (wp_bind (wp_lift (fun _ hshape => ?_) fun _ _ => hI'))))
  refine wp_bind (wp_validateParents hI' (fun _ _ => hI') ?_)
  refine wp_bind (wp_validateParents hI' (fun _ _ => hI') ?_)
  refine wp_lift (fun _ _ => ?_) fun _ _ => hI'
  refine wp_bind (wp_journalExists hI' (fun _ _ => hI') ?_)
  split_ifs with hj
  · exact wp_then (recoverOne_spec hS hI' "" T.script none) (fun _ _ hr => wp_pure hr.inv)
  · replace hj : ¬ (h.txn.visible.journal.lookup T.key).isSome = true := hj
    cases hI with
    | idle i =>
      rw [startOf, if_pos (by simp [i.lookup])]
      exact applyFresh_spec i (validateShape_ok hshape) (ne_empty_of_trimSpace hids.1)
        (ne_empty_of_trimSpace hids.2) hsha
    | live merged phase b l => exact absurd (by simp [l.lookup]) hj
    | done merged phase r b d => exact absurd (by simp [d.lookup]) hj

end Transaction
end LatticeAgent.Linechain
