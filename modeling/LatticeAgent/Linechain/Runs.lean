import LatticeAgent.Linechain.Recovery

/-! # Runs of a linechain transaction

A run is any sequence of the calls the agent makes on one transaction: `Apply` (first
delivery or retry), the settlement after the helper returned, and recovery passes at
start-up or before a poll. Each call runs on its own script, so it may be cut after any
step, and the next call then finds what it left.

`crash_atomic`: in every state a run reaches, a terminal journal tells the truth about the
pair on disk, and a journal that is not terminal has both backups and can be recovered. -/

namespace LatticeAgent.Linechain

open CutProg

namespace Transaction
variable (T : Transaction)

/-- One call of the agent on the transaction. -/
inductive Call where
  | apply
  | settle (result : TaskResult)
  | recover (nodeID : String) (authority : Option (List (String × RecoveryAuthority)))

/-- The outbox as the host sees it: completing a result succeeds or fails. -/
def completed (_ : TaskResult) : HostProg Unit :=
  access Choice.complete fun h => (.ok (), h)

def Call.prog : Call → HostProg Unit
  | .apply => Linechain.apply T.cx T.m T.raw T.taskID T.leaseID T.taskScriptSHA
  | .settle result => do
    let stable ← resolveAfterRun T.cx T.taskID T.leaseID result
    completed stable
    cleanup T.cx T.taskID T.leaseID
  | .recover nodeID authority =>
    requireRecoveredAuthorized T.cx T.m (fun p => p) completed nodeID authority

/-- The pair the transaction started from, after a call: an `Apply` that finds no journal
starts it anew from the pair on disk. -/
def Call.startAfter (start : Pair) (h : Host) : Call → Pair
  | .apply => T.startOf start h
  | _ => start

/-- The host after a sequence of calls, each with its script, and the pair the transaction
started from. -/
def history (calls : List (Call × List Choice)) (h₀ : Host) : Host × Pair :=
  calls.foldl (fun s c => ((c.1.prog T).after c.2 s.1, c.1.startAfter T s.2 s.1))
    (h₀, T.pair h₀)

/-- A host before the first `Apply`: no journal, no backup, contents of `S`. -/
structure Fresh (S : Set Bytes) (h : Host) : Prop where
  journal : ∀ name, h.txn.visible.journal.lookup name = none
  backup : ∀ a, h.txn.visible.backup a T.key = none
  mem : ∀ a b, T.pair h a = some b → b ∈ S

/-- What a journal says about the transaction is true: a terminal one of the pair on disk,
and only a terminal one has a result. -/
structure Truthful (start : Pair) (h : Host) (j : Journal) : Prop where
  desired : j.phase = .terminalDesired →
    (∃ current merged, start .sidecar = some current ∧
      T.cx.mergeManagedSidecar current T.doc.sidecarPatch = .ok merged ∧
      T.pair h = T.desired merged) ∧
    ∃ r, j.result = some r ∧ r.exitCode = 0 ∧ r.error = ""
  old : j.phase = .terminalOld →
    T.pair h = start ∧ ∃ r, j.result = some r ∧ (r.exitCode ≠ 0 ∨ r.error ≠ "")
  terminal : j.result.isSome = true ↔ j.phase = .terminalDesired ∨ j.phase = .terminalOld

/-! ### One call -/

variable {T} {S : Set Bytes} {start : Pair} {h : Host} {A : Choice → Prop}

theorem completed_spec {Q : Unit → Host → Prop} {E : String → Host → Prop} {C : Host → Prop}
    {r : TaskResult} (hC : C h) (hE : ∀ e, E e h) (hQ : Q () h) : wp A (completed r) Q E C h :=
  wp_access (fun _ calm => calm.complete) hC (fun e _ => hE e) hQ

theorem completeAndCleanup_spec (hS : T.CollisionFree S) (hc : T.Closed S start h)
    (r : TaskResult) :
    Leaves A (do completed r; cleanup T.cx T.taskID T.leaseID) (fun _ => T.Inv S start)
      (T.Inv S start) h :=
  wp_bind (completed_spec hc.inv (fun _ => hc.inv)
    (wp_weaken (cleanup_spec hS hc) (fun _ _ hi => .idle hi)))

theorem settle_spec (hS : T.CollisionFree S) (hI : T.Inv S start h) (result : TaskResult) :
    Leaves A ((Call.settle result).prog T) (fun _ => T.Inv S start) (T.Inv S start) h :=
  wp_then (resolveAfterRun_spec hS hI result) (fun r _ hc => completeAndCleanup_spec hS hc r)

theorem Inv.alone (hI : T.Inv S start h) : T.Alone h := by
  cases hI with
  | idle i => exact i.alone
  | live merged phase b l => exact l.alone
  | done merged phase r b d => exact d.alone

theorem expectedAuthority_spec (hI : T.Inv S start h) (name : String)
    (authority : Option (List (String × RecoveryAuthority))) :
    Leaves A (expectedAuthority T.cx name authority) (fun _ => T.Inv S start)
      (T.Inv S start) h := by
  cases authority with
  | none => exact wp_pure hI
  | some authority =>
    refine wp_bind (wp_readJournal hI (fun _ _ => hI) (fun _ => wp_fail hI) (fun j _ _ => ?_)
      fun _ _ _ _ => hI)
    dsimp only
    split
    · exact wp_fail hI
    · exact wp_pure hI

section

variable (hS : T.CollisionFree S) (hI : T.Inv S start h)

include hS hI

theorem recoverAndComplete_spec (nodeID : String) (expected : Option RecoveryAuthority) :
    Leaves A (recoverAndComplete T.cx T.m (fun p => p) completed T.key nodeID expected)
      (fun _ => T.Inv S start) (T.Inv S start) h := by
  refine wp_then (recoverOne_spec hS hI nodeID "" expected) (fun j h' hj => ?_)
  have hc : T.Closed S start h' := .inr ⟨j, hj⟩
  obtain ⟨merged, phase, r, -, rfl, -⟩ := hj
  exact completeAndCleanup_spec hS hc r

theorem recover_spec (nodeID : String) (authority : Option (List (String × RecoveryAuthority))) :
    Leaves A ((Call.recover nodeID authority).prog T) (fun _ => T.Inv S start)
      (T.Inv S start) h := by
  refine wp_bind (wp_read hI (fun _ _ => hI) (fun names hnames => ?_) fun _ _ => hI)
  -- the directory holds no journal but the transaction's own
  have hown : ∀ name ∈ names, name = T.key := by
    intro name hname
    cases hnames
    rw [List.mem_insertionSort, ← AList.mem_keys, ← AList.lookup_isSome] at hname
    obtain ⟨j, hj⟩ := Option.isSome_iff_exists.mp hname
    exact hI.alone name j hj
  refine wp_weaken (wp_forEach (fun rest h' => T.Inv S start h' ∧ ∀ name ∈ rest, name = T.key)
    ⟨hI, hown⟩ fun name rest h' hrest => ?_) (fun _ _ hq => hq.1)
  obtain rfl : name = T.key := hrest.2 name List.mem_cons_self
  have hsub : ∀ x ∈ rest, x = T.key := fun x hx => hrest.2 x (List.mem_cons_of_mem _ hx)
  refine wp_then (expectedAuthority_spec hrest.1 T.key authority) (fun expected h₁ hI₁ => ?_)
  exact wp_weaken (recoverAndComplete_spec hS hI₁ nodeID expected) (fun _ _ hq => ⟨hq, hsub⟩)

theorem Call.inv (c : Call) (sc : List Choice) :
    T.Inv S (c.startAfter T start h) ((c.prog T).after sc h) := by
  have hspec : Leaves (fun _ => True) (c.prog T) (fun _ => T.Inv S (c.startAfter T start h))
      (T.Inv S (c.startAfter T start h)) h := by
    cases c with
    | apply => exact apply_spec hS hI
    | settle result => exact settle_spec hS hI result
    | recover nodeID authority => exact recover_spec hS hI nodeID authority
  exact wp_after hspec (fun _ _ => trivial) (fun _ _ hq => hq) (fun _ _ he => he) fun _ hx => hx

end

/-! ### Every run -/

theorem Fresh.inv (hf : T.Fresh S h) : T.Inv S (T.pair h) h :=
  .idle ⟨fun name j hj => absurd ((hf.journal name).symm.trans hj) (by simp), hf.journal _,
    hf.mem, fun a => .inl (hf.backup a)⟩

theorem history_inv (hS : T.CollisionFree S) (hf : T.Fresh S h)
    (calls : List (Call × List Choice)) :
    T.Inv S (T.history calls h).2 (T.history calls h).1 := by
  have hrun : ∀ (s : Host × Pair), T.Inv S s.2 s.1 →
      T.Inv S (calls.foldl (fun s c => ((c.1.prog T).after c.2 s.1, c.1.startAfter T s.2 s.1)) s).2
        (calls.foldl (fun s c => ((c.1.prog T).after c.2 s.1, c.1.startAfter T s.2 s.1)) s).1 := by
    induction calls with
    | nil => exact fun _ hs => hs
    | cons c calls ih => exact fun s hs => ih _ (Call.inv hS hs c.1 c.2)
  exact hrun (h, T.pair h) hf.inv

theorem Live.truthful {merged : Bytes} {phase : Phase} (l : T.Live start merged phase h) :
    T.Truthful start h (T.journalAt start merged phase none) := by
  have hph : (T.journalAt start merged phase none).phase = phase := rfl
  have hnt := l.nonterminal
  refine ⟨fun hd => ?_, fun hd => ?_, ?_⟩
  · rw [hph] at hd; rw [hd] at hnt; cases hnt
  · rw [hph] at hd; rw [hd] at hnt; cases hnt
  · rw [hph]
    cases phase <;> simp_all [journalAt, Phase.terminal]

theorem Recorded.truthful {j : Journal} (hj : T.Recorded S start j h) : T.Truthful start h j := by
  obtain ⟨merged, phase, r, b, rfl, d⟩ := hj
  obtain ⟨current, hcur, hm⟩ := b.merge
  cases hv : d.verdict with
  | desired pair exit error =>
    exact ⟨fun _ => ⟨⟨current, merged, hcur, hm, pair⟩, r, rfl, exit, error⟩,
      fun ho => Phase.noConfusion ho, by simp [journalAt]⟩
  | old pair failed =>
    exact ⟨fun hd => Phase.noConfusion hd, fun _ => ⟨pair, r, rfl, failed⟩,
      by simp [journalAt]⟩

/-- Recovery of a live transaction in which nothing outside fails. -/
theorem recoverOne_calm (hS : T.CollisionFree S) {merged : Bytes} {phase : Phase}
    (b : T.Begun S start merged) (l : T.Live start merged phase h) {nodeID scriptSHA : String}
    {expected : Option RecoveryAuthority}
    (adm : T.Admitted scriptSHA expected (T.journalAt start merged phase none))
    {sc : List Choice} (hcalm : ∀ c ∈ sc, c.Calm) (hlen : recoverySteps ≤ sc.length) :
    ∃ j rest h', recoverOne T.cx T.m T.key nodeID scriptSHA expected sc h = (.done j rest, h') ∧
      T.Recorded S start j h' := by
  have hspec := wp_mono (recoverOne_live (A := Choice.Calm) hS b l nodeID scriptSHA expected)
    (fun _ _ hq => hq) (fun _ _ he => not_faulty_calm (he.2 adm)) fun _ hx => hx
  obtain ⟨j, rest, heq, hj⟩ := done_of_bounded (bounded_recoverOne T.cx T.key T.m nodeID
    scriptSHA expected) hlen hspec hcalm
  exact ⟨j, rest, _, heq, hj⟩

/-- **Crash atomicity.**  Take any run of calls on the transaction, each cut after any
number of steps, with any failures of the outside world. Whatever journal it leaves tells
the truth about the pair on disk. If that journal is not terminal, both backups hold the
pair `Apply` started from, and a recovery in which nothing outside fails and that the
caller's checks admit ends with a terminal journal, again a true one. -/
theorem crash_atomic (hS : T.CollisionFree S) (hf : T.Fresh S h)
    (calls : List (Call × List Choice)) (j : Journal)
    (hj : (T.history calls h).1.txn.visible.journal.lookup T.key = some j) :
    T.Truthful (T.history calls h).2 (T.history calls h).1 j ∧
    (j.phase.terminal = false →
      (∀ a, (T.history calls h).1.txn.visible.backup a T.key = (T.history calls h).2 a) ∧
      ∀ nodeID scriptSHA expected sc, T.Admitted scriptSHA expected j →
        (∀ c ∈ sc, c.Calm) → recoverySteps ≤ sc.length →
        ∃ j' rest h', recoverOne T.cx T.m T.key nodeID scriptSHA expected sc
            (T.history calls h).1 = (.done j' rest, h') ∧
          h'.txn.visible.journal.lookup T.key = some j' ∧ j'.phase.terminal = true ∧
          T.Truthful (T.history calls h).2 h' j') := by
  have hI := history_inv hS hf calls
  generalize T.history calls h = s at hI hj ⊢
  obtain ⟨h', start⟩ := s
  cases hI with
  | idle i => exact absurd (i.lookup.symm.trans hj) (by simp)
  | live merged phase b l =>
    obtain rfl : T.journalAt start merged phase none = j :=
      Option.some.inj (l.lookup.symm.trans hj)
    refine ⟨l.truthful, fun _ => ⟨l.backup, fun nodeID scriptSHA expected sc adm hcalm hlen => ?_⟩⟩
    obtain ⟨j', rest, h'', heq, hrec⟩ := recoverOne_calm hS b l adm hcalm hlen
    refine ⟨j', rest, h'', heq, ?_, ?_, hrec.truthful⟩
    · obtain ⟨_, _, _, _, rfl, d⟩ := hrec
      exact d.lookup
    · obtain ⟨_, _, _, _, rfl, d⟩ := hrec
      exact d.verdict.terminal
  | done merged phase r b d =>
    obtain rfl : T.journalAt start merged phase (some r) = j :=
      Option.some.inj (d.lookup.symm.trans hj)
    refine ⟨(d.recorded b).truthful, fun hnt => ?_⟩
    have hterm := d.verdict.terminal
    rw [show (T.journalAt start merged phase (some r)).phase = phase from rfl, hterm] at hnt
    cases hnt

/-! ### A transaction that creates a chain -/

/-- A digest in which the first 64 bytes give one hex digit each. -/
def sampleDigest (b : Bytes) : String :=
  String.ofList ((b.map (fun u => Nat.digitChar (u.toNat % 16)) ++ List.replicate 64 '0').take 64)

def sampleWire : WireDocumentV2 :=
  { version := 2, durableProtocol := durableProtocolV2, operation := "create",
    fragmentBasename := "lattice-linechain-00000000000000000000.json", fragment := some [1],
    previousFragmentSHA256 := none, fragmentSHA256 := some (sampleDigest [1]),
    sidecarPatchSHA256 := sampleDigest [4], artifactSHA256 := sampleDigest [5] }

def samplePatch : SidecarPatchV2 :=
  { schema := "lattice.singbox-linechain-sidecar-patch.v1", sourceLineUUID := "line",
    sourceInboundTag := "entry", expectedDownstreamLineUUID := none,
    desiredDownstreamLineUUID := some "next" }

/-- Codecs that know one document, and a sidecar `[2]` that merges to `[3]`. -/
def sampleCodec : Codec :=
  { digest := sampleDigest, decodeWire := fun _ => .ok sampleWire,
    decodeFields := fun _ => .ok [4],
    canonicalSemanticSidecarPatch := fun raw => .ok (samplePatch, raw),
    mergeManagedSidecar := fun b _ => if b = [2] then .ok [3] else .error "source is missing",
    marshalBinding := fun _ => [5], marshalJournal := fun _ => [6],
    marshalResult := fun _ => [7] }

def sampleManager : Manager :=
  { configDir := "/etc/sing-box", sidecarPath := ⟨"/etc/lattice", "sidecar.json"⟩,
    configured := true }

def sampleDocument : Document :=
  { version := 2, durableProtocol := durableProtocolV2, operation := "create",
    configDir := "/etc/sing-box",
    fragmentBasename := "lattice-linechain-00000000000000000000.json",
    fragmentPath := ⟨"/etc/sing-box", "lattice-linechain-00000000000000000000.json"⟩,
    sidecarPath := ⟨"/etc/lattice", "sidecar.json"⟩, fragment := some [1],
    sidecarPatch := samplePatch, previousFragmentSHA256 := none,
    fragmentSHA256 := some (sampleDigest [1]), sidecarPatchSHA256 := sampleDigest [4],
    artifactSHA256 := sampleDigest [5], sidecarPatchCanonical := [4] }

def sample : Transaction :=
  { cx := sampleCodec, m := sampleManager, raw := [], doc := sampleDocument, taskID := "t",
    leaseID := "l", taskScriptSHA := sampleDigest [8], decoded := by decide +kernel }

def sampleHost : Host :=
  { files := fun p => if p = ⟨"/etc/lattice", "sidecar.json"⟩ then some [2] else none,
    txn := ⟨⟨∅, fun _ _ => none⟩, ⟨∅, fun _ _ => none⟩⟩ }

theorem sample_collisionFree : sample.CollisionFree {[1], [2], [3]} where
  fragment_mem := by
    rintro b hb
    cases hb
    simp
  merged_mem := by
    rintro b - merged hm
    change (if b = [2] then Except.ok [3] else .error "source is missing") = .ok merged at hm
    split_ifs at hm
    cases hm
    simp
  injOn := by
    rintro x (rfl | rfl | rfl) y (rfl | rfl | rfl) hxy <;>
      first | rfl | exact absurd hxy (by decide +kernel)
  digest_sha := by
    rintro b (rfl | rfl | rfl) <;> decide +kernel

theorem sample_fresh : sample.Fresh {[1], [2], [3]} sampleHost where
  journal := fun _ => rfl
  backup := fun _ => rfl
  mem := by
    rintro (_ | _) b hb
    · have hnone : sample.pair sampleHost .fragment = none := by decide +kernel
      rw [hnone] at hb
      cases hb
    · obtain rfl : [2] = b := Option.some.inj hb
      simp

/-- The helper applies the document, and the agent settles it up to the terminal journal. -/
def sampleApplied : List (Call × List Choice) :=
  [(.apply, List.replicate 22 {}),
   (.settle { taskID := "t", leaseID := "l" }, List.replicate 9 {})]

/-- The helper is cut after it published the fragment. -/
def sampleCut : List (Call × List Choice) := [(.apply, List.replicate 11 {})]

theorem crash_atomic_sample :
    (∃ j, (sample.history sampleApplied sampleHost).1.txn.visible.journal.lookup sample.key =
        some j ∧ j.phase = .terminalDesired ∧
      sample.Truthful (sample.history sampleApplied sampleHost).2
        (sample.history sampleApplied sampleHost).1 j) ∧
    ∃ j j' rest h',
      (sample.history sampleCut sampleHost).1.txn.visible.journal.lookup sample.key = some j ∧
      recoverOne sample.cx sample.m sample.key "node" "" none (List.replicate 24 {})
        (sample.history sampleCut sampleHost).1 = (.done j' rest, h') ∧
      h'.txn.visible.journal.lookup sample.key = some j' ∧ j'.phase.terminal = true := by
  constructor
  · have hsome : ((sample.history sampleApplied sampleHost).1.txn.visible.journal.lookup
        sample.key).map Journal.phase = some .terminalDesired := by decide +kernel
    obtain ⟨j, hj, hphase⟩ := Option.map_eq_some_iff.mp hsome
    exact ⟨j, hj, hphase, (crash_atomic sample_collisionFree sample_fresh sampleApplied j hj).1⟩
  · have hsome : ((sample.history sampleCut sampleHost).1.txn.visible.journal.lookup
        sample.key).map (fun j => j.phase.terminal) = some false := by decide +kernel
    obtain ⟨j, hj, hphase⟩ := Option.map_eq_some_iff.mp hsome
    have hrec := ((crash_atomic sample_collisionFree sample_fresh sampleCut j hj).2 hphase).2
      "node" "" none (List.replicate 24 {})
      ⟨show 1 ≤ maxDocumentSize by decide, .inl rfl, fun _ h => by cases h⟩
      (fun c hc => by
        rw [List.eq_of_mem_replicate hc]
        exact ⟨rfl, rfl, rfl, rfl, rfl, rfl, rfl⟩)
      (by decide)
    obtain ⟨j', rest, h', heq, hl, ht, -⟩ := hrec
    exact ⟨j, j', rest, h', hj, heq, hl, ht⟩

end Transaction
end LatticeAgent.Linechain
