import LatticeAgent.Lib.Encoding
import LatticeAgent.Lib.Runs
import LatticeAgent.Linechain.Journals
import LatticeAgent.Linechain.Runs
import LatticeAgent.Linechain.Sidecar

/-! # What an issued digest stands for

A document is bound to its `artifact_sha256` through two more digests, of the fragment and of the
patch, and two canonical JSON texts. `encoding/json` writes these as `JsonText.object` does, and
its decoders are parameters (`Decoders`).

As long as nothing that is hashed collides, documents with one artifact digest ask for the same
change (`SameChange`); and a journal that carries the digest, in whatever run of the manager, was
written for a document that does (`artifact_identifies_change`). -/

namespace LatticeAgent.Linechain

open CutProg

/-! ### The two texts -/

/-- `json.Marshal` of a record of texts, some of them pointers. -/
@[irreducible] def marshalTexts (fields : List (String × Option String)) : Bytes :=
  (JsonText.object fields).flatMap String.utf8EncodeChar

theorem marshalTexts_injective : Function.Injective marshalTexts := by
  intro fields fields' h
  unfold marshalTexts at h
  have hbytes : (JsonText.object fields).utf8Encode = (JsonText.object fields').utf8Encode :=
    congrArg List.toByteArray h
  rw [← String.toByteArray_ofList, ← String.toByteArray_ofList, String.toByteArray_inj] at hbytes
  exact JsonText.object_injective (String.ofList_injective hbytes)

/-- `json.Marshal` of a patch. -/
def marshalPatch (p : SidecarPatchV2) : Bytes :=
  marshalTexts [("schema", some p.schema), ("source_line_uuid", some p.sourceLineUUID),
    ("source_inbound_tag", some p.sourceInboundTag),
    ("expected_downstream_line_uuid", p.expectedDownstreamLineUUID),
    ("desired_downstream_line_uuid", p.desiredDownstreamLineUUID)]

/-- `json.Marshal` of a binding. -/
def marshalBinding (b : SemanticArtifactBindingV2) : Bytes :=
  marshalTexts [("schema", some b.schema), ("operation", some b.operation),
    ("fragment_basename", some b.fragmentBasename),
    ("previous_fragment_sha256", b.previousFragmentSHA256), ("fragment_sha256", b.fragmentSHA256),
    ("sidecar_patch_sha256", some b.sidecarPatchSHA256)]

theorem marshalPatch_injective : Function.Injective marshalPatch := by
  intro p q h
  have hfields := marshalTexts_injective h
  cases p
  cases q
  simpa using hfields

theorem marshalBinding_injective : Function.Injective marshalBinding := by
  intro b c h
  have hfields := marshalTexts_injective h
  cases b
  cases c
  simpa using hfields

/-- The decoders of `encoding/json` that `canonicalSemanticSidecarPatch` calls. -/
structure Decoders where
  /-- `decodeJSONObject`. -/
  fields : Bytes → Except String (List (String × Bytes))
  /-- `json.Unmarshal` into a patch. -/
  patch : Bytes → Except String SidecarPatchV2

/-- `canonicalSemanticSidecarPatch` on the text: the patch, and the text it must have. -/
def canonicalPatchText (dec : Decoders) (raw : Bytes) : Except String (SidecarPatchV2 × Bytes) := do
  let fields ← (dec.fields raw).mapError ("decode semantic sidecar patch: " ++ ·)
  match patchFields.find? fun name => (fields.lookup name).isNone with
  | some name => .error ("semantic sidecar patch field " ++ name ++ " must be present")
  | none =>
    refuse (fields.length ≠ 5) "semantic sidecar patch has unknown fields"
    let patch ← (dec.patch raw).mapError ("decode semantic sidecar patch: " ++ ·)
    refuse (patch.schema ≠ semanticSidecarPatchSchema || !lowercaseUUIDv4RE patch.sourceLineUUID ||
      !canonicalTag patch.sourceInboundTag) "semantic sidecar patch identity is invalid"
    refuse (!patch.expectedDownstreamLineUUID.all lowercaseUUIDv4RE ||
      !patch.desiredDownstreamLineUUID.all lowercaseUUIDv4RE)
      "semantic sidecar downstream identity is invalid"
    refuse (raw ≠ marshalPatch patch) "semantic sidecar patch is not canonical"
    .ok (patch, marshalPatch patch)

theorem canonicalPatchText_eq {dec : Decoders} {raw canonical : Bytes} {patch : SidecarPatchV2}
    (h : canonicalPatchText dec raw = .ok (patch, canonical)) : canonical = marshalPatch patch := by
  obtain ⟨fields, -, h⟩ := bind_eq_ok.mp h
  split at h
  · cases h
  · obtain ⟨-, h⟩ := refuse_bind_eq_ok.mp h
    obtain ⟨patch', -, h⟩ := bind_eq_ok.mp h
    obtain ⟨-, h⟩ := refuse_bind_eq_ok.mp h
    obtain ⟨-, h⟩ := refuse_bind_eq_ok.mp h
    obtain ⟨-, h⟩ := refuse_bind_eq_ok.mp h
    obtain ⟨rfl, rfl⟩ := Prod.mk.inj (Except.ok.inj h)
    rfl

/-- A codec that writes and checks the two texts. -/
def Codec.onTexts (cx : Codec) (dec : Decoders) : Codec :=
  { cx with
    canonicalSemanticSidecarPatch := canonicalPatchText dec
    marshalBinding := Linechain.marshalBinding }

@[simp] theorem Codec.onTexts_digest (cx : Codec) (dec : Decoders) :
    (cx.onTexts dec).digest = cx.digest := rfl

@[simp] theorem Codec.onTexts_marshalBinding (cx : Codec) (dec : Decoders) :
    (cx.onTexts dec).marshalBinding = Linechain.marshalBinding := rfl

/-! ### Documents -/

/-- Two documents ask for the same change. -/
structure SameChange (d d' : Document) : Prop where
  operation : d.operation = d'.operation
  fragmentPath : d.fragmentPath = d'.fragmentPath
  previousFragmentSHA256 : d.previousFragmentSHA256 = d'.previousFragmentSHA256
  fragment : d.fragment = d'.fragment
  sidecarPatch : d.sidecarPatch = d'.sidecarPatch
  sidecarPatchCanonical : d.sidecarPatchCanonical = d'.sidecarPatchCanonical

/-- What is hashed for a document. -/
def Document.hashed (d : Document) : Set Bytes :=
  {b | d.fragment = some b ∨ b = d.sidecarPatchCanonical ∨ b = marshalBinding d.binding}

/-- `Apply` accepts a text as a document, up to and including `validateDocument`. -/
structure Accepts (cx : Codec) (m : Manager) (raw : Bytes) (d : Document) : Prop where
  decoded : decodeDocument cx m raw = .ok d
  shape : validateShape cx m d = .ok ()

variable {cx : Codec} {dec : Decoders} {m : Manager} {raw raw' : Bytes} {d d' : Document}

theorem canonicalBinding_eq {b : SemanticArtifactBindingV2} {canonical : Bytes}
    (h : canonicalSemanticArtifactBinding cx b = .ok canonical) : canonical = cx.marshalBinding b := by
  obtain ⟨-, h⟩ := refuse_bind_eq_ok.mp h
  obtain ⟨_, -, h⟩ := bind_eq_ok.mp h
  obtain ⟨-, h⟩ := refuse_bind_eq_ok.mp h
  exact (Except.ok.inj h).symm

theorem verify_binds {fragment : Option Bytes} {patch : Bytes} {b : SemanticArtifactBindingV2}
    {sha : String} (h : verifySemanticArtifactBinding cx fragment patch b sha = .ok ()) :
    b.fragmentSHA256 = fragment.map cx.digest ∧ b.sidecarPatchSHA256 = cx.digest patch ∧
      sha = cx.digest (cx.marshalBinding b) := by
  have hrest : ∀ {u : Except String Unit}, (u >>= fun _ => do
      refuse (cx.digest patch != b.sidecarPatchSHA256)
        "semantic artifact sidecar patch digest binding mismatch"
      let canonical ← canonicalSemanticArtifactBinding cx b
      refuse (!validSHA sha || cx.digest canonical != sha)
        "semantic artifact digest binding mismatch") = .ok () →
      u = .ok () ∧ b.sidecarPatchSHA256 = cx.digest patch ∧
        sha = cx.digest (cx.marshalBinding b) := by
    intro u h
    obtain ⟨_, hu, h⟩ := bind_eq_ok.mp h
    obtain ⟨hpatch, h⟩ := refuse_bind_eq_ok.mp h
    obtain ⟨canonical, hcanonical, h⟩ := bind_eq_ok.mp h
    rw [canonicalBinding_eq hcanonical] at h
    simp only [refuse_eq_ok, Bool.or_eq_false_iff, bne_eq_false_iff_eq] at h hpatch
    exact ⟨hu, hpatch.symm, h.2.symm⟩
  unfold verifySemanticArtifactBinding at h
  cases hb : b.fragmentSHA256 with
  | none =>
    rw [hb] at h
    obtain ⟨habsent, hrest⟩ := hrest h
    rw [refuse_eq_ok, Option.isSome_eq_false_iff, Option.isNone_iff_eq_none] at habsent
    rw [habsent]
    exact ⟨rfl, hrest⟩
  | some want =>
    rw [hb] at h
    obtain ⟨hsame, hrest⟩ := hrest h
    rw [refuse_eq_ok, bne_eq_false_iff_eq] at hsame
    exact ⟨hsame.symm, hrest⟩

/-- What the checks say of a document that was accepted. -/
structure Document.Bind (cx : Codec) (m : Manager) (d : Document) : Prop where
  path : d.fragmentPath = ⟨m.configDir, d.fragmentBasename⟩
  canonical : d.sidecarPatchCanonical = marshalPatch d.sidecarPatch
  fragment : d.fragmentSHA256 = d.fragment.map cx.digest
  patch : d.sidecarPatchSHA256 = cx.digest d.sidecarPatchCanonical
  artifact : d.artifactSHA256 = cx.digest (marshalBinding d.binding)

theorem bind_of_decoded (h : decodeDocument (cx.onTexts dec) m raw = .ok d) : d.Bind cx m := by
  obtain ⟨-, h⟩ := refuse_bind_eq_ok.mp h
  obtain ⟨wire, -, h⟩ := bind_eq_ok.mp h
  obtain ⟨-, h⟩ := refuse_bind_eq_ok.mp h
  obtain ⟨-, h⟩ := refuse_bind_eq_ok.mp h
  obtain ⟨rawPatch, -, h⟩ := bind_eq_ok.mp h
  obtain ⟨-, h⟩ := refuse_bind_eq_ok.mp h
  obtain ⟨⟨patch, canonical⟩, hpatch, h⟩ := bind_eq_ok.mp h
  obtain ⟨_, hverify, h⟩ := bind_eq_ok.mp h
  have hbinds := verify_binds hverify
  rw [Codec.onTexts_digest, Codec.onTexts_marshalBinding] at hbinds
  obtain ⟨hfragment, hsha, hartifact⟩ := hbinds
  obtain rfl := Except.ok.inj h
  exact ⟨rfl, canonicalPatchText_eq hpatch, hfragment, hsha, hartifact⟩

/-- **One digest, one change.** -/
theorem sameChange_of_artifact {S : Set Bytes} (hS : Set.InjOn cx.digest S) (h : d.Bind cx m)
    (h' : d'.Bind cx m) (hd : d.hashed ⊆ S) (hd' : d'.hashed ⊆ S)
    (hsame : d.artifactSHA256 = d'.artifactSHA256) : SameChange d d' := by
  have hbinding : d.binding = d'.binding := by
    rw [h.artifact, h'.artifact] at hsame
    exact marshalBinding_injective
      (hS (hd (.inr (.inr rfl))) (hd' (.inr (.inr rfl))) hsame)
  obtain ⟨-, hoperation, hbasename, hprevious, hfragment, hpatch⟩ :=
    SemanticArtifactBindingV2.mk.inj hbinding
  have hcanonical : d.sidecarPatchCanonical = d'.sidecarPatchCanonical := by
    rw [h.patch, h'.patch] at hpatch
    exact hS (hd (.inr (.inl rfl))) (hd' (.inr (.inl rfl))) hpatch
  refine ⟨hoperation, ?_, hprevious, ?_, ?_, hcanonical⟩
  · rw [h.path, h'.path, hbasename]
  · rw [h.fragment, h'.fragment] at hfragment
    cases hf : d.fragment with
    | none =>
      rw [hf, Option.map_none, eq_comm, Option.map_eq_none_iff] at hfragment
      exact hfragment.symm
    | some b =>
      rw [hf, Option.map_some, eq_comm, Option.map_eq_some_iff] at hfragment
      obtain ⟨b', hf', hdigest⟩ := hfragment
      rw [hf', hS (hd' (.inl hf')) (hd (.inl hf)) hdigest]
  · rw [h.canonical, h'.canonical] at hcanonical
    exact marshalPatch_injective hcanonical

/-! ### Journals -/

/-- A journal was written for a document: it is the one that `Apply` started from, in another
phase. -/
def Journal.WrittenFor (cx : Codec) (j : Journal) (d : Document) : Prop :=
  ∃ phase result script fragmentOld sidecarOld output,
    j = { preparedJournal cx d j.taskID j.leaseID script fragmentOld sidecarOld output with
      phase := phase, result := result }

/-- A call on the manager, for whatever task. -/
inductive ManagerCall where
  | openManager
  | apply (raw : Bytes) (taskID leaseID taskScriptSHA : String)
  | resolveAfterRun (taskID leaseID : String) (result : TaskResult)
  | cleanup (taskID leaseID : String)
  | requireRecovered (nodeID : String) (authority : Option (List (String × RecoveryAuthority)))

def ManagerCall.prog (cx : Codec) (m : Manager) : ManagerCall → HostProg Unit
  | .openManager => Linechain.openManager
  | .apply raw taskID leaseID taskScriptSHA => Linechain.apply cx m raw taskID leaseID taskScriptSHA
  | .resolveAfterRun taskID leaseID result => do
    let _ ← Linechain.resolveAfterRun cx taskID leaseID result
    return ()
  | .cleanup taskID leaseID => Linechain.cleanup cx taskID leaseID
  | .requireRecovered nodeID authority =>
    requireRecoveredAuthorized cx m (fun p => p) Transaction.completed nodeID authority

/-- What happens to the host: a call, which may be cut after any step, or a power loss. -/
inductive ManagerMove where
  | call (c : ManagerCall) (script : List Choice)
  | powerLoss

def Host.managed (cx : Codec) (m : Manager) (h : Host) : ManagerMove → Host
  | .call c script => (c.prog cx m).after script h
  | .powerLoss => { h with txn := h.txn.powerLoss }

section journals
variable {W : String → Journal → Prop} {A : Choice → Prop}

theorem cleanup_holds (taskID leaseID : String) :
    Keeps A (Host.Holds W) (Host.Holds W) (cleanup cx taskID leaseID) := by
  have hbackup : ∀ a key, Keeps A (Host.Holds W) (Host.Holds W) (removeBackup a key) :=
    fun a key => access_keeps fun _ hw => hw.congr rfl rfl
  have hjournal : ∀ key, Keeps A (Host.Holds W) (Host.Holds W) (removeJournal key) :=
    fun key => access_keeps fun _ hw => hw.eraseJournal key
  exact keeps_bind (hbackup _ _) fun _ => keeps_bind (hbackup _ _) fun _ =>
    keeps_bind (hjournal _) fun _ => access_keeps fun _ hw => hw.sync

theorem requireRecovered_holds (L : Ledger (Host.Holds W) W) (nodeID : String)
    (authority : Option (List (String × RecoveryAuthority))) :
    Keeps A (Host.Holds W) (Host.Holds W) (requireRecoveredAuthorized cx m (fun p => p)
      Transaction.completed nodeID authority) := by
  refine keeps_bind read_keeps fun names => keeps_forEach (fun name => ?_) names
  refine keeps_bind (L.expectedAuthority name authority) fun expected => fun h hw => ?_
  refine wp_then (L.recoverOne nodeID "" expected h hw) (fun j h₁ hw₁ => ?_)
  split
  · exact wp_ret hw₁.1
  · exact keeps_bind read_keeps (fun _ => cleanup_holds _ _) h₁ hw₁.1

theorem managed_holds (L : Ledger (Host.Holds W) W) {h : Host} (hw : h.Holds W) (move : ManagerMove)
    (happly : ∀ raw taskID leaseID sha script, move = .call (.apply raw taskID leaseID sha) script →
      ∀ d, decodeDocument cx m raw = .ok d → validateShape cx m d = .ok () →
        ∀ script fragmentOld sidecarOld output, W (journalKey cx taskID leaseID)
          (preparedJournal cx d taskID leaseID script fragmentOld sidecarOld output)) :
    (h.managed cx m move).Holds W := by
  cases move with
  | powerLoss =>
    intro name j hj
    rcases hj with hj | hj <;> exact hw name j (.inr hj)
  | call c script =>
    have hkeeps : Keeps (fun _ => True) (Host.Holds W) (Host.Holds W) (c.prog cx m) := by
      cases c with
      | openManager => exact keeps_bind read_keeps fun _ => access_keeps fun _ hw => hw.sync
      | apply raw taskID leaseID sha => exact L.apply (happly raw taskID leaseID sha script rfl) sha
      | resolveAfterRun taskID leaseID result =>
        exact keeps_bind (L.resolveAfterRun taskID leaseID result) fun _ => keeps_pure
      | cleanup taskID leaseID => exact cleanup_holds taskID leaseID
      | requireRecovered nodeID authority => exact requireRecovered_holds L nodeID authority
    exact wp_after (hkeeps h hw) (fun _ _ => trivial) (fun _ _ hw => hw) (fun _ _ hw => hw)
      fun _ hw => hw

end journals

/-- A document for which a journal was written in a run: one of the calls was given it, and has
accepted it. -/
def Journal.Origin (cx : Codec) (m : Manager) (moves : List ManagerMove) (j : Journal)
    (d : Document) : Prop :=
  ∃ raw taskID leaseID sha script, .call (.apply raw taskID leaseID sha) script ∈ moves ∧
    Accepts cx m raw d ∧ j.WrittenFor cx d

theorem Journal.Origin.settle {moves : List ManagerMove} {j : Journal}
    (h : j.Origin cx m moves d) (phase : Phase) (r : Option TaskResult) :
    Journal.Origin cx m moves { j with phase := phase, result := r } d := by
  obtain ⟨raw, taskID, leaseID, sha, script, hmem, haccepts, hwritten⟩ := h
  obtain ⟨_, _, script', fragmentOld, sidecarOld, output, heq⟩ := hwritten
  refine ⟨raw, taskID, leaseID, sha, script, hmem, haccepts, ?_⟩
  exact ⟨phase, r, script', fragmentOld, sidecarOld, output, by rw [heq]; rfl⟩

/-- **Every journal has its origin in the run.** -/
theorem managed_origin (moves : List ManagerMove) {h₀ : Host}
    (hempty : ∀ name, h₀.txn.visible.journal.lookup name = none ∧
      h₀.txn.durable.journal.lookup name = none) :
    (Runs.run (Host.managed cx m) h₀ moves).Holds fun _ j => ∃ d, j.Origin cx m moves d := by
  have L : Ledger (Host.Holds fun _ j => ∃ d, j.Origin cx m moves d)
      fun _ j => ∃ d, j.Origin cx m moves d := by
    refine holds_ledger fun hj phase r => ?_
    obtain ⟨d, hd⟩ := hj
    exact ⟨d, hd.settle phase r⟩
  have hmoves : Runs.Along (Host.managed cx m) (fun _ move => move ∈ moves) h₀ moves :=
    Runs.along_of_forall h₀ fun _ hmem => hmem
  refine Runs.invariant _ (fun h move hw hmem => ?_) (fun name j hj => ?_) hmoves
  · refine managed_holds L hw move fun raw taskID leaseID sha script heq d hd hshape _ _ _ _ => ?_
    subst heq
    exact ⟨d, raw, taskID, leaseID, sha, script, hmem, ⟨hd, hshape⟩, _, _, _, _, _, _, rfl⟩
  · obtain ⟨hv, hd⟩ := hempty name
    rw [hv, hd] at hj
    rcases hj with hj | hj <;> cases hj

/-- **An issued digest identifies one change.**  As long as nothing that is hashed collides,
accepted documents with one artifact digest ask for the same change; and in every run of calls on
the manager, cut anywhere and with power losses between them, a journal with the digest of an
accepted document was written for a document that asks for the same change. -/
theorem artifact_identifies_change (cx : Codec) (dec : Decoders) (m : Manager) {S : Set Bytes}
    (hS : Set.InjOn cx.digest S) {raw : Bytes} {d : Document}
    (haccepts : Accepts (cx.onTexts dec) m raw d) (hd : d.hashed ⊆ S) :
    (∀ raw' d', Accepts (cx.onTexts dec) m raw' d' → d'.hashed ⊆ S →
      d.artifactSHA256 = d'.artifactSHA256 → SameChange d d') ∧
    ∀ (moves : List ManagerMove) (h₀ : Host),
      (∀ name, h₀.txn.visible.journal.lookup name = none ∧
        h₀.txn.durable.journal.lookup name = none) →
      (Runs.run (Host.managed (cx.onTexts dec) m) h₀ moves).Holds fun _ j =>
        j.artifactSHA256 = d.artifactSHA256 →
          (∃ d', j.Origin (cx.onTexts dec) m moves d') ∧
          ∀ d', j.Origin (cx.onTexts dec) m moves d' → d'.hashed ⊆ S → SameChange d d' := by
  have hone : ∀ raw' d', Accepts (cx.onTexts dec) m raw' d' → d'.hashed ⊆ S →
      d.artifactSHA256 = d'.artifactSHA256 → SameChange d d' := by
    intro raw' d' haccepts' hd' hsame
    exact sameChange_of_artifact hS (bind_of_decoded haccepts.decoded)
      (bind_of_decoded haccepts'.decoded) hd hd' hsame
  refine ⟨hone, fun moves h₀ hempty name j hj hsame => ?_⟩
  refine ⟨managed_origin moves hempty name j hj, fun d' horigin hd' => ?_⟩
  obtain ⟨raw', -, -, -, -, -, haccepts', hwritten⟩ := horigin
  have hdigest : j.artifactSHA256 = d'.artifactSHA256 := by
    obtain ⟨_, _, _, _, _, _, heq⟩ := hwritten
    rw [heq]
    rfl
  exact hone raw' d' haccepts' hd' (hsame.symm.trans hdigest)

/-! ### A document -/

/-- A digest that is told from one byte: the one in which the two texts differ first. -/
def peekDigest (b : Bytes) : String :=
  String.ofList (List.replicate 64 (Nat.digitChar ((b.getD 37 0).toNat % 16)))

def boundPatch : SidecarPatchV2 := ⟨semanticSidecarPatchSchema, uuidA, "a", none, some uuidB⟩

def boundBinding : SemanticArtifactBindingV2 :=
  { schema := semanticArtifactSchema, operation := "create",
    fragmentBasename := "lattice-linechain-0123456789abcdef0123.json",
    previousFragmentSHA256 := none, fragmentSHA256 := some (peekDigest [1]),
    sidecarPatchSHA256 := peekDigest (marshalPatch boundPatch) }

/-- The document on the wire. -/
def boundWire : WireDocumentV2 :=
  { version := 2, durableProtocol := durableProtocolV2, operation := "create",
    fragmentBasename := boundBinding.fragmentBasename, fragment := some [1],
    previousFragmentSHA256 := none, fragmentSHA256 := boundBinding.fragmentSHA256,
    sidecarPatchSHA256 := boundBinding.sidecarPatchSHA256,
    artifactSHA256 := peekDigest (marshalBinding boundBinding) }

def boundCodec : Codec :=
  { Transaction.sampleCodec with
    digest := peekDigest
    decodeWire := fun _ => .ok boundWire
    decodeFields := fun _ => .ok (marshalPatch boundPatch) }

def boundDecoders : Decoders where
  fields := fun _ => .ok (patchFields.map (·, []))
  patch := fun _ => .ok boundPatch

def boundDocument : Document :=
  { version := 2, durableProtocol := durableProtocolV2, operation := "create",
    configDir := Transaction.sampleManager.configDir, fragmentBasename := boundBinding.fragmentBasename,
    fragmentPath := ⟨Transaction.sampleManager.configDir, boundBinding.fragmentBasename⟩,
    sidecarPath := Transaction.sampleManager.sidecarPath, fragment := some [1], sidecarPatch := boundPatch,
    previousFragmentSHA256 := none, fragmentSHA256 := boundBinding.fragmentSHA256,
    sidecarPatchSHA256 := boundBinding.sidecarPatchSHA256,
    artifactSHA256 := peekDigest (marshalBinding boundBinding),
    sidecarPatchCanonical := marshalPatch boundPatch }

theorem boundDocument_accepted :
    Accepts (boundCodec.onTexts boundDecoders) Transaction.sampleManager [] boundDocument :=
  ⟨by decide +kernel, by decide +kernel⟩

/-- The three texts that are hashed for it have different digests. -/
theorem boundDocument_injOn : Set.InjOn boundCodec.digest boundDocument.hashed := by
  have hpatch : peekDigest (marshalPatch boundPatch) ≠ peekDigest [1] := by decide +kernel
  have hbinding : peekDigest (marshalBinding boundDocument.binding) ≠ peekDigest [1] := by
    decide +kernel
  have hdiffer : peekDigest (marshalBinding boundDocument.binding) ≠
      peekDigest (marshalPatch boundPatch) := by decide +kernel
  have hfragment : ∀ b, boundDocument.fragment = some b → b = [1] :=
    fun b hb => (Option.some.inj hb).symm
  rintro b (hb | rfl | rfl) b' (hb' | rfl | rfl) hsame
  · rw [hfragment b hb, hfragment b' hb']
  · rw [hfragment b hb] at hsame
    exact absurd hsame.symm hpatch
  · rw [hfragment b hb] at hsame
    exact absurd hsame.symm hbinding
  · rw [hfragment b' hb'] at hsame
    exact absurd hsame hpatch
  · rfl
  · exact absurd hsame.symm hdiffer
  · rw [hfragment b' hb'] at hsame
    exact absurd hsame hbinding
  · exact absurd hsame hdiffer
  · rfl

theorem artifact_identifies_change_bound :
    let cx := boundCodec.onTexts boundDecoders
    let m := Transaction.sampleManager
    let d := boundDocument
    Accepts cx m [] d ∧
      (∀ raw' d', Accepts cx m raw' d' → d'.hashed ⊆ d.hashed →
        d.artifactSHA256 = d'.artifactSHA256 → SameChange d d') ∧
      ∀ (moves : List ManagerMove) (h₀ : Host),
        (∀ name, h₀.txn.visible.journal.lookup name = none ∧
          h₀.txn.durable.journal.lookup name = none) →
        (Runs.run (Host.managed cx m) h₀ moves).Holds fun _ j =>
          j.artifactSHA256 = d.artifactSHA256 →
            (∃ d', j.Origin cx m moves d') ∧
            ∀ d', j.Origin cx m moves d' → d'.hashed ⊆ d.hashed → SameChange d d' :=
  ⟨boundDocument_accepted, artifact_identifies_change boundCodec boundDecoders
    Transaction.sampleManager boundDocument_injOn boundDocument_accepted subset_rfl⟩

end LatticeAgent.Linechain
