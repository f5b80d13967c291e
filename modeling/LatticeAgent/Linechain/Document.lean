import LatticeAgent.Sdk

/-! # Linechain documents

The server-rendered document that `-linechain-apply` consumes, the checks that bind it to
its digests (`verifySemanticArtifactBinding`) and to the local layout
(`validateDocument`), and the journal of one transaction.

JSON itself is a parameter (`Codec`): the decoders and encoders enter only as functions, as
does SHA-256. Every result about the transaction holds for any of them, or says what it
needs. -/

namespace LatticeAgent.Linechain

/-- A cleaned path, split into its directory and its last element: every path the manager
handles is `filepath.Join` of a cleaned directory and a name. -/
structure Path where
  dir : String
  base : String
deriving DecidableEq, Repr

/-- `filepath.IsAbs`. -/
def Path.isAbs (p : Path) : Bool := p.dir.toList.head? == some '/'

/-- The path as one string. -/
def Path.text (p : Path) : String := p.dir ++ "/" ++ p.base

/-- `strings.Contains(path, "..")`. -/
def Path.hasDotDot (p : Path) : Bool :=
  decide (['.', '.'] <:+: p.text.toList)

structure SidecarPatchV2 where
  schema : String
  sourceLineUUID : String
  sourceInboundTag : String
  expectedDownstreamLineUUID : Option String
  desiredDownstreamLineUUID : Option String
deriving DecidableEq, Repr

/-- The only server-controlled shape `apply` accepts. -/
structure WireDocumentV2 where
  version : Int
  durableProtocol : String
  operation : String
  fragmentBasename : String
  fragment : Option Bytes
  previousFragmentSHA256 : Option String
  fragmentSHA256 : Option String
  sidecarPatchSHA256 : String
  artifactSHA256 : String
deriving DecidableEq, Repr

structure Document where
  version : Int
  durableProtocol : String
  operation : String
  configDir : String
  fragmentBasename : String
  fragmentPath : Path
  sidecarPath : Path
  fragment : Option Bytes
  sidecarPatch : SidecarPatchV2
  previousFragmentSHA256 : Option String
  fragmentSHA256 : Option String
  sidecarPatchSHA256 : String
  artifactSHA256 : String
  sidecarPatchCanonical : Bytes
deriving DecidableEq, Repr

structure SemanticArtifactBindingV2 where
  schema : String
  operation : String
  fragmentBasename : String
  previousFragmentSHA256 : Option String
  fragmentSHA256 : Option String
  sidecarPatchSHA256 : String
deriving DecidableEq, Repr

/-- The phases of a transaction, in the order a successful one passes through them. -/
inductive Phase where
  | prepared
  | fragmentPublished
  | pairPublished
  | desiredVerified
  | oldRestored
  | terminalDesired
  | terminalOld
deriving DecidableEq, Repr

/-- `journalTerminal`. -/
def Phase.terminal : Phase → Bool
  | .terminalDesired => true
  | .terminalOld => true
  | _ => false

/-- The journal of one transaction. Digests are hex strings, empty for an absent file. -/
structure Journal where
  version : Int
  taskID : String
  leaseID : String
  fragmentPath : Path
  sidecarPath : Path
  fragmentOld : String
  sidecarOld : String
  artifactSHA256 : String
  sidecarPatchSHA256 : String
  fragmentOutputSHA256 : String
  sidecarOutputSHA256 : String
  taskScriptSHA : String
  fragmentHadOld : Bool
  sidecarHadOld : Bool
  phase : Phase
  result : Option TaskResult
deriving DecidableEq, Repr

/-- JSON and SHA-256 as the manager calls them. -/
structure Codec where
  /-- Hex SHA-256. -/
  digest : Bytes → String
  /-- The strict decode of the wire document, trailing data refused. -/
  decodeWire : Bytes → Except String WireDocumentV2
  /-- `decodeUniqueJSONObject` with all ten fields present: the raw `sidecar_patch`. -/
  decodeFields : Bytes → Except String Bytes
  canonicalSemanticSidecarPatch : Bytes → Except String (SidecarPatchV2 × Bytes)
  mergeManagedSidecar : Bytes → SidecarPatchV2 → Except String Bytes
  marshalBinding : SemanticArtifactBindingV2 → Bytes
  marshalJournal : Journal → Bytes
  marshalResult : TaskResult → Bytes

/-- The part of a `Manager` that is configured: the resolved layout. -/
structure Manager where
  configDir : String
  sidecarPath : Path
  configured : Bool
deriving DecidableEq, Repr

def journalVersion : Int := 2
def maxDocumentSize : ℕ := 4 * 2 ^ 20
def maxArtifactSize : ℕ := maxDocumentSize
def durableProtocolV2 : String := "linechain-e3-v2"
def semanticArtifactSchema : String := "lattice.singbox-linechain-artifact.v2"

def isLowerHex (c : Char) : Bool := ('0' ≤ c && c ≤ '9') || ('a' ≤ c && c ≤ 'f')

/-- A lowercase hex SHA-256. -/
@[irreducible] def validSHA (s : String) : Bool := s.toList.length == 64 && s.toList.all isLowerHex

/-- `^lattice-linechain-[0-9a-f]{20}\.json$`. -/
def linechainBasenameRE (s : String) : Bool :=
  let cs := s.toList
  cs.take 18 == "lattice-linechain-".toList && ((cs.drop 18).take 20).all isLowerHex &&
    cs.length == 43 && cs.drop 38 == ".json".toList

section binding
variable (cx : Codec)

/-- The digest of a file that may be absent. -/
def digestMaybe : Option Bytes → String
  | none => ""
  | some b => cx.digest b

/-- The digest of content that may be nil. -/
def digestPtr (s : Option Bytes) : String := digestMaybe cx s

/-- Which fragment digests an operation has: the predecessor's and the new one's. -/
def fragmentShapeOk (operation : String) (previous desired : Option String) :
    Except String Unit :=
  if operation = "create" then
    refuse (previous.isSome || desired.isNone)
      "create semantic artifact binding has invalid fragment shape"
  else if operation = "replace" then
    refuse (previous.isNone || desired.isNone)
      "replace semantic artifact binding has invalid fragment shape"
  else if operation = "remove" then
    refuse (previous.isNone || desired.isSome)
      "remove semantic artifact binding has invalid fragment shape"
  else .error ("unsupported semantic artifact operation \"" ++ operation ++ "\"")

def canonicalSemanticArtifactBinding (b : SemanticArtifactBindingV2) : Except String Bytes := do
  refuse (b.schema != semanticArtifactSchema || !linechainBasenameRE b.fragmentBasename ||
    !validSHA b.sidecarPatchSHA256) "semantic artifact binding identity is invalid"
  fragmentShapeOk b.operation b.previousFragmentSHA256 b.fragmentSHA256
  refuse ([b.previousFragmentSHA256, b.fragmentSHA256].any fun v => v.any (!validSHA ·))
    "semantic artifact fragment digest is invalid"
  return cx.marshalBinding b

def verifySemanticArtifactBinding (fragment : Option Bytes) (patch : Bytes)
    (b : SemanticArtifactBindingV2) (issuedArtifactSHA256 : String) : Except String Unit := do
  match b.fragmentSHA256 with
  | none => refuse fragment.isSome "semantic artifact fragment output must be absent"
  | some want =>
    refuse (fragment.map cx.digest != some want)
      "semantic artifact fragment digest binding mismatch"
  refuse (cx.digest patch != b.sidecarPatchSHA256)
    "semantic artifact sidecar patch digest binding mismatch"
  let canonical ← canonicalSemanticArtifactBinding cx b
  refuse (!validSHA issuedArtifactSHA256 || cx.digest canonical != issuedArtifactSHA256)
    "semantic artifact digest binding mismatch"

/-- The binding of a document, as both callers of `verifySemanticArtifactBinding` build it. -/
def Document.binding (d : Document) : SemanticArtifactBindingV2 :=
  { schema := semanticArtifactSchema, operation := d.operation,
    fragmentBasename := d.fragmentBasename,
    previousFragmentSHA256 := d.previousFragmentSHA256, fragmentSHA256 := d.fragmentSHA256,
    sidecarPatchSHA256 := d.sidecarPatchSHA256 }

/-- The `switch d.Operation` of `validateDocument`. -/
def operationShapeOk (d : Document) : Except String Unit :=
  if d.operation = "create" then
    refuse (d.previousFragmentSHA256.isSome || d.fragment.isNone || d.fragmentSHA256.isNone ||
      d.sidecarPatch.desiredDownstreamLineUUID.isNone)
      "create document has inconsistent old/desired shape"
  else if d.operation = "replace" then
    refuse (d.previousFragmentSHA256.isNone || d.fragment.isNone || d.fragmentSHA256.isNone ||
      d.sidecarPatch.expectedDownstreamLineUUID.isNone ||
      d.sidecarPatch.desiredDownstreamLineUUID.isNone)
      "replace document has inconsistent old/desired shape"
  else if d.operation = "remove" then
    refuse (d.previousFragmentSHA256.isNone || d.fragment.isSome || d.fragmentSHA256.isSome ||
      d.sidecarPatch.expectedDownstreamLineUUID.isNone ||
      d.sidecarPatch.desiredDownstreamLineUUID.isSome)
      "remove document has inconsistent old/desired shape"
  else .error ("unsupported linechain operation \"" ++ d.operation ++ "\"")

/-- The body of the loop over the two artifact paths. -/
def artifactPathOk (p : Path) : Except String Unit := do
  refuse (!p.isAbs || p.text == "/") "artifact path must be absolute and non-root"
  refuse p.hasDotDot "artifact path escapes its directory"

/-- `validateDocument` up to its two looks at the parent directories. -/
def validateShape (m : Manager) (d : Document) : Except String Unit := do
  refuse (d.version != 2) ("unsupported linechain document version " ++ toString d.version)
  refuse (d.durableProtocol != durableProtocolV2)
    ("unsupported linechain durable protocol \"" ++ d.durableProtocol ++ "\"")
  refuse (d.fragmentBasename == "") "v2 fragment_basename is required"
  operationShapeOk d
  verifySemanticArtifactBinding cx d.fragment d.sidecarPatchCanonical d.binding d.artifactSHA256
  refuse (!m.configured) "linechain runtime layout is unresolved"
  refuse (d.configDir != m.configDir)
    "config_dir does not match the locally resolved sing-box directory"
  refuse (d.configDir.toList.head? != some '/' || d.configDir == "/")
    "config_dir must be absolute and non-root"
  artifactPathOk d.fragmentPath
  artifactPathOk d.sidecarPath
  refuse (d.fragmentPath == d.sidecarPath) "fragment and sidecar paths must differ"
  refuse (d.fragmentPath.dir != d.configDir || !linechainBasenameRE d.fragmentPath.base)
    "fragment path is outside the server-owned linechain config namespace"
  refuse (d.sidecarPath != m.sidecarPath)
    ("sidecar path must match locally resolved " ++ m.sidecarPath.text)

/-- The end of `validateDocument`. -/
def validateDigests (d : Document) : Except String Unit :=
  refuse ([d.previousFragmentSHA256, d.fragmentSHA256].any fun v => v.any (!validSHA ·))
    "previous artifact digest is invalid"

/-- `apply` from the bytes it read to the document it validates. -/
def decodeDocument (m : Manager) (raw : Bytes) : Except String Document := do
  refuse (decide (maxDocumentSize < raw.length)) "linechain document exceeds 4194304 bytes"
  let wire ← cx.decodeWire raw
  refuse (wire.version != 2) ("unsupported linechain document version " ++ toString wire.version)
  refuse (wire.durableProtocol != durableProtocolV2)
    ("unsupported linechain durable protocol \"" ++ wire.durableProtocol ++ "\"")
  let rawPatch ← cx.decodeFields raw
  refuse (!linechainBasenameRE wire.fragmentBasename) "fragment_basename is invalid"
  let (patch, patchCanonical) ← cx.canonicalSemanticSidecarPatch rawPatch
  let d : Document :=
    { version := wire.version, durableProtocol := wire.durableProtocol,
      operation := wire.operation, configDir := m.configDir,
      fragmentBasename := wire.fragmentBasename,
      fragmentPath := ⟨m.configDir, wire.fragmentBasename⟩, sidecarPath := m.sidecarPath,
      fragment := wire.fragment, sidecarPatch := patch,
      previousFragmentSHA256 := wire.previousFragmentSHA256,
      fragmentSHA256 := wire.fragmentSHA256, sidecarPatchSHA256 := wire.sidecarPatchSHA256,
      artifactSHA256 := wire.artifactSHA256, sidecarPatchCanonical := patchCanonical }
  verifySemanticArtifactBinding cx d.fragment patchCanonical d.binding d.artifactSHA256
  return d

/-- What the checks of an accepted document promise to the transaction. -/
structure Document.Bound (m : Manager) (d : Document) : Prop where
  configured : m.configured = true
  fragment_dir : d.fragmentPath.dir = m.configDir
  fragment_base : linechainBasenameRE d.fragmentPath.base = true
  sidecar_path : d.sidecarPath = m.sidecarPath
  paths_ne : d.fragmentPath ≠ d.sidecarPath
  artifact_sha : validSHA d.artifactSHA256 = true
  patch_sha : validSHA d.sidecarPatchSHA256 = true

variable {cx}

theorem verifySemanticArtifactBinding_ok {fragment : Option Bytes} {patch : Bytes}
    {b : SemanticArtifactBindingV2} {sha : String}
    (h : verifySemanticArtifactBinding cx fragment patch b sha = .ok ()) :
    validSHA b.sidecarPatchSHA256 ∧ validSHA sha := by
  unfold verifySemanticArtifactBinding at h
  cases hb : b.fragmentSHA256 <;> rw [hb] at h <;>
    simp [canonicalSemanticArtifactBinding, bind_eq_ok] at h <;> tauto

theorem validateShape_ok {m : Manager} {d : Document} (h : validateShape cx m d = .ok ()) :
    d.Bound m := by
  unfold validateShape artifactPathOk at h
  simp only [bind_eq_ok, refuse_eq_ok, exists_const] at h
  obtain ⟨-, -, -, ⟨_, -, _, hbind, h⟩⟩ := h
  have hsha := verifySemanticArtifactBinding_ok hbind
  simp at h
  obtain ⟨hconf, hdir, -, -, -, hne, hfrag, hside⟩ := h
  exact ⟨hconf, hfrag.1.trans hdir, hfrag.2, hside, hne, hsha.2, hsha.1⟩

end binding
end LatticeAgent.Linechain
