import LatticeAgent.Discover.Sidecar
import LatticeAgent.Lib.Text
import LatticeAgent.Linechain.Document

/-! # The sidecar that a line chain publishes

A line chain patches the chain of one inbound in the metadata sidecar. The documents here are JSON
values (`canonicalSemanticSidecarPatch`, `mergeManagedSidecar`); their texts are `encoding/json`'s,
which writes the members of a map in the order of their names, and no reader depends on it.

Discovery, which reads the result, also follows the chains from inbound to inbound. It accepts it
exactly if the chains of the old sidecar do not lead from the desired downstream line back to the
source (`published_accepts_iff`). -/

namespace LatticeAgent.Linechain

open List Discover Json
open Discover (SidecarInbound SingBoxSidecar)

def semanticSidecarMetadataSchema : String := "lattice.singbox-metadata.v2"
def semanticSidecarPatchSchema : String := "lattice.singbox-linechain-sidecar-patch.v1"

/-- The kinds of characters in a lowercase UUIDv4. -/
inductive UUIDChar where
  | hex
  | dash
  | version
  | variant
deriving DecidableEq, Repr

def UUIDChar.fits : UUIDChar → Char → Bool
  | .hex, c => isLowerHex c
  | .dash, c => c == '-'
  | .version, c => c == '4'
  | .variant, c => ['8', '9', 'a', 'b'].contains c

/-- `^[0-9a-f]{8}-[0-9a-f]{4}-4[0-9a-f]{3}-[89ab][0-9a-f]{3}-[0-9a-f]{12}$`. -/
def uuidShape : List UUIDChar :=
  List.replicate 8 .hex ++ [.dash] ++ List.replicate 4 .hex ++ [.dash, .version] ++
    List.replicate 3 .hex ++ [.dash, .variant] ++ List.replicate 3 .hex ++ [.dash] ++
    List.replicate 12 .hex

/-- A text of a character of each kind. -/
def matchShape : List UUIDChar → List Char → Bool
  | [], [] => true
  | kind :: shape, c :: cs => kind.fits c && matchShape shape cs
  | _, _ => false

def lowercaseUUIDv4RE (s : String) : Bool := matchShape uuidShape s.toList

/-- A tag that is not blank and has no white space around it. -/
def canonicalTag (tag : String) : Bool := trimSpace tag ≠ "" && tag = trimSpace tag

def patchFields : List String :=
  ["schema", "source_line_uuid", "source_inbound_tag", "expected_downstream_line_uuid",
    "desired_downstream_line_uuid"]

/-- `json.Unmarshal` into a patch. -/
def decodePatch (members : List (String × Json)) : Except String SidecarPatchV2 := do
  let schema ← Json.decodeMember members "schema" Json.decodeString ""
  let sourceLineUUID ← Json.decodeMember members "source_line_uuid" Json.decodeString ""
  let sourceInboundTag ← Json.decodeMember members "source_inbound_tag" Json.decodeString ""
  let expected ← Json.decodeMember members "expected_downstream_line_uuid" Json.decodeStringPtr none
  let desired ← Json.decodeMember members "desired_downstream_line_uuid" Json.decodeStringPtr none
  .ok ⟨schema, sourceLineUUID, sourceInboundTag, expected, desired⟩

/-- The patch in a document. Its text must be the one that the patch is written as; here that is
the order of its members. -/
def canonicalSemanticSidecarPatch (raw : Json) : Except String SidecarPatchV2 := do
  let members ← raw.object.mapError ("decode semantic sidecar patch: " ++ ·)
  match patchFields.find? fun name => (members.lookup name).isNone with
  | some name => .error ("semantic sidecar patch field " ++ name ++ " must be present")
  | none =>
    refuse (members.length ≠ 5) "semantic sidecar patch has unknown fields"
    let patch ← (decodePatch members).mapError ("decode semantic sidecar patch: " ++ ·)
    refuse (patch.schema ≠ semanticSidecarPatchSchema || !lowercaseUUIDv4RE patch.sourceLineUUID ||
      !canonicalTag patch.sourceInboundTag) "semantic sidecar patch identity is invalid"
    refuse (!patch.expectedDownstreamLineUUID.all lowercaseUUIDv4RE ||
      !patch.desiredDownstreamLineUUID.all lowercaseUUIDv4RE)
      "semantic sidecar downstream identity is invalid"
    refuse (members.map Prod.fst ≠ patchFields) "semantic sidecar patch is not canonical"
    .ok patch

/-! ### The merge -/

/-- The inbounds of a sidecar, if it is one of this schema. -/
def validateSemanticSidecarTop (top : List (String × Json)) : Except String (List Json) :=
  if Json.stringOf top "schema" = some semanticSidecarMetadataSchema then
    match top.lookup "inbounds" with
    | some (.arr inbounds) => .ok inbounds
    | _ => .error "inbounds must be an array"
  else .error "unsupported schema"

/-- The identity and the tag of an inbound. -/
def semanticInboundIdentity (raw : Json) : Except String (String × String) := do
  let members ← raw.object
  match Json.stringOf members "line_uuid" with
  | none => .error "line_uuid must be a lowercase UUIDv4 string"
  | some uuid => do
    refuse (!lowercaseUUIDv4RE uuid) "line_uuid must be a lowercase UUIDv4 string"
    match Json.stringOf members "tag" with
    | none => .error "tag must be a non-empty canonical string"
    | some tag => do
      refuse (!canonicalTag tag) "tag must be a non-empty canonical string"
      .ok (uuid, tag)

/-- What the loop over the inbounds remembers. -/
structure Scan where
  matched : Option Nat := none
  seenUUID : List String := []
  seenTag : List String := []
deriving DecidableEq, Repr

-- `strconv.Quote`
variable (quote : String → String)

/-- The loop, from an index on. -/
def scan (patch : SidecarPatchV2) : Nat → Scan → List Json → Except String Scan
  | _, st, [] => .ok st
  | i, st, raw :: rest => do
    let (uuid, tag) ← (semanticInboundIdentity raw).mapError
      ("current semantic sidecar inbound " ++ toString i ++ ": " ++ ·)
    refuse (uuid ∈ st.seenUUID) ("current semantic sidecar has duplicate line_uuid " ++ quote uuid)
    refuse (tag ∈ st.seenTag) ("current semantic sidecar has duplicate tag " ++ quote tag)
    let st := { st with seenUUID := uuid :: st.seenUUID, seenTag := tag :: st.seenTag }
    if uuid = patch.sourceLineUUID ∨ tag = patch.sourceInboundTag then
      refuse (uuid ≠ patch.sourceLineUUID || tag ≠ patch.sourceInboundTag || st.matched.isSome)
        "current semantic sidecar source identity is ambiguous"
      scan patch (i + 1) { st with matched := some i } rest
    else scan patch (i + 1) st rest

def currentDownstreamIdentity (inbound : List (String × Json)) : Except String (Option String) :=
  match inbound.lookup "chain" with
  | none => .ok none
  | some raw => do
    let chain ← raw.object.mapError ("current semantic sidecar chain: " ++ ·)
    match chain.lookup "downstream_line_uuid" with
    | none => .error "current semantic sidecar chain downstream_line_uuid must be present"
    | some .null => .ok none
    | some (.str value) => do
      refuse (!lowercaseUUIDv4RE value) "current semantic sidecar downstream_line_uuid is invalid"
      .ok (some value)
    | some _ => .error "current semantic sidecar downstream_line_uuid is invalid"

/-- The inbound with its new chain, or without one. -/
def rechained (inbound : List (String × Json)) : Option String → List (String × Json)
  | none => Json.without inbound "chain"
  | some desired => Json.set inbound "chain" (.obj [("downstream_line_uuid", .str desired)])

def mergeManagedSidecar (current : Json) (patch : SidecarPatchV2) : Except String Json := do
  let top ← current.object.mapError ("decode current semantic sidecar: " ++ ·)
  let inbounds ← (validateSemanticSidecarTop top).mapError ("current semantic sidecar: " ++ ·)
  let st ← scan quote patch 0 {} inbounds
  match st.matched.bind fun k => inbounds[k]?.map fun raw => (k, raw) with
  | none => .error "current semantic sidecar source identity is missing"
  | some (k, raw) => do
    let inbound ← raw.object
    let currentDownstream ← currentDownstreamIdentity inbound
    refuse (currentDownstream ≠ patch.expectedDownstreamLineUUID)
      "current semantic sidecar downstream identity changed"
    .ok (.obj (Json.set top "inbounds"
      (.arr (inbounds.set k (.obj (rechained inbound patch.desiredDownstreamLineUUID))))))

/-! ### Lowercase UUIDs -/

section UUID

theorem matchShape_spec {shape : List UUIDChar} {cs : List Char} (h : matchShape shape cs) :
    cs.length = shape.length ∧
      ∀ (k : Nat) (c : Char), cs[k]? = some c → ∃ kind, shape[k]? = some kind ∧ UUIDChar.fits kind c := by
  induction shape generalizing cs with
  | nil =>
    cases cs with
    | nil => simp
    | cons c cs => cases h
  | cons kind shape ih =>
    cases cs with
    | nil => cases h
    | cons c cs =>
      rw [matchShape, Bool.and_eq_true] at h
      obtain ⟨hlength, hrest⟩ := ih h.2
      refine ⟨by simp [hlength], fun k c' hk => ?_⟩
      cases k with
      | zero =>
        rw [getElem?_cons_zero, Option.some.injEq] at hk
        exact ⟨kind, rfl, hk ▸ h.1⟩
      | succ k => exact hrest k c' hk

variable {c : Char}

theorem UUIDChar.plain {kind : UUIDChar} (h : kind.fits c) : c = '-' ∨ isLowerHex c := by
  cases kind with
  | hex => exact .inr h
  | dash => exact .inl (by simpa [fits] using h)
  | version =>
    have hc : c = '4' := by simpa [fits] using h
    exact .inr (hc ▸ rfl)
  | variant =>
    have hc : c = '8' ∨ c = '9' ∨ c = 'a' ∨ c = 'b' := by simpa [fits] using h
    rcases hc with rfl | rfl | rfl | rfl <;> exact .inr rfl

theorem isLowerHex_range (h : isLowerHex c) :
    48 ≤ c.toNat ∧ c.toNat ≤ 57 ∨ 97 ≤ c.toNat ∧ c.toNat ≤ 102 := by
  simp only [isLowerHex, Bool.or_eq_true, Bool.and_eq_true, decide_eq_true_eq] at h
  exact h

variable {s : String}

theorem uuid_plain (h : lowercaseUUIDv4RE s) (hc : c ∈ s.toList) : c = '-' ∨ isLowerHex c := by
  obtain ⟨k, hk⟩ := mem_iff_getElem?.mp hc
  obtain ⟨kind, -, hfits⟩ := (matchShape_spec h).2 k c hk
  exact UUIDChar.plain hfits

theorem trimSpace_uuid (h : lowercaseUUIDv4RE s) : trimSpace s = s := by
  have hplain : ∀ c ∈ s.toList, isSpace c = false := by
    intro c hc
    by_contra hspace
    have hrange := isSpace_range (Bool.of_not_eq_false hspace)
    rcases uuid_plain h hc with rfl | hhex
    · exact hspace rfl
    · have hhex := isLowerHex_range hhex
      omega
  have htrim : trimSpace s = String.ofList (Text.trim isSpace s.toList) := rfl
  rw [htrim, Text.trim_eq_self (fun c hc => hplain c (mem_of_head? hc))
    (fun c hc => hplain c (mem_of_getLast? hc)), String.ofList_toList]

theorem toLower_uuid (h : lowercaseUUIDv4RE s) : toLower s = s := by
  have hsame : ∀ c ∈ s.toList, c.toLower = c := by
    intro c hc
    have hupper : ¬ (65 ≤ c.toNat ∧ c.toNat ≤ 90) := by
      rcases uuid_plain h hc with rfl | hhex
      · decide
      · have hhex := isLowerHex_range hhex
        omega
    exact dif_neg fun h => hupper ⟨h.1, h.2⟩
  rw [toLower, map_congr_left hsame, map_id', String.ofList_toList]

theorem UUIDChar.hex_of_ne_dash {kind : UUIDChar} (h : kind.fits c) (hne : kind ≠ .dash) :
    Discover.isLowerHex c := by
  rcases UUIDChar.plain h with rfl | hhex
  · cases kind with
    | dash => exact absurd rfl hne
    | _ => exact absurd h (by decide)
  · exact hhex

theorem isUUIDv4_uuid (h : lowercaseUUIDv4RE s) : isUUIDv4 s := by
  obtain ⟨hlength, hchars⟩ := matchShape_spec h
  have hlength : s.toList.length = 36 := hlength
  have hat : ∀ (k : Nat) (kind : UUIDChar), uuidShape[k]? = some kind →
      ∃ c, s.toList[k]? = some c ∧ kind.fits c = true := by
    intro k kind hkind
    obtain ⟨hk, -⟩ := List.getElem?_eq_some_iff.mp hkind
    have hlt : k < s.toList.length := by
      rw [hlength]
      exact hk
    obtain ⟨kind', hkind', hfits⟩ := hchars k _ (getElem?_eq_getElem hlt)
    rw [hkind, Option.some.injEq] at hkind'
    exact ⟨_, getElem?_eq_getElem hlt, hkind' ▸ hfits⟩
  have hdash : ∀ k : Nat, uuidShape[k]? = some .dash → s.toList[k]? = some '-' := by
    intro k hk
    obtain ⟨c, hc, hfits⟩ := hat k .dash hk
    rw [hc, show c = '-' by simpa [UUIDChar.fits] using hfits]
  have hversion : s.toList[14]? = some '4' := by
    obtain ⟨c, hc, hfits⟩ := hat 14 .version rfl
    rw [hc, show c = '4' by simpa [UUIDChar.fits] using hfits]
  have hvariant : s.toList[19]? = some '8' ∨ s.toList[19]? = some '9' ∨ s.toList[19]? = some 'a' ∨
      s.toList[19]? = some 'b' := by
    obtain ⟨c, hc, hfits⟩ := hat 19 .variant rfl
    rw [hc]
    simpa [UUIDChar.fits] using hfits
  have hall : ∀ p ∈ s.toList.zipIdx, p.2 ∈ [8, 13, 18, 23] ∨ Discover.isLowerHex p.1 = true := by
    rintro ⟨c, k⟩ hp
    obtain ⟨kind, hkind, hfits⟩ := hchars k c (mem_zipIdx_iff_getElem?.mp hp)
    have hdashes : ∀ p ∈ uuidShape.zipIdx, p.1 = .dash → p.2 ∈ [8, 13, 18, 23] := by decide
    by_cases hk : kind = .dash
    · exact .inl (hdashes (kind, k) (mem_zipIdx_iff_getElem?.mpr hkind) hk)
    · exact .inr (UUIDChar.hex_of_ne_dash hfits hk)
  simp only [isUUIDv4, Bool.and_eq_true, Bool.or_eq_true, decide_eq_true_eq, hlength,
    hdash 8 rfl, hdash 13 rfl, hdash 18 rfl, hdash 23 rfl, hversion, all_eq_true, or_assoc]
  exact ⟨⟨by simp, hvariant⟩, hall⟩

end UUID

/-! ### What a merge changes -/

variable {quote} {current out raw : Json} {patch : SidecarPatchV2}

variable {i : SidecarInbound} {inbounds : List SidecarInbound} {members : List (String × Json)}

theorem decodeMember_of_stringOf {name text : String} (hnodup : (members.map Prod.fst).Nodup)
    (h : stringOf members name = some text) :
    decodeMember members name decodeString "" = .ok text := by
  unfold stringOf at h
  split at h
  · rename_i hlookup
    rw [decodeMember_of_lookup hnodup hlookup]
    exact congrArg Except.ok (Option.some.inj h)
  · rename_i s hlookup
    rw [decodeMember_of_lookup hnodup hlookup]
    exact congrArg Except.ok (Option.some.inj h)
  · cases h

/-- An inbound with an identity: its members, and how discovery reads it. -/
structure Identified (members : List (String × Json)) (uuid tag : String) : Prop where
  nodup : (members.map Prod.fst).Nodup
  uuid_eq : Json.stringOf members "line_uuid" = some uuid
  tag_eq : Json.stringOf members "tag" = some tag
  uuid_valid : lowercaseUUIDv4RE uuid = true

theorem identity_spec {uuid tag : String} (h : semanticInboundIdentity raw = .ok (uuid, tag)) :
    ∃ members, raw = .obj members ∧ Identified members uuid tag := by
  obtain ⟨members, hobject, hrest⟩ := bind_eq_ok.mp h
  obtain ⟨hraw, hnodup⟩ := object_eq_ok.mp hobject
  refine ⟨members, hraw, ?_⟩
  split at hrest
  · cases hrest
  · rename_i uuid' huuid
    obtain ⟨hvalid, hrest⟩ := refuse_bind_eq_ok.mp hrest
    split at hrest
    · cases hrest
    · rename_i tag' htag
      obtain ⟨-, hrest⟩ := refuse_bind_eq_ok.mp hrest
      rw [Except.ok.injEq, Prod.mk.injEq] at hrest
      obtain ⟨rfl, rfl⟩ := hrest
      exact ⟨hnodup, huuid, htag, by simpa using hvalid⟩

theorem mapError_eq_ok {α : Type} {x : Except String α} {f : String → String} {a : α} :
    x.mapError f = .ok a ↔ x = .ok a := by
  cases x <;> simp [Except.mapError]

variable {items : List Json}

/-- The loop matches an inbound that has the identity and the tag of the source. -/
theorem scan_spec {i : Nat} {st st' : Scan} (h : scan quote patch i st items = .ok st') :
    st'.matched = st.matched ∨
      ∃ (k : Nat) (raw : Json), items[k]? = some raw ∧ st'.matched = some (i + k) ∧
        semanticInboundIdentity raw = .ok (patch.sourceLineUUID, patch.sourceInboundTag) := by
  induction items generalizing i st with
  | nil =>
    rw [scan, Except.ok.injEq] at h
    exact .inl (h ▸ rfl)
  | cons raw items ih =>
    rw [scan] at h
    obtain ⟨⟨uuid, tag⟩, hidentity, h⟩ := bind_eq_ok.mp h
    rw [mapError_eq_ok] at hidentity
    obtain ⟨-, h⟩ := refuse_bind_eq_ok.mp h
    obtain ⟨-, h⟩ := refuse_bind_eq_ok.mp h
    have hlater : ∀ st₁ : Scan, scan quote patch (i + 1) st₁ items = .ok st' →
        st'.matched = st₁.matched ∨
          ∃ (k : Nat) (raw' : Json), (raw :: items)[k]? = some raw' ∧ st'.matched = some (i + k) ∧
            semanticInboundIdentity raw' = .ok (patch.sourceLineUUID, patch.sourceInboundTag) := by
      intro st₁ h
      rcases ih h with hsame | ⟨k, raw', hk, hmatched, hid⟩
      · exact .inl hsame
      · exact .inr ⟨k + 1, raw', hk, by rw [hmatched]; congr 1; omega, hid⟩
    split at h
    · obtain ⟨hsource, h⟩ := refuse_bind_eq_ok.mp h
      simp only [Bool.or_eq_false_iff, decide_eq_false_iff_not, not_not] at hsource
      obtain ⟨⟨rfl, rfl⟩, -⟩ := hsource
      rcases hlater _ h with hsame | hlater
      · exact .inr ⟨0, raw, rfl, hsame, hidentity⟩
      · exact .inr hlater
    · rcases hlater _ h with hsame | hlater
      · exact .inl hsame
      · exact .inr hlater

/-- The parts of a sidecar that was merged. -/
structure Merged (current out : Json) (patch : SidecarPatchV2) (top : List (String × Json))
    (items : List Json) (k : Nat) (members : List (String × Json)) : Prop where
  current_eq : current = .obj top
  nodup : (top.map Prod.fst).Nodup
  items_eq : top.lookup "inbounds" = some (.arr items)
  source : items[k]? = some (.obj members)
  identified : Identified members patch.sourceLineUUID patch.sourceInboundTag
  out_eq : out = .obj (Json.set top "inbounds"
    (.arr (items.set k (.obj (rechained members patch.desiredDownstreamLineUUID)))))

theorem top_spec {top : List (String × Json)} (h : validateSemanticSidecarTop top = .ok items) :
    top.lookup "inbounds" = some (.arr items) := by
  unfold validateSemanticSidecarTop at h
  split at h
  · split at h
    · rename_i hlookup
      rw [hlookup, Except.ok.inj h]
    · cases h
  · cases h

/-- **When a merge succeeds, and with what.** -/
theorem merge_eq_ok : mergeManagedSidecar quote current patch = .ok out ↔
    ∃ top items st k members, current.object = .ok top ∧
      validateSemanticSidecarTop top = .ok items ∧ scan quote patch 0 {} items = .ok st ∧
      st.matched = some k ∧ items[k]? = some (.obj members) ∧ (members.map Prod.fst).Nodup ∧
      currentDownstreamIdentity members = .ok patch.expectedDownstreamLineUUID ∧
      out = .obj (Json.set top "inbounds"
        (.arr (items.set k (.obj (rechained members patch.desiredDownstreamLineUUID))))) := by
  unfold mergeManagedSidecar
  constructor
  · intro h
    obtain ⟨top, hobject, hrest⟩ := bind_eq_ok.mp h
    obtain ⟨items, htop, hrest⟩ := bind_eq_ok.mp hrest
    obtain ⟨st, hscan, hrest⟩ := bind_eq_ok.mp hrest
    split at hrest
    · cases hrest
    · rename_i k raw hmatched
      obtain ⟨k', hk, hraw⟩ := Option.bind_eq_some_iff.mp hmatched
      obtain ⟨raw', hget, hpair⟩ := Option.map_eq_some_iff.mp hraw
      rw [Prod.mk.injEq] at hpair
      obtain ⟨rfl, rfl⟩ := hpair
      obtain ⟨members, hmembers, hinbound⟩ := bind_eq_ok.mp hrest
      obtain ⟨downstream, hdown, hguard⟩ := bind_eq_ok.mp hinbound
      obtain ⟨hsame, hout⟩ := refuse_bind_eq_ok.mp hguard
      obtain ⟨rfl, hnodup⟩ := object_eq_ok.mp hmembers
      have hsame : downstream = patch.expectedDownstreamLineUUID := by simpa using hsame
      exact ⟨top, items, st, k', members, mapError_eq_ok.mp hobject, mapError_eq_ok.mp htop, hscan,
        hk, hget, hnodup, hsame ▸ hdown, (Except.ok.inj hout).symm⟩
  · rintro ⟨top, items, st, k, members, hobject, htop, hscan, hk, hget, hnodup, hdown, rfl⟩
    refine bind_eq_ok.mpr ⟨top, mapError_eq_ok.mpr hobject, bind_eq_ok.mpr ⟨items,
      mapError_eq_ok.mpr htop, bind_eq_ok.mpr ⟨st, hscan, ?_⟩⟩⟩
    have hmatched : (st.matched.bind fun k => items[k]?.map fun raw => (k, raw)) =
        some (k, .obj members) := by rw [hk, Option.bind_some, hget, Option.map_some]
    rw [hmatched]
    refine bind_eq_ok.mpr ⟨members, object_eq_ok.mpr ⟨rfl, hnodup⟩,
      bind_eq_ok.mpr ⟨_, hdown, refuse_bind_eq_ok.mpr ⟨by simp, rfl⟩⟩⟩

theorem merge_spec (h : mergeManagedSidecar quote current patch = .ok out) :
    ∃ top items k members, Merged current out patch top items k members := by
  obtain ⟨top, items, st, k, members, hobject, htop, hscan, hk, hget, -, -, hout⟩ :=
    merge_eq_ok.mp h
  obtain ⟨hcurrent, hnodup⟩ := object_eq_ok.mp hobject
  rcases scan_spec hscan with hnone | ⟨j, raw, hj, hmatch, hidentity⟩
  · rw [hk] at hnone
    cases hnone
  · rw [hk, Nat.zero_add, Option.some.injEq] at hmatch
    rw [← hmatch, hget, Option.some.injEq] at hj
    obtain ⟨members', heq, hidentified⟩ := identity_spec hidentity
    rw [← hj, obj.injEq] at heq
    exact ⟨top, items, k, members, hcurrent, hnodup, top_spec htop, hget, heq ▸ hidentified, hout⟩

theorem getElem?_of_mapM {k : Nat} (h : items.mapM decodeInbound = .ok inbounds)
    (hk : items[k]? = some raw) : ∃ i, decodeInbound raw = .ok i ∧ inbounds[k]? = some i := by
  induction items generalizing inbounds k with
  | nil => cases hk
  | cons item items ih =>
    obtain ⟨i, is, hi, his, rfl⟩ := mapM_cons_eq_ok.mp h
    cases k with
    | zero =>
      rw [getElem?_cons_zero, Option.some.injEq] at hk
      exact ⟨i, hk ▸ hi, rfl⟩
    | succ k =>
      obtain ⟨j, hj, hget⟩ := ih his hk
      exact ⟨j, hj, hget⟩

theorem mapM_set (h : items.mapM decodeInbound = .ok inbounds) (hraw : decodeInbound raw = .ok i)
    (k : Nat) : (items.set k raw).mapM decodeInbound = .ok (inbounds.set k i) := by
  induction items generalizing inbounds k with
  | nil =>
    obtain rfl := Except.ok.inj h
    rfl
  | cons item items ih =>
    obtain ⟨j, js, hj, hjs, rfl⟩ := mapM_cons_eq_ok.mp h
    cases k with
    | zero =>
      rw [set_cons_zero, set_cons_zero, mapM_cons, hraw, hjs]
      rfl
    | succ k =>
      rw [set_cons_succ, set_cons_succ, mapM_cons, hj, ih hjs k]
      rfl

theorem decodeInbound_rechained (h : decodeInbound (.obj members) = .ok i)
    (desired : Option String) :
    decodeInbound (.obj (rechained members desired)) =
      .ok { i with chain := desired.map some } := by
  obtain ⟨tag, htag, hrest⟩ := bind_eq_ok.mp h
  obtain ⟨lineUUID, huuid, hrest⟩ := bind_eq_ok.mp hrest
  obtain ⟨chain, -, hrest⟩ := bind_eq_ok.mp hrest
  obtain rfl := Except.ok.inj hrest
  cases desired with
  | none =>
    have hchain : decodeMember (without members "chain") "chain" decodeChain none =
        .ok none := decodeMember_of_forall_ne fun m hm => by
      simpa using (mem_filter.mp hm).2
    simp only [rechained, decodeInbound, decodeMember_without (show "tag" ≠ "chain" by decide),
      decodeMember_without (show "line_uuid" ≠ "chain" by decide), htag, huuid, hchain]
    rfl
  | some d =>
    simp only [rechained, decodeInbound, decodeMember_set (show "tag" ≠ "chain" by decide),
      decodeMember_set (show "line_uuid" ≠ "chain" by decide), decodeMember_set_self, htag,
      huuid]
    rfl

theorem read_merged {sidecar : SingBoxSidecar} (hread : readSidecar current = .ok sidecar)
    (hmerge : mergeManagedSidecar quote current patch = .ok out) :
    lowercaseUUIDv4RE patch.sourceLineUUID ∧
      ∃ k i, sidecar.inbounds[k]? = some i ∧ i.lineUUID = patch.sourceLineUUID ∧
        readSidecar out = .ok { sidecar with
          inbounds := sidecar.inbounds.set k
            { i with chain := patch.desiredDownstreamLineUUID.map some } } := by
  obtain ⟨top, items, k, members, hm⟩ := merge_spec hmerge
  rw [hm.current_eq] at hread
  obtain ⟨schema, hschema, hrest⟩ := bind_eq_ok.mp hread
  obtain ⟨inbounds, hinbounds, hrest⟩ := bind_eq_ok.mp hrest
  obtain rfl := Except.ok.inj hrest
  rw [decodeMember_of_lookup hm.nodup hm.items_eq] at hinbounds
  obtain ⟨i, hi, hget⟩ := getElem?_of_mapM hinbounds hm.source
  refine ⟨hm.identified.uuid_valid, k, i, hget, ?_, ?_⟩
  · obtain ⟨tag, -, hrest⟩ := bind_eq_ok.mp hi
    obtain ⟨lineUUID, huuid, hrest⟩ := bind_eq_ok.mp hrest
    obtain ⟨chain, -, hrest⟩ := bind_eq_ok.mp hrest
    obtain rfl := Except.ok.inj hrest
    rw [decodeMember_of_stringOf hm.identified.nodup hm.identified.uuid_eq] at huuid
    exact (Except.ok.inj huuid).symm
  · have hset := mapM_set hinbounds (decodeInbound_rechained hi patch.desiredDownstreamLineUUID) k
    rw [hm.out_eq]
    simp only [readSidecar, decodeMember_set (show "schema" ≠ "inbounds" by decide),
      decodeMember_set_self, hschema, decodeInbounds, hset]
    rfl

/-! ### Validity after a merge -/

theorem desired_valid {p : SidecarPatchV2} (h : canonicalSemanticSidecarPatch raw = .ok p) {d : String}
    (hd : p.desiredDownstreamLineUUID = some d) : lowercaseUUIDv4RE d := by
  obtain ⟨members, -, hrest⟩ := bind_eq_ok.mp h
  split at hrest
  · cases hrest
  · obtain ⟨-, hrest⟩ := refuse_bind_eq_ok.mp hrest
    obtain ⟨p', -, hrest⟩ := bind_eq_ok.mp hrest
    obtain ⟨-, hrest⟩ := refuse_bind_eq_ok.mp hrest
    obtain ⟨hvalid, hrest⟩ := refuse_bind_eq_ok.mp hrest
    obtain ⟨-, hrest⟩ := refuse_bind_eq_ok.mp hrest
    obtain rfl := Except.ok.inj hrest
    rw [Bool.or_eq_false_iff, hd] at hvalid
    simpa using hvalid.2

theorem downstream_rechained (i : SidecarInbound) {desired : Option String}
    (hdesired : ∀ d, desired = some d → lowercaseUUIDv4RE d) :
    ({ i with chain := desired.map some } : SidecarInbound).downstream = desired := by
  cases desired with
  | none => rfl
  | some d =>
    have hd := hdesired d rfl
    show some (toLower (trimSpace d)) = some d
    rw [trimSpace_uuid hd, toLower_uuid hd]

open Discover (WellFormed) in
/-- Well-formed inbounds stay so, but for a chain of the source to itself. -/
theorem wellFormed_set {k : Nat} {desired : Option String} (h : WellFormed inbounds)
    (hk : inbounds[k]? = some i) (hdesired : ∀ d, desired = some d → lowercaseUUIDv4RE d) :
    WellFormed (inbounds.set k { i with chain := desired.map some }) ↔
      ∀ d, desired = some d → d ≠ i.uuid := by
  have hdown := downstream_rechained i hdesired
  obtain ⟨hlt, -⟩ := List.getElem?_eq_some_iff.mp hk
  constructor
  · intro hset d hd
    have hsound := hset.sound _ (mem_set hlt { i with chain := desired.map some })
    exact (hsound.downstream d (hdown.trans hd)).2
  · intro hne
    have hold := h.sound i (mem_of_getElem? hk)
    refine ⟨fun j hj => ?_, ?_, ?_⟩
    · rcases mem_or_eq_of_mem_set hj with hj | rfl
      · exact h.sound j hj
      · refine ⟨hold.name, hold.uuid, fun d hd => ?_⟩
        rw [hdown] at hd
        exact ⟨isUUIDv4_uuid (hdesired d hd), hne d hd⟩
    · have hnames := h.names
      rwa [← map_set_eq (f := SidecarInbound.name) hk
        (show _ = SidecarInbound.name { i with chain := desired.map some } from rfl)] at hnames
    · have huuids := h.uuids
      rwa [← map_set_eq (f := SidecarInbound.uuid) hk
        (show _ = SidecarInbound.uuid { i with chain := desired.map some } from rfl)] at huuids

/-- **What is published is accepted** exactly if the chains of the sidecar before do not lead from
the desired downstream line back to the source. -/
theorem published_accepts_iff {sidecar : SingBoxSidecar}
    (hread : readSidecar current = .ok sidecar)
    (hvalid : validateSingBoxSidecar quote sidecar = .ok ())
    (hpatch : canonicalSemanticSidecarPatch raw = .ok patch)
    (hmerge : mergeManagedSidecar quote current patch = .ok out) :
    Discover.Accepts quote out ↔
      ∀ d, patch.desiredDownstreamLineUUID = some d →
        ¬ Pointers.Reaches (nextOf sidecar.inbounds) d patch.sourceLineUUID := by
  obtain ⟨hsource, k, i, hk, huuid, hout⟩ := read_merged hread hmerge
  obtain ⟨hschema, hwell, hacyclic⟩ := validate_iff.mp hvalid
  have hi : i.uuid = patch.sourceLineUUID := by
    rw [SidecarInbound.uuid, huuid, trimSpace_uuid hsource, toLower_uuid hsource]
  have hdesired : ∀ d, patch.desiredDownstreamLineUUID = some d → lowercaseUUIDv4RE d = true :=
    fun d hd => desired_valid hpatch hd
  have hnext : nextOf (sidecar.inbounds.set k
      { i with chain := patch.desiredDownstreamLineUUID.map some }) = _ :=
    nextOf_set hwell.uuids hk rfl
  have haccepts : Discover.Accepts quote out ↔
      (∀ d, patch.desiredDownstreamLineUUID = some d → d ≠ patch.sourceLineUUID) ∧
        Pointers.Acyclic (Function.update (nextOf sidecar.inbounds) patch.sourceLineUUID
          patch.desiredDownstreamLineUUID) := by
    unfold Discover.Accepts
    rw [hout]
    simp only [Except.ok.injEq, exists_eq_left', validate_iff, hschema, true_and,
      wellFormed_set hwell hk hdesired, hnext, downstream_rechained i hdesired, hi]
  rw [haccepts]
  cases hd : patch.desiredDownstreamLineUUID with
  | none =>
    refine iff_of_true ⟨?_, Pointers.acyclic_update_none hacyclic _⟩ ?_
    · exact fun d h => by cases h
    · exact fun d h => by cases h
  | some d =>
    rw [Pointers.acyclic_update_some hacyclic]
    constructor
    · rintro ⟨-, hnot⟩ d' h
      rw [Option.some.injEq] at h
      exact h ▸ hnot
    · intro hnot
      refine ⟨fun d' h heq => ?_, hnot d rfl⟩
      rw [Option.some.injEq] at h
      have hself : d = patch.sourceLineUUID := h.trans heq
      exact hnot d rfl (hself ▸ .refl)

def uuidA : String := "00000000-0000-4000-8000-00000000000a"
def uuidB : String := "00000000-0000-4000-8000-00000000000b"

/-- Two inbounds of one node, `a` with a chain to `b`. -/
def sampleSidecar : Json :=
  .obj [("schema", .str "lattice.singbox-metadata.v2"),
    ("inbounds", .arr [
      .obj [("tag", .str "a"), ("line_uuid", .str uuidA),
        ("chain", .obj [("downstream_line_uuid", .str uuidB)])],
      .obj [("tag", .str "b"), ("line_uuid", .str uuidB)]])]

/-- A chain from `b`. -/
def samplePatch (desired : Json) : Json :=
  .obj [("schema", .str "lattice.singbox-linechain-sidecar-patch.v1"),
    ("source_line_uuid", .str uuidB), ("source_inbound_tag", .str "b"),
    ("expected_downstream_line_uuid", .null), ("desired_downstream_line_uuid", desired)]

/-- The nodes that discovery found. -/
def sampleNodes : List Discover.SingBoxNode := [{ name := "a" }, { name := "b" }]

/-- A chain from `b` to a line of another node is published and accepted. -/
theorem published_accepts_iff_remote :
    ∃ sidecar patch out, readSidecar sampleSidecar = .ok sidecar ∧
      validateSingBoxSidecar id sidecar = .ok () ∧
      canonicalSemanticSidecarPatch (samplePatch (.str "00000000-0000-4000-8000-00000000000c")) =
        .ok patch ∧
      mergeManagedSidecar id sampleSidecar patch = .ok out ∧ Discover.Accepts id out := by
  refine ⟨_, _, _, rfl, rfl, rfl, rfl, ?_⟩
  refine (published_accepts_iff (show readSidecar sampleSidecar = _ from rfl) rfl
    (show canonicalSemanticSidecarPatch
      (samplePatch (.str "00000000-0000-4000-8000-00000000000c")) = _ from rfl)
    (show mergeManagedSidecar id sampleSidecar _ = _ from rfl)).mpr fun d hd hreaches => ?_
  obtain rfl := Option.some.inj hd
  -- no chain leads on from there
  obtain ⟨b, hb, -⟩ := Pointers.Reaches.of_ne hreaches (by decide)
  cases hb

/-- A chain from `b` back to `a` is published, and discovery then drops every line identity of the
node. -/
theorem published_cycle :
    ∃ sidecar patch out, readSidecar sampleSidecar = .ok sidecar ∧
      validateSingBoxSidecar id sidecar = .ok () ∧
      canonicalSemanticSidecarPatch (samplePatch (.str uuidA)) = .ok patch ∧
      mergeManagedSidecar id sampleSidecar patch = .ok out ∧ ¬ Discover.Accepts id out ∧
      applySingBoxSidecar id (some sampleSidecar) sampleNodes ≠ sampleNodes ∧
      applySingBoxSidecar id (some out) sampleNodes = sampleNodes := by
  refine ⟨_, _, _, rfl, rfl, rfl, rfl, ?_, by decide, rfl⟩
  rintro ⟨sidecar, hread, hvalid⟩
  obtain rfl := Except.ok.inj hread
  cases hvalid

end LatticeAgent.Linechain
