import LatticeAgent.Linechain.Sidecar

/-! # A merge changes one edge

The sidecar before and after `mergeManagedSidecar`, compared as JSON values: `OneEdge` says that two
sidecars differ in the chain of one inbound and nowhere else. A merge gives such a pair, and the
patch with its two downstream lines swapped takes the sidecar back, up to what else the old chain
object held (`merge_one_edge`). -/

namespace LatticeAgent.Linechain

open Json

/-- The patch that goes the other way. -/
def SidecarPatchV2.swapped (p : SidecarPatchV2) : SidecarPatchV2 :=
  { p with
    expectedDownstreamLineUUID := p.desiredDownstreamLineUUID
    desiredDownstreamLineUUID := p.expectedDownstreamLineUUID }

/-- Two sidecars that differ in the inbound of one index, and there in its chain: `before` and
`after` are the members of that inbound. -/
structure OneEdge (current out : Json) (k : Nat) (before after : List (String × Json)) : Prop where
  same : ∃ top top' items, current = .obj top ∧ out = .obj top' ∧
    Json.SameBut "inbounds" top top' ∧ top.lookup "inbounds" = some (.arr items) ∧
    top'.lookup "inbounds" = some (.arr (items.set k (.obj after))) ∧
    items[k]? = some (.obj before)
  inbound : Json.SameBut "chain" before after

/-- The chain that a patch asks for. -/
def chainOf (desired : Option String) : Option Json :=
  desired.map fun uuid => .obj [("downstream_line_uuid", .str uuid)]

variable {quote : String → String} {current out raw : Json} {patch : SidecarPatchV2}
  {members after : List (String × Json)}

/-! ### The inbound -/

theorem sameBut_rechained (h : (members.map Prod.fst).Nodup) (desired : Option String) :
    Json.SameBut "chain" members (rechained members desired) := by
  cases desired with
  | none => exact sameBut_without h
  | some uuid => exact sameBut_set h

theorem lookup_rechained (members : List (String × Json)) (desired : Option String) :
    (rechained members desired).lookup "chain" = chainOf desired := by
  cases desired with
  | none => exact lookup_without_self
  | some uuid => exact lookup_set_self

theorem downstream_of_chain {desired : Option String} (h : members.lookup "chain" = chainOf desired)
    (hdesired : ∀ d, desired = some d → lowercaseUUIDv4RE d) :
    currentDownstreamIdentity members = .ok desired := by
  unfold currentDownstreamIdentity
  rw [h]
  cases desired with
  | none => rfl
  | some uuid =>
    have huuid := hdesired uuid rfl
    show (refuse (!lowercaseUUIDv4RE uuid) _ >>= fun _ => Except.ok (some uuid)) = _
    rw [huuid]
    rfl

theorem downstream_valid {d : String}
    (h : currentDownstreamIdentity members = .ok (some d)) : lowercaseUUIDv4RE d := by
  unfold currentDownstreamIdentity at h
  split at h
  · cases h
  · obtain ⟨chain, -, h⟩ := bind_eq_ok.mp h
    split at h
    · cases h
    · cases h
    · obtain ⟨hvalid, h⟩ := refuse_bind_eq_ok.mp h
      obtain rfl := Option.some.inj (Except.ok.inj h)
      simpa using hvalid
    · cases h

theorem identity_sameBut (h : Json.SameBut "chain" members after) :
    semanticInboundIdentity (.obj after) = semanticInboundIdentity (.obj members) := by
  have hafter : object (.obj after) = .ok after := object_eq_ok.mpr ⟨rfl, h.nodup'⟩
  have hbefore : object (.obj members) = .ok members := object_eq_ok.mpr ⟨rfl, h.nodup⟩
  unfold semanticInboundIdentity
  rw [hafter, hbefore]
  simp only [bind, Except.bind, h.stringOf_eq (show "line_uuid" ≠ "chain" by decide),
    h.stringOf_eq (show "tag" ≠ "chain" by decide)]

/-- The loop looks at the identities only, and at the source that a patch names. -/
theorem scan_congr (p patch : SidecarPatchV2) (huuid : p.sourceLineUUID = patch.sourceLineUUID)
    (htag : p.sourceInboundTag = patch.sourceInboundTag) {items items' : List Json}
    (hitems : items'.map semanticInboundIdentity = items.map semanticInboundIdentity) (i : Nat)
    (st : Scan) : scan quote p i st items' = scan quote patch i st items := by
  induction items generalizing items' i st with
  | nil =>
    obtain rfl := List.map_eq_nil_iff.mp hitems
    rfl
  | cons raw items ih =>
    obtain ⟨raw', rest, rfl, hraw, hrest⟩ := List.map_eq_cons_iff.mp hitems
    simp only [scan, hraw, huuid, htag, ih hrest]

/-! ### The merge and the way back -/

theorem top_set {top : List (String × Json)} {items items' : List Json}
    (h : validateSemanticSidecarTop top = .ok items) :
    validateSemanticSidecarTop (set top "inbounds" (.arr items')) = .ok items' := by
  unfold validateSemanticSidecarTop at h ⊢
  split at h
  · rename_i hschema
    have hlookup : (set top "inbounds" (.arr items')).lookup "schema" = top.lookup "schema" :=
      lookup_set (by decide)
    have hschema' : stringOf (set top "inbounds" (.arr items')) "schema" =
        some semanticSidecarMetadataSchema := by
      rw [← hschema]
      unfold stringOf
      rw [hlookup]
    rw [if_pos hschema', lookup_set_self]
  · cases h

theorem oneEdge_set {top : List (String × Json)} {items : List Json} {k : Nat}
    (htop : (top.map Prod.fst).Nodup) (hitems : top.lookup "inbounds" = some (.arr items))
    (hk : items[k]? = some (.obj members)) (h : Json.SameBut "chain" members after) :
    OneEdge (.obj top) (.obj (set top "inbounds" (.arr (items.set k (.obj after))))) k members
      after :=
  ⟨⟨top, _, items, rfl, rfl, sameBut_set htop, hitems, lookup_set_self, hk⟩, h⟩

theorem OneEdge.trans {returned : Json} {k : Nat} {last : List (String × Json)}
    (h : OneEdge current out k members after) (h' : OneEdge out returned k after last) :
    OneEdge current returned k members last := by
  obtain ⟨top, top', items, rfl, rfl, htop, hitems, hitems', hk⟩ := h.same
  obtain ⟨_, top'', items', heq, rfl, htop', hmiddle, hlast, -⟩ := h'.same
  obtain rfl := obj.inj heq
  rw [hitems', Option.some.injEq, arr.injEq] at hmiddle
  rw [← hmiddle, List.set_set] at hlast
  exact ⟨⟨top, top'', items, rfl, rfl, htop.trans htop', hitems, hlast, hk⟩, h.inbound.trans h'.inbound⟩

/-- **A merge changes one edge and nothing else.**  Two sidecars, before and after, differ in the
chain of the inbound that the patch names, which then is the desired one. A patch that was
accepted goes back: swapped, it applies, and leaves the downstream line that was there, with no
other difference to the sidecar before than the rest of that chain. -/
theorem merge_one_edge (h : mergeManagedSidecar quote current patch = .ok out) :
    ∃ k before after, OneEdge current out k before after ∧
      semanticInboundIdentity (.obj before) = .ok (patch.sourceLineUUID, patch.sourceInboundTag) ∧
      after.lookup "chain" = chainOf patch.desiredDownstreamLineUUID ∧
      ∀ raw, canonicalSemanticSidecarPatch raw = .ok patch →
        ∃ returned last, mergeManagedSidecar quote out patch.swapped = .ok returned ∧
          OneEdge current returned k before last ∧
          currentDownstreamIdentity last = currentDownstreamIdentity before := by
  obtain ⟨top, items, st, k, before, hobject, htop, hscan, hk, hget, hnodup, hdown, rfl⟩ :=
    merge_eq_ok.mp h
  obtain ⟨rfl, htopNodup⟩ := object_eq_ok.mp hobject
  obtain ⟨hlt, -⟩ := List.getElem?_eq_some_iff.mp hget
  have hsame := sameBut_rechained hnodup patch.desiredDownstreamLineUUID
  have hchain := lookup_rechained before patch.desiredDownstreamLineUUID
  generalize hafter : rechained before patch.desiredDownstreamLineUUID = after at hsame hchain ⊢
  have hedge := oneEdge_set htopNodup (top_spec htop) hget hsame
  have hidentity : semanticInboundIdentity (.obj before) =
      .ok (patch.sourceLineUUID, patch.sourceInboundTag) := by
    rcases scan_spec hscan with hnone | ⟨j, raw, hj, hmatch, hidentity⟩
    · rw [hk] at hnone
      cases hnone
    · rw [hk, Nat.zero_add, Option.some.injEq] at hmatch
      rw [← hmatch, hget, Option.some.injEq] at hj
      exact hj ▸ hidentity
  refine ⟨k, before, after, hedge, hidentity, hchain, fun raw hraw => ?_⟩
  -- The way back finds the same inbound, with the chain that was asked for.
  have hscan' : scan quote patch.swapped 0 {} (items.set k (.obj after)) = .ok st :=
    (scan_congr patch.swapped patch rfl rfl (Discover.map_set_eq hget (identity_sameBut hsame)) 0
      {}).trans hscan
  have hget' : (items.set k (.obj after))[k]? = some (.obj after) := by
    rw [List.getElem?_set_self hlt]
  have hdown' : currentDownstreamIdentity after = .ok patch.desiredDownstreamLineUUID :=
    downstream_of_chain hchain fun d hd => desired_valid hraw hd
  have htopNodup' : ((set top "inbounds" (.arr (items.set k (.obj after)))).map
      Prod.fst).Nodup := (sameBut_set htopNodup).nodup'
  have hmerge := merge_eq_ok.mpr ⟨_, _, st, k, after, object_eq_ok.mpr ⟨rfl, htopNodup'⟩,
    top_set htop, hscan', hk, hget', hsame.nodup', hdown', rfl⟩
  have hlast := sameBut_rechained hsame.nodup' patch.expectedDownstreamLineUUID
  refine ⟨_, _, hmerge, hedge.trans (oneEdge_set htopNodup' lookup_set_self hget' hlast), ?_⟩
  rw [hdown]
  exact downstream_of_chain (lookup_rechained after _) fun d hd => downstream_valid (hd ▸ hdown)

/-- The chain from `a` is taken away. -/
def removal : SidecarPatchV2 := ⟨semanticSidecarPatchSchema, uuidA, "a", some uuidB, none⟩

/-- The patch as it comes. -/
def rawRemoval : Json :=
  .obj [("schema", .str "lattice.singbox-linechain-sidecar-patch.v1"),
    ("source_line_uuid", .str uuidA), ("source_inbound_tag", .str "a"),
    ("expected_downstream_line_uuid", .str uuidB), ("desired_downstream_line_uuid", .null)]

theorem merge_one_edge_removed :
    canonicalSemanticSidecarPatch rawRemoval = .ok removal ∧
      ∃ out, mergeManagedSidecar id sampleSidecar removal = .ok out ∧
        ∃ k before after, OneEdge sampleSidecar out k before after ∧
          semanticInboundIdentity (.obj before) = .ok (uuidA, "a") ∧
          after.lookup "chain" = none ∧
          ∃ returned last, mergeManagedSidecar id out removal.swapped = .ok returned ∧
            OneEdge sampleSidecar returned k before last ∧
            currentDownstreamIdentity last = currentDownstreamIdentity before := by
  have hraw : canonicalSemanticSidecarPatch rawRemoval = .ok removal := rfl
  obtain ⟨out, hout⟩ : ∃ out, mergeManagedSidecar id sampleSidecar removal = .ok out := ⟨_, rfl⟩
  obtain ⟨k, before, after, hedge, hidentity, hchain, hback⟩ := merge_one_edge hout
  exact ⟨hraw, out, hout, k, before, after, hedge, hidentity, hchain, hback rawRemoval hraw⟩

/-- A chain from `b` to what is not a UUID. -/
def misnamed : SidecarPatchV2 := ⟨semanticSidecarPatchSchema, uuidB, "b", none, some "x"⟩

/-- The merge itself takes a desired line of any shape, and cannot read it on the way back. -/
theorem merge_no_way_back :
    ∃ out, mergeManagedSidecar id sampleSidecar misnamed = .ok out ∧
      ∀ returned, mergeManagedSidecar id out misnamed.swapped ≠ .ok returned :=
  ⟨_, rfl, nofun⟩

end LatticeAgent.Linechain
