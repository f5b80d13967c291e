import LatticeAgent.Discover.Sidecar

/-! # Cycles among the lines of a sidecar

The loop along the chains has no bound of its own; it ends because a line that it meets again ends
it (`walk_ends`), whatever the maps hold. -/

namespace LatticeAgent.Discover

open List Relation SidecarInbound

/-- The loop along the chains, from the lines seen and the current one, and how it ends. -/
inductive Walks (st : Seen) : List String → String → Bool → Prop
  | ends {seen : List String} {current : String} (h : current = "" ∨ current ∉ st.byUUID) :
    Walks st seen current false
  | repeated {seen : List String} {current : String} (hne : current ≠ "")
    (h : current ∈ st.byUUID) (hseen : current ∈ seen) : Walks st seen current true
  | next {seen : List String} {current : String} {cycle : Bool} (hne : current ≠ "")
    (h : current ∈ st.byUUID) (hseen : current ∉ seen)
    (hnext : Walks st (current :: seen) ((st.next.lookup current).getD "") cycle) :
    Walks st seen current cycle

theorem walk_ends {st : Seen} (fuel : Nat) {seen : List String} (hnodup : seen.Nodup)
    (hsub : seen ⊆ st.byUUID) (hfuel : st.byUUID.length < fuel + seen.length) (current : String) :
    Walks st seen current (walk st fuel seen current) := by
  induction fuel generalizing seen current with
  | zero =>
    have hle := (subperm_of_subset hnodup hsub).length_le
    omega
  | succ fuel ih =>
    unfold walk
    split
    · exact .ends (.inl ‹_›)
    · split
      · exact .ends (.inr ‹_›)
      · rename_i hne hlocal
        have hlocal := not_not.mp hlocal
        split
        · exact .repeated hne hlocal ‹_›
        · rename_i hnew
          refine .next hne hlocal hnew (ih (nodup_cons.mpr ⟨hnew, hnodup⟩)
            (cons_subset.mpr ⟨hlocal, hsub⟩) ?_ _)
          rw [length_cons]
          omega

/-- A chain from one line of the sidecar to another. -/
def LocalEdge (inbounds : List SidecarInbound) (a b : String) : Prop :=
  ∃ i ∈ inbounds, i.uuid = a ∧ i.downstream = some b ∧ b ∈ inbounds.map SidecarInbound.uuid

variable {inbounds : List SidecarInbound} {a b : String} (huuids : (inbounds.map uuid).Nodup)

include huuids in
theorem nextOf_eq_some_iff :
    nextOf inbounds a = some b ↔ ∃ i ∈ inbounds, i.uuid = a ∧ i.downstream = some b := by
  constructor
  · intro h
    have hmem : a ∈ inbounds.map uuid := by
      by_contra hno
      rw [nextOf_of_forall_ne hno] at h
      cases h
    obtain ⟨i, hi, rfl⟩ := mem_map.mp hmem
    exact ⟨i, hi, rfl, nextOf_of_mem huuids hi ▸ h⟩
  · rintro ⟨i, hi, rfl, hd⟩
    rw [nextOf_of_mem huuids hi, hd]

include huuids in
/-- What leads back to a line of the sidecar does not leave it. -/
theorem localEdges_of_reaches (ha : a ∈ inbounds.map uuid)
    (h : Pointers.Reaches (nextOf inbounds) b a) :
    ReflTransGen (LocalEdge inbounds) b a ∧ b ∈ inbounds.map uuid := by
  induction h using ReflTransGen.head_induction_on with
  | refl => exact ⟨.refl, ha⟩
  | head hnext _ ih =>
    obtain ⟨i, hi, rfl, hd⟩ := (nextOf_eq_some_iff huuids).mp hnext
    exact ⟨ih.1.head ⟨i, hi, rfl, hd, ih.2⟩, mem_map_of_mem hi⟩

include huuids in
theorem acyclic_iff :
    Pointers.Acyclic (nextOf inbounds) ↔ ∀ u, ¬ TransGen (LocalEdge inbounds) u u := by
  constructor
  · intro h u hcycle
    obtain ⟨v, ⟨i, hi, hu, hd, -⟩, hback⟩ := TransGen.head'_iff.mp hcycle
    refine h u v ((nextOf_eq_some_iff huuids).mpr ⟨i, hi, hu, hd⟩) (ReflTransGen.mono ?_ _ _ hback)
    rintro x y ⟨i, hi, hx, hd, -⟩
    exact (nextOf_eq_some_iff huuids).mpr ⟨i, hi, hx, hd⟩
  · intro h u v hnext hback
    obtain ⟨i, hi, rfl, hd⟩ := (nextOf_eq_some_iff huuids).mp hnext
    obtain ⟨hpath, hlocal⟩ := localEdges_of_reaches huuids (mem_map_of_mem hi) hback
    exact h _ (TransGen.head' ⟨i, hi, rfl, hd, hlocal⟩ hpath)

/-- **Validation decides acyclicity exactly.** It accepts a sidecar of the schema whose tags and
identities are well formed and distinct and whose lines are on no cycle; every walk ends, and the
order in which the chains are visited does not matter. -/
theorem validate_decides_acyclicity (quote : String → String) (sidecar : SingBoxSidecar) :
    (validateSingBoxSidecar quote sidecar = .ok () ↔
      sidecar.schema = "lattice.singbox-metadata.v2" ∧
      (∀ i ∈ sidecar.inbounds, i.name ≠ "" ∧ isUUIDv4 i.uuid = true ∧
        ∀ d, i.downstream = some d → isUUIDv4 d = true) ∧
      (sidecar.inbounds.map name).Nodup ∧
      (sidecar.inbounds.map uuid).Nodup ∧
      ∀ u, ¬ TransGen (LocalEdge sidecar.inbounds) u u) ∧
    (∀ st start, Walks st [] start (walk st (st.byUUID.length + 1) [] start)) ∧
    ∀ (st : Seen) (visited : List (String × String)), visited.Perm st.next →
      (visited.any fun edge => walk st (st.byUUID.length + 1) [] edge.1) =
        st.next.any fun edge => walk st (st.byUUID.length + 1) [] edge.1 := by
  refine ⟨?_, fun st start => walk_ends _ nodup_nil (nil_subset _) (by simp) start,
    fun st visited hperm => hperm.any_eq⟩
  rw [validate_iff]
  refine and_congr_right fun _ => ⟨?_, ?_⟩
  · rintro ⟨hwell, hacyclic⟩
    refine ⟨fun i hi => ?_, hwell.names, hwell.uuids, (acyclic_iff hwell.uuids).mp hacyclic⟩
    have hi := hwell.sound i hi
    exact ⟨hi.name, hi.uuid, fun d hd => (hi.downstream d hd).1⟩
  · rintro ⟨hsound, hnames, huuids, hcycles⟩
    refine ⟨⟨fun i hi => ?_, hnames, huuids⟩, (acyclic_iff huuids).mpr hcycles⟩
    obtain ⟨hname, huuid, hdown⟩ := hsound i hi
    -- a chain of a line to itself is a cycle
    refine ⟨hname, huuid, fun d hd => ⟨hdown d hd, ?_⟩⟩
    rintro rfl
    exact hcycles _ (.single ⟨i, hi, rfl, hd, mem_map_of_mem hi⟩)

end LatticeAgent.Discover
