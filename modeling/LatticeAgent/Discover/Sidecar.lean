import LatticeAgent.Go
import LatticeAgent.Lib.Json
import LatticeAgent.Lib.Pointers

/-! # The metadata sidecar as discovery reads it

Discovery annotates the nodes it finds with the line identities of the sidecar
(`applySingBoxSidecar`), and only if the whole of it is valid (`validateSingBoxSidecar`). Validity
is well-formed inbounds and no cycle among the chains between them (`validate_iff`). -/

namespace LatticeAgent.Discover

open List

/-- An inbound of the sidecar: a chain may be missing, and in it the downstream identity. -/
structure SidecarInbound where
  tag : String := ""
  lineUUID : String := ""
  chain : Option (Option String) := none
deriving DecidableEq, Repr

structure SingBoxSidecar where
  schema : String := ""
  inbounds : List SidecarInbound := []
deriving DecidableEq, Repr

def decodeChain (acc : Option (Option String)) : Json → Except String (Option (Option String))
  | .null => .ok none
  | .obj members => do
    let downstream ← Json.decodeMember members "downstream_line_uuid" Json.decodeStringPtr
      (acc.getD none)
    .ok (some downstream)
  | _ => .error "cannot unmarshal into chain"

def decodeInbound : Json → Except String SidecarInbound
  | .null => .ok {}
  | .obj members => do
    let tag ← Json.decodeMember members "tag" Json.decodeString ""
    let lineUUID ← Json.decodeMember members "line_uuid" Json.decodeString ""
    let chain ← Json.decodeMember members "chain" decodeChain none
    .ok ⟨tag, lineUUID, chain⟩
  | _ => .error "cannot unmarshal into inbound"

def decodeInbounds (_ : List SidecarInbound) : Json → Except String (List SidecarInbound)
  | .null => .ok []
  | .arr items => items.mapM decodeInbound
  | _ => .error "cannot unmarshal into inbounds"

/-- `json.Unmarshal` into the sidecar record, by the exact field names. -/
def readSidecar : Json → Except String SingBoxSidecar
  | .null => .ok {}
  | .obj members => do
    let schema ← Json.decodeMember members "schema" Json.decodeString ""
    let inbounds ← Json.decodeMember members "inbounds" decodeInbounds []
    .ok ⟨schema, inbounds⟩
  | _ => .error "cannot unmarshal into sidecar"

/-! ### Validity -/

def isLowerHex (c : Char) : Bool := ('0' ≤ c && c ≤ '9') || ('a' ≤ c && c ≤ 'f')

/-- Positions are characters here and bytes in the source, which is the same for what is
accepted. -/
def isUUIDv4 (value : String) : Bool :=
  let cs := value.toList
  cs.length = 36 && cs[8]? = some '-' && cs[13]? = some '-' && cs[18]? = some '-' &&
    cs[23]? = some '-' && cs[14]? = some '4' &&
    (cs[19]? = some '8' || cs[19]? = some '9' || cs[19]? = some 'a' || cs[19]? = some 'b') &&
    cs.zipIdx.all fun p => p.2 ∈ [8, 13, 18, 23] || isLowerHex p.1

/-- `strings.ToLower`, of which only the ASCII letters matter in a UUID. -/
def toLower (s : String) : String := String.ofList (s.toList.map Char.toLower)

namespace SidecarInbound

/-- The tag, the identity and the downstream identity that are compared. -/
def name (i : SidecarInbound) : String := trimSpace i.tag

def uuid (i : SidecarInbound) : String := toLower (trimSpace i.lineUUID)

def downstream (i : SidecarInbound) : Option String :=
  (i.chain.getD none).map fun d => toLower (trimSpace d)

end SidecarInbound

/-- The maps that validation fills. -/
structure Seen where
  byTag : List String := []
  byUUID : List String := []
  next : List (String × String) := []
deriving DecidableEq, Repr

-- `strconv.Quote`
variable (quote : String → String)

def checkInbound (st : Seen) (i : SidecarInbound) : Except String Seen := do
  refuse (i.name = "" || !isUUIDv4 i.uuid) "inbound has invalid tag or line_uuid"
  refuse (i.name ∈ st.byTag) ("duplicate inbound tag " ++ quote i.name)
  refuse (i.uuid ∈ st.byUUID) ("duplicate line_uuid " ++ quote i.uuid)
  match i.downstream with
  | none => .ok { st with byTag := st.byTag ++ [i.name], byUUID := st.byUUID ++ [i.uuid] }
  | some downstream => do
    refuse (!isUUIDv4 downstream) ("inbound " ++ quote i.name ++ " has invalid downstream_line_uuid")
    refuse (downstream = i.uuid) ("inbound " ++ quote i.name ++ " has a self-referential chain")
    .ok
      { byTag := st.byTag ++ [i.name]
        byUUID := st.byUUID ++ [i.uuid]
        next := st.next ++ [(i.uuid, downstream)] }

/-- The walk from one inbound along the chains; it ends at an edge to another node. -/
def walk (st : Seen) : Nat → List String → String → Bool
  | 0, _, _ => false
  | fuel + 1, seen, current =>
    if current = "" then false
    else if current ∉ st.byUUID then false
    else if current ∈ seen then true
    else walk st fuel (current :: seen) ((st.next.lookup current).getD "")

/-- The walks take at most a step for each inbound, and one more. -/
def validateSingBoxSidecar (sidecar : SingBoxSidecar) : Except String Unit := do
  refuse (sidecar.schema ≠ "lattice.singbox-metadata.v2")
    ("unsupported schema " ++ quote sidecar.schema)
  let st ← sidecar.inbounds.foldlM (checkInbound quote) {}
  refuse (st.next.any fun edge => walk st (st.byUUID.length + 1) [] edge.1)
    "sidecar contains a local chain cycle"

/-- The sidecar is one that discovery uses. -/
def Accepts (doc : Json) : Prop :=
  ∃ sidecar, readSidecar doc = .ok sidecar ∧ validateSingBoxSidecar quote sidecar = .ok ()

structure SingBoxNode where
  name : String
  lineUUID : String := ""
  downstreamLineUUID : String := ""
deriving DecidableEq, Repr

def annotate (inbounds : List SidecarInbound) (node : SingBoxNode) : SingBoxNode :=
  -- a later inbound of one tag takes the place of an earlier one
  match inbounds.reverse.find? fun i => trimSpace i.tag ≠ "" ∧ trimSpace i.tag = trimSpace node.name with
  | none => node
  | some i =>
    { node with
      lineUUID := if node.lineUUID = "" then trimSpace i.lineUUID else node.lineUUID
      downstreamLineUUID :=
        if node.downstreamLineUUID = "" then ((i.chain.getD none).map trimSpace).getD ""
        else node.downstreamLineUUID }

/-- The nodes with what a sidecar says about them; one that is missing, unreadable, of the flat
format or not valid says nothing. -/
def applySingBoxSidecar (doc : Option Json) (nodes : List SingBoxNode) : List SingBoxNode :=
  match doc with
  | none => nodes
  | some doc =>
    match readSidecar doc with
    | .error _ => nodes
    | .ok sidecar =>
      if sidecar.schema = "" then nodes
      else
        match validateSingBoxSidecar quote sidecar with
        | .error _ => nodes
        | .ok () => nodes.map (annotate sidecar.inbounds)

/-! ### What validity is -/

variable {quote} {st st' : Seen} {i : SidecarInbound} {inbounds : List SidecarInbound}

/-- An inbound that passes on its own. -/
structure SidecarInbound.Sound (i : SidecarInbound) : Prop where
  name : i.name ≠ ""
  uuid : isUUIDv4 i.uuid = true
  downstream : ∀ d, i.downstream = some d → isUUIDv4 d = true ∧ d ≠ i.uuid

/-- The maps with an inbound more. -/
def Seen.add (st : Seen) (i : SidecarInbound) : Seen where
  byTag := st.byTag ++ [i.name]
  byUUID := st.byUUID ++ [i.uuid]
  next := st.next ++ (i.downstream.map fun d => (i.uuid, d)).toList

theorem checkInbound_eq_ok :
    checkInbound quote st i = .ok st' ↔
      i.Sound ∧ i.name ∉ st.byTag ∧ i.uuid ∉ st.byUUID ∧ st' = st.add i := by
  unfold checkInbound Seen.add
  simp only [refuse_bind_eq_ok, Bool.or_eq_false_iff, decide_eq_false_iff_not, Bool.not_eq_eq_eq_not,
    Bool.not_false]
  cases hd : i.downstream with
  | none =>
    simp only [Except.ok.injEq, Option.map_none, Option.toList_none, append_nil]
    constructor
    · rintro ⟨⟨hname, huuid⟩, htag, hseen, rfl⟩
      exact ⟨⟨hname, huuid, fun d h => by rw [hd] at h; cases h⟩, htag, hseen, rfl⟩
    · rintro ⟨⟨hname, huuid, -⟩, htag, hseen, rfl⟩
      exact ⟨⟨hname, huuid⟩, htag, hseen, rfl⟩
  | some d =>
    simp only [refuse_bind_eq_ok, Except.ok.injEq, Option.map_some, Option.toList_some,
      Bool.not_eq_eq_eq_not, Bool.not_false, decide_eq_false_iff_not]
    constructor
    · rintro ⟨⟨hname, huuid⟩, htag, hseen, hvalid, hself, rfl⟩
      refine ⟨⟨hname, huuid, fun d' h => ?_⟩, htag, hseen, rfl⟩
      rw [hd, Option.some.injEq] at h
      exact h ▸ ⟨hvalid, hself⟩
    · rintro ⟨⟨hname, huuid, hdown⟩, htag, hseen, rfl⟩
      exact ⟨⟨hname, huuid⟩, htag, hseen, (hdown d hd).1, (hdown d hd).2, rfl⟩

/-- Well-formed inbounds, whatever their chains lead to. -/
structure WellFormed (inbounds : List SidecarInbound) : Prop where
  sound : ∀ i ∈ inbounds, i.Sound
  names : (inbounds.map SidecarInbound.name).Nodup
  uuids : (inbounds.map SidecarInbound.uuid).Nodup

theorem nodup_concat {l : List String} {x : String} (hl : l.Nodup) (hx : x ∉ l) : (l ++ [x]).Nodup :=
  perm_middle.nodup_iff.mpr (nodup_cons.mpr ⟨by simpa using hx, by simpa using hl⟩)

theorem foldlM_checkInbound (htag : st.byTag.Nodup) (huuid : st.byUUID.Nodup) :
    inbounds.foldlM (checkInbound quote) st = .ok st' ↔
      (∀ i ∈ inbounds, i.Sound) ∧ (st.byTag ++ inbounds.map SidecarInbound.name).Nodup ∧
        (st.byUUID ++ inbounds.map SidecarInbound.uuid).Nodup ∧ st' = inbounds.foldl Seen.add st := by
  induction inbounds generalizing st with
  | nil =>
    simp only [foldlM_nil, map_nil, append_nil, foldl_nil, htag, huuid,
      true_and, List.not_mem_nil, false_implies, implies_true]
    exact ⟨fun h => (Except.ok.inj h).symm, fun h => by rw [h]; rfl⟩
  | cons i inbounds ih =>
    rw [foldlM_cons, bind_eq_ok]
    simp only [checkInbound_eq_ok, map_cons, foldl_cons, forall_mem_cons]
    constructor
    · rintro ⟨st₁, ⟨hsound, hname, hid, rfl⟩, hrest⟩
      rw [ih] at hrest
      · obtain ⟨hsounds, htags, huuids, rfl⟩ := hrest
        simp only [Seen.add, append_assoc, singleton_append] at htags huuids
        exact ⟨⟨hsound, hsounds⟩, htags, huuids, rfl⟩
      · exact nodup_concat htag hname
      · exact nodup_concat huuid hid
    · rintro ⟨⟨hsound, hsounds⟩, htags, huuids, rfl⟩
      have hname := (nodup_cons.mp (perm_middle.nodup_iff.mp htags)).1
      have hid := (nodup_cons.mp (perm_middle.nodup_iff.mp huuids)).1
      have hname : i.name ∉ st.byTag := fun h => hname (mem_append_left _ h)
      have hid : i.uuid ∉ st.byUUID := fun h => hid (mem_append_left _ h)
      refine ⟨st.add i, ⟨hsound, hname, hid, rfl⟩, ?_⟩
      rw [ih (nodup_concat htag hname) (nodup_concat huuid hid)]
      simp only [Seen.add, append_assoc, singleton_append]
      exact ⟨hsounds, htags, huuids, trivial⟩

/-- The chains of the inbounds. -/
def edges (inbounds : List SidecarInbound) : List (String × String) :=
  inbounds.filterMap fun i => i.downstream.map fun d => (i.uuid, d)

/-- Where the chain of an inbound leads. -/
def nextOf (inbounds : List SidecarInbound) (uuid : String) : Option String :=
  (edges inbounds).lookup uuid

theorem foldl_add (st : Seen) (inbounds : List SidecarInbound) :
    inbounds.foldl Seen.add st =
      { byTag := st.byTag ++ inbounds.map SidecarInbound.name
        byUUID := st.byUUID ++ inbounds.map SidecarInbound.uuid
        next := st.next ++ edges inbounds } := by
  induction inbounds generalizing st with
  | nil => simp [edges]
  | cons i inbounds ih =>
    rw [foldl_cons, ih]
    cases hd : i.downstream <;> simp [Seen.add, edges, hd]

theorem lookup_isSome {l : List (String × String)} {u : String} :
    (l.lookup u).isSome ↔ ∃ e ∈ l, e.1 = u := by
  induction l with
  | nil => simp
  | cons e l ih =>
    rw [lookup_cons]
    by_cases he : u = e.1
    · simp [he]
    · have hne : (u == e.1) = false := by simpa using he
      rw [hne]
      simp [ih, Ne.symm he]

theorem walk_eq_revisits (hkeys : ∀ e ∈ st.next, e.1 ∈ st.byUUID) (hblank : "" ∉ st.byUUID)
    (fuel : Nat) {seen : List String} (hseen : ∀ u ∈ seen, u ∈ st.byUUID) (current : String) :
    walk st fuel seen current = Pointers.revisits (fun u => st.next.lookup u) fuel seen current := by
  have houtside : ∀ u, u ∉ st.byUUID → st.next.lookup u = none := by
    intro u hu
    by_contra hne
    obtain ⟨e, he, rfl⟩ := lookup_isSome.mp (Option.isSome_iff_ne_none.mpr hne)
    exact hu (hkeys e he)
  induction fuel generalizing seen current with
  | zero => rfl
  | succ fuel ih =>
    rw [walk, Pointers.revisits]
    by_cases hlocal : current ∈ st.byUUID
    · have hne : current ≠ "" := fun h => hblank (h ▸ hlocal)
      rw [if_neg hne, if_neg (not_not.mpr hlocal)]
      split
      · rfl
      · cases hnext : st.next.lookup current with
        | none =>
          rw [Option.getD_none]
          cases fuel <;> simp [walk]
        | some d =>
          rw [Option.getD_some]
          exact ih (forall_mem_cons.mpr ⟨hlocal, hseen⟩) d
    · have hnew : current ∉ seen := fun h => hlocal (hseen _ h)
      rw [if_pos hlocal, ite_self, if_neg hnew, houtside current hlocal]

/-- The maps after all the inbounds. -/
def Seen.all (inbounds : List SidecarInbound) : Seen where
  byTag := inbounds.map SidecarInbound.name
  byUUID := inbounds.map SidecarInbound.uuid
  next := edges inbounds

theorem loop_iff :
    inbounds.foldlM (checkInbound quote) {} = .ok st' ↔
      WellFormed inbounds ∧ st' = Seen.all inbounds := by
  rw [foldlM_checkInbound nodup_nil nodup_nil, foldl_add]
  simp only [nil_append]
  constructor
  · rintro ⟨hsound, hnames, huuids, rfl⟩
    exact ⟨⟨hsound, hnames, huuids⟩, rfl⟩
  · rintro ⟨⟨hsound, hnames, huuids⟩, rfl⟩
    exact ⟨hsound, hnames, huuids, rfl⟩

theorem mem_edges_key {e : String × String} (he : e ∈ edges inbounds) :
    e.1 ∈ inbounds.map SidecarInbound.uuid := by
  obtain ⟨i, hi, hd⟩ := mem_filterMap.mp he
  obtain ⟨d, -, rfl⟩ := Option.map_eq_some_iff.mp hd
  exact mem_map_of_mem hi

theorem walks_iff (hwell : WellFormed inbounds) :
    ((Seen.all inbounds).next.any fun edge =>
        walk (Seen.all inbounds) ((Seen.all inbounds).byUUID.length + 1) [] edge.1) = false ↔
      Pointers.Acyclic (nextOf inbounds) := by
  have hblank : "" ∉ (Seen.all inbounds).byUUID := by
    intro h
    obtain ⟨i, hi, hid⟩ := mem_map.mp h
    have huuid := (hwell.sound i hi).uuid
    rw [hid] at huuid
    exact absurd huuid (by decide)
  have hnodes : ∀ c, (nextOf inbounds c).isSome → c ∈ (Seen.all inbounds).byUUID := by
    intro c hc
    obtain ⟨e, he, rfl⟩ := lookup_isSome.mp hc
    exact mem_edges_key he
  have hwalk : ∀ fuel u, walk (Seen.all inbounds) fuel [] u =
      Pointers.revisits (nextOf inbounds) fuel [] u := fun fuel u =>
    walk_eq_revisits (fun e he => mem_edges_key he) hblank fuel
      (fun u hu => absurd hu List.not_mem_nil) u
  rw [← Pointers.acyclic_iff_revisits hnodes, any_eq_false]
  constructor
  · intro h a ha
    obtain ⟨e, he, rfl⟩ := lookup_isSome.mp ha
    rw [← hwalk]
    exact Bool.eq_false_of_not_eq_true (h e he)
  · intro h e he
    rw [hwalk, h e.1 (lookup_isSome.mpr ⟨e, he, rfl⟩)]
    exact Bool.false_ne_true

/-- **Validity** is well-formed inbounds and no cycle among their chains. -/
theorem validate_iff {sidecar : SingBoxSidecar} :
    validateSingBoxSidecar quote sidecar = .ok () ↔
      sidecar.schema = "lattice.singbox-metadata.v2" ∧ WellFormed sidecar.inbounds ∧
        Pointers.Acyclic (nextOf sidecar.inbounds) := by
  unfold validateSingBoxSidecar
  rw [refuse_bind_eq_ok, bind_eq_ok]
  simp only [refuse_eq_ok, decide_eq_false_iff_not, not_not, loop_iff]
  refine and_congr_right fun _ => ⟨?_, ?_⟩
  · rintro ⟨st, ⟨hwell, rfl⟩, hnone⟩
    exact ⟨hwell, (walks_iff hwell).mp hnone⟩
  · rintro ⟨hwell, hacyclic⟩
    exact ⟨_, ⟨hwell, rfl⟩, (walks_iff hwell).mpr hacyclic⟩

/-- What the items of a list agree in is not changed by one that agrees with the old one. -/
theorem map_set_eq {α β : Type} {items : List α} {k : Nat} {i i' : α} {f : α → β}
    (hk : items[k]? = some i) (hf : f i' = f i) : (items.set k i').map f = items.map f := by
  rw [map_set, hf]
  apply ext_getElem?
  intro m
  by_cases hm : k = m
  · subst hm
    obtain ⟨hlt, -⟩ := List.getElem?_eq_some_iff.mp hk
    rw [getElem?_set_self (by simpa using hlt), getElem?_map, hk]
    rfl
  · rw [getElem?_set_ne hm]

theorem nextOf_of_forall_ne {u : String} (h : u ∉ inbounds.map SidecarInbound.uuid) :
    nextOf inbounds u = none := by
  by_contra hne
  obtain ⟨e, he, rfl⟩ := lookup_isSome.mp (Option.isSome_iff_ne_none.mpr hne)
  exact h (mem_edges_key he)

theorem nextOf_of_mem (huuids : (inbounds.map SidecarInbound.uuid).Nodup) (hi : i ∈ inbounds) :
    nextOf inbounds i.uuid = i.downstream := by
  induction inbounds with
  | nil => exact absurd hi List.not_mem_nil
  | cons j rest ih =>
    obtain ⟨hj, hrest⟩ := nodup_cons.mp huuids
    have hedges : edges (j :: rest) =
        (j.downstream.map fun d => (j.uuid, d)).toList ++ edges rest := by
      cases hd : j.downstream <;> simp [edges, hd]
    unfold nextOf
    rw [hedges]
    rcases mem_cons.mp hi with rfl | hi
    · cases hd : i.downstream with
      | none => exact nextOf_of_forall_ne hj
      | some d => simp
    · have hne : i.uuid ≠ j.uuid := fun h => hj (mem_map.mpr ⟨i, hi, h⟩)
      have hskip : ((j.downstream.map fun d => (j.uuid, d)).toList ++ edges rest).lookup i.uuid =
          nextOf rest i.uuid := by
        cases j.downstream with
        | none => rfl
        | some d =>
          have hbeq : (i.uuid == j.uuid) = false := by simpa using hne
          simp [lookup_cons, hbeq, nextOf]
      rw [hskip]
      exact ih hrest hi

theorem nextOf_set {k : Nat} {i' : SidecarInbound}
    (huuids : (inbounds.map SidecarInbound.uuid).Nodup) (hk : inbounds[k]? = some i)
    (huuid : i'.uuid = i.uuid) :
    nextOf (inbounds.set k i') = Function.update (nextOf inbounds) i.uuid i'.downstream := by
  have hsame : (inbounds.set k i').map SidecarInbound.uuid = inbounds.map SidecarInbound.uuid :=
    map_set_eq hk huuid
  obtain ⟨hlt, -⟩ := List.getElem?_eq_some_iff.mp hk
  funext u
  by_cases hu : u = i.uuid
  · subst hu
    rw [Function.update_self, ← huuid]
    exact nextOf_of_mem (hsame ▸ huuids) (mem_set hlt i')
  · rw [Function.update_of_ne hu]
    by_cases hmem : u ∈ inbounds.map SidecarInbound.uuid
    · obtain ⟨j, hj, rfl⟩ := mem_map.mp hmem
      obtain ⟨m, hm⟩ := mem_iff_getElem?.mp hj
      have hkm : k ≠ m := by
        rintro rfl
        rw [hk, Option.some.injEq] at hm
        exact hu (hm ▸ rfl)
      have hj' : j ∈ inbounds.set k i' :=
        mem_iff_getElem?.mpr ⟨m, by rw [getElem?_set_ne hkm, hm]⟩
      rw [nextOf_of_mem (hsame ▸ huuids) hj', nextOf_of_mem huuids hj]
    · rw [nextOf_of_forall_ne hmem, nextOf_of_forall_ne (hsame ▸ hmem)]

end LatticeAgent.Discover
