import Mathlib.Data.List.Basic

/-! # JSON values

A document as a decoder sees it, without its text. An object keeps its members in order, also
those with one name twice: `decodeMember` reads them one after another, as a decoder into a record
does, and `object` refuses them. -/

inductive Json where
  | null
  | bool (b : Bool)
  | num (text : String)
  | str (s : String)
  | arr (items : List Json)
  | obj (members : List (String × Json))

namespace Json

open List

variable {β : Type} {members : List (String × Json)} {name other : String} {v : Json}

/-- The first name that comes up again, after those seen already. -/
def duplicate : List String → List (String × Json) → Option String
  | _, [] => none
  | seen, m :: members => if m.1 ∈ seen then some m.1 else duplicate (m.1 :: seen) members

/-- The members of an object that has every name once. -/
def object : Json → Except String (List (String × Json))
  | .null => .error "must be a non-null object"
  | .obj members =>
    match duplicate [] members with
    | some name => .error ("duplicate field " ++ name)
    | none => .ok members
  | _ => .error "must be an object"

/-- The members without those of a name. -/
def without (members : List (String × Json)) (name : String) : List (String × Json) :=
  members.filter (·.1 ≠ name)

/-- The members with the one of a name set. -/
def set (members : List (String × Json)) (name : String) (v : Json) : List (String × Json) :=
  without members name ++ [(name, v)]

/-- What a decoder into a record makes of the members of a name, each on top of the one before. -/
def decodeMember (members : List (String × Json)) (name : String)
    (decode : β → Json → Except String β) (init : β) : Except String β :=
  members.foldlM (fun acc m => if m.1 = name then decode acc m.2 else .ok acc) init

/-- A decoder into a text; `null` changes nothing. -/
def decodeString (acc : String) : Json → Except String String
  | .null => .ok acc
  | .str s => .ok s
  | _ => .error "cannot unmarshal into string"

/-- A decoder into a pointer to a text. -/
def decodeStringPtr (_ : Option String) : Json → Except String (Option String)
  | .null => .ok none
  | .str s => .ok (some s)
  | _ => .error "cannot unmarshal into string"

/-- The text under a name, for which `null` is the empty text and there is none if the name is
missing. -/
def stringOf (members : List (String × Json)) (name : String) : Option String :=
  match members.lookup name with
  | some .null => some ""
  | some (.str s) => some s
  | _ => none

variable {decode : β → Json → Except String β} {init : β}

theorem decodeMember_cons (m : String × Json) :
    decodeMember (m :: members) name decode init =
      (if m.1 = name then decode init m.2 else .ok init) >>= decodeMember members name decode := by
  rw [decodeMember, foldlM_cons]
  rfl

theorem decodeMember_append (more : List (String × Json)) :
    decodeMember (members ++ more) name decode init =
      decodeMember members name decode init >>= decodeMember more name decode := by
  rw [decodeMember, foldlM_append]
  rfl

theorem decodeMember_without (hne : name ≠ other) :
    decodeMember (without members other) name decode init =
      decodeMember members name decode init := by
  induction members generalizing init with
  | nil => rfl
  | cons m members ih =>
    rw [without, filter_cons, decodeMember_cons]
    split
    · rw [decodeMember_cons]
      congr 1
      funext acc
      exact ih
    · rename_i hm
      have hm : m.1 = other := by simpa using hm
      rw [if_neg (fun h => hne (h.symm.trans hm))]
      exact ih

theorem decodeMember_of_forall_ne (h : ∀ m ∈ members, m.1 ≠ name) :
    decodeMember members name decode init = .ok init := by
  induction members with
  | nil => rfl
  | cons m members ih =>
    rw [decodeMember_cons, if_neg (h m mem_cons_self)]
    exact ih fun m' hm' => h m' (mem_cons_of_mem _ hm')

theorem decodeMember_set_self : decodeMember (set members name v) name decode init = decode init v := by
  have hnone : decodeMember (without members name) name decode init = .ok init :=
    decodeMember_of_forall_ne fun m hm => by simpa using (mem_filter.mp hm).2
  rw [set, decodeMember_append, hnone]
  show decodeMember [(name, v)] name decode init = _
  rw [decodeMember_cons, if_pos rfl]
  cases decode init v <;> rfl

theorem decodeMember_set (hne : name ≠ other) :
    decodeMember (set members other v) name decode init = decodeMember members name decode init := by
  rw [set, decodeMember_append, decodeMember_without hne]
  cases decodeMember members name decode init with
  | error e => rfl
  | ok acc =>
    show decodeMember [(other, v)] name decode acc = _
    exact decodeMember_of_forall_ne fun m hm => by
      rw [mem_singleton.mp hm]
      exact Ne.symm hne

theorem duplicate_eq_none (seen : List String) :
    duplicate seen members = none ↔
      (members.map Prod.fst).Nodup ∧ ∀ m ∈ members, m.1 ∉ seen := by
  induction members generalizing seen with
  | nil => simp [duplicate]
  | cons m members ih =>
    rw [duplicate]
    split
    · rename_i hm
      simp [hm]
    · rename_i hm
      rw [ih]
      simp only [map_cons, nodup_cons, mem_map, not_exists, not_and,
        mem_cons, forall_eq_or_imp, not_or]
      constructor
      · rintro ⟨hnodup, hrest⟩
        exact ⟨⟨fun m' hm' => (hrest m' hm').1, hnodup⟩, hm, fun m' hm' => (hrest m' hm').2⟩
      · rintro ⟨⟨hfirst, hnodup⟩, -, hrest⟩
        exact ⟨hnodup, fun m' hm' => ⟨hfirst m' hm', hrest m' hm'⟩⟩

theorem object_eq_ok {j : Json} :
    object j = .ok members ↔ j = .obj members ∧ (members.map Prod.fst).Nodup := by
  cases j with
  | obj ms =>
    have hnone : duplicate [] ms = none ↔ _ := duplicate_eq_none []
    cases hd : duplicate [] ms with
    | none =>
      have hnodup := (hnone.mp hd).1
      simp only [object, hd, Except.ok.injEq, Json.obj.injEq]
      constructor
      · rintro rfl
        exact ⟨rfl, hnodup⟩
      · exact And.left
    | some name =>
      simp only [object, hd, Json.obj.injEq, reduceCtorEq, false_iff, not_and]
      rintro rfl hnodup
      rw [hnone.mpr ⟨hnodup, fun m _ => List.not_mem_nil⟩] at hd
      cases hd
  | _ => simp [object]

/-- Where every name stands once, a decoder reads the one member of the name. -/
theorem decodeMember_of_lookup (hnodup : (members.map Prod.fst).Nodup)
    (hv : members.lookup name = some v) :
    decodeMember members name decode init = decode init v := by
  induction members with
  | nil => cases hv
  | cons m members ih =>
    rw [map_cons, nodup_cons] at hnodup
    rw [decodeMember_cons]
    rw [lookup_cons] at hv
    by_cases hm : m.1 = name
    · subst hm
      have hrest : ∀ acc, decodeMember members m.1 decode acc = .ok acc := fun acc =>
        decodeMember_of_forall_ne fun m' hm' heq =>
          hnodup.1 (mem_map.mpr ⟨m', hm', heq⟩)
      have hv : m.2 = v := by simpa using hv
      rw [if_pos rfl, hv]
      cases decode init v with
      | error e => rfl
      | ok acc => exact hrest acc
    · have hne : (name == m.1) = false := by simpa using Ne.symm hm
      rw [hne] at hv
      rw [if_neg hm]
      exact ih hnodup.2 hv

/-! ### One member of an object -/

theorem lookup_without_self : (without members name).lookup name = none := by
  rw [lookup_eq_none_iff]
  intro m hm
  have hne : m.1 ≠ name := by simpa using (mem_filter.mp hm).2
  simpa using Ne.symm hne

theorem lookup_without (hne : name ≠ other) :
    (without members other).lookup name = members.lookup name := by
  induction members with
  | nil => rfl
  | cons m members ih =>
    rw [without, filter_cons]
    by_cases hm : m.1 = other
    · have hskip : (name == m.1) = false := by simpa using fun h => hne (h.trans hm)
      rw [if_neg (by simpa using hm), lookup_cons, hskip]
      exact ih
    · rw [if_pos (by simpa using hm), lookup_cons, lookup_cons]
      split
      · rfl
      · exact ih

theorem lookup_set_self : (set members name v).lookup name = some v := by
  rw [set, lookup_append, lookup_without_self]
  simp

theorem lookup_set (hne : name ≠ other) :
    (set members other v).lookup name = members.lookup name := by
  have hlast : List.lookup name [(other, v)] = none := by simpa using hne
  rw [set, lookup_append, lookup_without hne, hlast, Option.or_none]

/-- Two objects that have every name once and agree on all but one. -/
structure SameBut (name : String) (a b : List (String × Json)) : Prop where
  nodup : (a.map Prod.fst).Nodup
  nodup' : (b.map Prod.fst).Nodup
  lookup_eq : ∀ other, other ≠ name → b.lookup other = a.lookup other

section

variable (h : (members.map Prod.fst).Nodup)

include h

theorem nodup_without (name : String) : ((without members name).map Prod.fst).Nodup :=
  h.sublist (filter_sublist.map _)

theorem sameBut_without : SameBut name members (without members name) :=
  ⟨h, nodup_without h name, fun _ hne => lookup_without hne⟩

theorem sameBut_set : SameBut name members (set members name v) := by
  refine ⟨h, ?_, fun _ hne => lookup_set hne⟩
  rw [set, map_append, nodup_append]
  refine ⟨nodup_without h name, pairwise_singleton .., ?_⟩
  intro x hx y hy heq
  obtain ⟨m, hm, rfl⟩ := mem_map.mp hx
  have hne : m.1 ≠ name := by simpa using (mem_filter.mp hm).2
  exact hne (heq.trans (by simpa using hy))

end

theorem SameBut.trans {a b c : List (String × Json)} (h : SameBut name a b)
    (h' : SameBut name b c) : SameBut name a c :=
  ⟨h.nodup, h'.nodup', fun other hne => (h'.lookup_eq other hne).trans (h.lookup_eq other hne)⟩

theorem SameBut.stringOf_eq {a b : List (String × Json)} (h : SameBut name a b)
    (hne : other ≠ name) : stringOf b other = stringOf a other := by
  unfold stringOf
  rw [h.lookup_eq other hne]

end Json
