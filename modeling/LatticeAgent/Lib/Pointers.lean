import Mathlib.Data.List.Basic
import Mathlib.Data.List.Perm.Subperm
import Mathlib.Logic.Function.Basic
import Mathlib.Logic.Relation

/-! # Nodes that point to at most one node

`next` gives the node another one points to. A walk along the pointers that remembers where it has
been finds a cycle exactly if there is one (`acyclic_iff_revisits`), and turning one pointer to
another node makes a cycle exactly if that node leads back (`acyclic_update_some`). -/

namespace Pointers

open Function

variable {α : Type}

/-- The pointers lead from one node to another. -/
def Reaches (next : α → Option α) : α → α → Prop :=
  Relation.ReflTransGen fun a b => next a = some b

/-- No node is reached from where it points to. -/
def Acyclic (next : α → Option α) : Prop := ∀ a b, next a = some b → ¬ Reaches next b a

variable {next next' : α → Option α} {a b c s d : α}

/-- Whoever is reached from another node is reached from where that one points to. -/
theorem Reaches.of_ne (h : Reaches next a c) (hne : a ≠ c) : ∃ b, next a = some b ∧ Reaches next b c := by
  rcases Relation.ReflTransGen.cases_head h with heq | ⟨b, hab, hbc⟩
  · exact absurd heq hne
  · exact ⟨b, hab, hbc⟩

theorem Reaches.back (hab : next a = some b) (hba : Reaches next b a) (h : Reaches next a c) :
    Reaches next c a := by
  induction h with
  | refl => exact .refl
  | @tail c d _ hcd ih =>
    by_cases hc : c = a
    · subst hc
      rw [hab, Option.some.injEq] at hcd
      exact hcd ▸ hba
    · obtain ⟨d', hcd', hd'⟩ := ih.of_ne hc
      rw [hcd', Option.some.injEq] at hcd
      exact hcd ▸ hd'

theorem Acyclic.mono (h : Acyclic next) (hsub : ∀ a b, next' a = some b → next a = some b) :
    Acyclic next' := by
  intro a b hab hba
  exact h a b (hsub a b hab) (Relation.ReflTransGen.mono hsub b a hba)

/-- How a node is reached does not depend on where it points to. -/
theorem Reaches.congr_off (hoff : ∀ a, a ≠ s → next' a = next a) (h : Reaches next a s) :
    Reaches next' a s := by
  induction h using Relation.ReflTransGen.head_induction_on with
  | refl => exact .refl
  | @head a c hac _ ih =>
    by_cases ha : a = s
    · rw [ha]
      exact .refl
    · exact .head (by rw [hoff a ha, hac]) ih

variable [DecidableEq α]

theorem reaches_update (e : Option α) : Reaches (update next s e) a s ↔ Reaches next a s := by
  constructor
  · exact Reaches.congr_off fun a ha => (update_of_ne ha e next).symm
  · exact Reaches.congr_off fun a ha => update_of_ne ha e next

theorem acyclic_update_none (h : Acyclic next) (s : α) : Acyclic (update next s none) := by
  refine h.mono fun a b hab => ?_
  by_cases ha : a = s
  · subst ha
    rw [update_self] at hab
    cases hab
  · rwa [update_of_ne ha] at hab

/-- **A pointer turned to another node closes a cycle exactly if that node leads back.** -/
theorem acyclic_update_some (h : Acyclic next) :
    Acyclic (update next s (some d)) ↔ ¬ Reaches next d s := by
  set turned := update next s (some d) with hturned
  have hs : turned s = some d := update_self s (some d) next
  constructor
  · intro hacyclic hds
    exact hacyclic s d hs ((reaches_update (some d)).mpr hds)
  · intro hds a b hab hba
    have hoff : ∀ c, c ≠ s → turned c = next c := fun c hc => update_of_ne hc (some d) next
    by_cases has : Reaches turned a s
    · -- the node is on the cycle, and the cycle comes back to it from where it points to now
      apply hds
      rw [← reaches_update (some d), ← hturned]
      by_cases heq : s = a
      · subst heq
        rw [hs, Option.some.injEq] at hab
        exact hab ▸ hba
      · obtain ⟨d', hsd, hda⟩ := (Reaches.back hab hba has).of_ne heq
        rw [hs, Option.some.injEq] at hsd
        exact hsd ▸ hda.trans has
    · -- the cycle does not pass the node, so it was there before
      have hstep : ∀ c d, turned c = some d → Reaches turned a c → next c = some d := by
        intro c d hcd hac
        rw [← hoff c fun hc => has (hc ▸ hac), hcd]
      have hold : ∀ c, Reaches turned b c → Reaches next b c := by
        intro c hbc
        induction hbc with
        | refl => exact .refl
        | tail hbc hcd ih => exact ih.tail (hstep _ _ hcd (.head hab hbc))
      exact h a b (hstep a b hab .refl) (hold a hba)

/-- A walk that remembers where it has been comes to such a node again. -/
def revisits (next : α → Option α) : Nat → List α → α → Bool
  | 0, _, _ => false
  | fuel + 1, seen, a =>
    if a ∈ seen then true
    else
      match next a with
      | none => false
      | some b => revisits next fuel (a :: seen) b

theorem not_revisits (h : Acyclic next) (fuel : Nat) {seen : List α} {a : α}
    (hseen : ∀ c ∈ seen, ∃ b, next c = some b ∧ Reaches next b a) :
    revisits next fuel seen a = false := by
  induction fuel generalizing seen a with
  | zero => rfl
  | succ fuel ih =>
    have ha : a ∉ seen := by
      intro ha
      obtain ⟨b, hab, hba⟩ := hseen a ha
      exact h a b hab hba
    rw [revisits, if_neg ha]
    cases hnext : next a with
    | none => rfl
    | some b =>
      apply ih
      intro c hc
      rcases List.mem_cons.mp hc with rfl | hc
      · exact ⟨b, hnext, .refl⟩
      · obtain ⟨d, hcd, hda⟩ := hseen c hc
        exact ⟨d, hcd, hda.tail hnext⟩

/-- A walk that never ends comes back once it has passed as many nodes as there are. -/
theorem length_le_of_not_revisits {nodes : List α} (hnodes : ∀ c, (next c).isSome → c ∈ nodes)
    (fuel : Nat) {seen : List α} {a : α} (hnodup : seen.Nodup) (hsub : seen ⊆ nodes)
    (hendless : ∀ c, Reaches next a c → (next c).isSome)
    (hfalse : revisits next fuel seen a = false) : fuel + seen.length ≤ nodes.length := by
  induction fuel generalizing seen a with
  | zero =>
    have hle := (List.subperm_of_subset hnodup hsub).length_le
    omega
  | succ fuel ih =>
    rw [revisits] at hfalse
    split at hfalse
    · cases hfalse
    · rename_i ha
      obtain ⟨b, hab⟩ := Option.isSome_iff_exists.mp (hendless a .refl)
      rw [hab] at hfalse
      have hnext := ih (List.nodup_cons.mpr ⟨ha, hnodup⟩)
        (List.cons_subset.mpr ⟨hnodes a (hendless a .refl), hsub⟩)
        (fun c hbc => hendless c (.head hab hbc)) hfalse
      rw [List.length_cons] at hnext
      omega

/-- **The walks find the cycles.**  Where the nodes that point somewhere are among some nodes, a
walk from each of them with a step more than there are nodes comes back to none exactly if there is
no cycle. -/
theorem acyclic_iff_revisits {nodes : List α} (hnodes : ∀ c, (next c).isSome → c ∈ nodes) :
    (∀ a, (next a).isSome → revisits next (nodes.length + 1) [] a = false) ↔ Acyclic next := by
  constructor
  · intro hwalks a b hab hba
    have hendless : ∀ c, Reaches next a c → (next c).isSome := by
      intro c hac
      by_cases hc : c = a
      · rw [hc, hab]
        rfl
      · obtain ⟨d, hcd, -⟩ := (Reaches.back hab hba hac).of_ne hc
        rw [hcd]
        rfl
    have hlength := length_le_of_not_revisits hnodes (nodes.length + 1) List.nodup_nil
      (List.nil_subset nodes) hendless (hwalks a (hendless a .refl))
    omega
  · intro h a _
    exact not_revisits h _ fun c hc => absurd hc List.not_mem_nil

end Pointers
