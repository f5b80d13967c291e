import Mathlib.Data.List.Perm.Basic

/-! # A queue that accounts for its items

Items are added to the back of a queue. A batch is taken from its front, and is either shipped
or put back; under pressure the oldest queued items are dropped. `Accounted` says that every
item that was ever added is in exactly one place, and that what was not dropped leaves in the
order it came. -/

namespace Custody

variable {α : Type*} {added dropped shipped flight queued : List α}

/-- Every item added is dropped, shipped, in flight or queued, once; and the last three, in this
order, are in the order the items were added. -/
structure Accounted (added dropped shipped flight queued : List α) : Prop where
  once : added.Perm (dropped ++ (shipped ++ flight ++ queued))
  order : (shipped ++ flight ++ queued).Sublist added

theorem accounted_nil : Accounted ([] : List α) [] [] [] [] := ⟨.refl _, .refl _⟩

namespace Accounted

theorem take (h : Accounted added dropped shipped [] queued) (n : Nat) :
    Accounted added dropped shipped (queued.take n) (queued.drop n) := by
  have heq : shipped ++ queued.take n ++ queued.drop n = shipped ++ [] ++ queued := by
    rw [List.append_assoc, List.take_append_drop, List.append_nil]
  exact ⟨heq ▸ h.once, heq ▸ h.order⟩

variable (h : Accounted added dropped shipped flight queued)

include h

theorem add (xs : List α) :
    Accounted (added ++ xs) dropped shipped flight (queued ++ xs) := by
  refine ⟨?_, ?_⟩
  · have := h.once.append_right xs
    simpa only [List.append_assoc] using this
  · have := h.order.append (List.Sublist.refl xs)
    simpa only [List.append_assoc] using this

theorem drop (n : Nat) :
    Accounted added (dropped ++ queued.take n) shipped flight (queued.drop n) := by
  refine ⟨?_, ?_⟩
  · calc added.Perm (dropped ++ (shipped ++ flight ++ queued)) := h.once
      _ = dropped ++ (shipped ++ flight ++ (queued.take n ++ queued.drop n)) := by
          rw [List.take_append_drop]
      _ = dropped ++ ((shipped ++ flight ++ queued.take n) ++ queued.drop n) := by
          rw [List.append_assoc (shipped ++ flight)]
      List.Perm _ (dropped ++ ((queued.take n ++ (shipped ++ flight)) ++ queued.drop n)) :=
          (List.perm_append_comm.append_right _).append_left _
      _ = dropped ++ queued.take n ++ (shipped ++ flight ++ queued.drop n) := by
          simp only [List.append_assoc]
  · exact ((List.Sublist.refl (shipped ++ flight)).append (List.drop_sublist n queued)).trans h.order

theorem ship : Accounted added dropped (shipped ++ flight) [] queued :=
  ⟨by simpa using h.once, by simpa using h.order⟩

theorem putBack : Accounted added dropped shipped [] (flight ++ queued) :=
  ⟨by simpa using h.once, by simpa using h.order⟩

end Accounted

end Custody
