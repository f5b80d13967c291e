import Mathlib.Data.List.Basic

/-! # Runs of a transition system

A state and a function that says what a move does to it. A condition on the moves of a run reads
each move in the state it finds (`Along`).

`invariant` is the rule for what holds after every run whose moves all meet a condition,
`progress` the one for what never goes back along such a run, and `along_iff` the one for what
holds all along a run exactly if they do (`along_iff_within`, over some of the runs). -/

namespace Runs

variable {σ μ : Type} (step : σ → μ → σ)

/-- A whole run. -/
def run (s : σ) (moves : List μ) : σ := moves.foldl step s

/-- A condition on the moves of a run, each in the state it finds. -/
def Along (ok : σ → μ → Prop) : σ → List μ → Prop
  | _, [] => True
  | s, m :: moves => ok s m ∧ Along ok (step s m) moves

instance decidableAlong (ok : σ → μ → Prop) [∀ s m, Decidable (ok s m)] :
    ∀ (s : σ) (moves : List μ), Decidable (Along step ok s moves)
  | _, [] => .isTrue trivial
  | s, m :: moves =>
    haveI := decidableAlong ok (step s m) moves
    inferInstanceAs (Decidable (_ ∧ _))

variable {step}

theorem run_append (s : σ) (pre post : List μ) :
    run step s (pre ++ post) = run step (run step s pre) post := List.foldl_append

variable {moves : List μ} {ok : σ → μ → Prop} {s : σ}

theorem along_append {pre post : List μ} :
    Along step ok s (pre ++ post) ↔ Along step ok s pre ∧ Along step ok (run step s pre) post := by
  induction pre generalizing s with
  | nil => simp [Along, run]
  | cons m pre ih =>
    simp only [List.cons_append, Along, ih, and_assoc]
    rfl

theorem along_of_forall {ok : μ → Prop} (s : σ) (h : ∀ m ∈ moves, ok m) :
    Along step (fun _ m => ok m) s moves := by
  induction moves generalizing s with
  | nil => trivial
  | cons m moves ih =>
    exact ⟨h m List.mem_cons_self, ih _ fun m' hm' => h m' (List.mem_cons_of_mem _ hm')⟩

variable (Inv : σ → Prop)

/-- **The invariant rule.** -/
theorem invariant (hstep : ∀ s m, Inv s → ok s m → Inv (step s m)) (h : Inv s)
    (hok : Along step ok s moves) : Inv (run step s moves) := by
  induction moves generalizing s with
  | nil => exact h
  | cons m moves ih => exact ih (hstep s m h hok.1) hok.2

theorem invariant_always (hstep : ∀ s m, Inv s → Inv (step s m)) (h : Inv s) (moves : List μ) :
    Inv (run step s moves) := by
  induction moves generalizing s with
  | nil => exact h
  | cons m moves ih => exact ih (hstep s m h)

/-- **The progress rule.**  A preorder that relates a state to the next one, whenever a move meets
the condition, relates any two points of a run. -/
theorem progress {r : σ → σ → Prop} (hrefl : ∀ s, r s s) (htrans : ∀ {s t u}, r s t → r t u → r s u)
    (hinv : ∀ s m, Inv s → Inv (step s m))
    (hstep : ∀ s m, Inv s → ok s m → r s (step s m)) (h : Inv s) (hok : Along step ok s moves)
    {i j : Nat} (hij : i ≤ j) : r (run step s (moves.take i)) (run step s (moves.take j)) := by
  have hsplit : moves.take j = moves.take i ++ (moves.take j).drop i := by
    conv_lhs => rw [← List.take_append_drop i (moves.take j)]
    rw [List.take_take, Nat.min_eq_left hij]
  have hj : Along step ok s (moves.take j) := by
    rw [← List.take_append_drop j moves, along_append] at hok
    exact hok.1
  rw [hsplit, along_append] at hj
  rw [hsplit, run_append]
  -- from the earlier point on, the state keeps the invariant and stays related to that point
  have hfrom := invariant (fun t => Inv t ∧ r (run step s (moves.take i)) t)
    (fun t m ht hm => ⟨hinv t m ht.1, htrans ht.2 (hstep t m ht.1 hm)⟩)
    ⟨invariant_always Inv hinv h (moves.take i), hrefl _⟩ hj.2
  exact hfrom.2

/-- **The exactness rule.**  Over runs of a domain that keeps an invariant, if each move keeps `Q`
exactly when it meets a condition, then `Q` holds all along a run exactly when all its moves meet
the condition. -/
theorem along_iff_within {dom : σ → μ → Prop} (Q : σ → Prop)
    (hinv : ∀ s m, Inv s → dom s m → Inv (step s m))
    (hstep : ∀ s m, Inv s → dom s m → Q s → (Q (step s m) ↔ ok s m)) (h : Inv s) (hq : Q s)
    (hdom : Along step dom s moves) :
    (∀ k, Q (run step s (moves.take k))) ↔ Along step ok s moves := by
  induction moves generalizing s with
  | nil =>
    refine ⟨fun _ => trivial, fun _ k => ?_⟩
    rw [List.take_nil]
    exact hq
  | cons m moves ih =>
    obtain ⟨hm, hrest⟩ := hdom
    have hnext := hstep s m h hm hq
    constructor
    · intro hall
      have hone : Q (step s m) := hall 1
      exact ⟨hnext.mp hone, (ih (hinv s m h hm) hone hrest).mp fun k => hall (k + 1)⟩
    · rintro ⟨hok, hoks⟩ k
      cases k with
      | zero => exact hq
      | succ k => exact (ih (hinv s m h hm) (hnext.mpr hok) hrest).mpr hoks k

theorem along_iff (Q : σ → Prop) (hinv : ∀ s m, Inv s → Inv (step s m))
    (hstep : ∀ s m, Inv s → Q s → (Q (step s m) ↔ ok s m)) (h : Inv s) (hq : Q s) (moves : List μ) :
    (∀ k, Q (run step s (moves.take k))) ↔ Along step ok s moves :=
  along_iff_within Inv Q (fun s m h _ => hinv s m h) (fun s m h _ => hstep s m h) h hq
    (show Along step (fun _ _ => True) s moves from along_of_forall s fun _ _ => trivial)

end Runs
