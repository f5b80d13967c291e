import LatticeAgent.Lib.Runs

/-! # Calls that share a lock

A pool of calls over a shared state. A call is a sequence of locked sections: what a section
does to the shared state, and where it leaves the call, is a function of where the call stands,
of what the environment answered since its last section, and of the shared state. A schedule
enters calls and gives turns in any order, so what holds for every schedule holds for every
interleaving of the sections. A pool is a transition system, and a schedule is a run of it.

`Program.run_invariant` is the rule for what holds after every schedule whose moves all meet a
condition; `forall_mem_set`, `mem_set_or_eq` and `flatMap_set_perm` are what a proof says about the
calls that did not move. -/

namespace Threads

open List

variable {σ ε κ α : Type}

/-- A kind of calls. `enter` is where a new call stands, `turn` its next locked section. -/
structure Program (σ ε κ α : Type) where
  enter : ε → κ
  turn : κ → α → σ → σ × κ

/-- The shared state and the calls, in the order they were entered. -/
structure Pool (σ κ : Type) where
  shared : σ
  calls : List κ := []

/-- What a schedule can do. -/
inductive Move (ε α : Type) where
  | enter (e : ε)
  | turn (i : Nat) (answer : α)

namespace Program

variable (P : Program σ ε κ α)

/-- One call more. -/
def entered (p : Pool σ κ) (e : ε) : Pool σ κ := { p with calls := p.calls ++ [P.enter e] }

/-- The call `k` at `i` has taken its turn. -/
def turned (p : Pool σ κ) (i : Nat) (k : κ) (a : α) : Pool σ κ where
  shared := (P.turn k a p.shared).1
  calls := p.calls.set i (P.turn k a p.shared).2

/-- One move; a turn of a call that does not exist changes nothing. -/
def step (p : Pool σ κ) : Move ε α → Pool σ κ
  | .enter e => P.entered p e
  | .turn i a => (p.calls[i]?).elim p fun k => P.turned p i k a

/-- A whole schedule. -/
def run (p : Pool σ κ) (moves : List (Move ε α)) : Pool σ κ := Runs.run P.step p moves

/-- A condition on the moves of a schedule, each in the pool it finds. -/
def Along (ok : Pool σ κ → Move ε α → Bool) (p : Pool σ κ) (moves : List (Move ε α)) : Prop :=
  Runs.Along P.step (fun p m => ok p m = true) p moves

instance decidableAlong (ok : Pool σ κ → Move ε α → Bool) (p : Pool σ κ)
    (moves : List (Move ε α)) : Decidable (P.Along ok p moves) :=
  Runs.decidableAlong P.step _ p moves

variable {P}

/-- A call that is entered and takes its first turn at once. -/
theorem run_enter_turn (p : Pool σ κ) (e : ε) (a : α) :
    P.run p [.enter e, .turn p.calls.length a] =
      ⟨(P.turn (P.enter e) a p.shared).1, p.calls ++ [(P.turn (P.enter e) a p.shared).2]⟩ := by
  simp [run, Runs.run, step, entered, turned]

theorem run_append (p : Pool σ κ) (pre post : List (Move ε α)) :
    P.run p (pre ++ post) = P.run (P.run p pre) post :=
  Runs.run_append p pre post

variable {moves : List (Move ε α)} {ok : Pool σ κ → Move ε α → Bool} {p : Pool σ κ}

theorem along_append {pre post : List (Move ε α)} :
    P.Along ok p (pre ++ post) ↔ P.Along ok p pre ∧ P.Along ok (P.run p pre) post :=
  Runs.along_append

theorem along_and {ok' : Pool σ κ → Move ε α → Bool} (h : P.Along ok p moves)
    (h' : P.Along ok' p moves) : P.Along (fun p m => ok p m && ok' p m) p moves := by
  induction moves generalizing p with
  | nil => trivial
  | cons m moves ih => exact ⟨Bool.and_eq_true_iff.mpr ⟨h.1, h'.1⟩, ih h.2 h'.2⟩

/-- **The invariant rule.**  What entering a call and every turn of a call keep, under a
condition on the move, holds after every schedule whose moves all meet the condition. -/
theorem run_invariant (Inv : Pool σ κ → Prop)
    (henter : ∀ p e, Inv p → ok p (.enter e) → Inv (P.entered p e))
    (hturn : ∀ p i k a, Inv p → p.calls[i]? = some k → ok p (.turn i a) → Inv (P.turned p i k a))
    (h : Inv p) (hok : P.Along ok p moves) : Inv (P.run p moves) := by
  induction moves generalizing p with
  | nil => exact h
  | cons m moves ih =>
    refine ih ?_ hok.2
    cases m with
    | enter e => exact henter p e h hok.1
    | turn i a =>
      rcases hk : p.calls[i]? with - | k
      · simpa [step, hk] using h
      · simpa [step, hk] using hturn p i k a h hk hok.1

end Program

variable {calls : List κ}

theorem forall_mem_set {Q : κ → Prop} {i : Nat} {k' : κ} (h : ∀ k ∈ calls, Q k) (h' : Q k') :
    ∀ k ∈ calls.set i k', Q k := by
  intro k hk
  rcases mem_or_eq_of_mem_set hk with hk | rfl
  · exact h k hk
  · exact h'

theorem mem_set_or_eq {i : Nat} {k k' k₀ : κ} (hi : calls[i]? = some k) (h : k₀ ∈ calls) :
    k₀ ∈ calls.set i k' ∨ k₀ = k := by
  obtain ⟨j, hj, rfl⟩ := getElem_of_mem h
  by_cases he : i = j
  · subst he
    rw [getElem?_eq_getElem hj] at hi
    exact .inr (Option.some.inj hi)
  · refine .inl (mem_iff_getElem.mpr ⟨j, by simpa using hj, ?_⟩)
    exact getElem_set_of_ne he k' _

/-- What the calls hold together, before and after one has moved. -/
theorem flatMap_set_perm {β : Type} (held : κ → List β) {i : Nat} {k : κ} (k' : κ)
    (hi : calls[i]? = some k) :
    ∃ rest, (calls.flatMap held).Perm (held k ++ rest) ∧
      ((calls.set i k').flatMap held).Perm (held k' ++ rest) := by
  obtain ⟨hlt, rfl⟩ := List.getElem?_eq_some_iff.mp hi
  have hmove (x : κ) : ((calls.take i ++ x :: calls.drop (i + 1)).flatMap held).Perm
      (held x ++ (calls.take i ++ calls.drop (i + 1)).flatMap held) := by
    simp only [flatMap_append, flatMap_cons]
    exact perm_append_comm_assoc _ _ _
  refine ⟨(calls.take i ++ calls.drop (i + 1)).flatMap held, ?_, ?_⟩
  · have hsplit := hmove calls[i]
    rwa [← drop_eq_getElem_cons hlt, take_append_drop] at hsplit
  · rw [set_eq_take_append_cons_drop, if_pos hlt]
    exact hmove k'

end Threads
