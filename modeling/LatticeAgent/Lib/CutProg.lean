import Mathlib.Data.List.Basic
import Mathlib.Logic.Relation

/-! # Programs that can be cut at any step

`Prog κ σ ε α` is a sequential program over states `σ` that returns an `α` or an error `ε`.
The outside world decides each step: a run is given a *script*, a list of choices `κ`, and
every primitive step (`Prog.step`) consumes one of them. The run is **cut** where its
script ends, in the state reached so far. A script of length `n` is thus a crash after
exactly `n` steps, and "for every script" is "for every behaviour of the outside world and a
crash after any step".

`wp A p Q E C s` is the weakest precondition of `p` for runs whose choices all satisfy `A`:
`Q` holds when `p` returns, `E` when it returns an error, and the crash condition `C` in
every state in which it may be cut. The rules below follow the constructors; `wp_forEach`
is the rule for a loop over a list, `wp_loop` the one for a loop that its body leaves,
`wp_embed` runs a program on a part of a larger state (the rest is the frame), and `wp_after`
reads an invariant off a run, wherever it ended. `Keeps A I C p` is the special case of an
invariant, with a rule for each constructor again.

`Bounded n p` bounds the number of steps of `p`, so that a long enough script is not cut. -/

namespace CutProg

variable {κ κ' σ τ ε α β : Type}

/-- How a run ends: with a value, with an error, or cut; the script that is left over. -/
inductive Exit (κ ε α : Type) where
  | done (a : α) (rest : List κ)
  | failed (e : ε) (rest : List κ)
  | cut

/-- A program: from a script and a state, how the run ends and the state it leaves. -/
def Prog (κ σ ε α : Type) : Type := List κ → σ → Exit κ ε α × σ

namespace Prog

/-- Return a value, without a step. -/
def ret (a : α) : Prog κ σ ε α := fun sc s => (.done a sc, s)

/-- Return an error, without a step. -/
def fail (e : ε) : Prog κ σ ε α := fun sc s => (.failed e sc, s)

/-- Sequential composition; an error or a cut ends the run. -/
def bind (p : Prog κ σ ε α) (f : α → Prog κ σ ε β) : Prog κ σ ε β := fun sc s =>
  match p sc s with
  | (.done a rest, s') => f a rest s'
  | (.failed e rest, s') => (.failed e rest, s')
  | (.cut, s') => (.cut, s')

instance : Monad (Prog κ σ ε) where
  pure := ret
  bind := bind

/-- One atomic step, decided by the next choice of the script. -/
def step (f : κ → σ → Except ε α × σ) : Prog κ σ ε α
  | [], s => (.cut, s)
  | c :: sc, s =>
    match f c s with
    | (.ok a, s') => (.done a sc, s')
    | (.error e, s') => (.failed e sc, s')

/-- Look at the state, without a step. -/
def get (f : σ → α) : Prog κ σ ε α := fun sc s => (.done (f s) sc, s)

/-- Run a program and return its error as a value. -/
def attempt (p : Prog κ σ ε α) : Prog κ σ ε (Except ε α) := fun sc s =>
  match p sc s with
  | (.done a rest, s') => (.done (.ok a) rest, s')
  | (.failed e rest, s') => (.done (.error e) rest, s')
  | (.cut, s') => (.cut, s')

/-- A computation that does not touch the state. -/
def lift : Except ε α → Prog κ σ ε α
  | .ok a => ret a
  | .error e => fail e

/-- Run `f` on every element of a list, up to the first error. -/
def forEach (f : β → Prog κ σ ε Unit) : List β → Prog κ σ ε Unit
  | [] => ret ()
  | b :: bs => bind (f b) fun _ => forEach f bs

/-- At most `n` rounds of a loop; a run that has not left the loop by then is cut. -/
def rounds (f : β → Prog κ σ ε (β ⊕ α)) : ℕ → β → Prog κ σ ε α
  | 0, _ => fun _ s => (.cut, s)
  | n + 1, b => bind (f b) fun
    | .inl b' => rounds f n b'
    | .inr a => ret a

/-- A loop that its body leaves with a value. Every round takes a step, so the script bounds
their number. -/
def loop (f : β → Prog κ σ ε (β ⊕ α)) (b : β) : Prog κ σ ε α := fun sc s =>
  rounds f (sc.length + 1) b sc s

/-- Run a program of a part `τ` of the state, with choices `κ` read off larger ones. -/
def embed (ch : κ' → κ) (view : σ → τ) (put : τ → σ → σ) (p : Prog κ τ ε α) :
    Prog κ' σ ε α := fun sc s =>
  match p (sc.map ch) (view s) with
  | (.done a rest, t) => (.done a (sc.drop (sc.length - rest.length)), put t s)
  | (.failed e rest, t) => (.failed e (sc.drop (sc.length - rest.length)), put t s)
  | (.cut, t) => (.cut, put t s)

/-- The state a run leaves, whether it returned or was cut. -/
def after (p : Prog κ σ ε α) (sc : List κ) (s : σ) : σ := (p sc s).2

end Prog

open Prog

/-! ### Weakest preconditions -/

/-- The verdict on how a run ended. -/
def Exit.Holds (A : κ → Prop) (Q : α → σ → Prop) (E : ε → σ → Prop) (C : σ → Prop) :
    Exit κ ε α × σ → Prop
  | (.done a rest, s) => Q a s ∧ ∀ c ∈ rest, A c
  | (.failed e rest, s) => E e s ∧ ∀ c ∈ rest, A c
  | (.cut, s) => C s

/-- The verdict on the outcome of one step. -/
def Outcome (Q : α → σ → Prop) (E : ε → σ → Prop) : Except ε α × σ → Prop
  | (.ok a, s) => Q a s
  | (.error e, s) => E e s

variable {Q : α → σ → Prop} {E : ε → σ → Prop} {s : σ} {a : α}

@[simp] theorem outcome_ok :
    Outcome Q E (.ok a, s) ↔ Q a s := Iff.rfl

@[simp] theorem outcome_error {e : ε} :
    Outcome Q E (.error e, s) ↔ E e s := Iff.rfl

/-- Every run of `p` from `s` whose choices satisfy `A` ends as `Q`, `E` or `C` say. -/
def wp (A : κ → Prop) (p : Prog κ σ ε α) (Q : α → σ → Prop) (E : ε → σ → Prop)
    (C : σ → Prop) (s : σ) : Prop :=
  ∀ sc, (∀ c ∈ sc, A c) → Exit.Holds A Q E C (p sc s)

/-- `p` returns with `Q`, and leaves `I` where it fails or is cut. -/
abbrev Leaves (A : κ → Prop) (p : Prog κ σ ε α) (Q : α → σ → Prop) (I : σ → Prop) (s : σ) : Prop :=
  wp A p Q (fun _ => I) I s

variable {n : ℕ} {p : Prog κ σ ε α} {sc : List κ} {A : κ → Prop}

theorem wp.run {C : σ → Prop} (h : wp A p Q E C s) (hsc : ∀ c ∈ sc, A c)
    : Exit.Holds A Q E C (p sc s) := h sc hsc

section rules
variable {A : κ → Prop} {Q : α → σ → Prop} {E : ε → σ → Prop} {C : σ → Prop} {s : σ}

theorem wp_ret (h : Q a s) : wp A (ret a) Q E C s := fun _ hsc => ⟨h, hsc⟩

theorem wp_pure (h : Q a s) : wp A (pure a) Q E C s := wp_ret h

theorem wp_fail {e : ε} (h : E e s) : wp A (fail e) Q E C s := fun _ hsc => ⟨h, hsc⟩

theorem wp_get {f : σ → α} (h : Q (f s) s) : wp A (Prog.get f) Q E C s := fun _ hsc => ⟨h, hsc⟩

variable {C' : σ → Prop} {E' : ε → σ → Prop} {f : β → Prog κ σ ε (β ⊕ α)} {p : Prog κ σ ε α}
  {q : Prog κ σ ε β} {g : β → Prog κ σ ε α} {R : β → σ → Prop}

theorem wp_mono {Q' : α → σ → Prop} (h : wp A p Q E C s) (hQ : ∀ a s, Q a s → Q' a s)
    (hE : ∀ e s, E e s → E' e s) (hC : ∀ s, C s → C' s) : wp A p Q' E' C' s := by
  intro sc hsc
  have hp := h sc hsc
  generalize p sc s = r at hp ⊢
  obtain ⟨r, s'⟩ := r
  cases r with
  | done a rest => exact ⟨hQ a s' hp.1, hp.2⟩
  | failed e rest => exact ⟨hE e s' hp.1, hp.2⟩
  | cut => exact hC s' hp

theorem wp_bind (h : wp A q (fun b => wp A (g b) Q E C) E C s) : wp A (q >>= g) Q E C s := by
  intro sc hsc
  have hp := h sc hsc
  show Exit.Holds A Q E C (Prog.bind q g sc s)
  unfold Prog.bind
  generalize q sc s = r at hp ⊢
  obtain ⟨r, s'⟩ := r
  cases r with
  | done b rest => exact hp.1 rest hp.2
  | failed | cut => exact hp

theorem wp_seq (hp : wp A q R E' C' s) (hQ : ∀ b s, R b s → wp A (g b) Q E C s)
    (hE : ∀ e s, E' e s → E e s) (hC : ∀ s, C' s → C s) : wp A (q >>= g) Q E C s :=
  wp_bind (wp_mono hp hQ hE hC)

theorem wp_weaken {Q' : α → σ → Prop} (h : wp A p Q E C s) (hQ : ∀ a s, Q a s → Q' a s) :
    wp A p Q' E C s := wp_mono h hQ (fun _ _ h => h) fun _ h => h

theorem wp_then (hp : wp A q R E C s) (hQ : ∀ b s, R b s → wp A (g b) Q E C s) :
    wp A (q >>= g) Q E C s :=
  wp_bind (wp_weaken hp hQ)

/-- A step may be the one the run is cut before, or be decided by any choice. -/
theorem wp_step {f : κ → σ → Except ε α × σ} (hC : C s)
    (h : ∀ c, A c → Outcome Q E (f c s)) : wp A (step f) Q E C s := by
  intro sc hsc
  cases sc with
  | nil => exact hC
  | cons c sc =>
    have hc := h c (hsc c List.mem_cons_self)
    have hrest : ∀ c ∈ sc, A c := fun c hc => hsc c (List.mem_cons_of_mem _ hc)
    simp only [step]
    generalize f c s = r at hc ⊢
    obtain ⟨r, s'⟩ := r
    cases r with
    | ok | error => exact ⟨hc, hrest⟩

theorem wp_attempt {Q : Except ε α → σ → Prop}
    (h : wp A p (fun a => Q (.ok a)) (fun e => Q (.error e)) C s) : wp A (attempt p) Q E C s := by
  intro sc hsc
  have hp := h sc hsc
  unfold attempt
  generalize p sc s = r at hp ⊢
  obtain ⟨r, s'⟩ := r
  cases r <;> exact hp

theorem wp_lift {x : Except ε α} (hok : ∀ a, x = .ok a → Q a s)
    (herr : ∀ e, x = .error e → E e s) : wp A (lift x) Q E C s := by
  cases x with
  | ok a => exact wp_ret (hok a rfl)
  | error e => exact wp_fail (herr e rfl)

theorem wp_forEach {f : β → Prog κ σ ε Unit} (I : List β → σ → Prop) {l : List β}
    (hI : I l s) (hstep : ∀ b bs s, I (b :: bs) s → wp A (f b) (fun _ => I bs) E C s) :
    wp A (forEach f l) (fun _ => I []) E C s := by
  induction l generalizing s with
  | nil => exact wp_ret hI
  | cons b bs ih => exact wp_bind (wp_weaken (hstep b bs s hI) (fun _ _ h => ih h))

theorem wp_rounds (I : β → σ → Prop) (hC : ∀ b s, I b s → C s)
    (hstep : ∀ b s, I b s → wp A (f b) (Sum.elim I Q) E C s) (n : ℕ) {b : β} (hI : I b s) :
    wp A (rounds f n b) Q E C s := by
  induction n generalizing b s with
  | zero => exact fun _ _ => hC b s hI
  | succ n ih =>
    refine wp_bind (wp_weaken (hstep b s hI) ?_)
    intro r s' hr
    cases r with
    | inl b' => exact ih hr
    | inr a => exact wp_ret hr

theorem wp_loop (I : β → σ → Prop) (hC : ∀ b s, I b s → C s)
    (hstep : ∀ b s, I b s → wp A (f b) (Sum.elim I Q) E C s) {b : β} (hI : I b s) :
    wp A (loop f b) Q E C s := fun sc => wp_rounds I hC hstep (sc.length + 1) hI sc

end rules

variable {put : τ → σ → σ}

/-- Running on a part of the state: `R` is the frame, kept by every update of the part. -/
theorem wp_embed {A' : κ' → Prop} {ch : κ' → κ} {view : σ → τ} {p : Prog κ τ ε α} {Q : α → τ → Prop}
    {E : ε → τ → Prop} {C : τ → Prop} {Q' : α → σ → Prop} {E' : ε → σ → Prop} {C' : σ → Prop}
    (hA : ∀ c, A' c → A (ch c)) (h : wp A p Q E C (view s)) (hQ : ∀ a t, Q a t → Q' a (put t s))
    (hE : ∀ e t, E e t → E' e (put t s)) (hC : ∀ t, C t → C' (put t s)) :
    wp A' (embed ch view put p) Q' E' C' s := by
  intro sc hsc
  have hsc' : ∀ c ∈ sc.map ch, A c := by
    intro c hc
    obtain ⟨c', hc', rfl⟩ := List.mem_map.mp hc
    exact hA c' (hsc c' hc')
  have hdrop : ∀ n, ∀ c ∈ sc.drop n, A' c := fun n c hc => hsc c (List.mem_of_mem_drop hc)
  have hp := h (sc.map ch) hsc'
  unfold embed
  generalize p (sc.map ch) (view s) = r at hp ⊢
  obtain ⟨r, t⟩ := r
  cases r with
  | done a rest => exact ⟨hQ a t hp.1, hdrop _⟩
  | failed e rest => exact ⟨hE e t hp.1, hdrop _⟩
  | cut => exact hC t hp

theorem wp_true : wp (fun _ => True) p (fun _ _ => True) (fun _ _ => True) (fun _ => True) s := by
  intro sc _
  generalize p sc s = r
  obtain ⟨r, s'⟩ := r
  cases r <;> simp [Exit.Holds]

/-- What a run leaves behind satisfies whatever all three conditions imply. -/
theorem wp_after {C I : σ → Prop} (h : wp A p Q E C s) (hsc : ∀ c ∈ sc, A c)
    (hQ : ∀ a s, Q a s → I s) (hE : ∀ e s, E e s → I s)
    (hC : ∀ s, C s → I s) : I (p.after sc s) := by
  have hp := h sc hsc
  unfold Prog.after
  generalize p sc s = r at hp ⊢
  obtain ⟨r, s'⟩ := r
  cases r with
  | done a rest => exact hQ a s' hp.1
  | failed e rest => exact hE e s' hp.1
  | cut => exact hC s' hp

-- From here on `wp` is used through its rules and `wp.run` only.
attribute [irreducible] wp

/-! ### Programs that keep an invariant -/

/-- `p` keeps `I` however it ends, and leaves `C` where it is cut. -/
def Keeps (A : κ → Prop) (I C : σ → Prop) (p : Prog κ σ ε α) : Prop :=
  ∀ s, I s → wp A p (fun _ => I) (fun _ => I) C s

section keeps
variable {A : κ → Prop} {I C : σ → Prop}

theorem keeps_ret : Keeps A I C (ret a : Prog κ σ ε α) := fun _ h => wp_ret h

theorem keeps_pure : Keeps A I C (pure a : Prog κ σ ε α) := fun _ h => wp_pure h

theorem keeps_fail {e : ε} : Keeps A I C (fail e : Prog κ σ ε α) := fun _ h => wp_fail h

theorem keeps_lift {x : Except ε α} : Keeps A I C (lift x) :=
  fun _ h => wp_lift (fun _ _ => h) fun _ _ => h

theorem keeps_bind {p : Prog κ σ ε β} {f : β → Prog κ σ ε α} (hp : Keeps A I C p)
    (hf : ∀ b, Keeps A I C (f b)) : Keeps A I C (p >>= f) :=
  fun s h => wp_seq (hp s h) (fun b s' h' => hf b s' h') (fun _ _ h' => h') fun _ h' => h'

theorem keeps_ite {b : Prop} [Decidable b] {p q : Prog κ σ ε α} (hp : b → Keeps A I C p)
    (hq : ¬ b → Keeps A I C q) : Keeps A I C (if b then p else q) := by
  split_ifs with h
  · exact hp h
  · exact hq h

theorem keeps_unless {b : Prop} [Decidable b] (hp : ¬ b → Keeps A I C p) :
    Keeps A I C (if b then pure a else p) := keeps_ite (fun _ => keeps_pure) hp

theorem keeps_attempt (hp : Keeps A I C p) : Keeps A I C (attempt p) :=
  fun s h => wp_attempt (hp s h)

theorem keeps_forEach {f : β → Prog κ σ ε Unit} (hf : ∀ b, Keeps A I C (f b)) (l : List β) :
    Keeps A I C (forEach f l) :=
  fun _ h => wp_forEach (fun _ => I) h fun b _ s h => hf b s h

theorem keeps_loop {f : β → Prog κ σ ε (β ⊕ α)} (hC : ∀ s, I s → C s)
    (hf : ∀ b, Keeps A I C (f b)) (b : β) : Keeps A I C (loop f b) := by
  intro s h
  refine wp_loop (fun _ => I) (fun _ => hC) (fun b s h => ?_) h
  refine wp_mono (hf b s h) (fun r s' h' => ?_) (fun _ _ h' => h') fun _ h' => h'
  cases r <;> exact h'

variable {A' : κ' → Prop} {ch : κ' → κ} {p : Prog κ τ ε α} {view : σ → τ}

theorem keeps_embed {I C : τ → Prop} (hA : ∀ c, A' c → A (ch c)) (hview : ∀ t s, view (put t s) = t)
    (hp : Keeps A I C p) :
    Keeps A' (fun s => I (view s)) (fun s => C (view s)) (embed ch view put p) :=
  fun s h => wp_embed hA (hp (view s) h) (fun _ t ht => by rwa [hview])
    (fun _ t ht => by rwa [hview]) fun t ht => by rwa [hview]

/-- Any program of a part keeps what does not depend on that part. -/
theorem keeps_frame {I C : σ → Prop} (hI : ∀ t s, I s → I (put t s)) (hC : ∀ s, I s → C s) :
    Keeps A' I C (embed ch view put p) :=
  fun s h => wp_embed (fun _ _ => trivial) wp_true (fun _ t _ => hI t s h)
    (fun _ t _ => hI t s h) fun t _ => hC _ (hI t s h)

end keeps

/-! ### Step bounds -/

/-- `p` takes at most `n` steps. -/
def Bounded (n : ℕ) (p : Prog κ σ ε α) : Prop := ∀ sc s,
  match p sc s with
  | (.done _ rest, _) => sc.length ≤ rest.length + n
  | (.failed _ rest, _) => sc.length ≤ rest.length + n
  | (.cut, _) => sc.length < n

theorem Bounded.mono {m : ℕ} (h : Bounded m p) (hmn : m ≤ n) : Bounded n p := by
  intro sc s
  have hp := h sc s
  generalize p sc s = r at hp ⊢
  obtain ⟨r, s'⟩ := r
  cases r <;> simp only at hp ⊢ <;> omega

theorem bounded_ret (a : α) : Bounded 0 (ret a : Prog κ σ ε α) := fun sc _ => by
  simp [ret]

theorem bounded_fail (e : ε) : Bounded 0 (fail e : Prog κ σ ε α) := fun sc _ => by
  simp [fail]

theorem bounded_step (f : κ → σ → Except ε α × σ) : Bounded 1 (step f) := by
  intro sc s
  cases sc with
  | nil => simp [step]
  | cons c sc =>
    simp only [step]
    generalize f c s = r
    obtain ⟨r, s'⟩ := r
    cases r <;> simp

theorem bounded_bind {m k : ℕ} {f : α → Prog κ σ ε β} (hp : Bounded m p) (hf : ∀ a, Bounded n (f a))
    (hk : m + n ≤ k) : Bounded k (p >>= f) := by
  intro sc s
  have h := hp sc s
  show match Prog.bind p f sc s with
    | (.done _ rest, _) => sc.length ≤ rest.length + k
    | (.failed _ rest, _) => sc.length ≤ rest.length + k
    | (.cut, _) => sc.length < k
  unfold Prog.bind
  generalize p sc s = r at h ⊢
  obtain ⟨r, s'⟩ := r
  cases r with
  | done a rest =>
    have hfa := hf a rest s'
    simp only at h ⊢
    generalize f a rest s' = r at hfa ⊢
    obtain ⟨r, s''⟩ := r
    cases r <;> simp only at hfa ⊢ <;> omega
  | failed | cut => simp only at h ⊢; omega

theorem bounded_attempt (hp : Bounded n p) : Bounded n (attempt p) := by
  intro sc s
  have h := hp sc s
  unfold attempt
  generalize p sc s = r at h ⊢
  obtain ⟨r, s'⟩ := r
  cases r <;> exact h

theorem bounded_lift (x : Except ε α) : Bounded 0 (lift x : Prog κ σ ε α) := by
  cases x with
  | ok a => exact bounded_ret a
  | error e => exact bounded_fail e

theorem bounded_pure (a : α) : Bounded 0 (pure a : Prog κ σ ε α) := bounded_ret a

theorem bounded_ite {m k : ℕ} {b : Prop} [Decidable b] {q : Prog κ σ ε α} (hp : Bounded m p)
    (hq : Bounded n q) (hm : m ≤ k) (hn : n ≤ k) : Bounded k (if b then p else q) := by
  split_ifs
  · exact hp.mono hm
  · exact hq.mono hn

theorem bounded_forEach {f : β → Prog κ σ ε Unit} (hf : ∀ b, Bounded n (f b)) (l : List β) :
    Bounded (l.length * n) (forEach f l) := by
  induction l with
  | nil => exact Bounded.mono (bounded_ret ()) (Nat.zero_le _)
  | cons b bs ih =>
    refine bounded_bind (hf b) (fun _ => ih) (Nat.le_of_eq ?_)
    rw [List.length_cons, Nat.succ_mul, Nat.add_comm]

theorem done_of_bounded {C : σ → Prop} (hb : Bounded n p) (hn : n ≤ sc.length)
    (h : wp A p Q (fun _ _ => False) C s) (hsc : ∀ c ∈ sc, A c) :
    ∃ a rest, p sc s = (.done a rest, p.after sc s) ∧ Q a (p.after sc s) := by
  have hp := h.run hsc
  have hlen := hb sc s
  unfold Prog.after
  generalize p sc s = r at hp hlen ⊢
  obtain ⟨r, s'⟩ := r
  cases r with
  | done a rest => exact ⟨a, rest, rfl, hp.1⟩
  | failed e rest => exact hp.1.elim
  | cut => simp only at hlen; omega

end CutProg
