import Mathlib.Data.List.Infix

/-! # Regular expressions by backtracking

`run r g s k` matches `r` at the front of `s` and goes on with `k`, which gets the captured
groups and the rest of the text; where `k` fails, the next way to match is tried, in the
order of a backtracking engine: a greedy repetition takes as much as it can first, a lazy
one as little, an option and an alternative their first branch. What it finds is the
leftmost-first match of an expression that is anchored at the start of the text.

Repetitions are of one kind of character. A greedy repetition stops where it has to
(`greedy_token`), or at the last place where the rest of the expression matches
(`greedy_last`); a lazy one at the first such place (`lazily_first`). -/

namespace Regex

open List

variable {ν α : Type} {p : Char → Bool} {s v w : List Char} {k : List Char → Option α} {x : α}

/-! ### Repetitions -/

/-- As many characters of the kind as `k` can do without. -/
def greedy (p : Char → Bool) : List Char → (List Char → Option α) → Option α
  | [], k => k []
  | c :: s, k => if p c then (greedy p s k).or (k (c :: s)) else k (c :: s)

/-- As few characters of the kind as `k` can do with. -/
def lazily (p : Char → Bool) : List Char → (List Char → Option α) → Option α
  | [], k => k []
  | c :: s, k => (k (c :: s)).or (if p c then lazily p s k else none)

theorem greedy_none (h : ∀ r, r <:+ s → k r = none) : greedy p s k = none := by
  induction s with
  | nil => exact h [] nil_suffix
  | cons c s ih =>
    rw [greedy, ih fun r hr => h r (hr.trans (suffix_cons c s)), h (c :: s) suffix_rfl]
    split <;> rfl

theorem greedy_sound (h : greedy p s k = some x) : ∃ r, r <:+ s ∧ k r = some x := by
  induction s with
  | nil => exact ⟨[], suffix_rfl, h⟩
  | cons c s ih =>
    rw [greedy] at h
    split at h
    · rcases Option.or_eq_some_iff.mp h with h | ⟨-, h⟩
      · obtain ⟨r, hr, hx⟩ := ih h
        exact ⟨r, hr.trans (suffix_cons c s), hx⟩
      · exact ⟨c :: s, suffix_rfl, h⟩
    · exact ⟨c :: s, suffix_rfl, h⟩

theorem lazily_sound (h : lazily p s k = some x) : ∃ r, r <:+ s ∧ k r = some x := by
  induction s with
  | nil => exact ⟨[], suffix_rfl, h⟩
  | cons c s ih =>
    rcases Option.or_eq_some_iff.mp h with h | ⟨-, h⟩
    · exact ⟨c :: s, suffix_rfl, h⟩
    · split at h
      · obtain ⟨r, hr, hx⟩ := ih h
        exact ⟨r, hr.trans (suffix_cons c s), hx⟩
      · cases h

/-- Where the rest of the expression begins with another kind of character, the repetition
ends where the kind ends. -/
theorem greedy_token (hw : ∀ c ∈ w, p c) (hv : ∀ c r, v = c :: r → p c = false)
    (hk : ∀ c r, p c → k (c :: r) = none) : greedy p (w ++ v) k = k v := by
  induction w with
  | nil =>
    cases v with
    | nil => rfl
    | cons c r => simp [greedy, hv c r rfl]
  | cons c w ih =>
    have hc := hw c mem_cons_self
    rw [cons_append, greedy, if_pos hc, ih fun d hd => hw d (mem_cons_of_mem c hd),
      hk c _ hc, Option.or_none]

/-- The last place where the rest of the expression matches. -/
theorem greedy_last (hw : ∀ c ∈ w, p c) (hx : k v = some x)
    (hlater : ∀ r, r <:+ v → r ≠ v → k r = none) : greedy p (w ++ v) k = some x := by
  induction w with
  | nil =>
    cases v with
    | nil => exact hx
    | cons c r =>
      have hnone : greedy p r k = none := greedy_none fun r' hr' =>
        hlater r' (hr'.trans (suffix_cons c r)) fun heq => by
          have hle := hr'.length_le
          rw [heq, length_cons] at hle
          omega
      rw [nil_append, greedy, hnone, hx]
      split <;> rfl
  | cons c w ih =>
    rw [cons_append, greedy, if_pos (hw c mem_cons_self),
      ih fun d hd => hw d (mem_cons_of_mem c hd)]
    rfl

theorem suffix_tail {r : List Char} (h : r <:+ v) (hne : r ≠ v) : r <:+ v.tail := by
  cases v with
  | nil => exact h
  | cons c v => exact (suffix_cons_iff.mp h).resolve_left hne

/-- The first place where the rest of the expression matches. -/
theorem lazily_first (hw : ∀ c ∈ w, p c) (hx : k v = some x)
    (hearlier : ∀ r, r <:+ w → r ≠ [] → k (r ++ v) = none) : lazily p (w ++ v) k = some x := by
  induction w with
  | nil => cases v <;> simp [lazily, hx]
  | cons c w ih =>
    have hnone := hearlier (c :: w) suffix_rfl (cons_ne_nil c w)
    rw [cons_append] at hnone
    rw [cons_append, lazily, hnone, if_pos (hw c mem_cons_self),
      ih (fun d hd => hw d (mem_cons_of_mem c hd))
        fun r hr => hearlier r (hr.trans (suffix_cons c w))]
    rfl

end Regex

/-! ### Expressions -/

/-- Regular expressions whose groups have names in `ν`. -/
inductive Regex (ν : Type) where
  | text (t : List Char)
  | char (p : Char → Bool)
  | many (p : Char → Bool)
  | manyLazy (p : Char → Bool)
  | seq (a b : Regex ν)
  | alt (a b : Regex ν)
  | opt (a : Regex ν)
  | group (name : ν) (a : Regex ν)
  | stop

namespace Regex

open List

variable {ν α : Type} {p : Char → Bool} {g : List (ν × List Char)} {s v w : List Char}
  {k : List (ν × List Char) → List Char → Option α} {x : α}

/-- One or more characters of the kind. -/
def plus (p : Char → Bool) : Regex ν := seq (char p) (many p)

def plusLazy (p : Char → Bool) : Regex ν := seq (char p) (manyLazy p)

/-- One expression after the other. -/
def cat : List (Regex ν) → Regex ν
  | [] => text []
  | [r] => r
  | r :: rs => seq r (cat rs)

/-- The first way to match that `k` can go on from. -/
def run : Regex ν → List (ν × List Char) → List Char →
    (List (ν × List Char) → List Char → Option α) → Option α
  | text t, g, s, k => (t.isPrefixOf? s).bind (k g)
  | char _, _, [], _ => none
  | char p, g, c :: s, k => if p c then k g s else none
  | many p, g, s, k => greedy p s (k g)
  | manyLazy p, g, s, k => lazily p s (k g)
  | seq a b, g, s, k => a.run g s fun g s => b.run g s k
  | alt a b, g, s, k => (a.run g s k).or (b.run g s k)
  | opt a, g, s, k => (a.run g s k).or (k g s)
  | group name a, g, s, k =>
    a.run g s fun g r => k ((name, s.take (s.length - r.length)) :: g) r
  | stop, g, s, k => if s = [] then k g [] else none

/-- The groups of the match at the start of the text, and the text behind it. -/
def find (r : Regex ν) (s : List Char) : Option (List (ν × List Char) × List Char) :=
  r.run [] s fun g rest => some (g, rest)

theorem run_seq (a b : Regex ν) : (seq a b).run g s k = a.run g s fun g s => b.run g s k := rfl

theorem run_alt (a b : Regex ν) : (alt a b).run g s k = (a.run g s k).or (b.run g s k) := rfl

theorem run_opt (a : Regex ν) : (opt a).run g s k = (a.run g s k).or (k g s) := rfl

theorem run_many : (many p : Regex ν).run g s k = greedy p s (k g) := rfl

theorem run_group (name : ν) (a : Regex ν) : (group name a).run g s k
    = a.run g s fun g r => k ((name, s.take (s.length - r.length)) :: g) r := rfl

/-- What is found is found by `k` in the text behind some match. -/
theorem run_sound (r : Regex ν) (h : r.run g s k = some x) : ∃ g' s', s' <:+ s ∧ k g' s' = some x := by
  induction r generalizing g s k with
  | text t =>
    obtain ⟨s', hs', hx⟩ := Option.bind_eq_some_iff.mp h
    exact ⟨g, s', ⟨t, isPrefixOf?_eq_some_iff_append_eq.mp hs'⟩, hx⟩
  | char p =>
    cases s with
    | nil => cases h
    | cons c s =>
      rw [run] at h
      split at h
      · exact ⟨g, s, suffix_cons c s, h⟩
      · cases h
  | many p =>
    obtain ⟨s', hs', hx⟩ := greedy_sound h
    exact ⟨g, s', hs', hx⟩
  | manyLazy p =>
    obtain ⟨s', hs', hx⟩ := lazily_sound h
    exact ⟨g, s', hs', hx⟩
  | seq a b iha ihb =>
    obtain ⟨g₁, s₁, hs₁, h₁⟩ := iha h
    obtain ⟨g₂, s₂, hs₂, h₂⟩ := ihb h₁
    exact ⟨g₂, s₂, hs₂.trans hs₁, h₂⟩
  | alt a b iha ihb =>
    rcases Option.or_eq_some_iff.mp h with h | ⟨-, h⟩
    · exact iha h
    · exact ihb h
  | opt a ih =>
    rcases Option.or_eq_some_iff.mp h with h | ⟨-, h⟩
    · exact ih h
    · exact ⟨g, s, suffix_rfl, h⟩
  | group name a ih =>
    obtain ⟨g', s', hs', hx⟩ := ih h
    exact ⟨_, s', hs', hx⟩
  | stop =>
    rw [run] at h
    split at h
    · rename_i hs
      exact ⟨g, [], hs ▸ suffix_rfl, h⟩
    · cases h

@[simp] theorem run_text_append (t : List Char) : (text t).run g (t ++ s) k = k g s := by
  have h : t.isPrefixOf? (t ++ s) = some s := isPrefixOf?_eq_some_iff_append_eq.mpr rfl
  rw [run, h]
  rfl

variable {t : List Char}

theorem run_text_none (h : ¬ t <+: s) : (text t).run g s k = none := by
  have hnone : t.isPrefixOf? s = none := by
    rw [Option.eq_none_iff_forall_ne_some]
    intro r hr
    exact h ⟨r, isPrefixOf?_eq_some_iff_append_eq.mp hr⟩
  rw [run, hnone]
  rfl

theorem run_seq_text_none (r : Regex ν) (h : ¬ t <+: s) : (seq (text t) r).run g s k = none := by
  rw [run_seq, run_text_none h]

theorem run_plus (hne : w ≠ []) (hw : ∀ c ∈ w, p c) (hv : ∀ c r, v = c :: r → p c = false)
    (hk : ∀ c r, p c → k g (c :: r) = none) : (plus p).run g (w ++ v) k = k g v := by
  obtain ⟨c, w, rfl⟩ := exists_cons_of_ne_nil hne
  rw [plus, run, cons_append, run, if_pos (hw c mem_cons_self), run]
  exact greedy_token (fun d hd => hw d (mem_cons_of_mem c hd)) hv hk

theorem run_group_plus (name : ν) (hne : w ≠ []) (hw : ∀ c ∈ w, p c)
    (hv : ∀ c r, v = c :: r → p c = false) (hk : ∀ g c r, p c → k g (c :: r) = none) :
    (group name (plus p)).run g (w ++ v) k = k ((name, w) :: g) v := by
  have htoken := run_plus (g := g)
    (k := fun g r => k ((name, (w ++ v).take ((w ++ v).length - r.length)) :: g) r)
    hne hw hv fun c r hc => hk _ c r hc
  rw [run, htoken, length_append, Nat.add_sub_cancel, take_left]

/-- A lazy token as a group ends at the first place where `k` goes on. -/
theorem run_group_plusLazy (name : ν) (hne : w ≠ []) (hw : ∀ c ∈ w, p c)
    (hx : k ((name, w) :: g) v = some x)
    (hearlier : ∀ g r, r <:+ w → r ≠ [] → k g (r ++ v) = none) :
    (group name (plusLazy p)).run g (w ++ v) k = some x := by
  obtain ⟨c, w, rfl⟩ := exists_cons_of_ne_nil hne
  rw [run_group, plusLazy, run_seq, cons_append, run, if_pos (hw c mem_cons_self), run]
  refine lazily_first (fun d hd => hw d (mem_cons_of_mem c hd)) ?_ fun r hr =>
    hearlier _ r (hr.trans (suffix_cons c w))
  rw [← cons_append, length_append, Nat.add_sub_cancel, take_left]
  exact hx

/-- The text begins with another kind of character. -/
def Breaks (p : Char → Bool) (t : List Char) : Prop := ∃ c s, t = c :: s ∧ p c = false

theorem Breaks.run_text (ht : Breaks p t) {c : Char} (hc : p c) :
    (text t : Regex ν).run g (c :: s) k = none := by
  obtain ⟨d, t, rfl, hd⟩ := ht
  refine run_text_none fun hp => ?_
  rw [(cons_prefix_cons.mp hp).1, hc] at hd
  cases hd

theorem Breaks.run_seq_text (ht : Breaks p t) (r : Regex ν) {c : Char} (hc : p c) :
    (seq (text t) r).run g (c :: s) k = none := by
  rw [run_seq, ht.run_text hc]

theorem Breaks.head {t : List Char} (ht : Breaks p t) {c : Char} {r : List Char}
    (h : t ++ v = c :: r) : p c = false := by
  obtain ⟨d, t, rfl, hd⟩ := ht
  rw [← (List.cons.inj h).1]
  exact hd

/-- A token of the kind up to a text that begins with another kind of character. -/
theorem run_plus_text (ht : Breaks p t) (r : Regex ν) (hne : w ≠ []) (hw : ∀ c ∈ w, p c) :
    (seq (plus p) (seq (text t) r)).run g (w ++ (t ++ v)) k = r.run g v k := by
  rw [run_seq, run_plus hne hw (fun c s => ht.head) fun c s hc => ht.run_seq_text r hc, run_seq,
    run_text_append]

theorem run_group_plus_text (ht : Breaks p t) (name : ν) (r : Regex ν) (hne : w ≠ [])
    (hw : ∀ c ∈ w, p c) :
    (seq (group name (plus p)) (seq (text t) r)).run g (w ++ (t ++ v)) k
      = r.run ((name, w) :: g) v k := by
  rw [run_seq, run_group_plus name hne hw (fun c s => ht.head) fun g c s hc => ht.run_seq_text r hc,
    run_seq, run_text_append]

end Regex
