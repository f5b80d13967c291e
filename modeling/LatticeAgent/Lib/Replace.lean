import Mathlib.Data.List.Infix
import Mathlib.Data.List.TakeWhile

/-! # Replacing occurrences

`replaceAll old new s` replaces the occurrences of `old` in `s` from left to right, none of which
overlap, and `replaceEach olds new s` does so for one text after another.

`Apart old mark` says that no occurrence of `old` ever overlaps one of `mark`. Texts in which
occurrences have been replaced by such a mark are lists of tokens: an item that is still there, or
what the mark stands for (`original`, `shown`). Replacing once more only cuts out more
(`exists_replaced`). -/

namespace Replace

open List

section Occurrences

variable {α : Type} {old mark s : List α}

/-- An occurrence in two texts put together that does not start in the first is one in the
second. -/
theorem exists_of_append {p a b : List α} (h : p ++ s = a ++ old ++ b)
    (hle : p.length ≤ a.length) : ∃ a', a = p ++ a' ∧ s = a' ++ old ++ b := by
  rw [append_assoc] at h
  obtain ⟨a', rfl⟩ := prefix_of_prefix_length_le ⟨s, rfl⟩ ⟨old ++ b, h.symm⟩ hle
  refine ⟨a', rfl, ?_⟩
  rw [append_assoc] at h ⊢
  exact append_cancel_left h

/-- Every occurrence of a text in `x ++ s ++ y` lies inside that `s`. -/
def Inside (x s y old : List α) : Prop :=
  ∀ a b, x ++ s ++ y = a ++ old ++ b →
    x.length ≤ a.length ∧ a.length + old.length ≤ x.length + s.length

theorem inside_of_drop {x y : List α}
    (h : ∀ i ≤ (x ++ s ++ y).length, old <+: (x ++ s ++ y).drop i →
      x.length ≤ i ∧ i + old.length ≤ x.length + s.length) : Inside x s y old := by
  intro a b heq
  have hlength := congrArg List.length heq
  simp only [length_append] at hlength
  refine h a.length ?_ ⟨b, ?_⟩
  · simp only [length_append]
    omega
  · rw [heq, append_assoc, drop_left]

section Inside

variable {x y : List α} (h : Inside x s y old)
include h

theorem Inside.infix_iff : old <:+: x ++ s ++ y ↔ old <:+: s := by
  constructor
  · rintro ⟨a, b, heq⟩
    obtain ⟨hstart, hend⟩ := h a b heq.symm
    rw [append_assoc x] at heq
    obtain ⟨a', rfl, htail⟩ := exists_of_append heq.symm hstart
    rw [length_append] at hend
    obtain ⟨b', hb'⟩ := prefix_of_prefix_length_le ⟨b, htail.symm⟩ ⟨y, rfl⟩
      (show (a' ++ old).length ≤ s.length by rw [length_append]; omega)
    exact ⟨a', b', hb'⟩
  · rintro ⟨a, b, rfl⟩
    exact ⟨x ++ a, b ++ y, by simp⟩

theorem Inside.not_infix_left (hold : old ≠ []) : ¬ old <:+: x := by
  rintro ⟨a, b, rfl⟩
  have hold' := length_pos_iff.2 hold
  have hstart := (h a (b ++ s ++ y) (by simp)).1
  simp only [length_append] at hstart
  omega

theorem Inside.not_infix_right (hold : old ≠ []) : ¬ old <:+: y := by
  rintro ⟨a, b, rfl⟩
  have hold' := length_pos_iff.2 hold
  have hend := (h (x ++ s ++ a) b (by simp)).2
  simp only [length_append] at hend
  omega

end Inside

/-- No occurrence of a text overlaps the mark between `u` and `v`. -/
def Clear (u mark v old : List α) : Prop :=
  ∀ a b, u ++ mark ++ v = a ++ old ++ b →
    a.length + old.length ≤ u.length ∨ u.length + mark.length ≤ a.length

theorem Clear.infix_or {u v : List α} (h : Clear u mark v old) (hin : old <:+: u ++ mark ++ v) :
    old <:+: u ∨ old <:+: v := by
  obtain ⟨a, b, heq⟩ := hin
  rcases h a b heq.symm with hle | hle
  · rw [append_assoc u] at heq
    obtain ⟨b', hb'⟩ := prefix_of_prefix_length_le ⟨b, heq⟩ ⟨mark ++ v, rfl⟩
      (show (a ++ old).length ≤ u.length by rwa [length_append])
    exact .inl ⟨a, b', hb'⟩
  · obtain ⟨a', -, hv⟩ := exists_of_append heq.symm (by rwa [length_append])
    exact .inr ⟨a', b, hv.symm⟩

/-- Wherever the mark stands, no occurrence of a text overlaps it. -/
def Apart (old mark : List α) : Prop := ∀ u v, Clear u mark v old

theorem Apart.of_head {c d : α} {cs ds : List α} (hc : c ∉ d :: ds) (hd : d ∉ c :: cs) :
    Apart (c :: cs) (d :: ds) := by
  intro u v a b heq
  by_contra hoverlap
  rw [not_or, not_le, not_le] at hoverlap
  obtain ⟨hleft, hright⟩ := hoverlap
  rcases le_total u.length a.length with hle | hle
  · rw [append_assoc] at heq
    obtain ⟨a', rfl, hstart⟩ := exists_of_append heq hle
    apply hc
    have hget : (d :: ds ++ v)[a'.length]? = some c := by rw [hstart]; simp
    rw [getElem?_append_left (by simp at hright ⊢; omega)] at hget
    exact mem_of_getElem? hget
  · rw [append_assoc a] at heq
    obtain ⟨u', rfl, hstart⟩ := exists_of_append heq.symm hle
    apply hd
    have hget : (c :: cs ++ b)[u'.length]? = some d := by rw [hstart]; simp
    rw [getElem?_append_left (by simp at hleft ⊢; omega)] at hget
    exact mem_of_getElem? hget

end Occurrences

/-! ### Texts with marks -/

section Tokens

variable {α : Type} {old mark : List α} {tokens : List (α ⊕ List α)}

/-- The text that tokens stand for. -/
def original (tokens : List (α ⊕ List α)) : List α := tokens.flatMap fun
  | .inl c => [c]
  | .inr cut => cut

/-- The text with marks. -/
def shown (mark : List α) (tokens : List (α ⊕ List α)) : List α := tokens.flatMap fun
  | .inl c => [c]
  | .inr _ => mark

theorem original_append (t u : List (α ⊕ List α)) : original (t ++ u) = original t ++ original u :=
  flatMap_append

theorem shown_append (t u : List (α ⊕ List α)) :
    shown mark (t ++ u) = shown mark t ++ shown mark u :=
  flatMap_append

@[simp] theorem original_inl (s : List α) : original (s.map .inl) = s := by
  induction s with
  | nil => rfl
  | cons c s ih => exact congrArg (c :: ·) ih

@[simp] theorem shown_inl (s : List α) : shown mark (s.map .inl) = s := by
  induction s with
  | nil => rfl
  | cons c s ih => exact congrArg (c :: ·) ih

@[simp] theorem original_inr (cut : List α) (tokens : List (α ⊕ List α)) :
    original (.inr cut :: tokens) = cut ++ original tokens := rfl

@[simp] theorem shown_inr (cut : List α) (tokens : List (α ⊕ List α)) :
    shown mark (.inr cut :: tokens) = mark ++ shown mark tokens := rfl

theorem exists_inl (tokens : List (α ⊕ List α)) :
    (∃ p : List α, tokens = p.map .inl) ∨
      ∃ (p : List α) (cut : List α) (rest : _), tokens = p.map .inl ++ .inr cut :: rest := by
  induction tokens with
  | nil => exact .inl ⟨[], rfl⟩
  | cons token tokens ih =>
    cases token with
    | inr cut => exact .inr ⟨[], cut, tokens, rfl⟩
    | inl c =>
      rcases ih with ⟨p, rfl⟩ | ⟨p, cut, rest, rfl⟩
      · exact .inl ⟨c :: p, rfl⟩
      · exact .inr ⟨c :: p, cut, rest, rfl⟩

theorem exists_inl_last (tokens : List (α ⊕ List α)) :
    (∃ q : List α, tokens = q.map .inl) ∨
      ∃ (front : _) (cut : List α) (q : List α), tokens = front ++ .inr cut :: q.map .inl := by
  rw [← reverse_reverse tokens]
  rcases exists_inl tokens.reverse with ⟨p, hp⟩ | ⟨p, cut, rest, hp⟩ <;> rw [hp]
  · exact .inl ⟨p.reverse, by simp⟩
  · exact .inr ⟨rest.reverse, cut, p.reverse, by simp⟩

theorem exists_inl_of_prefix (hapart : Apart old mark) (hmark : mark ≠ [])
    (h : old <+: shown mark tokens) : ∃ rest, tokens = old.map .inl ++ rest := by
  rcases exists_inl tokens with ⟨p, rfl⟩ | ⟨p, cut, rest, rfl⟩
  · rw [shown_inl] at h
    obtain ⟨q, rfl⟩ := h
    exact ⟨q.map .inl, map_append⟩
  · rw [shown_append, shown_inl, shown_inr] at h
    obtain ⟨b, hb⟩ := h
    have hmark' := length_pos_iff.2 hmark
    have hfar := hapart p (shown mark rest) [] b (by simpa using hb.symm)
    rw [length_nil] at hfar
    obtain ⟨q, rfl⟩ := prefix_of_prefix_length_le ⟨b, hb⟩ ⟨_, rfl⟩
      (show old.length ≤ p.length by omega)
    exact ⟨q.map .inl ++ .inr cut :: rest, by simp⟩

/-- Tokens for `x ++ s ++ y` whose marks all stand for parts of that `s`, shown as
`x ++ mark ++ y`: the mark stands for `s`. -/
theorem cut_eq_of_shown {x s y cut : List α} (hmark : mark ≠ [])
    (horiginal : original tokens = x ++ s ++ y) (hshown : shown mark tokens = x ++ mark ++ y)
    (hinside : ∀ c, .inr c ∈ tokens → Inside x s y c) (hcut : .inr cut ∈ tokens) : cut = s := by
  have hmark' := length_pos_iff.2 hmark
  rcases exists_inl tokens with ⟨p, rfl⟩ | ⟨p, c, rest, rfl⟩
  · simp at hcut
  simp only [original_append, original_inl, original_inr, shown_append, shown_inl,
    shown_inr] at horiginal hshown
  have hfirst := hinside c (by simp) p (original rest) (by simp [← horiginal])
  rcases exists_inl_last rest with ⟨q, rfl⟩ | ⟨front, c', q, rfl⟩
  · -- one mark: its length is that of `s`, and it starts where `s` does
    simp only [original_inl, shown_inl] at horiginal hshown
    have hlength := congrArg List.length horiginal
    have hlength' := congrArg List.length hshown
    simp only [length_append] at hlength hlength'
    have hcut' : cut = c := by simpa using hcut
    rw [append_assoc] at horiginal
    obtain ⟨-, htail⟩ := append_inj horiginal (by omega)
    rw [hcut']
    exact (append_inj htail (by omega)).1
  · -- two marks leave no room for both of them
    have hlast := hinside c' (by simp) (p ++ (c ++ original front)) q
      (by simp [← horiginal, original_append])
    have hlength := congrArg List.length horiginal
    have hlength' := congrArg List.length hshown
    simp only [length_append, original_append, shown_append, original_inr, shown_inr,
      original_inl, shown_inl] at hlength hlength' hlast
    omega

end Tokens

/-! ### Replacing -/

section Replacing

variable {α : Type} [DecidableEq α]

/-- The loop, with the number of items that belong to the occurrence replaced last. -/
def replaceFrom (old new : List α) : Nat → List α → List α
  | _, [] => []
  | 0, c :: cs =>
    if old <+: c :: cs then new ++ replaceFrom old new (old.length - 1) cs
    else c :: replaceFrom old new 0 cs
  | k + 1, _ :: cs => replaceFrom old new k cs

def replaceAll (old new s : List α) : List α := replaceFrom old new 0 s

def replaceEach (olds : List (List α)) (new s : List α) : List α :=
  olds.foldl (fun s old => replaceAll old new s) s

variable {old new mark s : List α} {olds : List (List α)}

theorem replaceEach_append (olds olds' : List (List α)) :
    replaceEach (olds ++ olds') new s = replaceEach olds' new (replaceEach olds new s) :=
  foldl_append

theorem replaceEach_cons (old : List α) (olds : List (List α)) :
    replaceEach (old :: olds) new s = replaceEach olds new (replaceAll old new s) := rfl

theorem replaceFrom_eq (k : Nat) (s : List α) :
    replaceFrom old new k s = replaceAll old new (s.drop k) := by
  induction k generalizing s with
  | zero => rfl
  | succ k ih =>
    cases s with
    | nil => rfl
    | cons c cs => exact ih cs

theorem replaceAll_occurrence (h : old ≠ []) (s : List α) :
    replaceAll old new (old ++ s) = new ++ replaceAll old new s := by
  obtain ⟨c, cs, rfl⟩ := exists_cons_of_ne_nil h
  have hprefix : c :: cs <+: c :: (cs ++ s) := ⟨s, rfl⟩
  show replaceFrom (c :: cs) new 0 (c :: (cs ++ s)) = _
  rw [replaceFrom, if_pos hprefix, replaceFrom_eq]
  simp

theorem replaceAll_cons {c : α} (h : ¬ old <+: c :: s) :
    replaceAll old new (c :: s) = c :: replaceAll old new s := by
  show replaceFrom old new 0 (c :: s) = _
  rw [replaceFrom, if_neg h]
  rfl

theorem replaceAll_append {p : List α} (h : ∀ a b, p ++ s = a ++ old ++ b → p.length ≤ a.length) :
    replaceAll old new (p ++ s) = p ++ replaceAll old new s := by
  induction p with
  | nil => rfl
  | cons c p ih =>
    rw [cons_append, replaceAll_cons, ih, cons_append]
    · intro a b heq
      have hle := h (c :: a) b (by rw [cons_append, heq]; rfl)
      simpa using hle
    · rintro ⟨b, hb⟩
      have hle := h [] b (by rw [cons_append, ← hb]; rfl)
      simp at hle

theorem replaceAll_of_not_infix (h : ¬ old <:+: s) : replaceAll old new s = s := by
  have hnone := @replaceAll_append _ _ old new [] s fun a b heq =>
    absurd ⟨a, b, by rw [← heq, append_nil]⟩ h
  rw [append_nil] at hnone
  exact hnone.trans (append_nil s)

theorem replaceEach_of_not_infix (h : ∀ old ∈ olds, ¬ old <:+: s) : replaceEach olds new s = s := by
  induction olds with
  | nil => rfl
  | cons old olds ih =>
    rw [replaceEach_cons, replaceAll_of_not_infix (h old (.head _))]
    exact ih fun t ht => h t (.tail _ ht)

/-- What one more replacement does to tokens. -/
structure Replaced (old mark : List α) (tokens tokens' : List (α ⊕ List α)) : Prop where
  original_eq : original tokens' = original tokens
  shown_eq : shown mark tokens' = replaceAll old mark (shown mark tokens)
  kept : ∀ cut, .inr cut ∈ tokens → .inr cut ∈ tokens'
  cut : ∀ cut, .inr cut ∈ tokens' → .inr cut ∈ tokens ∨ cut = old
  found : old <:+: shown mark tokens → .inr old ∈ tokens'

/-- A mark at the beginning stays, and so do the occurrences after it. -/
theorem replaceAll_mark (hapart : Apart old mark) (hold : old ≠ []) (s : List α) :
    replaceAll old mark (mark ++ s) = mark ++ replaceAll old mark s ∧
      (old <:+: mark ++ s → old <:+: s) := by
  have hold' := length_pos_iff.2 hold
  have hfar : ∀ a b, mark ++ s = a ++ old ++ b → mark.length ≤ a.length := by
    intro a b heq
    have := hapart [] s a b heq
    rw [length_nil] at this
    omega
  refine ⟨replaceAll_append hfar, ?_⟩
  rintro ⟨a, b, heq⟩
  obtain ⟨a', -, hs⟩ := exists_of_append heq.symm (hfar a b heq.symm)
  exact ⟨a', b, hs.symm⟩

theorem exists_replaced (hapart : Apart old mark) (hmark : mark ≠ []) (hold : old ≠ [])
    (tokens : List (α ⊕ List α)) : ∃ tokens', Replaced old mark tokens tokens' := by
  by_cases hprefix : old <+: shown mark tokens
  · obtain ⟨rest, rfl⟩ := exists_inl_of_prefix hapart hmark hprefix
    have hshorter : rest.length < (old.map Sum.inl ++ rest).length := by
      simpa using length_pos_iff.2 hold
    obtain ⟨rest', h⟩ := exists_replaced hapart hmark hold rest
    refine ⟨.inr old :: rest', ?_, ?_, ?_, ?_, ?_⟩
    · rw [original_inr, h.original_eq, original_append, original_inl]
    · rw [shown_inr, h.shown_eq, shown_append, shown_inl, replaceAll_occurrence hold]
    · intro cut hcut
      have hrest : .inr cut ∈ rest := by simpa using hcut
      exact .tail _ (h.kept cut hrest)
    · intro cut hcut
      rcases mem_cons.1 hcut with heq | hrest
      · exact .inr (Sum.inr.inj heq)
      · exact (h.cut cut hrest).imp_left (mem_append_right _)
    · exact fun _ => .head _
  · cases tokens with
    | nil =>
      refine ⟨[], rfl, rfl, fun _ h => h, fun _ h => .inl h, fun h => ?_⟩
      exact absurd (infix_nil.1 h) hold
    | cons token rest =>
      obtain ⟨rest', h⟩ := exists_replaced hapart hmark hold rest
      have hstep : replaceAll old mark (shown mark (token :: rest)) =
          shown mark [token] ++ replaceAll old mark (shown mark rest) ∧
            (old <:+: shown mark (token :: rest) → old <:+: shown mark rest) := by
        cases token with
        | inl c => exact ⟨replaceAll_cons hprefix, fun hin =>
          (infix_cons_iff.1 hin).resolve_left hprefix⟩
        | inr cut => simpa [shown] using replaceAll_mark hapart hold (shown mark rest)
      refine ⟨token :: rest', ?_, ?_, ?_, ?_, ?_⟩
      · show original ([token] ++ rest') = original ([token] ++ rest)
        rw [original_append, h.original_eq, original_append]
      · rw [hstep.1, ← h.shown_eq, ← shown_append]
        rfl
      · intro cut hcut
        rcases mem_cons.1 hcut with rfl | hrest
        · exact .head _
        · exact .tail _ (h.kept cut hrest)
      · intro cut hcut
        rcases mem_cons.1 hcut with rfl | hrest
        · exact .inl (.head _)
        · exact (h.cut cut hrest).imp_left (.tail _)
      · exact fun hin => .tail _ (h.found (hstep.2 hin))
termination_by tokens.length

theorem exists_replacedEach (hmark : mark ≠ []) (hapart : ∀ t ∈ olds, Apart t mark)
    (holds : ∀ t ∈ olds, t ≠ []) (tokens : List (α ⊕ List α)) :
    ∃ tokens', original tokens' = original tokens ∧
      shown mark tokens' = replaceEach olds mark (shown mark tokens) ∧
      (∀ cut, .inr cut ∈ tokens → .inr cut ∈ tokens') ∧
      ∀ cut, .inr cut ∈ tokens' → .inr cut ∈ tokens ∨ cut ∈ olds := by
  induction olds generalizing tokens with
  | nil => exact ⟨tokens, rfl, rfl, fun _ h => h, fun _ h => .inl h⟩
  | cons t olds ih =>
    obtain ⟨next, h⟩ := exists_replaced (hapart t (.head _)) hmark (holds t (.head _)) tokens
    obtain ⟨last, horiginal, hshown, hkept, hcut⟩ := ih (fun u hu => hapart u (.tail _ hu))
      (fun u hu => holds u (.tail _ hu)) next
    refine ⟨last, horiginal.trans h.original_eq, ?_, ?_, ?_⟩
    · rw [hshown, h.shown_eq, replaceEach_cons]
    · exact fun cut hin => hkept cut (h.kept cut hin)
    · intro cut hin
      rcases hcut cut hin with hnext | hlater
      · rcases h.cut cut hnext with hbefore | rfl
        · exact .inl hbefore
        · exact .inr (.head _)
      · exact .inr (.tail _ hlater)

theorem takeWhile_ne_append {s : List α} (h : s ∈ olds) :
    ∃ after, olds = olds.takeWhile (· ≠ s) ++ s :: after := by
  induction olds with
  | nil => cases h
  | cons t olds ih =>
    by_cases hts : t = s
    · exact ⟨olds, by simp [hts]⟩
    · obtain ⟨after, hafter⟩ := ih ((mem_cons.1 h).resolve_left fun heq => hts heq.symm)
      refine ⟨after, ?_⟩
      rw [takeWhile_cons_of_pos (by simpa using hts), cons_append, ← hafter]

theorem exists_first_part {s : List α} (h : ∃ t ∈ olds.takeWhile (· ≠ s), t <:+: s) :
    ∃ before t later, olds = before ++ t :: later ∧ t ≠ s ∧ t <:+: s ∧
      ∀ u ∈ before, ¬ u <:+: s := by
  obtain ⟨t, ht⟩ : ∃ t, (olds.takeWhile (· ≠ s)).find? (· <:+: s) = some t := by
    rw [← Option.isSome_iff_exists, find?_isSome]
    simpa using h
  have hne : t ≠ s := by simpa using mem_takeWhile_imp (mem_of_find?_eq_some ht)
  obtain ⟨hin, before, after, hsplit, hbefore⟩ := find?_eq_some_iff_append.1 ht
  obtain ⟨rest, hrest⟩ := takeWhile_prefix (l := olds) (· ≠ s)
  refine ⟨before, t, after ++ rest, ?_, hne, by simpa using hin, by simpa using hbefore⟩
  rw [← hrest, hsplit, append_assoc, cons_append]

section Whole

variable {x s y : List α}

/-- Texts none of which is part of `s` before `s` itself: `s` is replaced as a whole. -/
theorem replaceEach_whole (hs : s ∈ olds) (holds : ∀ t ∈ olds, t ≠ [])
    (hinside : ∀ t ∈ olds, Inside x s y t) (hclear : ∀ t ∈ olds, Clear x mark y t)
    (hfirst : ∀ t ∈ olds.takeWhile (· ≠ s), ¬ t <:+: s) :
    replaceEach olds mark (x ++ s ++ y) = x ++ mark ++ y := by
  obtain ⟨after, hafter⟩ := takeWhile_ne_append hs
  generalize olds.takeWhile (· ≠ s) = before at hafter hfirst
  subst hafter
  have hbefore : replaceEach before mark (x ++ s ++ y) = x ++ s ++ y := by
    apply replaceEach_of_not_infix
    intro t ht hin
    exact hfirst t ht ((hinside t (mem_append_left _ ht)).infix_iff.1 hin)
  have hself : replaceAll s mark (x ++ s ++ y) = x ++ mark ++ y := by
    have hsinside := hinside s hs
    rw [append_assoc, replaceAll_append, replaceAll_occurrence (holds s hs),
      replaceAll_of_not_infix (hsinside.not_infix_right (holds s hs)), append_assoc]
    intro a b heq
    exact (hsinside a b (by rw [append_assoc, heq])).1
  have hlater : replaceEach after mark (x ++ mark ++ y) = x ++ mark ++ y := by
    apply replaceEach_of_not_infix
    intro t ht hin
    have hmem : t ∈ before ++ s :: after := mem_append_right _ (.tail _ ht)
    rcases (hclear t hmem).infix_or hin with hleft | hright
    · exact (hinside t hmem).not_infix_left (holds t hmem) hleft
    · exact (hinside t hmem).not_infix_right (holds t hmem) hright
  rw [replaceEach_append, hbefore, replaceEach_cons, hself, hlater]

/-- A text replaced before `s` that is part of `s` keeps `s` from being replaced as a whole. -/
theorem not_infix_of_replaceEach_whole (hmark : mark ≠ []) (hs : s ∈ olds)
    (holds : ∀ t ∈ olds, t ≠ []) (hinside : ∀ t ∈ olds, Inside x s y t)
    (hapart : ∀ t ∈ olds, Apart t mark)
    (hwhole : replaceEach olds mark (x ++ s ++ y) = x ++ mark ++ y) :
    ∀ t ∈ olds.takeWhile (· ≠ s), ¬ t <:+: s := by
  by_contra hpart
  push Not at hpart
  obtain ⟨before, t, later, rfl, hne, hin, hbefore⟩ := exists_first_part hpart
  have hmem : ∀ u ∈ t :: later, u ∈ before ++ t :: later := fun _ => mem_append_right _
  have htinside := hinside t (hmem t (.head _))
  have huntouched : replaceEach before mark (x ++ s ++ y) = x ++ s ++ y := by
    apply replaceEach_of_not_infix
    intro u hu hin
    exact hbefore u hu ((hinside u (mem_append_left _ hu)).infix_iff.1 hin)
  rw [replaceEach_append, huntouched, replaceEach_cons] at hwhole
  -- the first of them is cut out of the text as it came, and what is cut out stays cut out
  obtain ⟨next, h⟩ := exists_replaced (hapart t (hmem t (.head _))) hmark
    (holds t (hmem t (.head _))) ((x ++ s ++ y).map .inl)
  obtain ⟨last, horiginal, hshown, hkept, hcut⟩ := exists_replacedEach hmark
    (fun u hu => hapart u (hmem u (.tail _ hu))) (fun u hu => holds u (hmem u (.tail _ hu))) next
  rw [h.original_eq, original_inl] at horiginal
  rw [h.shown_eq, shown_inl, hwhole] at hshown
  have hfound : .inr t ∈ last := by
    apply hkept t (h.found ?_)
    rw [shown_inl]
    exact htinside.infix_iff.2 hin
  have hlast : ∀ c, .inr c ∈ last → Inside x s y c := by
    intro c hc
    rcases hcut c hc with hnext | hlater
    · rcases h.cut c hnext with hfirst | rfl
      · simp at hfirst
      · exact htinside
    · exact hinside c (hmem c (.tail _ hlater))
  exact hne (cut_eq_of_shown hmark horiginal hshown hlast hfound)

end Whole

end Replacing

end Replace
