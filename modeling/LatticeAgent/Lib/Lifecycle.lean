import Mathlib.Data.List.Induction

/-! # The life of a journaled lease

A history of a worker that journals a lease before it runs the work, uploads the result,
and removes the journal once the upload is acknowledged. `Life.next` is the automaton one
lease has to follow: journaled once, run at most once and never as a durable lease without
its journal, uploads of one result only, removed only after an acknowledgement. `Follows`
says that every lease of a history does, and `Follows.once`, `Follows.acked_before_removed`
and `Follows.one_result` read off it what holds between the event that journals a lease and
the one that removes it. -/

namespace Lifecycle

open List

variable {κ ρ : Type} [DecidableEq κ] [DecidableEq ρ]

/-- What happens to leases `κ` and their results `ρ`. -/
inductive Event (κ ρ : Type) where
  /-- The journal of the lease became visible on disk. -/
  | journaled (k : κ)
  /-- The work was started, for a durable lease or not, with or without its journal. -/
  | ran (k : κ) (durable onDisk : Bool)
  | uploaded (k : κ) (r : ρ)
  | acked (k : κ) (r : ρ)
  /-- The journal was unlinked. -/
  | removed (k : κ)
deriving DecidableEq, Repr

/-- Where one lease stands. -/
inductive Life (ρ : Type) where
  | absent
  | live (ran : Bool) (sent : Option ρ) (acked : Bool)
deriving DecidableEq, Repr

/-- One event of the lease `k`; `none` where it breaks the protocol. -/
def Life.next (k : κ) : Life ρ → Event κ ρ → Option (Life ρ)
  | l, .journaled k' =>
    if k' = k then
      match l with
      | .absent => some (.live false none false)
      | .live .. => none
    else some l
  | l, .ran k' durable onDisk =>
    if k' = k then
      if durable && !onDisk then none
      else match l with
      | .absent => some .absent
      | .live false sent acked => some (.live true sent acked)
      | .live true .. => none
    else some l
  | l, .uploaded k' r =>
    if k' = k then
      match l with
      | .absent => some .absent
      | .live ran none acked => some (.live ran (some r) acked)
      | .live ran (some r') acked => if r = r' then some (.live ran (some r') acked) else none
    else some l
  | l, .acked k' _ =>
    if k' = k then
      match l with
      | .absent => some .absent
      | .live ran sent _ => some (.live ran sent true)
    else some l
  | l, .removed k' =>
    if k' = k then
      match l with
      | .live _ _ true => some .absent
      | _ => none
    else some l

/-- Where the lease `k` stands after a history, if it followed the protocol. -/
def life (k : κ) (tr : List (Event κ ρ)) : Option (Life ρ) :=
  tr.foldlM (Life.next k) .absent

/-- Every lease of the history follows the protocol. -/
def Follows (tr : List (Event κ ρ)) : Prop := ∀ k, ∃ l, life k tr = some l

theorem life_append (k : κ) (tr tr' : List (Event κ ρ)) :
    life k (tr ++ tr') = (life k tr).bind fun l => tr'.foldlM (Life.next k) l := by
  unfold life
  rw [foldlM_append]
  rfl

theorem life_snoc (k : κ) (tr : List (Event κ ρ)) (e : Event κ ρ) :
    life k (tr ++ [e]) = (life k tr).bind fun l => Life.next k l e := by
  rw [life_append]
  cases life k tr with
  | none => rfl
  | some l => simp

/-- The event concerns the lease. -/
def Event.lease : Event κ ρ → κ
  | .journaled k => k
  | .ran k _ _ => k
  | .uploaded k _ => k
  | .acked k _ => k
  | .removed k => k

variable {k : κ} {tr : List (Event κ ρ)}

theorem next_of_ne {l : Life ρ} {e : Event κ ρ} (h : e.lease ≠ k) : Life.next k l e = some l := by
  cases e <;> simp_all [Life.next, Event.lease]

/-! ### Between journaling and removal -/

/-- The number of times the work of a lease was started. -/
def runs (k : κ) (tr : List (Event κ ρ)) : ℕ :=
  (tr.filter fun e => match e with
    | .ran k' _ _ => k' = k
    | _ => false).length

/-- What a stretch of history without a removal does to a live lease. -/
structure Stretch (k : κ) (mid : List (Event κ ρ)) (ran : Bool) (sent : Option ρ)
    (acked : Bool) (l : Life ρ) : Prop where
  live : ∃ ran' sent' acked', l = .live ran' sent' acked'
  runs : runs k mid + ran.toNat ≤ 1
  acked : ∀ r s, l = .live r s true → acked = true ∨ ∃ r, .acked k r ∈ mid
  sent : ∀ r, sent = some r → ∀ r', .uploaded k r' ∈ mid → r' = r
  uploads : ∀ r r', .uploaded k r ∈ mid → .uploaded k r' ∈ mid → r = r'

theorem stretch (k : κ) (mid : List (Event κ ρ)) (hmid : .removed k ∉ mid) :
    ∀ (ran : Bool) (sent : Option ρ) (acked : Bool) (l : Life ρ),
      mid.foldlM (Life.next k) (.live ran sent acked) = some l →
      Stretch k mid ran sent acked l := by
  induction mid with
  | nil =>
    intro ran sent acked l hl
    cases hl
    refine ⟨⟨ran, sent, acked, rfl⟩, ?_, fun r s h => ?_, by simp, by simp⟩
    · cases ran <;> simp [runs]
    · cases h; exact .inl rfl
  | cons e mid ih =>
    intro ran sent acked l hl
    have hmid' : Event.removed k ∉ mid := fun h => hmid (mem_cons_of_mem _ h)
    rw [foldlM_cons] at hl
    by_cases he : e.lease = k
    · cases e with
      | journaled k' => simp_all [Life.next, Event.lease]
      | removed k' => simp_all [Event.lease]
      | ran k' d o =>
        obtain rfl : k' = k := he
        cases ran with
        | true => simp [Life.next] at hl
        | false =>
          have hrun : (d && !o) = false ∧
              mid.foldlM (Life.next k') (.live true sent acked) = some l := by
            cases hb : d && !o <;> simp_all [Life.next]
          have st := ih hmid' true sent acked l hrun.2
          refine ⟨st.live, ?_, ?_, ?_, ?_⟩
          · simpa [runs, Nat.add_comm] using st.runs
          · simpa using st.acked
          · simpa using st.sent
          · simpa using st.uploads
      | uploaded k' r =>
        obtain rfl : k' = k := he
        have hrest : ∃ r₀, (sent = none ∨ sent = some r₀) ∧ r = r₀ ∧
            mid.foldlM (Life.next k') (.live ran (some r₀) acked) = some l := by
          cases sent with
          | none => exact ⟨r, .inl rfl, rfl, by simpa [Life.next] using hl⟩
          | some r₀ =>
            by_cases hr : r = r₀
            · exact ⟨r₀, .inr rfl, hr, by simpa [Life.next, hr] using hl⟩
            · simp [Life.next, hr] at hl
        obtain ⟨r₀, hsent, rfl, hl'⟩ := hrest
        have st := ih hmid' ran (some r) acked l hl'
        have hall : ∀ r', .uploaded k' r' ∈ mid → r' = r := st.sent r rfl
        refine ⟨st.live, ?_, ?_, ?_, ?_⟩
        · simpa [runs] using st.runs
        · simpa using st.acked
        · intro r₁ hr₁ r' hr'
          have : r₁ = r := by
            rcases hsent with hs | hs
            · rw [hs] at hr₁; cases hr₁
            · rw [hs] at hr₁; exact (Option.some.inj hr₁).symm
          rw [this]
          rcases mem_cons.mp hr' with h | h
          · cases h; rfl
          · exact hall r' h
        · have heq : ∀ r', .uploaded k' r' ∈ Event.uploaded k' r :: mid → r' = r := by
            intro r' hr'
            rcases mem_cons.mp hr' with h | h
            · cases h; rfl
            · exact hall r' h
          intro r₁ r₂ h₁ h₂
          rw [heq r₁ h₁, heq r₂ h₂]
      | acked k' r =>
        obtain rfl : k' = k := he
        have st := ih hmid' ran sent true l (by simpa [Life.next] using hl)
        refine ⟨st.live, ?_, fun _ _ _ => .inr ⟨r, mem_cons_self⟩, ?_, ?_⟩
        · simpa [runs] using st.runs
        · simpa using st.sent
        · simpa using st.uploads
    · have hne : ∀ r, e ≠ .uploaded k r := fun r h => he (by rw [h]; rfl)
      have hna : ∀ r, e ≠ .acked k r := fun r h => he (by rw [h]; rfl)
      rw [next_of_ne he] at hl
      have st := ih hmid' ran sent acked l hl
      have hruns : runs k (e :: mid) = runs k mid := by
        cases e <;> simp_all [runs, Event.lease]
      refine ⟨st.live, by rw [hruns]; exact st.runs, ?_, ?_, ?_⟩
      · intro r s h
        exact (st.acked r s h).imp_right fun ⟨r', hr'⟩ => ⟨r', mem_cons_of_mem _ hr'⟩
      · intro r hr r' hr'
        exact st.sent r hr r' ((mem_cons.mp hr').resolve_left fun h => hne r' h.symm)
      · intro r r' hr hr'
        exact st.uploads r r' ((mem_cons.mp hr).resolve_left fun h => hne r h.symm)
          ((mem_cons.mp hr').resolve_left fun h => hne r' h.symm)

variable {pre mid post : List (Event κ ρ)}

theorem Follows.stretch (h : Follows tr) (htr : tr = pre ++ .journaled k :: mid ++ post)
    (hmid : .removed k ∉ mid) :
    ∃ l, Stretch k mid false none false l ∧ ∃ l', post.foldlM (Life.next k) l = some l' := by
  obtain ⟨l', hl'⟩ := h k
  rw [htr, append_assoc, life_append, Option.bind_eq_some_iff] at hl'
  obtain ⟨l₀, -, hl'⟩ := hl'
  rw [cons_append, foldlM_cons] at hl'
  cases l₀ with
  | live ran sent acked => simp [Life.next] at hl'
  | absent =>
    simp only [Life.next, if_true, Option.bind_eq_bind, Option.bind_some,
      foldlM_append, Option.bind_eq_some_iff] at hl'
    obtain ⟨l, hl, hpost⟩ := hl'
    exact ⟨l, Lifecycle.stretch k mid hmid false none false l hl, l', hpost⟩

theorem Follows.once (h : Follows tr) (htr : tr = pre ++ .journaled k :: mid ++ post)
    (hmid : .removed k ∉ mid) : runs k mid ≤ 1 := by
  obtain ⟨l, st, -⟩ := h.stretch htr hmid
  simpa using st.runs

/-- A lease that is live was journaled, and not removed since. -/
theorem journaled_of_live {ran acked : Bool} {sent : Option ρ}
    (h : life k tr = some (.live ran sent acked)) :
    ∃ pre mid, tr = pre ++ .journaled k :: mid ∧ .removed k ∉ mid := by
  induction tr using reverseRecOn generalizing ran sent acked with
  | nil => cases h
  | append_singleton tr e ih =>
    rw [life_snoc, Option.bind_eq_some_iff] at h
    obtain ⟨l, hl, hnext⟩ := h
    by_cases hj : e = .journaled k
    · exact ⟨tr, [], by rw [hj], by simp⟩
    · -- only journaling turns an absent lease live
      have hlive : ∃ ran sent acked, l = .live ran sent acked := by
        cases l with
        | live ran sent acked => exact ⟨ran, sent, acked, rfl⟩
        | absent =>
          cases e <;> simp only [Life.next] at hnext <;> split_ifs at hnext <;> simp_all
      obtain ⟨ran, sent, acked, rfl⟩ := hlive
      obtain ⟨pre, mid, rfl, hmid⟩ := ih hl
      refine ⟨pre, mid ++ [e], by simp, fun hmem => ?_⟩
      rcases mem_append.mp hmem with hmem | hmem
      · exact hmid hmem
      · obtain rfl := mem_singleton.mp hmem
        cases acked <;> simp [Life.next] at hnext

/-- Every removal ends a stretch that began with journaling and saw an acknowledgement. -/
theorem Follows.acked_before_removed (h : Follows tr) (htr : tr = pre ++ .removed k :: post) :
    ∃ pre' mid r, pre = pre' ++ .journaled k :: mid ∧ .removed k ∉ mid ∧ .acked k r ∈ mid := by
  obtain ⟨l', hl'⟩ := h k
  rw [htr, life_append, Option.bind_eq_some_iff] at hl'
  obtain ⟨l, hl, hl'⟩ := hl'
  cases l with
  | absent => simp [Life.next] at hl'
  | live ran sent acked =>
    obtain ⟨pre', mid, rfl, hmid⟩ := journaled_of_live hl
    have htr' : tr = pre' ++ .journaled k :: mid ++ .removed k :: post := by rw [htr]
    obtain ⟨l, st, l', hl'⟩ := h.stretch htr' hmid
    obtain ⟨ran, sent, acked, rfl⟩ := st.live
    cases acked with
    | false => simp [Life.next] at hl'
    | true =>
      obtain ⟨r, hr⟩ : ∃ r, .acked k r ∈ mid := by simpa using st.acked ran sent rfl
      exact ⟨pre', mid, r, rfl, hmid, hr⟩

theorem Follows.one_result (h : Follows tr) (htr : tr = pre ++ .journaled k :: mid ++ post)
    (hmid : .removed k ∉ mid) {r r' : ρ}
    (hr : .uploaded k r ∈ mid) (hr' : .uploaded k r' ∈ mid) : r = r' := by
  obtain ⟨l, st, -⟩ := h.stretch htr hmid
  exact st.uploads r r' hr hr'

theorem Follows.never_blind (h : Follows tr) (k : κ) : .ran k true false ∉ tr := by
  intro hmem
  obtain ⟨pre, post, rfl⟩ := append_of_mem hmem
  obtain ⟨l', hl'⟩ := h k
  rw [life_append, Option.bind_eq_some_iff] at hl'
  obtain ⟨l, -, hl'⟩ := hl'
  simp [Life.next] at hl'

end Lifecycle
