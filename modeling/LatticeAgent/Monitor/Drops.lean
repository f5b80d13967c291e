import LatticeAgent.Monitor.Results

/-! # The drop count

Every result the server never stored is counted in `dropped`; the count is to be no higher than
the number of results the server does not hold. An overflow counts the oldest result also while a
request carries it, and the answer to that request may still store it, or count it again.

`dropped_le_unstored` holds for the runs in which nothing is counted that the server holds or that
is out of the queue already, and nothing is stored that is out of the queue. -/

namespace LatticeAgent.Monitor

open List Flush Runs Reply

variable {α : Type}

/-- The results that an answer has dropped and that are still to be settled. -/
def Flush.condemned : Flush α → List (Item α)
  | .refused _ batch => batch
  | .accepted _ batch dropped => Ledger.listed batch dropped
  | .singleRefused _ x _ | .singleCounted _ x _ => [x]
  | _ => []

/-- The results settled and still to be counted. -/
def Flush.owed : Flush α → Nat
  | .refusedCount _ batch => batch.length
  | .acceptedCount _ _ dropped => dropped.length
  | _ => 0

namespace Ledger

variable (m : Ledger α)

/-- The pushed results the server does not hold. -/
def unstored : Finset Nat := Finset.Icc 1 m.queue.nextSeq \ m.stored

/-- The pushed results that are neither queued nor held by the server. -/
def outside : Finset Nat := m.unstored \ m.queue.seqs.toFinset

/-- The results are queued and the server does not hold them. -/
def Pending (batch : List (Item α)) : Prop :=
  ∀ s ∈ seqsOf batch, s ∈ m.queue.seqs ∧ s ∉ m.stored

instance (batch : List (Item α)) : Decidable (m.Pending batch) :=
  inferInstanceAs (Decidable (∀ s ∈ seqsOf batch, s ∈ m.queue.seqs ∧ s ∉ m.stored))

/-- What an answer stores is queued, or held by the server already. -/
def StoresQueued (batch : List (Item α)) (reply : Reply) : Prop :=
  ∀ s ∈ seqsOf (reply.stores batch), s ∈ m.queue.seqs ∨ s ∈ m.stored

instance (batch : List (Item α)) (reply : Reply) : Decidable (m.StoresQueued batch reply) :=
  inferInstanceAs
    (Decidable (∀ s ∈ seqsOf (reply.stores batch), s ∈ m.queue.seqs ∨ s ∈ m.stored))

/-- The answer to a batch: what it drops is pending, and it lists no more drops than there are
results it drops. -/
def FairBatch (batch : List (Item α)) : Reply → Prop
  | .accepted dropped =>
    m.Pending (listed batch dropped) ∧ dropped.length ≤ (listed batch dropped).length
  | .status code => code = statusBadRequest → m.Pending batch
  | .unread _ | .failed => True

/-- The answer to one result: if it is dropped, it is pending. -/
def FairSingle (x : Item α) : Reply → Prop
  | .status code => retried code = false → m.Pending [x]
  | .accepted _ | .unread _ | .failed => True

/-- An overflow puts out no result that the server holds or that an answer has dropped and that is not
settled yet; an answer stores only queued results, or what the server holds already, and drops
only pending ones. -/
def Fair : Move α → Prop
  | .push r => ∀ s ∈ seqsOf (m.queue.overflow r), s ∉ m.stored ∧ s ∉ seqsOf m.flush.condemned
  | .flush => True
  | .next reply _ =>
    match m.flush with
    | .posting _ batch => m.StoresQueued batch reply ∧ m.FairBatch batch reply
    | .singles _ (x :: _) => m.StoresQueued [x] reply ∧ m.FairSingle x reply
    | _ => True

/-- What the counters and the queue say about each other. -/
structure Books (m : Ledger α) : Prop where
  inv : m.Inv
  pending : m.Pending m.flush.condemned
  stored : ∀ s ∈ m.stored, s ≤ m.queue.nextSeq
  listed : ∀ i batch dropped, m.flush = .accepted i batch dropped →
    dropped.length ≤ (listed batch dropped).length
  enough : m.queue.dropped + m.flush.owed ≤ m.outside.card + m.flush.marked.length

variable {m}

theorem pending_nil : m.Pending [] := by simp [Pending, seqsOf]

theorem mem_outside {s : Nat} :
    s ∈ m.outside ↔ (1 ≤ s ∧ s ≤ m.queue.nextSeq) ∧ s ∉ m.stored ∧ s ∉ m.queue.seqs := by
  simp [outside, unstored, and_assoc]

theorem card_outside_le {m' : Ledger α} (hsub : m.outside ⊆ m'.outside) {l : List Nat}
    (hnodup : l.Nodup) (hl : ∀ s ∈ l, s ∈ m'.outside ∧ s ∉ m.outside) :
    m.outside.card + l.length ≤ m'.outside.card := by
  have hdisj : Disjoint m.outside l.toFinset := by
    refine Finset.disjoint_right.mpr fun s hs => (hl s (mem_toFinset.mp hs)).2
  rw [← toFinset_card_of_nodup hnodup, ← Finset.card_union_of_disjoint hdisj]
  refine Finset.card_le_card (Finset.union_subset hsub fun s hs => ?_)
  exact (hl s (mem_toFinset.mp hs)).1

theorem Books.push (h : m.Books) {r : α} (hfair : m.Fair (.push r)) :
    ({ m with
      queue := m.queue.push r
      counted := m.counted ∪ (seqsOf (m.queue.overflow r)).toFinset } : Ledger α).Books := by
  set m' : Ledger α := { m with
      queue := m.queue.push r
      counted := m.counted ∪ (seqsOf (m.queue.overflow r)).toFinset } with hm'
  have hq := h.inv.queue
  -- what overflows was queued until now
  have hout : ∀ s ∈ seqsOf (m.queue.overflow r), s ∉ m.outside := by
    intro s hs ho
    obtain ⟨⟨-, hle⟩, -, hnq⟩ := mem_outside.mp ho
    have hmem : s ∈ m.queue.seqs ++ [m.queue.nextSeq + 1] := by
      rw [← Queue.overflow_append_push m.queue r]
      exact mem_append_left _ hs
    rcases mem_append.mp hmem with hmem | hmem
    · exact hnq hmem
    · simp only [mem_singleton] at hmem
      omega
  have hsub : m.outside ⊆ m'.outside := by
    intro s hs
    obtain ⟨⟨h1, hle⟩, hst, hnq⟩ := mem_outside.mp hs
    refine mem_outside.mpr ⟨⟨h1, Nat.le_succ_of_le hle⟩, hst, fun hq' => ?_⟩
    rcases Queue.mem_push hq' with hq' | rfl
    · exact hnq hq'
    · exact absurd hle (Nat.not_succ_le_self _)
  have hsorted := hq.sorted_push
  rw [← Queue.overflow_append_push m.queue r] at hsorted
  have hcard := card_outside_le hsub
    (List.Pairwise.imp (fun hlt => ne_of_lt hlt) (pairwise_append.mp hsorted).1)
    fun s hs => ⟨mem_outside.mpr ⟨Queue.overflow_le hq hs, (hfair s hs).1, hq.overflow_notMem hs⟩,
      hout s hs⟩
  refine ⟨h.inv.push r, fun s hs => ?_, fun s hs => Nat.le_succ_of_le (h.stored s hs), h.listed, ?_⟩
  · obtain ⟨hqs, hst⟩ := h.pending s hs
    refine ⟨?_, hst⟩
    rcases Queue.push_or_overflow m.queue r (.inl hqs) with hs' | hs'
    · exact hs'
    · exact absurd hs (hfair s hs').2
  · have := h.enough
    have hdrop : m'.queue.dropped = _ := Queue.push_dropped m.queue r
    have howed : m'.flush = m.flush := rfl
    rw [hdrop, howed]
    omega

theorem stores_subset (batch : List (Item α)) (reply : Reply) :
    ∀ s ∈ seqsOf (reply.stores batch), s ∈ seqsOf batch := by
  intro s hs
  obtain ⟨x, hx, rfl⟩ := mem_map.mp hs
  cases reply with
  | accepted dropped | unread dropped =>
    obtain ⟨⟨y, k⟩, hy, rfl⟩ := mem_map.mp hx
    exact mem_map_of_mem (fst_mem_of_mem_zipIdx (mem_filter.mp hy).1)
  | status code | failed => simp [stores] at hx

variable {batch : List (Item α)}

theorem index_unique (hsorted : (seqsOf batch).Pairwise (· < ·)) {x y : Item α} {j k : Nat}
    (hx : (x, j) ∈ batch.zipIdx) (hy : (y, k) ∈ batch.zipIdx) (hxy : x.seq = y.seq) : j = k := by
  have hnodup : (seqsOf batch).Nodup := hsorted.imp fun hlt => ne_of_lt hlt
  have hj := mem_zipIdx_iff_getElem?.mp hx
  have hk := mem_zipIdx_iff_getElem?.mp hy
  obtain ⟨hjl, hjx⟩ := List.getElem?_eq_some_iff.mp hj
  obtain ⟨hkl, hky⟩ := List.getElem?_eq_some_iff.mp hk
  have hjl' : j < (seqsOf batch).length := by simpa [seqsOf] using hjl
  have hkl' : k < (seqsOf batch).length := by simpa [seqsOf] using hkl
  have hsame : (seqsOf batch)[j] = (seqsOf batch)[k] := by
    simp only [seqsOf, getElem_map]
    rw [hjx, hky]
    exact hxy
  exact (List.Nodup.getElem_inj_iff hnodup).mp hsame

theorem listed_not_stored (hsorted : (seqsOf batch).Pairwise (· < ·)) (dropped : List Int) :
    ∀ s ∈ seqsOf (listed batch dropped), s ∉ seqsOf ((Reply.accepted dropped).stores batch) := by
  intro s hs hs'
  obtain ⟨x, hx, rfl⟩ := mem_map.mp hs
  obtain ⟨y, hy, hyx⟩ := mem_map.mp hs'
  obtain ⟨⟨x, j⟩, hxf, rfl⟩ := mem_map.mp hx
  obtain ⟨⟨y, k⟩, hyf, rfl⟩ := mem_map.mp hy
  obtain ⟨hxz, hxd⟩ := mem_filter.mp hxf
  obtain ⟨hyz, hyd⟩ := mem_filter.mp hyf
  obtain rfl := index_unique hsorted hxz hyz hyx.symm
  simp only [decide_eq_true_eq] at hxd hyd
  exact hyd hxd

theorem listed_nodup (hsorted : (seqsOf batch).Pairwise (· < ·)) (dropped : List Int) :
    (seqsOf (listed batch dropped)).Nodup := by
  have hsub : (listed batch dropped).Sublist batch := by
    have := (filter_sublist (l := batch.zipIdx)
      (p := fun x => decide ((x.2 : Int) ∈ dropped))).map Prod.fst
    rwa [zipIdx_map_fst] at this
  exact (hsorted.sublist (hsub.map _)).imp fun hlt => ne_of_lt hlt

/-! ### The steps of a flush -/

variable {f : Flush α} {i n : Nat} {q : Queue α} {reply : Reply}

section

variable (h : m.Books)

include h

theorem Books.turn (hi : ({ m with flush := f } : Ledger α).Inv) (hpending : m.Pending f.condemned)
    (hacc : ∀ i batch dropped, f ≠ .accepted i batch dropped) (howed : f.owed = m.flush.owed)
    (hmarked : f.marked.length = m.flush.marked.length) :
    ({ m with flush := f } : Ledger α).Books where
  inv := hi
  pending := hpending
  stored := h.stored
  listed i batch dropped hf := absurd hf (hacc i batch dropped)
  enough := by
    have := h.enough
    rw [← howed, ← hmarked] at this
    exact this

/-- A settle takes out what is condemned, and what is still to be counted is no more than that. -/
theorem Books.settle {k : Nat}
    (hi : ({ m with queue := m.queue.settle k, flush := f } : Ledger α).Inv)
    (hnone : f.condemned = []) (hmarked : f.marked = [])
    (hacc : ∀ i batch dropped, f ≠ .accepted i batch dropped)
    (hnodup : (seqsOf m.flush.condemned).Nodup) (hk : ∀ s ∈ seqsOf m.flush.condemned, s ≤ k)
    (hcount : m.flush.marked.length + f.owed ≤ m.flush.condemned.length + m.flush.owed) :
    ({ m with queue := m.queue.settle k, flush := f } : Ledger α).Books := by
  have hmem {s : Nat} : s ∈ (m.queue.settle k).seqs ↔ s ∈ m.queue.seqs ∧ k < s :=
    h.inv.queue.mem_settle
  refine ⟨hi, fun s hs => ?_, h.stored, fun i batch dropped hf => absurd hf (hacc i batch dropped), ?_⟩
  · simp [hnone, seqsOf] at hs
  · have hsub : m.outside ⊆
        ({ m with queue := m.queue.settle k, flush := f } : Ledger α).outside := by
      intro s hs
      obtain ⟨hr, hst, hq⟩ := mem_outside.mp hs
      exact mem_outside.mpr ⟨hr, hst, fun hq' => hq (hmem.mp hq').1⟩
    have hcard := card_outside_le hsub hnodup fun s hs => by
      obtain ⟨hq, hst⟩ := h.pending s hs
      refine ⟨mem_outside.mpr ⟨h.inv.queue.range s hq, hst, fun hq' => ?_⟩, fun ho => ?_⟩
      · have := (hmem.mp hq').2
        have := hk s hs
        omega
      · exact (mem_outside.mp ho).2.2 hq
    have henough := h.enough
    simp only [hmarked, length_nil, Queue.settle]
    simp only [Queue.settle, seqsOf, length_map] at hcard
    omega

theorem Books.count {which : List (Item α)}
    (hi : ({ m.count m.flush.owed which with flush := .loop i } : Ledger α).Inv)
    (hmarked : m.flush.marked = []) :
    ({ m.count m.flush.owed which with flush := .loop i } : Ledger α).Books where
  inv := hi
  pending := pending_nil
  stored := h.stored
  listed i' batch dropped hf := by cases hf
  enough := by
    have := h.enough
    rw [hmarked] at this
    exact this

theorem Books.answer {batch rest : List (Item α)} (hheld : m.flush.held = batch ++ rest)
    (hstores : m.StoresQueued batch reply)
    (hi : ({ m.answer batch reply with flush := f } : Ledger α).Inv)
    (hpending : ∀ s ∈ seqsOf f.condemned,
      (s ∈ m.queue.seqs ∧ s ∉ m.stored) ∧ s ∉ seqsOf (reply.stores batch))
    (hlisted : ∀ i batch' dropped, f = .accepted i batch' dropped →
      dropped.length ≤ (Ledger.listed batch' dropped).length)
    (hquiet : f.owed = 0 ∧ f.marked = []) (hmarked : m.flush.marked = []) :
    ({ m.answer batch reply with flush := f } : Ledger α).Books := by
  have hmem : ∀ s ∈ seqsOf (reply.stores batch), s ≤ m.queue.nextSeq := by
    intro s hs
    refine (h.inv.held.range s ?_).2
    have hb := stores_subset batch reply s hs
    rw [hheld]
    simp only [seqsOf, map_append, mem_append] at hb ⊢
    exact .inl hb
  refine ⟨hi, fun s hs => ?_, fun s hs => ?_, hlisted, ?_⟩
  · obtain ⟨⟨hq, hst⟩, hnew⟩ := hpending s hs
    refine ⟨hq, fun hst' => ?_⟩
    rcases Finset.mem_union.mp hst' with hst' | hst'
    · exact hst hst'
    · exact hnew (mem_toFinset.mp hst')
  · rcases Finset.mem_union.mp hs with hs | hs
    · exact h.stored s hs
    · exact hmem s (mem_toFinset.mp hs)
  · have hsub : m.outside ⊆ ({ m.answer batch reply with flush := f } : Ledger α).outside := by
      intro s hs
      obtain ⟨hr, hst, hq⟩ := mem_outside.mp hs
      refine mem_outside.mpr ⟨hr, fun hst' => ?_, hq⟩
      rcases Finset.mem_union.mp hst' with hst' | hst'
      · exact hst hst'
      · exact (hstores s (mem_toFinset.mp hst')).elim hq hst
    have henough : m.queue.dropped ≤ m.outside.card := by
      have := h.enough
      rw [hmarked, length_nil] at this
      omega
    simp only [hquiet.1, hquiet.2, length_nil, Nat.add_zero]
    exact henough.trans (Finset.card_le_card hsub)

theorem Books.posted (hf : m.flush = .posting i batch) (hstores : m.StoresQueued batch reply)
    (hfair : m.FairBatch batch reply) :
    ({ m.answer batch reply with flush := sendBatch i batch reply } : Ledger α).Books := by
  have hi := h.inv.posted hf reply
  have hheld : m.flush.held = batch ++ [] := by rw [hf, append_nil]; rfl
  have hmarked : m.flush.marked = [] := by rw [hf]; rfl
  have hsorted : (seqsOf batch).Pairwise (· < ·) := by
    have := h.inv.held.sorted
    rwa [hf] at this
  rcases sendBatch_cases i batch reply with ⟨dropped, rfl, hs⟩ | ⟨rfl, hs⟩ | ⟨-, hs⟩ | hs
  all_goals rw [hs] at hi ⊢
  · refine h.answer hheld hstores hi (fun s hs => ⟨hfair.1 s hs, ?_⟩) (fun i' batch' dropped' hf' => ?_)
      ⟨rfl, rfl⟩ hmarked
    · exact listed_not_stored hsorted dropped s hs
    · obtain ⟨rfl, rfl, rfl⟩ := Flush.accepted.inj hf'
      exact hfair.2
  · exact h.answer hheld hstores hi (fun s hs => ⟨hfair rfl s hs, by simp [stores, seqsOf]⟩)
      (by simp) ⟨rfl, rfl⟩ hmarked
  · exact h.answer hheld hstores hi (by simp [condemned, seqsOf]) (by simp) ⟨rfl, rfl⟩ hmarked
  · exact h.answer hheld hstores hi (by simp [condemned, seqsOf]) (by simp) ⟨rfl, rfl⟩ hmarked

theorem Books.postedSingle {x : Item α} {rest : List (Item α)}
    (hf : m.flush = .singles i (x :: rest)) (hstores : m.StoresQueued [x] reply)
    (hfair : m.FairSingle x reply) :
    ({ m.answer [x] reply with flush := sendSingle i x rest reply } : Ledger α).Books := by
  have hi := h.inv.postedSingle hf reply
  have hheld : m.flush.held = [x] ++ rest := by rw [hf]; rfl
  have hmarked : m.flush.marked = [] := by rw [hf]; rfl
  rcases sendSingle_cases i x rest reply with ⟨dropped, -, hs⟩ | ⟨code, rfl, hretry, hs⟩ | hs
  all_goals rw [hs] at hi ⊢
  · exact h.answer hheld hstores hi (by simp [condemned, seqsOf]) (by simp) ⟨rfl, rfl⟩ hmarked
  · exact h.answer hheld hstores hi
      (fun s hs => ⟨hfair hretry s hs, by simp [stores, seqsOf]⟩) (by simp) ⟨rfl, rfl⟩ hmarked
  · exact h.answer hheld hstores hi (by simp [condemned, seqsOf]) (by simp) ⟨rfl, rfl⟩ hmarked

theorem Books.quiet (hi : ({ m with flush := f } : Ledger α).Inv)
    (hm : m.flush.owed = 0 ∧ m.flush.marked = [])
    (hf : f.condemned = [] ∧ f.owed = 0 ∧ f.marked = [])
    (hacc : ∀ i batch dropped, f ≠ .accepted i batch dropped) :
    ({ m with flush := f } : Ledger α).Books := by
  refine h.turn hi ?_ hacc (hf.2.1.trans hm.1.symm) (by rw [hf.2.2, hm.2])
  rw [hf.1]
  exact pending_nil

/-- Every step of a flush keeps the books, if the answer it reads is a fair one. -/
theorem Books.next {now : Time} (hfair : m.Fair (.next reply now)) : (m.next reply now).Books := by
  have hi := h.inv.next reply now
  unfold Fair at hfair
  unfold Ledger.next at hi ⊢
  cases hf : m.flush with
  | idle => exact h
  | loop i =>
    have hm : m.flush.owed = 0 ∧ m.flush.marked = [] := by rw [hf]; exact ⟨rfl, rfl⟩
    simp only [hf] at hi ⊢
    by_cases hlt : i < monitorResultFlushBatches
    · simp only [hlt, ↓reduceIte] at hi ⊢
      rcases hh : m.queue.head monitorResultBatchMax with - | ⟨x, batch⟩ <;> rw [hh] at hi
      · exact h.quiet hi hm ⟨rfl, rfl, rfl⟩ (by simp)
      · exact h.quiet hi hm ⟨rfl, rfl, rfl⟩ (by simp)
    · simp only [hlt, ↓reduceIte] at hi ⊢
      exact h.quiet hi hm ⟨rfl, rfl, rfl⟩ (by simp)
  | route i batch =>
    have hm : m.flush.owed = 0 ∧ m.flush.marked = [] := by rw [hf]; exact ⟨rfl, rfl⟩
    simp only [hf] at hi ⊢
    cases ha : m.queue.batchAllowed now <;> rw [ha] at hi
    · exact h.quiet hi hm ⟨rfl, rfl, rfl⟩ (by simp)
    · exact h.quiet hi hm ⟨rfl, rfl, rfl⟩ (by simp)
  | posting i batch =>
    simp only [hf] at hfair
    exact h.posted hf hfair.1 hfair.2
  | refused i batch =>
    have hsorted := h.inv.held.sorted
    rw [hf] at hsorted
    simp only [hf] at hi ⊢
    refine h.settle hi rfl rfl (by simp) ?_ ?_ (by simp [hf, marked, owed,
      condemned])
    · rw [hf]
      exact List.Pairwise.imp (fun hlt => ne_of_lt hlt) hsorted
    · rw [hf]
      exact le_lastSeq hsorted
  | refusedCount i batch =>
    simp only [hf] at hi ⊢
    have howed : m.flush.owed = batch.length := by rw [hf]; rfl
    rw [← howed] at hi ⊢
    exact h.count hi (by rw [hf]; rfl)
  | accepted i batch dropped =>
    have hsorted := h.inv.held.sorted
    rw [hf] at hsorted
    have hlen := h.listed i batch dropped hf
    have hnodup : (seqsOf m.flush.condemned).Nodup := by
      rw [hf]
      exact listed_nodup hsorted dropped
    have hk : ∀ s ∈ seqsOf m.flush.condemned, s ≤ lastSeq batch := by
      rw [hf]
      exact fun s hs => le_lastSeq hsorted s (listed_subset batch dropped s hs)
    simp only [hf] at hi ⊢
    by_cases h0 : dropped.length = 0
    · simp only [h0, ↓reduceIte] at hi ⊢
      exact h.settle hi rfl rfl (by simp) hnodup hk (by simp [hf, marked, owed])
    · simp only [h0, ↓reduceIte] at hi ⊢
      refine h.settle hi rfl rfl (by simp) hnodup hk ?_
      simpa [hf, marked, owed, condemned] using hlen
  | acceptedCount i batch dropped =>
    simp only [hf] at hi ⊢
    have howed : m.flush.owed = dropped.length := by rw [hf]; rfl
    rw [← howed] at hi ⊢
    exact h.count hi (by rw [hf]; rfl)
  | missing i batch =>
    simp only [hf] at hi ⊢
    have henough := h.enough
    rw [hf] at henough
    exact ⟨hi, pending_nil, h.stored, by simp, henough⟩
  | singles i rest =>
    have hm : m.flush.owed = 0 ∧ m.flush.marked = [] := by rw [hf]; exact ⟨rfl, rfl⟩
    cases rest with
    | nil =>
      simp only [hf] at hi ⊢
      exact h.quiet hi hm ⟨rfl, rfl, rfl⟩ (by simp)
    | cons x rest =>
      simp only [hf] at hfair
      exact h.postedSingle hf hfair.1 hfair.2
  | singleRefused i x rest =>
    simp only [hf] at hi ⊢
    have hpending := h.pending
    have henough := h.enough
    rw [hf] at hpending
    simp only [hf, owed, marked, length_nil] at henough
    exact ⟨hi, hpending, h.stored, by simp, Nat.succ_le_succ henough⟩
  | singleCounted i x rest =>
    simp only [hf] at hi ⊢
    exact h.settle hi rfl rfl (by simp) (by simp [hf, condemned, seqsOf])
      (by simp [hf, condemned, seqsOf])
      (by simp [hf, marked, owed, condemned])
  | singleAccepted i x rest =>
    simp only [hf] at hi ⊢
    exact h.settle hi rfl rfl (by simp) (by simp [hf, condemned, seqsOf])
      (by simp [hf, condemned, seqsOf]) (by simp [hf, marked, owed])

theorem Books.step {move : Move α} (hfair : m.Fair move) : (m.step move).Books := by
  cases move with
  | push r => exact h.push hfair
  | flush =>
    have hi := h.inv.step .flush
    unfold Ledger.step at hi ⊢
    cases hf : m.flush with
    | idle =>
      simp only [hf] at hi ⊢
      exact h.quiet hi (by rw [hf]; exact ⟨rfl, rfl⟩) ⟨rfl, rfl, rfl⟩ (by simp)
    | _ =>
      simp only [← hf]
      exact h
  | next reply now => exact h.next hfair

end

theorem books_new : ({} : Ledger α).Books := by
  refine ⟨inv_new, pending_nil, ?_, ?_, ?_⟩ <;> simp [owed]

theorem Books.dropped_le (h : m.Books) : m.queue.dropped ≤ m.unstored.card := by
  have henough := h.enough
  have hsub : m.outside ⊆ m.unstored := Finset.sdiff_subset
  have hcard := Finset.card_le_card hsub
  cases hf : m.flush with
  | singleCounted i x rest =>
    -- the one result counted ahead is queued and not stored
    have hpending := h.pending
    rw [hf] at hpending henough
    obtain ⟨hx, hst⟩ := hpending x.seq (by simp [condemned, seqsOf])
    have hrange := h.inv.queue.range x.seq hx
    have hnew : x.seq ∉ m.outside := fun ho => (mem_outside.mp ho).2.2 hx
    have hins : insert x.seq m.outside ⊆ m.unstored := by
      refine Finset.insert_subset ?_ hsub
      simp [unstored, hrange, hst]
    have := Finset.card_le_card hins
    rw [Finset.card_insert_of_notMem hnew] at this
    simp only [owed, marked, length_singleton] at henough
    omega
  | _ =>
    rw [hf] at henough
    simp only [marked, length_nil] at henough
    omega

/-- **The drop count is at most what the server does not hold**, in every run in which no overflow
puts out a result that the server holds or that an answer has dropped and that is not settled yet,
and in which an answer stores only queued results, or what the server holds already, and drops
only queued results the server does not hold, each listed once. -/
theorem dropped_le_unstored (moves : List (Move α))
    (hfair : Runs.Along step Fair ({} : Ledger α) moves) (k : Nat) :
    (run step ({} : Ledger α) (moves.take k)).queue.dropped ≤
      (run step ({} : Ledger α) (moves.take k)).unstored.card := by
  have hsplit : moves = moves.take k ++ moves.drop k := (take_append_drop k moves).symm
  rw [hsplit, along_append] at hfair
  have hbooks := invariant Books (fun m move h hok => h.step hok) books_new hfair.1
  exact hbooks.dropped_le

theorem overflow_of_room (h : q.items.length < monitorResultQueueMax) (r : α) :
    q.overflow r = [] := by
  have hroom :
      (q.items ++ [(⟨q.nextSeq + 1, r⟩ : Item α)]).length - monitorResultQueueMax = 0 := by
    simp only [length_append, length_singleton]
    omega
  rw [Queue.overflow, hroom, take_zero]

theorem fair_push_of_room (h : m.queue.items.length < monitorResultQueueMax) (r : α) :
    m.Fair (.push r) := by
  intro s hs
  rw [overflow_of_room h r] at hs
  cases hs

/-- Two results in one batch, of which the server stores one. -/
def partStored : List (Move Unit) :=
  [.push (), .push (), .flush, .next .failed 0, .next .failed 0, .next (.accepted [1]) 0,
    .next .failed 0, .next .failed 0]

theorem dropped_le_unstored_partStored :
    Runs.Along step Fair ({} : Ledger Unit) partStored ∧
      (run step ({} : Ledger Unit) partStored).queue.dropped = 1 ∧
      (run step ({} : Ledger Unit) partStored).queue.dropped ≤
        (run step ({} : Ledger Unit) partStored).unstored.card := by
  have hfair : Runs.Along step Fair ({} : Ledger Unit) partStored := by
    refine ⟨fair_push_of_room (by decide) (), fair_push_of_room (by decide) (), trivial, trivial,
      trivial, ⟨?_, ?_, ?_⟩, trivial, trivial, trivial⟩ <;> decide
  exact ⟨hfair, by decide, dropped_le_unstored partStored hfair 8⟩

/-! ### A result counted and stored -/

/-- A flush takes a batch and puts it on the wire. -/
def post : List (Move α) := [.flush, .next .failed 0, .next .failed 0]

/-- The server stores the batch; the request after it fails. -/
def store : List (Move α) :=
  [.next (.accepted []) 0, .next .failed 0, .next .failed 0, .next .failed 0, .next .failed 0]

theorem run_post (hidle : m.flush = .idle) (hon : m.queue.batchOffUntil ≤ 0)
    (hne : m.queue.items ≠ []) :
    run step m post =
      { m with flush := .posting 0 (m.queue.head monitorResultBatchMax) } := by
  have hhead : ∃ x rest, m.queue.head monitorResultBatchMax = x :: rest := by
    obtain ⟨x, rest, hx⟩ := exists_cons_of_ne_nil hne
    exact ⟨x, rest.take 199, by rw [Queue.head, hx]; rfl⟩
  obtain ⟨x, rest, hx⟩ := hhead
  simp [run, post, step, next, hidle, hx, Queue.batchAllowed, hon, monitorResultFlushBatches]

theorem stores_all (batch : List (Item α)) : (Reply.accepted []).stores batch = batch := by
  simp [stores, zipIdx_map_fst]

theorem run_fail (hf : m.flush = .loop i) (hon : m.queue.batchOffUntil ≤ 0) :
    ∃ sent, run step m [.next .failed 0, .next .failed 0, .next .failed 0] =
      { m with flush := .idle, sent } := by
  by_cases hi : i < monitorResultFlushBatches
  · rcases hh : m.queue.head monitorResultBatchMax with - | ⟨x, batch⟩
    · exact ⟨m.sent, by simp [run, step, next, hf, hi, hh]⟩
    · refine ⟨m.sent ++ seqsOf (x :: batch), ?_⟩
      simp [run, step, next, hf, hi, hh, Queue.batchAllowed, hon, answer, sendBatch,
        success, stores, seqsOf]
  · exact ⟨m.sent, by simp [run, step, next, hf, hi]⟩

theorem run_store (hf : m.flush = .posting i batch) (hon : m.queue.batchOffUntil ≤ 0) :
    ∃ sent answered, run step m store =
      { m with
        queue := m.queue.settle (lastSeq batch), flush := .idle, sent, answered
        stored := m.stored ∪ (seqsOf batch).toFinset } := by
  let m' : Ledger α := { m.answer batch (.accepted []) with
    queue := m.queue.settle (lastSeq batch), flush := .loop (i + 1) }
  have htwo : run step m [.next (.accepted []) 0, .next .failed 0] = m' := by
    simp [run, step, next, hf, sendBatch, m', answer]
  obtain ⟨sent, hrun⟩ : ∃ sent, run step m' [.next .failed 0, .next .failed 0,
      .next .failed 0] = { m' with flush := .idle, sent } := run_fail rfl hon
  refine ⟨sent, m'.answered, ?_⟩
  have hsplit : (store : List (Move α)) =
      [.next (.accepted []) 0, .next .failed 0] ++
        [.next .failed 0, .next .failed 0, .next .failed 0] := rfl
  rw [hsplit, run_append, htwo, hrun]
  simp [m', answer, stores_all]

/-- Every pushed result is stored or queued. -/
def NoneLost (m : Ledger α) : Prop :=
  ∀ s, 1 ≤ s → s ≤ m.queue.nextSeq → s ∈ m.stored ∨ s ∈ m.queue.seqs

theorem NoneLost.unstored_eq (h : m.NoneLost) (hnil : m.queue.items = []) : m.unstored = ∅ := by
  refine Finset.eq_empty_of_forall_notMem fun s hs => ?_
  obtain ⟨hrange, hst⟩ := Finset.mem_sdiff.mp hs
  obtain ⟨h1, hle⟩ := Finset.mem_Icc.mp hrange
  rcases h s h1 hle with hst' | hq
  · exact hst hst'
  · simp [Queue.seqs, hnil] at hq

theorem settled_or_stored (hi : m.Inv) (hheld : m.flush.held = batch) {s : Nat}
    (h : s ∈ m.stored ∨ s ∈ m.queue.seqs ∨ s ∈ seqsOf batch) :
    s ∈ m.stored ∪ (seqsOf batch).toFinset ∨ s ∈ (m.queue.settle (lastSeq batch)).seqs := by
  rcases h with hst | hq | hb
  · exact .inl (Finset.mem_union_left _ hst)
  · by_cases hlast : s ≤ lastSeq batch
    · exact .inl (Finset.mem_union_right _ (mem_toFinset.mpr (hi.settled_batch hheld hq hlast)))
    · exact .inr (hi.queue.mem_settle.mpr ⟨hq, not_le.mp hlast⟩)
  · exact .inl (Finset.mem_union_right _ (mem_toFinset.mpr hb))

/-- Some flushes, each of one batch that is stored. -/
def drain : Nat → List (Move α)
  | 0 => []
  | n + 1 => post ++ (store ++ drain n)

theorem run_empty (hidle : m.flush = .idle) (hnil : m.queue.items = []) :
    run step m (post ++ store) = m := by
  obtain ⟨queue, flush, sent, answered, stored, counted⟩ := m
  simp only at hidle hnil
  simp [run, post, store, step, next, hidle, hnil, Queue.head, monitorResultFlushBatches]

/-- A server that stores every batch ends up with every result that is still queued. -/
theorem run_drain (hn : m.queue.items.length ≤ n) (hi : m.Inv) (hidle : m.flush = .idle)
    (hon : m.queue.batchOffUntil ≤ 0) (hlost : m.NoneLost) :
    (run step m (drain n)).queue.dropped = m.queue.dropped ∧
      (run step m (drain n)).unstored = ∅ := by
  induction n generalizing m with
  | zero => exact ⟨rfl, hlost.unstored_eq (by simpa using hn)⟩
  | succ n ih =>
    by_cases hne : m.queue.items = []
    · have hrest := ih (by simp [hne]) hi hidle hon hlost
      rw [drain, ← append_assoc, run_append, run_empty hidle hne]
      exact hrest
    obtain ⟨x, rest, hx⟩ := exists_cons_of_ne_nil hne
    -- the next batch is stored and settled
    let m₁ : Ledger α := { m with flush := .posting 0 (m.queue.head monitorResultBatchMax) }
    have hpost : run step m post = m₁ := run_post hidle hon hne
    obtain ⟨sent, answered, hstore⟩ : ∃ sent answered, run step m₁ store = _ :=
      run_store rfl hon
    have hi₁ : m₁.Inv := hpost ▸ invariant_always Inv (fun m move h => h.step move) hi post
    have hi₂ := invariant_always Inv (fun m move h => h.step move) hi₁ store
    rw [hstore] at hi₂
    have hfirst : x.seq ≤ lastSeq (m.queue.head monitorResultBatchMax) := by
      refine le_lastSeq hi₁.held.sorted x.seq ?_
      simp [m₁, held, Queue.head, hx, seqsOf, monitorResultBatchMax]
    have hshort : (m.queue.settle (lastSeq (m.queue.head monitorResultBatchMax))).items.length ≤
        n := by
      rw [hx, length_cons] at hn
      simp only [Queue.settle, hx, dropWhile_cons, hfirst, decide_true, ↓reduceIte]
      exact (dropWhile_sublist _).length_le.trans (by omega)
    obtain ⟨hdrop, hempty⟩ := ih hshort hi₂ rfl hon fun s h1 hle =>
      settled_or_stored hi₁ rfl ((hlost s h1 hle).imp_right .inl)
    rw [drain, run_append, run_append, hpost, hstore]
    exact ⟨hdrop, hempty⟩

/-- A queue filled to `n` results, none of them sent. -/
structure Filled (n : Nat) (m : Ledger α) : Prop where
  idle : m.flush = .idle
  allowed : m.queue.batchOffUntil = 0
  length : m.queue.items.length = n
  nextSeq : m.queue.nextSeq = n
  dropped : m.queue.dropped = 0
  none_lost : m.NoneLost

theorem filled_run (hn : n ≤ monitorResultQueueMax) :
    (run step ({} : Ledger Unit) (List.replicate n (.push ()))).Filled n := by
  induction n with
  | zero =>
    refine ⟨rfl, rfl, rfl, rfl, rfl, fun s h1 hle => absurd (h1.trans hle) (by decide)⟩
  | succ n ih =>
    have h := ih (by omega)
    rw [replicate_succ', run_append]
    generalize run step ({} : Ledger Unit) (List.replicate n (.push ())) = m at h
    have hroom : (m.queue.items ++ [(⟨m.queue.nextSeq + 1, ()⟩ : Item Unit)]).length -
        monitorResultQueueMax = 0 := by
      simp only [length_append, length_singleton, h.length]
      omega
    have hpush : m.queue.push () = { m.queue with
        items := m.queue.items ++ [⟨m.queue.nextSeq + 1, ()⟩], nextSeq := m.queue.nextSeq + 1 } := by
      simp only [Queue.push, hroom, drop_zero, Nat.add_zero]
    simp only [run, foldl_cons, foldl_nil, step, hpush]
    refine ⟨h.idle, h.allowed, by simp [h.length], by simp [h.nextSeq], h.dropped, ?_⟩
    intro s h1 hle
    rcases Nat.le_succ_iff.mp hle with hle | rfl
    · rcases h.none_lost s h1 hle with hst | hq
      · exact .inl hst
      · refine .inr ?_
        simp only [Queue.seqs, map_append, mem_append] at hq ⊢
        exact .inl hq
    · exact .inr (by simp [Queue.seqs])

theorem overflow_of_full (h : q.items.length = monitorResultQueueMax) (r : α) :
    ∃ x, q.overflow r = [x] ∧ x ∈ q.head monitorResultBatchMax := by
  have hne : q.items ≠ [] := by
    intro hnil
    rw [hnil] at h
    cases h
  obtain ⟨x, rest, hx⟩ := exists_cons_of_ne_nil hne
  have hone : (q.items ++ [(⟨q.nextSeq + 1, r⟩ : Item α)]).length - monitorResultQueueMax = 1 := by
    simp only [length_append, length_singleton, h]
    omega
  refine ⟨x, ?_, ?_⟩
  · rw [Queue.overflow, hone, hx]
    rfl
  · rw [Queue.head, hx]
    exact mem_cons_self

theorem run_store_drain (hn : monitorResultQueueMax ≤ n) (hi : m.Inv)
    (hf : m.flush = .posting i batch) (hon : m.queue.batchOffUntil ≤ 0)
    (hkept : ∀ s, 1 ≤ s → s ≤ m.queue.nextSeq → s ∈ m.stored ∨ s ∈ m.queue.seqs ∨ s ∈ seqsOf batch) :
    (run step m (store ++ drain n)).queue.dropped = m.queue.dropped ∧
      (run step m (store ++ drain n)).unstored = ∅ := by
  obtain ⟨sent, answered, hstore⟩ := run_store hf hon
  have hi' := invariant_always Inv (fun m move h => h.step move) hi store
  rw [hstore] at hi'
  have hheld : m.flush.held = batch := by rw [hf]; rfl
  rw [run_append, hstore]
  exact run_drain (hi'.queue.size.trans hn) hi' rfl hon fun s h1 hle =>
    settled_or_stored hi hheld (hkept s h1 hle)

theorem run_post_push {r : α} (hi : m.Inv) (hidle : m.flush = .idle)
    (hon : m.queue.batchOffUntil ≤ 0) (hfull : m.queue.items.length = monitorResultQueueMax)
    (hlost : m.NoneLost) :
    let m' := run step m (post ++ [.push r])
    m'.Inv ∧ m'.flush = .posting 0 (m.queue.head monitorResultBatchMax) ∧
      m'.queue.batchOffUntil ≤ 0 ∧ m'.queue.dropped = m.queue.dropped + 1 ∧
      ∀ s, 1 ≤ s → s ≤ m'.queue.nextSeq → s ∈ m'.stored ∨ s ∈ m'.queue.seqs ∨
        s ∈ seqsOf (m.queue.head monitorResultBatchMax) := by
  intro m'
  obtain ⟨x, hout, hx⟩ := overflow_of_full hfull r
  have hne : m.queue.items ≠ [] := by
    intro hnil
    rw [hnil] at hfull
    cases hfull
  have hm' : m' = { m with
      queue := m.queue.push r, flush := .posting 0 (m.queue.head monitorResultBatchMax)
      counted := m.counted ∪ (seqsOf (m.queue.overflow r)).toFinset } := by
    simp only [m', run_append, run_post hidle hon hne]
    simp only [run, foldl_cons, foldl_nil, step]
  have hi' : m'.Inv := invariant_always Inv (fun m move h => h.step move) hi _
  have hdropped : (m.queue.push r).dropped = m.queue.dropped + 1 := by
    rw [Queue.push_dropped, hout]
    rfl
  obtain ⟨hnext, hsame⟩ := m.queue.push_frame r
  simp only [hm'] at hi' ⊢
  rw [hsame, hdropped, hnext]
  refine ⟨hi', trivial, hon, rfl, fun s h1 hle => ?_⟩
  have hpushed : s ∈ m.stored ∨ s ∈ m.queue.seqs ∨ s = m.queue.nextSeq + 1 := by
    rcases Nat.le_succ_iff.mp hle with hle | heq
    · exact (hlost s h1 hle).imp_right .inl
    · exact .inr (.inr heq)
  refine hpushed.imp_right fun hs => ?_
  rcases Queue.push_or_overflow m.queue r hs with hs | hs
  · exact .inl hs
  · rw [hout] at hs
    obtain rfl : s = x.seq := by simpa [seqsOf] using hs
    exact .inr (mem_map_of_mem hx)

/-- A full queue whose oldest results are on the wire, one result more, and a server that stores
every batch. -/
def overflowInFlight : List (Move Unit) :=
  List.replicate monitorResultQueueMax (.push ()) ++ ((post ++ [.push ()]) ++
    (store ++ drain monitorResultQueueMax))

/-- The overflow counts a result that is on the wire, and the answer stores it: the server holds every
result and one is counted as dropped. -/
theorem counted_and_stored :
    (run step ({} : Ledger Unit) overflowInFlight).queue.dropped = 1 ∧
      (run step ({} : Ledger Unit) overflowInFlight).unstored.card = 0 := by
  have hfull := filled_run le_rfl
  have hi := invariant_always Inv (fun m move h => h.step move) inv_new
    (List.replicate monitorResultQueueMax (Move.push ()))
  obtain ⟨hi', hflush, hon, hdropped, hkept⟩ :=
    run_post_push hi hfull.idle hfull.allowed.le hfull.length hfull.none_lost
  obtain ⟨hdrop, hempty⟩ := run_store_drain le_rfl hi' hflush hon hkept
  rw [overflowInFlight, run_append, run_append]
  rw [hfull.dropped] at hdropped
  exact ⟨hdrop.trans hdropped, by rw [hempty, Finset.card_empty]⟩

end Ledger

end LatticeAgent.Monitor
