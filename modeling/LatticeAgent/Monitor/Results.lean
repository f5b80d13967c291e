import LatticeAgent.Monitor.Queue
import Mathlib.Data.Finset.Card
import Mathlib.Order.Interval.Finset.Nat

/-! # What becomes of the monitor results

`Ledger.Inv` holds after any interleaving of pushes with the steps of a flush: the queue is sorted
and bounded, what the flush holds is the front of it, and results are first sent in push order.

Every result stays accounted for exactly as long as no batch is refused while a result of it is
still queued (`results_accounted`): the refusal takes the batch out of the queue before it is
counted. -/

namespace LatticeAgent.Monitor

open List

variable {α : Type}

/-! ### The queue -/

/-- The queue is sorted, numbered by `nextSeq` and bounded. -/
structure Queue.Ordered (q : Queue α) : Prop where
  sorted : q.seqs.Pairwise (· < ·)
  range : ∀ s ∈ q.seqs, 1 ≤ s ∧ s ≤ q.nextSeq
  size : q.items.length ≤ monitorResultQueueMax

namespace Queue

variable {q : Queue α}

theorem overflow_append_push (q : Queue α) (r : α) :
    seqsOf (q.overflow r) ++ (q.push r).seqs = q.seqs ++ [q.nextSeq + 1] := by
  simp only [seqsOf, Queue.seqs, overflow, push, ← map_append, take_append_drop]
  simp

variable {r : α} {s : Nat}

theorem mem_push (h : s ∈ (q.push r).seqs) : s ∈ q.seqs ∨ s = q.nextSeq + 1 := by
  have := overflow_append_push q r ▸ mem_append_right (seqsOf (q.overflow r)) h
  simpa using this

theorem push_or_overflow (q : Queue α) (r : α) (h : s ∈ q.seqs ∨ s = q.nextSeq + 1) :
    s ∈ (q.push r).seqs ∨ s ∈ seqsOf (q.overflow r) := by
  have : s ∈ q.seqs ++ [q.nextSeq + 1] := by simpa using h
  rw [← overflow_append_push q r] at this
  exact (mem_append.mp this).symm

theorem Ordered.sorted_push (h : q.Ordered) : (q.seqs ++ [q.nextSeq + 1]).Pairwise (· < ·) := by
  refine pairwise_append.mpr ⟨h.sorted, pairwise_singleton _ _, ?_⟩
  intro s hs t ht
  have := (h.range s hs).2
  simp only [mem_singleton] at ht
  omega

theorem Ordered.push (h : q.Ordered) (r : α) : (q.push r).Ordered := by
  have hsorted := h.sorted_push
  rw [← overflow_append_push q r] at hsorted
  refine ⟨(pairwise_append.mp hsorted).2.1, fun s hs => ?_, ?_⟩
  · rcases mem_push hs with hs | rfl
    · have := h.range s hs
      exact ⟨this.1, Nat.le_succ_of_le this.2⟩
    · exact ⟨Nat.le_add_left 1 _, le_rfl⟩
  · simp only [Queue.push, length_drop]
    omega

theorem Ordered.overflow_notMem (h : q.Ordered) (hs : s ∈ seqsOf (q.overflow r)) :
    s ∉ (q.push r).seqs := by
  have hsorted := h.sorted_push
  rw [← overflow_append_push q r] at hsorted
  intro hs'
  exact absurd ((pairwise_append.mp hsorted).2.2 s hs s hs') (lt_irrefl s)

theorem overflow_le (h : q.Ordered) (hs : s ∈ seqsOf (q.overflow r)) :
    1 ≤ s ∧ s ≤ q.nextSeq + 1 := by
  have := overflow_append_push q r ▸ mem_append_left (q.push r).seqs hs
  rcases mem_append.mp this with hq | hn
  · have := h.range s hq
    omega
  · simp only [mem_singleton] at hn
    omega

theorem push_frame (q : Queue α) (r : α) :
    (q.push r).nextSeq = q.nextSeq + 1 ∧ (q.push r).batchOffUntil = q.batchOffUntil := by
  simp only [push, and_self]

theorem push_dropped (q : Queue α) (r : α) :
    (q.push r).dropped = q.dropped + (seqsOf (q.overflow r)).length := by
  simp only [push, overflow, seqsOf, length_map, length_take]
  omega

theorem Ordered.mem_settle (h : q.Ordered) {k : Nat} :
    s ∈ (q.settle k).seqs ↔ s ∈ q.seqs ∧ k < s := by
  have hmap : (q.settle k).seqs = q.seqs.dropWhile fun s => decide (s ≤ k) := by
    simp only [settle, Queue.seqs, dropWhile_map]
    rfl
  rw [hmap]
  have hsorted := h.sorted
  generalize q.seqs = seqs at hsorted
  induction seqs with
  | nil => simp
  | cons t seqs ih =>
    obtain ⟨hhead, htail⟩ := pairwise_cons.mp hsorted
    rw [dropWhile_cons]
    by_cases ht : t ≤ k
    · rw [if_pos (by simpa using ht), mem_cons]
      refine (ih htail).trans ?_
      constructor
      · exact fun ⟨hs, hk⟩ => ⟨.inr hs, hk⟩
      · rintro ⟨rfl | hs, hk⟩
        · omega
        · exact ⟨hs, hk⟩
    · rw [if_neg (by simpa using ht)]
      refine ⟨fun hs => ⟨hs, ?_⟩, fun hs => hs.1⟩
      rcases mem_cons.mp hs with rfl | hs
      · omega
      · have := hhead s hs
        omega

theorem Ordered.settle (h : q.Ordered) (k : Nat) : (q.settle k).Ordered := by
  have hsub : (q.settle k).items.Sublist q.items := dropWhile_sublist _
  refine ⟨List.Pairwise.sublist (hsub.map _) h.sorted, fun s hs => ?_, ?_⟩
  · exact h.range s (h.mem_settle.mp hs).1
  · exact hsub.length_le.trans h.size

end Queue

/-! ### The flush -/

namespace Flush

/-- The results a flush has taken and not settled. -/
def held : Flush α → List (Item α)
  | .route _ batch | .posting _ batch | .refused _ batch | .accepted _ batch _
  | .missing _ batch => batch
  | .singles _ rest => rest
  | .singleRefused _ x rest | .singleCounted _ x rest | .singleAccepted _ x rest => x :: rest
  | .idle | .loop _ | .refusedCount _ _ | .acceptedCount _ _ _ => []

/-- The results a flush has settled and not yet counted. -/
def gone : Flush α → List (Item α)
  | .refusedCount _ batch | .acceptedCount _ batch _ => batch
  | _ => []

/-- The results that were answered with a success and are still to be settled. -/
def taken : Flush α → List (Item α)
  | .accepted _ batch _ => batch
  | .singleAccepted _ x _ => [x]
  | _ => []

/-- The result that was counted as dropped and is still to be settled. -/
def marked : Flush α → List (Item α)
  | .singleCounted _ x _ => [x]
  | _ => []

end Flush

/-- In a log of sends, a result sent for the first time was pushed after all sent before it. -/
def FirstInOrder (sent : List Nat) : Prop :=
  ∀ pre s post, sent = pre ++ s :: post → s ∉ pre → ∀ t ∈ pre, t < s

/-- What a flush holds is the front of the queue, or what was, in order; what of it has not been
sent yet was pushed after all that has. -/
structure Front (q : Queue α) (sent : List Nat) (held : List (Item α)) : Prop where
  sorted : (seqsOf held).Pairwise (· < ·)
  range : ∀ s ∈ seqsOf held, 1 ≤ s ∧ s ≤ q.nextSeq
  front : ∀ s ∈ q.seqs, ∀ t ∈ seqsOf held, s ≤ t → s ∈ seqsOf held
  unsent : ∀ s ∈ seqsOf held, ∀ t ∈ sent, s ≤ t → s ∈ sent

/-- The invariant of a ledger. -/
structure Ledger.Inv (m : Ledger α) : Prop where
  queue : m.queue.Ordered
  held : Front m.queue m.sent m.flush.held
  gone : ∀ s ∈ seqsOf m.flush.gone, s ∉ m.queue.seqs ∧ s ≤ m.queue.nextSeq
  taken : ∀ s ∈ seqsOf m.flush.taken, s ∈ m.answered
  marked : ∀ s ∈ seqsOf m.flush.marked, s ∈ m.counted
  counted : ∀ s ∈ m.counted, s ≤ m.queue.nextSeq
  /-- A queued result is not counted yet, but for one refused alone that is about to be settled. -/
  uncounted : ∀ s ∈ m.queue.seqs, s ∈ m.counted → s ∈ seqsOf m.flush.marked
  sent : ∀ s ∈ m.sent, s ≤ m.queue.nextSeq
  unsent : ∀ s ∈ m.queue.seqs, ∀ t ∈ m.sent, s ≤ t → s ∈ m.sent
  first : FirstInOrder m.sent

theorem FirstInOrder.append {sent batch : List Nat} (h : FirstInOrder sent)
    (hsorted : batch.Pairwise (· < ·))
    (hnew : ∀ s ∈ batch, ∀ t ∈ sent, s ≤ t → s ∈ sent) : FirstInOrder (sent ++ batch) := by
  intro pre s post heq hs t ht
  rcases append_eq_append_iff.mp heq with ⟨later, rfl, hbatch⟩ | ⟨rest, hsent, hrest⟩
  · -- `s` is first sent with the new batch
    have hmem : s ∈ batch := hbatch ▸ mem_append_right later (mem_cons_self)
    have hold : s ∉ sent := fun h => hs (mem_append_left later h)
    rcases mem_append.mp ht with ht | ht
    · exact not_le.mp fun hle => hold (hnew s hmem t ht hle)
    · rw [hbatch] at hsorted
      exact (pairwise_append.mp hsorted).2.2 t ht s mem_cons_self
  · -- `s` was sent before
    cases rest with
    | nil =>
      simp only [append_nil, nil_append] at hsent hrest
      subst hsent
      have hmem : s ∈ batch := hrest ▸ mem_cons_self
      exact not_le.mp fun hle => hs (hnew s hmem t ht hle)
    | cons x rest =>
      obtain ⟨rfl, -⟩ := List.cons.inj hrest
      exact h pre s rest hsent hs t ht

namespace Front

variable {q : Queue α} {sent : List Nat} {held : List (Item α)}

theorem nil : Front q sent [] := by
  constructor <;> simp [seqsOf]

theorem head (hq : q.Ordered) (hunsent : ∀ s ∈ q.seqs, ∀ t ∈ sent, s ≤ t → s ∈ sent) (n : Nat) :
    Front q sent (q.head n) := by
  have hsplit : q.seqs = seqsOf (q.head n) ++ (q.items.drop n).map Item.seq := by
    simp only [Queue.seqs, seqsOf, Queue.head, ← map_append, take_append_drop]
  have hsorted := hq.sorted
  rw [hsplit] at hsorted
  obtain ⟨hfront, -, hlt⟩ := pairwise_append.mp hsorted
  have hsub : ∀ s ∈ seqsOf (q.head n), s ∈ q.seqs := by
    intro s hs
    rw [hsplit]
    exact mem_append_left _ hs
  refine ⟨hfront, fun s hs => hq.range s (hsub s hs), fun s hs t ht hle => ?_, fun s hs => ?_⟩
  · rw [hsplit] at hs
    rcases mem_append.mp hs with hs | hs
    · exact hs
    · have := hlt t ht s hs
      omega
  · exact hunsent s (hsub s hs)

theorem push (h : Front q sent held) (r : α) : Front (q.push r) sent held := by
  refine ⟨h.sorted, fun s hs => ?_, fun s hs t ht hle => ?_, h.unsent⟩
  · have := h.range s hs
    exact ⟨this.1, Nat.le_succ_of_le this.2⟩
  · rcases Queue.mem_push hs with hs | rfl
    · exact h.front s hs t ht hle
    · have := (h.range t ht).2
      omega

theorem answer {batch rest : List (Item α)} (h : Front q sent (batch ++ rest)) :
    Front q (sent ++ seqsOf batch) (batch ++ rest) := by
  have hsorted := h.sorted
  simp only [seqsOf, map_append] at hsorted
  refine ⟨h.sorted, h.range, h.front, fun s hs t ht hle => ?_⟩
  rcases mem_append.mp ht with ht | ht
  · exact mem_append_left _ (h.unsent s hs t ht hle)
  · simp only [seqsOf, map_append, mem_append] at hs
    rcases hs with hs | hs
    · exact mem_append_right _ hs
    · have := (pairwise_append.mp hsorted).2.2 t ht s hs
      omega

theorem settle {batch rest : List (Item α)} (hq : q.Ordered) (h : Front q sent (batch ++ rest))
    {k : Nat} (hk : ∀ s ∈ seqsOf batch, s ≤ k) : Front (q.settle k) sent rest := by
  have hmem : ∀ s ∈ seqsOf rest, s ∈ seqsOf (batch ++ rest) := by
    intro s hs
    simp only [seqsOf, map_append, mem_append] at hs ⊢
    exact .inr hs
  have hsorted := h.sorted
  simp only [seqsOf, map_append] at hsorted
  refine ⟨(pairwise_append.mp hsorted).2.1, fun s hs => h.range s (hmem s hs),
    fun s hs t ht hle => ?_, fun s hs => h.unsent s (hmem s hs)⟩
  obtain ⟨hs, hlt⟩ := hq.mem_settle.mp hs
  have := h.front s hs t (hmem t ht) hle
  simp only [seqsOf, map_append, mem_append] at this
  rcases this with hb | hr
  · have := hk s hb
    omega
  · exact hr

end Front

namespace Ledger

variable {m : Ledger α}

theorem inv_new : ({} : Ledger α).Inv := by
  refine ⟨⟨?_, ?_, ?_⟩, Front.nil, ?_, ?_, ?_, ?_, ?_, ?_, ?_, ?_⟩ <;>
    simp [Queue.seqs, Flush.gone, Flush.taken, Flush.marked, seqsOf, FirstInOrder]

theorem Inv.push (h : m.Inv) (r : α) :
    ({ m with
      queue := m.queue.push r
      counted := m.counted ∪ (seqsOf (m.queue.overflow r)).toFinset } : Ledger α).Inv where
  queue := h.queue.push r
  held := h.held.push r
  gone s hs := by
    have := h.gone s hs
    refine ⟨fun hq => ?_, Nat.le_succ_of_le this.2⟩
    rcases Queue.mem_push hq with hq | rfl
    · exact this.1 hq
    · exact absurd this.2 (Nat.not_succ_le_self _)
  taken := h.taken
  marked s hs := Finset.mem_union_left _ (h.marked s hs)
  counted s hs := by
    rcases Finset.mem_union.mp hs with hs | hs
    · exact Nat.le_succ_of_le (h.counted s hs)
    · exact (Queue.overflow_le h.queue (mem_toFinset.mp hs)).2
  uncounted s hs hc := by
    rcases Finset.mem_union.mp hc with hc | hc
    · rcases Queue.mem_push hs with hq | rfl
      · exact h.uncounted s hq hc
      · exact absurd (h.counted _ hc) (Nat.not_succ_le_self _)
    · exact absurd hs (h.queue.overflow_notMem (mem_toFinset.mp hc))
  sent s hs := Nat.le_succ_of_le (h.sent s hs)
  unsent s hs t ht hle := by
    rcases Queue.mem_push hs with hq | rfl
    · exact h.unsent s hq t ht hle
    · have := h.sent t ht
      omega
  first := h.first

variable {f : Flush α} {i k s : Nat} {rest : List (Item α)} {x : Item α}

theorem Inv.turn (h : m.Inv) (hm : m.flush.marked = []) (hheld : Front m.queue m.sent f.held)
    (hgone : f.gone = []) (htaken : ∀ s ∈ seqsOf f.taken, s ∈ m.answered) (hmarked : f.marked = []) :
    ({ m with flush := f } : Ledger α).Inv where
  queue := h.queue
  held := hheld
  gone s hs := by simp [hgone, seqsOf] at hs
  taken := htaken
  marked s hs := by simp [hmarked, seqsOf] at hs
  counted := h.counted
  uncounted s hs hc := by
    have := h.uncounted s hs hc
    simp [hm, seqsOf] at this
  sent := h.sent
  unsent := h.unsent
  first := h.first

variable {batch : List (Item α)}

theorem Inv.answer (h : m.Inv) (hheld : m.flush.held = batch ++ rest) (reply : Reply) :
    (m.answer batch reply).Inv := by
  have hfront := h.held
  rw [hheld] at hfront
  have hmem : ∀ s ∈ seqsOf batch, s ∈ seqsOf (batch ++ rest) := by
    intro s hs
    simp only [seqsOf, map_append, mem_append] at hs ⊢
    exact .inl hs
  have hsorted := hfront.sorted
  simp only [seqsOf, map_append] at hsorted
  refine ⟨h.queue, ?_, h.gone, fun s hs => Finset.mem_union_left _ (h.taken s hs), h.marked,
    h.counted, h.uncounted, fun s hs => ?_, fun s hs t ht hle => ?_, ?_⟩
  · have := hfront.answer
    rw [← hheld] at this
    exact this
  · rcases mem_append.mp hs with hs | hs
    · exact h.sent s hs
    · exact (hfront.range s (hmem s hs)).2
  · rcases mem_append.mp ht with ht | ht
    · exact mem_append_left _ (h.unsent s hs t ht hle)
    · have := hfront.front s hs t (hmem t ht) hle
      simp only [seqsOf, map_append, mem_append] at this
      rcases this with hb | hr
      · exact mem_append_right _ hb
      · have := (pairwise_append.mp hsorted).2.2 t ht s hr
        omega
  · exact h.first.append (pairwise_append.mp hsorted).1
      fun s hs => hfront.unsent s (hmem s hs)

theorem Inv.settle (h : m.Inv) (hheld : m.flush.held = batch ++ rest)
    (hk : ∀ s ∈ seqsOf batch, s ≤ k) (hm : ∀ s ∈ seqsOf m.flush.marked, s ≤ k)
    (hrest : f.held = rest) (hgone : ∀ s ∈ seqsOf f.gone, s ∈ seqsOf batch) (htaken : f.taken = [])
    (hmarked : f.marked = []) :
    ({ m with queue := m.queue.settle k, flush := f } : Ledger α).Inv where
  queue := h.queue.settle k
  held := by
    have hfront := h.held
    rw [hheld] at hfront
    rw [hrest]
    exact hfront.settle h.queue hk
  gone s hs := by
    have hb := hgone s hs
    have hrange : s ≤ m.queue.nextSeq := by
      refine (h.held.range s ?_).2
      rw [hheld]
      simp only [seqsOf, map_append, mem_append] at hb ⊢
      exact .inl hb
    refine ⟨fun hq => ?_, hrange⟩
    have := (h.queue.mem_settle.mp hq).2
    have := hk s hb
    omega
  taken s hs := by simp [htaken, seqsOf] at hs
  marked s hs := by simp [hmarked, seqsOf] at hs
  counted := h.counted
  uncounted s hs hc := by
    obtain ⟨hq, hlt⟩ := h.queue.mem_settle.mp hs
    have := hm s (h.uncounted s hq hc)
    omega
  sent := h.sent
  unsent s hs := h.unsent s (h.queue.mem_settle.mp hs).1
  first := h.first

theorem Inv.count (h : m.Inv) (n : Nat) {which : List (Item α)}
    (hwhich : ∀ s ∈ seqsOf which, s ∈ seqsOf m.flush.gone) : (m.count n which).Inv where
  queue := ⟨h.queue.sorted, h.queue.range, h.queue.size⟩
  held := ⟨h.held.sorted, h.held.range, h.held.front, h.held.unsent⟩
  gone := h.gone
  taken := h.taken
  marked s hs := Finset.mem_union_left _ (h.marked s hs)
  counted s hs := by
    rcases Finset.mem_union.mp hs with hs | hs
    · exact h.counted s hs
    · exact (h.gone s (hwhich s (mem_toFinset.mp hs))).2
  uncounted s hs hc := by
    rcases Finset.mem_union.mp hc with hc | hc
    · exact h.uncounted s hs hc
    · exact absurd hs (h.gone s (hwhich s (mem_toFinset.mp hc))).1
  sent := h.sent
  unsent := h.unsent
  first := h.first

theorem le_lastSeq (hsorted : (seqsOf batch).Pairwise (· < ·)) :
    ∀ s ∈ seqsOf batch, s ≤ lastSeq batch := by
  induction batch using reverseRecOn with
  | nil => simp [seqsOf]
  | append_singleton batch x _ =>
    intro s hs
    simp only [seqsOf, map_append, map_cons, map_nil] at hsorted hs
    rw [lastSeq, getLast?_concat]
    rcases mem_append.mp hs with hs | hs
    · exact ((pairwise_append.mp hsorted).2.2 s hs x.seq (by simp)).le
    · simp only [mem_singleton] at hs
      simp [hs]

theorem sendBatch_cases (i : Nat) (batch : List (Item α)) (reply : Reply) :
    (∃ dropped, reply = .accepted dropped ∧ sendBatch i batch reply = .accepted i batch dropped) ∨
      (reply = .status statusBadRequest ∧ sendBatch i batch reply = .refused i batch) ∨
      (reply = .status statusNotFound ∧ sendBatch i batch reply = .missing i batch) ∨
      sendBatch i batch reply = .idle := by
  cases reply with
  | accepted dropped => exact .inl ⟨dropped, rfl, rfl⟩
  | unread | failed => exact .inr (.inr (.inr rfl))
  | status code =>
    by_cases hbad : code = statusBadRequest
    · subst hbad
      exact .inr (.inl ⟨rfl, rfl⟩)
    by_cases hmiss : code = statusNotFound
    · subst hmiss
      exact .inr (.inr (.inl ⟨rfl, rfl⟩))
    · exact .inr (.inr (.inr (by simp [sendBatch, hbad, hmiss])))

theorem sendSingle_cases (i : Nat) (x : Item α) (rest : List (Item α)) (reply : Reply) :
    (∃ dropped, reply = .accepted dropped ∧ sendSingle i x rest reply = .singleAccepted i x rest) ∨
      (∃ code, reply = .status code ∧ retried code = false ∧
        sendSingle i x rest reply = .singleRefused i x rest) ∨
      sendSingle i x rest reply = .idle := by
  cases reply with
  | accepted dropped => exact .inl ⟨dropped, rfl, rfl⟩
  | unread | failed => exact .inr (.inr rfl)
  | status code =>
    cases hr : retried code with
    | false => exact .inr (.inl ⟨code, rfl, hr, by simp [sendSingle, hr]⟩)
    | true => exact .inr (.inr (by simp [sendSingle, hr]))

theorem mem_answered {dropped : List Int} (hs : s ∈ seqsOf batch) :
    s ∈ (m.answer batch (.accepted dropped)).answered :=
  Finset.mem_union_right _ (mem_toFinset.mpr hs)

theorem Inv.posted (h : m.Inv) (hf : m.flush = .posting i batch) (reply : Reply) :
    ({ m.answer batch reply with flush := sendBatch i batch reply } : Ledger α).Inv := by
  have hheld : m.flush.held = batch ++ [] := by rw [hf, append_nil]; rfl
  have ha := h.answer hheld reply
  have hm : m.flush.marked = [] := by rw [hf]; rfl
  have hfront : Front m.queue (m.answer batch reply).sent batch := by
    have := ha.held
    rwa [show (m.answer batch reply).flush = m.flush from rfl, hheld, append_nil] at this
  rcases sendBatch_cases i batch reply with ⟨dropped, rfl, hs⟩ | ⟨rfl, hs⟩ | ⟨rfl, hs⟩ | hs <;> rw [hs]
  · exact ha.turn hm hfront rfl (fun s => mem_answered) rfl
  · exact ha.turn hm hfront rfl (by simp [Flush.taken, seqsOf]) rfl
  · exact ha.turn hm hfront rfl (by simp [Flush.taken, seqsOf]) rfl
  · exact ha.turn hm Front.nil rfl (by simp [Flush.taken, seqsOf]) rfl

theorem Inv.postedSingle (h : m.Inv) (hf : m.flush = .singles i (x :: rest)) (reply : Reply) :
    ({ m.answer [x] reply with flush := sendSingle i x rest reply } : Ledger α).Inv := by
  have hheld : m.flush.held = [x] ++ rest := by rw [hf]; rfl
  have ha := h.answer hheld reply
  have hm : m.flush.marked = [] := by rw [hf]; rfl
  have hfront : Front m.queue (m.answer [x] reply).sent (x :: rest) := by
    have := ha.held
    rwa [show (m.answer [x] reply).flush = m.flush from rfl, hheld] at this
  rcases sendSingle_cases i x rest reply with ⟨dropped, rfl, hs⟩ | ⟨code, rfl, -, hs⟩ | hs <;> rw [hs]
  · exact ha.turn hm hfront rfl (fun s => mem_answered) rfl
  · exact ha.turn hm hfront rfl (by simp [Flush.taken, seqsOf]) rfl
  · exact ha.turn hm Front.nil rfl (by simp [Flush.taken, seqsOf]) rfl

theorem Inv.mark (h : m.Inv) (hf : m.flush = .singleRefused i x rest) :
    ({ m.count 1 [x] with flush := .singleCounted i x rest } : Ledger α).Inv where
  queue := ⟨h.queue.sorted, h.queue.range, h.queue.size⟩
  held := by
    have := h.held
    rw [hf] at this
    exact ⟨this.sorted, this.range, this.front, this.unsent⟩
  gone s hs := by simp [Flush.gone, seqsOf] at hs
  taken s hs := by simp [Flush.taken, seqsOf] at hs
  marked s hs := Finset.mem_union_right _ (mem_toFinset.mpr hs)
  counted s hs := by
    rcases Finset.mem_union.mp hs with hs | hs
    · exact h.counted s hs
    · refine (h.held.range s ?_).2
      rw [hf]
      simp only [seqsOf, map_cons, map_nil, mem_toFinset, mem_singleton] at hs
      simp [Flush.held, seqsOf, hs]
  uncounted s hs hc := by
    rcases Finset.mem_union.mp hc with hc | hc
    · have := h.uncounted s hs hc
      simp [hf, Flush.marked, seqsOf] at this
    · exact mem_toFinset.mp hc
  sent := h.sent
  unsent := h.unsent
  first := h.first

theorem listed_subset (batch : List (Item α)) (dropped : List Int) :
    ∀ s ∈ seqsOf (listed batch dropped), s ∈ seqsOf batch := by
  intro s hs
  obtain ⟨x, hx, rfl⟩ := mem_map.mp hs
  obtain ⟨⟨y, k⟩, hy, rfl⟩ := mem_map.mp hx
  exact mem_map_of_mem (fst_mem_of_mem_zipIdx (mem_filter.mp hy).1)

theorem Inv.next (h : m.Inv) (reply : Reply) (now : Time) : (m.next reply now).Inv := by
  unfold Ledger.next
  cases hf : m.flush with
  | idle => exact h
  | loop i =>
    have hm : m.flush.marked = [] := by rw [hf]; rfl
    have hidle : ({ m with flush := .idle } : Ledger α).Inv :=
      h.turn hm Front.nil rfl (by simp [Flush.taken, seqsOf]) rfl
    dsimp only
    split
    · have hhead := Front.head h.queue h.unsent monitorResultBatchMax
      split
      · exact hidle
      · rename_i x batch hbatch
        rw [hbatch] at hhead
        exact h.turn hm hhead rfl (by simp [Flush.taken, seqsOf]) rfl
    · exact hidle
  | route i batch =>
    have hm : m.flush.marked = [] := by rw [hf]; rfl
    have hheld := h.held
    rw [hf] at hheld
    dsimp only
    split <;> exact h.turn hm hheld rfl (by simp [Flush.taken, seqsOf]) rfl
  | posting i batch => exact h.posted hf reply
  | refused i batch =>
    have hheld : m.flush.held = batch ++ [] := by rw [hf, append_nil]; rfl
    have hsorted := h.held.sorted
    rw [hheld, append_nil] at hsorted
    exact h.settle hheld (le_lastSeq hsorted) (by simp [hf, Flush.marked, seqsOf]) rfl
      (fun s hs => hs) rfl rfl
  | refusedCount i batch =>
    have hc : (m.count batch.length batch).Inv := h.count _ (by simp [hf, Flush.gone])
    exact hc.turn (by rw [show (m.count batch.length batch).flush = m.flush from rfl, hf]; rfl)
      Front.nil rfl (by simp [Flush.taken, seqsOf]) rfl
  | accepted i batch dropped =>
    have hheld : m.flush.held = batch ++ [] := by rw [hf, append_nil]; rfl
    have hsorted := h.held.sorted
    rw [hheld, append_nil] at hsorted
    dsimp only
    split
    · exact h.settle hheld (le_lastSeq hsorted) (by simp [hf, Flush.marked, seqsOf]) rfl
        (by simp [Flush.gone, seqsOf]) rfl rfl
    · exact h.settle hheld (le_lastSeq hsorted) (by simp [hf, Flush.marked, seqsOf]) rfl
        (fun s hs => hs) rfl rfl
  | acceptedCount i batch dropped =>
    have hc : (m.count dropped.length (listed batch dropped)).Inv :=
      h.count _ (by rw [hf]; exact listed_subset batch dropped)
    exact hc.turn (by rw [show (m.count dropped.length _).flush = m.flush from rfl, hf]; rfl)
      Front.nil rfl (by simp [Flush.taken, seqsOf]) rfl
  | missing i batch =>
    have hm : m.flush.marked = [] := by rw [hf]; rfl
    have hheld := h.held
    rw [hf] at hheld
    have ht : ({ m with flush := .singles i batch } : Ledger α).Inv :=
      h.turn hm hheld rfl (by simp [Flush.taken, seqsOf]) rfl
    exact ⟨⟨ht.queue.sorted, ht.queue.range, ht.queue.size⟩,
      ⟨ht.held.sorted, ht.held.range, ht.held.front, ht.held.unsent⟩, ht.gone, ht.taken,
      ht.marked, ht.counted, ht.uncounted, ht.sent, ht.unsent, ht.first⟩
  | singles i rest =>
    have hm : m.flush.marked = [] := by rw [hf]; rfl
    cases rest with
    | nil => exact h.turn hm Front.nil rfl (by simp [Flush.taken, seqsOf]) rfl
    | cons x rest => exact h.postedSingle hf reply
  | singleRefused i x rest => exact h.mark hf
  | singleCounted i x rest =>
    have hheld : m.flush.held = [x] ++ rest := by rw [hf]; rfl
    exact h.settle hheld (by simp [seqsOf]) (by simp [hf, Flush.marked, seqsOf]) rfl
      (by simp [Flush.gone, seqsOf]) rfl rfl
  | singleAccepted i x rest =>
    have hheld : m.flush.held = [x] ++ rest := by rw [hf]; rfl
    exact h.settle hheld (by simp [seqsOf]) (by simp [hf, Flush.marked, seqsOf]) rfl
      (by simp [Flush.gone, seqsOf]) rfl rfl

theorem Inv.step (h : m.Inv) (move : Move α) : (m.step move).Inv := by
  cases move with
  | push r => exact h.push r
  | flush =>
    unfold Ledger.step
    dsimp only
    split
    · rename_i hf
      have hm : m.flush.marked = [] := by
        cases hidle : m.flush <;> simp_all [Flush.marked]
      exact h.turn hm Front.nil rfl (by simp [Flush.taken, seqsOf]) rfl
    · exact h
  | next reply now => exact h.next reply now

/-! ### Every result is accounted for -/

/-- Every pushed result is queued, or was in a request answered with a success, or is counted as
dropped. -/
def Accounted (m : Ledger α) : Prop :=
  ∀ s, 1 ≤ s → s ≤ m.queue.nextSeq → s ∈ m.queue.seqs ∨ s ∈ m.answered ∨ s ∈ m.counted

/-- A batch refused as a whole is settled only when none of its results is still queued, unless a
request answered with a success carried it. -/
def SettlesNoRefused (m : Ledger α) (move : Move α) : Prop :=
  match move, m.flush with
  | .next _ _, .refused _ batch => ∀ s ∈ seqsOf batch, s ∈ m.queue.seqs → s ∈ m.answered
  | _, _ => True

theorem Inv.settled_mem (h : m.Inv) (hheld : m.flush.held = batch ++ rest) (hk : k ∈ seqsOf batch)
    (hs : s ∈ m.queue.seqs) (hle : s ≤ k) : s ∈ seqsOf batch := by
  have hfront := h.held
  rw [hheld] at hfront
  have hsorted := hfront.sorted
  simp only [seqsOf, map_append] at hsorted
  have hmem := hfront.front s hs k (by simpa [seqsOf] using .inl (by simpa [seqsOf] using hk)) hle
  simp only [seqsOf, map_append, mem_append] at hmem
  rcases hmem with hb | hr
  · exact hb
  · have := (pairwise_append.mp hsorted).2.2 k hk s hr
    omega

theorem lastSeq_mem (h : 1 ≤ s) (hle : s ≤ lastSeq batch) : lastSeq batch ∈ seqsOf batch := by
  rcases hl : batch.getLast? with - | x
  · simp [lastSeq, hl] at hle
    omega
  · simp only [lastSeq, hl, Option.map_some, Option.getD_some]
    exact mem_map_of_mem (mem_of_getLast? hl)

theorem Inv.settled_batch (h : m.Inv) (hheld : m.flush.held = batch) (hs : s ∈ m.queue.seqs)
    (hle : s ≤ lastSeq batch) : s ∈ seqsOf batch :=
  h.settled_mem (by rw [hheld, append_nil]) (lastSeq_mem (h.queue.range s hs).1 hle) hs hle

theorem Inv.settled_single (h : m.Inv) (hheld : m.flush.held = x :: rest) (hs : s ∈ m.queue.seqs)
    (hle : s ≤ x.seq) : s = x.seq := by
  have hmem : s ∈ seqsOf [x] := h.settled_mem hheld (by simp [seqsOf]) hs hle
  simpa [seqsOf] using hmem

section

variable (h : m.Accounted)

include h

theorem Accounted.mono {m' : Ledger α} (hn : m'.queue.nextSeq = m.queue.nextSeq)
    (hq : ∀ s ∈ m.queue.seqs, s ∈ m'.queue.seqs ∨ s ∈ m'.answered ∨ s ∈ m'.counted)
    (ha : m.answered ⊆ m'.answered) (hc : m.counted ⊆ m'.counted) : m'.Accounted := by
  intro s h1 hle
  rcases h s h1 (hn ▸ hle) with hs | hs | hs
  · exact hq s hs
  · exact .inr (.inl (ha hs))
  · exact .inr (.inr (hc hs))

theorem Accounted.settle (hq : m.queue.Ordered)
    (hk : ∀ s ∈ m.queue.seqs, s ≤ k → s ∈ m.answered ∨ s ∈ m.counted) :
    ({ m with queue := m.queue.settle k, flush := f } : Ledger α).Accounted := by
  refine h.mono rfl (fun s hs => ?_) (Finset.Subset.refl _) (Finset.Subset.refl _)
  by_cases hle : s ≤ k
  · exact .inr (hk s hs hle)
  · exact .inl (hq.mem_settle.mpr ⟨hs, not_le.mp hle⟩)

theorem Accounted.push (r : α) : (m.step (.push r)).Accounted := by
  intro s h1 hle
  have hcases : s ≤ m.queue.nextSeq ∨ s = m.queue.nextSeq + 1 := Nat.le_succ_iff.mp hle
  have hpush : s ∈ m.queue.seqs ∨ s = m.queue.nextSeq + 1 →
      s ∈ (m.queue.push r).seqs ∨ s ∈ m.answered ∨
        s ∈ m.counted ∪ (seqsOf (m.queue.overflow r)).toFinset := by
    intro hs
    rcases Queue.push_or_overflow m.queue r hs with hs | hs
    · exact .inl hs
    · exact .inr (.inr (Finset.mem_union_right _ (mem_toFinset.mpr hs)))
  rcases hcases with hle | rfl
  · rcases h s h1 hle with hs | hs | hs
    · exact hpush (.inl hs)
    · exact .inr (.inl hs)
    · exact .inr (.inr (Finset.mem_union_left _ hs))
  · exact hpush (.inr rfl)

theorem Accounted.next (hi : m.Inv) (reply : Reply) (now : Time)
    (hf : ∀ i batch, m.flush ≠ .refused i batch) : (m.next reply now).Accounted := by
  have hsame : ∀ f, ({ m with flush := f } : Ledger α).Accounted := fun f =>
    h.mono rfl (fun s hs => .inl hs) (Finset.Subset.refl _) (Finset.Subset.refl _)
  unfold Ledger.next
  cases hfl : m.flush with
  | idle => exact h
  | loop i =>
    dsimp only
    split
    · split <;> exact hsame _
    · exact hsame _
  | route i batch => exact hsame _
  | posting i batch =>
    exact h.mono rfl (fun s hs => .inl hs) Finset.subset_union_left (Finset.Subset.refl _)
  | refused i batch => exact absurd hfl (hf i batch)
  | refusedCount | acceptedCount | singleRefused =>
    exact h.mono rfl (fun s hs => .inl hs) (Finset.Subset.refl _) Finset.subset_union_left
  | accepted i batch dropped =>
    refine h.settle hi.queue fun s hs hle => .inl (hi.taken s ?_)
    have := hi.settled_batch (by rw [hfl]; rfl) hs hle
    rwa [hfl]
  | missing i batch =>
    exact h.mono rfl (fun s hs => .inl hs) (Finset.Subset.refl _) (Finset.Subset.refl _)
  | singles i rest =>
    cases rest with
    | nil => exact hsame _
    | cons x rest =>
      exact h.mono rfl (fun s hs => .inl hs) Finset.subset_union_left (Finset.Subset.refl _)
  | singleCounted i x rest =>
    refine h.settle hi.queue fun s hs hle => .inr (hi.marked s ?_)
    have := hi.settled_single (by rw [hfl]; rfl) hs hle
    simp [hfl, Flush.marked, seqsOf, this]
  | singleAccepted i x rest =>
    refine h.settle hi.queue fun s hs hle => .inl (hi.taken s ?_)
    have := hi.settled_single (by rw [hfl]; rfl) hs hle
    simp [hfl, Flush.taken, seqsOf, this]

/-- The settle of a refused batch loses sight of what of it is still queued. -/
theorem accounted_refused (hi : m.Inv) (hf : m.flush = .refused i batch) (reply : Reply)
    (now : Time) :
    (m.next reply now).Accounted ↔
      ∀ s ∈ seqsOf batch, s ∈ m.queue.seqs → s ∈ m.answered := by
  have hnext : m.next reply now =
      { m with queue := m.queue.settle (lastSeq batch), flush := .refusedCount i batch } := by
    unfold Ledger.next
    rw [hf]
  have hheld : m.flush.held = batch := by rw [hf]; rfl
  rw [hnext]
  constructor
  · intro hacc s hs hq
    obtain ⟨h1, hle⟩ := hi.queue.range s hq
    rcases hacc s h1 hle with hs' | hs' | hs'
    · have hlast := le_lastSeq (hheld ▸ hi.held.sorted) s hs
      have := (hi.queue.mem_settle.mp hs').2
      omega
    · exact hs'
    · have := hi.uncounted s hq hs'
      simp [hf, Flush.marked, seqsOf] at this
  · exact fun hall => h.settle hi.queue fun s hs hle => .inl (hall s (hi.settled_batch hheld hs hle) hs)

/-- A move keeps every result accounted for exactly if it does not settle a refused batch under a
queued result. -/
theorem accounted_step (hi : m.Inv) (move : Move α) :
    (m.step move).Accounted ↔ m.SettlesNoRefused move := by
  cases move with
  | push r => simpa [SettlesNoRefused] using h.push r
  | flush =>
    have hsame : (m.step .flush).Accounted :=
      h.mono rfl (fun s hs => .inl hs) (Finset.Subset.refl _) (Finset.Subset.refl _)
    simpa [SettlesNoRefused] using hsame
  | next reply now =>
    by_cases hf : ∃ i batch, m.flush = .refused i batch
    · obtain ⟨i, batch, hf⟩ := hf
      simp only [SettlesNoRefused, hf]
      exact accounted_refused h hi hf reply now
    · have hne : ∀ i batch, m.flush ≠ .refused i batch := fun i batch he => hf ⟨i, batch, he⟩
      have htrue : m.SettlesNoRefused (.next reply now) := by
        unfold SettlesNoRefused
        split
        · rename_i hr
          exact absurd hr (hne _ _)
        · trivial
      exact iff_of_true (h.next hi reply now hne) htrue

end

/-- **No result is lost silently, but for a refused batch.**  After any interleaving of pushes with
the steps of a flush and any replies, the queue is sorted and bounded and results were first sent in
push order. Every pushed result is accounted for in every state reached exactly if no batch that
was refused as a whole is settled while a result of it is still queued. -/
theorem results_accounted (moves : List (Move α)) :
    (∀ k, let m := Runs.run step ({} : Ledger α) (moves.take k)
      m.queue.seqs.Pairwise (· < ·) ∧ FirstInOrder m.sent ∧
        m.queue.items.length ≤ monitorResultQueueMax) ∧
      ((∀ k, (Runs.run step ({} : Ledger α) (moves.take k)).Accounted) ↔
        Runs.Along step SettlesNoRefused ({} : Ledger α) moves) := by
  constructor
  · intro k m
    have hi : m.Inv := Runs.invariant_always Inv (fun m move h => h.step move) inv_new _
    exact ⟨hi.queue.sorted, hi.first, hi.queue.size⟩
  · refine Runs.along_iff Inv Accounted (fun m move h => h.step move)
      (fun m move hi h => accounted_step h hi move) inv_new (fun s h1 hle => ?_) moves
    exact absurd (h1.trans hle) (by simp)

/-- One result, sent as a batch of its own and stored. -/
def delivery : List (Move Unit) :=
  [.push (), .flush, .next .failed 0, .next .failed 0, .next (.accepted []) 0, .next .failed 0]

theorem results_accounted_delivery :
    Runs.Along step SettlesNoRefused ({} : Ledger Unit) delivery ∧
      ∀ k, (Runs.run step ({} : Ledger Unit) (delivery.take k)).Accounted := by
  have halong : Runs.Along step SettlesNoRefused ({} : Ledger Unit) delivery :=
    ⟨trivial, trivial, trivial, trivial, trivial, trivial, trivial⟩
  exact ⟨halong, (results_accounted delivery).2.mpr halong⟩

/-- One result, sent as a batch of its own and refused. -/
def refusal : List (Move Unit) :=
  [.push (), .flush, .next .failed 0, .next .failed 0, .next (.status statusBadRequest) 0,
    .next .failed 0]

/-- A refused batch is taken out of the queue before it is counted: in between its result is neither
queued, nor in a request answered with a success, nor counted. -/
theorem refused_unaccounted :
    let m := Runs.run step ({} : Ledger Unit) refusal
    m.queue.nextSeq = 1 ∧ m.queue.items = [] ∧ m.answered = ∅ ∧ m.counted = ∅ ∧
      m.queue.dropped = 0 ∧ ¬ m.Accounted := by
  refine ⟨by decide, by decide, by decide, by decide, by decide, fun h => ?_⟩
  rcases h 1 le_rfl (by decide) with hs | hs | hs <;> exact absurd hs (by decide)

end Ledger

end LatticeAgent.Monitor
