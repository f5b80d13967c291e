import LatticeAgent.Trace.Sessions

/-! # What the collector keeps of its connections

The collector keeps, by log id, the sessions that took a connection and the lines that wait for
one to be identified. A tick forgets a connection when it drains its final record. But a
connection may end without a record, and a line may come for one that has ended.

`bookkeeping_bounded` says when what is kept is bounded by what the assembler tracks: every log
id in either map is of an open connection or of a final record that waits to be drained. -/

namespace LatticeAgent.Trace

open List Conn Bool AList Assembler

/-! ### What the assembler tracks -/

namespace Assembler

open Collector (Ended)

/-- The log id is of an open connection, or of a final record that waits to be drained. -/
def Held (a : Assembler) (id : UInt32) : Prop :=
  (a.open_.lookup id).isSome = true ∨ Ended a.out id

instance (a : Assembler) (id : UInt32) : Decidable (a.Held id) := inferInstanceAs (Decidable (_ ∨ _))

/-- Without source and destination, the end of a connection is counted and not recorded. -/
def blank (c : Conn) : Bool := c.record.srcIP == "" && c.record.dstHost == ""

/-- The line says that its connection has ended. -/
def terminal : Event → Bool
  | .dialFailed | .authFailed | .handshakeFailed | .connectionClosed => true
  | _ => false

/-- The line ends its connection: it says so, or it is the second half close. -/
def ends (c : Conn) (l : Line) (at_ : Time) : Bool :=
  match l.event with
  | .finished | .closed => (c.halfClosed l at_).closedUp && (c.halfClosed l at_).closedDown
  | event => terminal event

/-- The line opens a connection: it is an accept line, or the first of an id not seen before. -/
def opens (a : Assembler) (l : Line) : Bool :=
  l.event == .inboundFrom || ((a.open_.lookup l.logID).isNone && !a.done.has l.logID)

/-- A tick ends the connection: one direction has closed and the other is not coming, or nothing
was heard of it for too long. -/
def expires (a : Assembler) (now : Time) (r : Nat) : Bool :=
  let c := a.conn r
  (!c.firstHalfAt.isZero && decide (a.opts.halfCloseGrace ≤ now.sub c.firstHalfAt) &&
    !a.stillListed c) || decide (a.opts.orphanTTL ≤ now.sub c.lastSeenAt)

/-- Whatever was held is held, but for these log ids. -/
def Loses (lost : Set UInt32) (a a' : Assembler) : Prop := ∀ id, a.Held id → a'.Held id ∨ id ∈ lost

variable {lost : Set UInt32} {a b a' : Assembler} {drained : List ConnRecord}

theorem Loses.refl (a : Assembler) : Loses lost a a := fun _ h => .inl h

theorem Loses.trans (h : Loses lost a b) (h' : Loses lost b a') : Loses lost a a' := by
  intro id hid
  obtain hid | hid := h id hid
  · exact h' id hid
  · exact .inr hid

theorem held_of_mem (h : a.Consistent) {r : Nat} (hr : r ∈ a.order) :
    a.Held (a.conn r).record.logID := .inl (by rw [h.found r hr]; rfl)

theorem ended_of_closed (rec : ConnRecord) (h : rec ∈ a.closed) : Ended a.out rec.logID :=
  ⟨rec, mem_of_mem_filter h, by simpa using (mem_filter.mp h).2, rfl⟩

theorem loses_step (sdk : Sdk) (h : Books drained a) (call : AsmCall) (hcall : call ≠ .drain)
    (hleft : ∀ r ∈ a.leaving sdk call, r ∈ a.order →
      Ended (AsmRun.step sdk ⟨a, drained⟩ call).asm.out (a.conn r).record.logID ∨
        (a.conn r).record.logID ∈ lost) :
    Loses lost a (AsmRun.step sdk ⟨a, drained⟩ call).asm := by
  obtain ⟨done, hleaves, -⟩ := AsmRun.step_leaves (s := ⟨a, drained⟩) sdk h.consistent call
  obtain ⟨new, hpush⟩ := AsmRun.step_pushes (s := ⟨a, drained⟩) sdk h.consistent call hcall
  have h' := (AsmRun.step_books (s := ⟨a, drained⟩) sdk h call).consistent
  rintro id (hopen | ⟨rec, hrec, hended⟩)
  · obtain ⟨r, hr⟩ := Option.isSome_iff_exists.mp hopen
    obtain ⟨hmem, rfl⟩ := h.consistent.opened id r hr
    have hid : ((AsmRun.step sdk ⟨a, drained⟩ call).asm.conn r).record.logID =
        (a.conn r).record.logID := hleaves.ids r (h.consistent.allocated r hmem)
    by_cases hin : r ∈ (AsmRun.step sdk ⟨a, drained⟩ call).asm.order
    · exact .inl (hid ▸ held_of_mem h' hin)
    · exact (hleft r ((hleaves.mem r).mpr ⟨.inl hmem, hin⟩) hmem).imp_left .inr
  · obtain ⟨recs, hout, -⟩ := hpush.out
    exact .inl (.inr ⟨rec, hout ▸ mem_append_left _ hrec, hended⟩)

theorem mem_finals_of_known {c : Conn} (h : blank c = false) (r : Nat) (gen : UInt64) (e : Ending) :
    (r, c.final gen e) ∈ c.finals r gen (some e) := by
  rw [Conn.finals, if_neg (by simpa [blank] using h)]
  exact mem_singleton_self _

theorem Swept.recorded {l : List Nat} {w : Conn → Conn} {e : Conn → Option Ending}
    (h : Swept l w e b a') {r : Nat} (hr : r ∈ l) {e' : Ending} (he : e (b.conn r) = some e')
    (hknown : blank (w (b.conn r)) = false) : Ended a'.out (w (b.conn r)).record.logID := by
  have hmem : (r, (w (b.conn r)).final b.gen e') ∈
      l.flatMap fun r => (w (b.conn r)).finals r b.gen (e (b.conn r)) :=
    mem_flatMap.mpr ⟨r, hr, he ▸ mem_finals_of_known hknown r b.gen e'⟩
  refine ended_of_closed ((w (b.conn r)).final b.gen e') ?_
  rw [h.closed]
  exact mem_append_right _ (mem_map_of_mem (f := Prod.snd) hmem)

/-! ### What a line does -/

variable {l : Line}

theorem ends_of_lineEnding {sdk : Sdk} {c : Conn} {at_ : Time} {e : Ending}
    (h : c.lineEnding sdk l at_ = some e) :
    ends c l at_ ∧ (c.fed sdk l at_).record.srcIP = c.record.srcIP ∧
      (c.fed sdk l at_).record.dstHost = c.record.dstHost := by
  have hev : ends c l at_ = true ∧ l.event ≠ .inboundFrom ∧ l.event ≠ .inboundTo ∧
      l.event ≠ .outboundTo := by
    obtain ⟨hhalf, -, hboth⟩ | ⟨hhalf, reason, hcand, hreason⟩ := lineEnding_cases h
    · rw [fed_eq] at hboth
      cases hev : l.event <;> simp_all [Event.half, ends]
    · unfold lineEnding at h
      cases hev : l.event <;> simp_all [Event.half, ends, terminal]
  rw [fed_eq]
  simp [hev]

theorem lineEnding_fresh (sdk : Sdk) (nodeID : String) (at_ : Time) (hev : terminal l.event = false) :
    (fresh nodeID l at_).lineEnding sdk l at_ = none := by
  refine Option.eq_none_iff_forall_ne_some.mpr fun e he => ?_
  have hends := (ends_of_lineEnding he).1
  unfold ends at hends
  split at hends
  · rw [(halfClosed_flags ..).1, (halfClosed_flags ..).2.1] at hends
    cases hdir : l.direction <;> simp [fresh, hdir] at hends
  · rw [(halfClosed_flags ..).1, (halfClosed_flags ..).2.1] at hends
    cases hdir : l.direction <;> simp [fresh, hdir] at hends
  · rw [hev] at hends
    cases hends

/-- The line finds its log id free if it opens a connection, and its connection open or about to
be drained if it does not; and it does not end a connection of which nothing is known. -/
structure Orderly (a : Assembler) (l : Line) (at_ : Time) : Prop where
  free : a.opens l = true → ¬ a.Held l.logID ∧ terminal l.event = false
  known : ∀ r, a.open_.lookup l.logID = some r →
    ¬ (blank (a.conn r) = true ∧ ends (a.conn r) l at_ = true)
  trails : a.open_.lookup l.logID = none → a.opens l = false → Ended a.out l.logID

instance (a : Assembler) (l : Line) (at_ : Time) : Decidable (a.Orderly l at_) :=
  decidable_of_iff ((a.opens l = true → ¬ a.Held l.logID ∧ terminal l.event = false) ∧
      ((a.open_.lookup l.logID).elim true fun r =>
        decide (¬ (blank (a.conn r) = true ∧ ends (a.conn r) l at_ = true))) = true ∧
      (a.open_.lookup l.logID = none → a.opens l = false → Ended a.out l.logID)) <| by
    constructor
    · rintro ⟨hfree, hknown, htrails⟩
      refine ⟨hfree, fun r hr => ?_, htrails⟩
      rw [hr] at hknown
      exact of_decide_eq_true hknown
    · rintro ⟨hfree, hknown, htrails⟩
      refine ⟨hfree, ?_, htrails⟩
      rcases hr : a.open_.lookup l.logID with - | r
      · rfl
      · exact decide_eq_true (hknown r hr)

theorem opens_of_target (h : a.Consistent) (ht : a.target l = some a.conns.length) : a.opens l := by
  by_cases hev : l.event = .inboundFrom
  · simp [opens, hev]
  · obtain ⟨hr, -⟩ | ⟨-, hopen⟩ := target_cases h ht
    · exact absurd (h.allocated _ hr) (Nat.lt_irrefl _)
    · have hnone : a.open_.lookup l.logID = none := by
        by_contra hne
        exact hev (hopen hne)
      have hdone : a.done.has l.logID = false := by
        by_contra hdone
        simp [target, hasLogID_of_target ht, hnone, hev, hdone] at ht
      simp [opens, hnone, hdone]

/-- An orderly line loses at most the connection it evicts, and its own is held. -/
theorem loses_line (sdk : Sdk) (h : Books drained a) {clock : Time} (hid : l.hasLogID)
    (ho : a.Orderly l (orClock l.at_ clock))
    (hoccurs : a.opens l → a.opts.maxOpen ≤ a.open_.entries.length →
      ∀ r ∈ a.order.head?, (a.conn r).record.logID ∈ lost) :
    Loses lost a (a.line sdk l clock) ∧ (a.line sdk l clock).Held l.logID := by
  have hc := h.consistent
  -- What the line ends was open, and is recorded.
  have hrecorded {r : Nat} {e : Ending} (ht : a.target l = some r)
      (he : (a.found l (orClock l.at_ clock) r).lineEnding sdk l (orClock l.at_ clock) = some e) :
      (a.conn r).record.logID = l.logID ∧ Ended (a.line sdk l clock).out l.logID := by
    obtain ⟨hr, hopen, -⟩ | ⟨rfl, -⟩ := target_cases hc ht
    · obtain ⟨hends, hip, hhost⟩ := ends_of_lineEnding he
      have htouch := line_touches sdk hc ht clock
      rw [found, if_pos (hc.allocated r hr)] at he htouch hends hip hhost
      have hlog := (hc.opened _ r hopen).2
      have hknown : blank ((a.conn r).fed sdk l (orClock l.at_ clock)) = false := by
        rw [blank, hip, hhost]
        exact eq_false_iff.mpr fun hb => ho.known r hopen ⟨hb, hends⟩
      have hended : Ended (a.line sdk l clock).out _ := ended_of_closed
        (((a.conn r).fed sdk l (orClock l.at_ clock)).final (a.ready l (orClock l.at_ clock)).gen e) (by
          rw [htouch.closed, he]
          exact mem_append_right _
            (mem_map_of_mem (f := Prod.snd) (mem_finals_of_known hknown r _ e)))
      rw [final, fed_eq] at hended
      exact ⟨hlog, hlog ▸ hended⟩
    · rw [found_new, lineEnding_fresh sdk _ _ (ho.free (opens_of_target hc ht)).2] at he
      cases he
  refine ⟨loses_step sdk h (.line l clock) (by simp) fun r hr hmem => ?_, ?_⟩
  · obtain hr | hr := mem_append.mp hr
    · split at hr
      · rename_i ht
        have hopens := opens_of_target hc ht
        have hnone : a.open_.lookup l.logID = none := by
          by_contra hne
          exact (ho.free hopens).1 (.inl (Option.isSome_iff_ne_none.mpr hne))
        rw [collided, hnone, Option.toList_none, nil_append, Option.elim_none,
          Option.mem_toList, evictee] at hr
        split at hr
        · exact .inr (hoccurs hopens ‹_› r hr)
        · cases hr
      · cases hr
    · rw [Option.mem_toList, Option.filter_eq_some_iff] at hr
      obtain ⟨e, he⟩ := Option.isSome_iff_exists.mp hr.2
      obtain ⟨hlog, hended⟩ := hrecorded hr.1 he
      exact .inl (hlog ▸ hended)
  · cases ht : a.target l with
    | none =>
      rw [line_ignored sdk hc ht]
      have hopens : a.open_.lookup l.logID = none ∧ a.opens l = false := by
        unfold target at ht
        rw [hid, if_neg (by simp)] at ht
        split at ht
        · cases ht
        · rename_i hnone
          split at ht
          · rename_i hdone
            exact ⟨hnone, by simp [opens, hnone, hdone.1, hdone.2]⟩
          · cases ht
      exact .inr (ho.trails hopens.1 hopens.2)
    | some r =>
      cases he : (a.found l (orClock l.at_ clock) r).lineEnding sdk l (orClock l.at_ clock) with
      | some e => exact .inr (hrecorded ht he).2
      | none =>
        have htouch := line_touches sdk hc ht clock
        obtain ⟨hlt, hfound⟩ := (ready_conn hc l (orClock l.at_ clock)).2.2 r ht
        have hr : r ∈ (a.line sdk l clock).order := by
          rw [htouch.order, he]
          exact (mem_ready hc ht _).1
        have hheld := held_of_mem (h.line sdk l clock).consistent hr
        rw [htouch.conn hlt, fed_eq] at hheld
        rwa [show (a.found l (orClock l.at_ clock) r).record.logID = l.logID from
          found_logID hc ht _] at hheld

theorem expires_eq (a : Assembler) (now : Time) (r : Nat) :
    a.expires now r = ((a.conn r).tickEnding a.opts a.snapSeq now).isSome := by
  unfold expires tickEnding settled stillListed
  dsimp only
  split
  · rename_i hset
    rw [hset, Bool.true_or]
    rfl
  · rename_i hset
    rw [eq_false_iff.mpr hset, Bool.false_or]
    split <;> simp_all

theorem loses_tick (h : Books drained a) (now clock : Time)
    (hblank : ∀ r ∈ a.order, blank (a.conn r) → a.expires (orClock now clock) r →
      (a.conn r).record.logID ∈ lost) : Loses lost a (a.tick now clock) := by
  refine loses_step asciiSdk h (.tick now clock) nofun fun r hr hmem => ?_
  have hsome := (mem_filter.mp hr).2
  obtain ⟨e, he⟩ := Option.isSome_iff_exists.mp hsome
  cases hb : blank (a.conn r) with
  | true => exact .inr (hblank r hmem hb ((expires_eq ..).trans hsome))
  | false =>
    have hrec := (swept_tick h.consistent now clock).recorded hmem he (by rwa [if_pos hsome])
    rw [if_pos hsome] at hrec
    exact .inl hrec

theorem loses_coreRestart (h : Books drained a) (generation : UInt64) (at_ clock : Time)
    (hblank : ∀ r ∈ a.order, blank (a.conn r) → (a.conn r).record.logID ∈ lost) :
    Loses lost a (a.coreRestart generation at_ clock) := by
  refine loses_step asciiSdk h (.coreRestart generation at_ clock) nofun fun r _ hmem => ?_
  cases hb : blank (a.conn r) with
  | true => exact .inr (hblank r hmem hb)
  | false => exact .inl ((swept_restarted h.consistent (orClock at_ clock)).recorded hmem rfl hb)

/-- What has left the connection table has an address, so its end is recorded. -/
theorem loses_snapshot (sdk : Sdk) (h : Books drained a) (s : Snapshot) (clock : Time) :
    Loses lost a (a.snapshot sdk s clock) := by
  refine loses_step sdk h (.snapshot s clock) nofun fun r hr hmem => .inl ?_
  obtain ⟨e, he⟩ := Option.isSome_iff_exists.mp (mem_filter.mp hr).2
  have hseq : Books drained { a with snapSeq := a.snapSeq + 1 } :=
    ⟨h.consistent.congr rfl (fun _ => rfl) rfl rfl rfl rfl, h.counted.congr rfl rfl rfl rfl rfl rfl⟩
  have hpolled : Books drained (a.polled sdk s (orClock s.at_ clock)) :=
    Books.items sdk (orClock s.at_ clock) s.items hseq
  have hmem' : r ∈ (a.polled sdk s (orClock s.at_ clock)).order := by rwa [polled_eq]
  have hsampled : ((a.polled sdk s (orClock s.at_ clock)).conn r).sampled := by
    unfold sweepEnding at he
    split at he
    · rename_i hv
      exact (and_eq_true_iff.mp hv).1
    · cases he
  have hrec := (swept_snapshot sdk h.consistent s clock).recorded hmem he
    (by simp [blank, hpolled.consistent.sampled r hmem' hsampled])
  rw [id, polled_conn sdk a s _ (h.consistent.allocated r hmem), (joined_keeps ..).1] at hrec
  exact hrec

end Assembler

namespace Collector

open Assembler (blank)

/-- The collector keeps sessions or waiting lines under the log id. -/
def remembers (c : Collector) (id : UInt32) : Bool :=
  (c.tagged.lookup id).isSome || (c.pending.lookup id).isSome

theorem remembers_congr {c c' : Collector} (htag : c'.tagged = c.tagged)
    (hpend : c'.pending = c.pending) (id : UInt32) : c'.remembers id = c.remembers id := by
  rw [remembers, htag, hpend, remembers]

variable {id : UInt32} {now : Clock}

theorem bufferPending_remembers {c : Collector} {id' : UInt32} {l : TraceLine}
    (h : (c.bufferPending id' l).remembers id) : c.remembers id ∨ id = id' := by
  by_cases heq : id = id'
  · exact .inr heq
  left
  have hevict (hsome : ((c.evictee.elim c.pending fun oldest => c.pending.erase oldest).lookup
      id).isSome = true) : (c.pending.lookup id).isSome = true := by
    cases hold : c.evictee with
    | none => rwa [hold] at hsome
    | some oldest =>
      rw [hold] at hsome
      by_cases hid : id = oldest
      · rw [hid, Option.elim_some, lookup_erase] at hsome
        cases hsome
      · rwa [Option.elim_some, lookup_erase_ne hid] at hsome
  unfold remembers at h ⊢
  rw [bufferPending_eq] at h
  rcases or_eq_true_iff.mp h with htag | hpend
  · rw [htag]
    rfl
  · suffices hsome : (c.pending.lookup id).isSome = true by
      rw [hsome, Bool.or_true]
    unfold bufferPending at hpend
    dsimp only at hpend
    split at hpend
    · exact hpend
    · split at hpend
      · split at hpend
        · exact hpend
        · rwa [lookup_insert_ne heq] at hpend
      · split at hpend
        · exact hevict hpend
        · rw [lookup_insert_ne heq] at hpend
          exact hevict hpend

theorem route_remembers {sdk : Sdk} {c : Collector} {p : Pipeline} {l : Line} {now : Time}
    (h : (c.route sdk p l now).remembers id) : c.remembers id ∨ l.hasLogID ∧ id = l.logID := by
  rcases hid : l.hasLogID with - | -
  · rw [route_plain hid] at h
    exact .inl h
  · rcases ht : c.tagged.lookup l.logID with - | held
    · by_cases hm : (c.decide_ sdk p.asm l).sessionIDs = []
      · rw [route_waits hid ht hm] at h
        exact (bufferPending_remembers h).imp_right fun heq => ⟨rfl, heq⟩
      · rw [route_claims hid ht hm] at h
        by_cases heq : id = l.logID
        · exact .inr ⟨rfl, heq⟩
        · left
          change (((c.tagged.insert l.logID _).lookup id).isSome ||
            ((c.pending.erase l.logID).lookup id).isSome) = true at h
          rwa [lookup_insert_ne heq, lookup_erase_ne heq] at h
    · rw [route_taken hid ht] at h
      exact .inl h

theorem forgetRecords_forgets {records : List ConnRecord} {c : Collector}
    (h : (records.foldl forgetRecord c).remembers id) : c.remembers id ∧ ¬ Ended records id := by
  obtain ⟨hforgets, hkeeps⟩ := forgetRecords_tagged records c id
  unfold remembers at h ⊢
  have hpending (q : List TraceLine)
      (hq : (records.foldl forgetRecord c).pending.lookup id = some q) : ¬ Ended records id := by
    clear h hforgets hkeeps
    induction records generalizing c with
    | nil => exact fun ⟨_, hr, _⟩ => absurd hr List.not_mem_nil
    | cons r records ih =>
      rintro ⟨r', hr', hfinal, hid⟩
      obtain rfl | hr' := mem_cons.mp hr'
      · have hbefore := forgetRecords_pending records (forgetRecord c r') hq
        simp [forgetRecord, hfinal, forgetConn, hid] at hbefore
      · exact ih hq ⟨r', hr', hfinal, hid⟩
  rcases or_eq_true_iff.mp h with htag | hpend
  · have hnot : ¬ Ended records id := by
      intro hended
      rw [hforgets hended] at htag
      cases htag
    rw [hkeeps hnot] at htag
    rw [htag]
    exact ⟨rfl, hnot⟩
  · obtain ⟨q, hq⟩ := Option.isSome_iff_exists.mp hpend
    rw [forgetRecords_pending records c hq]
    exact ⟨Bool.or_true _, hpending q hq⟩

/-! ### The condition -/

/-- The condition on a step. A line is orderly, and the connection it may evict is not
remembered; and no connection of which neither source nor destination is known, but which is
remembered, ends by a tick or by a restart of the core. -/
def tidy (sdk : Sdk) (c : Collector) (now : Clock) : Input → Bool
  | .entry entry =>
    match c.pipeline, c.admitted sdk entry now with
    | some p, some (l, _) =>
      !l.hasLogID || (decide (p.asm.Orderly l (orClock l.at_ now)) &&
        (!p.asm.opens l || decide ((p.asm.open_.entries.length : Int) < p.asm.opts.maxOpen) ||
          p.asm.order.head?.all fun r => !c.remembers (p.asm.conn r).record.logID))
    | _, _ => true
  | .tick _ =>
    c.pipeline.elim true fun p => p.asm.order.all fun r =>
      !(blank (p.asm.conn r) && p.asm.expires now r && c.remembers (p.asm.conn r).record.logID)
  | .poll (.ok snap) =>
    !c.regressed snap || c.pipeline.elim true fun p => p.asm.order.all fun r =>
      !(blank (p.asm.conn r) && c.remembers (p.asm.conn r).record.logID)
  | _ => true

/-- What is remembered is of a connection the assembler tracks. -/
structure Tracks (c : Collector) (p : Pipeline) : Prop where
  running : c.pipeline = some p
  books : ∃ drained, p.asm.Books drained
  held : ∀ id, c.remembers id = true → p.asm.Held id

variable {sdk : Sdk} {c : Collector} {p : Pipeline}

section

variable (h : Tracks c p)

include h

theorem Tracks.route {l : Line} (hl : l.hasLogID → p.asm.Held l.logID) (now : Time) :
    ∃ p', Tracks (c.route sdk p l now) p' := by
  have hheld : ∀ id, (c.route sdk p l now).remembers id = true → p.asm.Held id := by
    intro id hid
    obtain hid | ⟨hlog, rfl⟩ := route_remembers hid
    · exact h.held id hid
    · exact hl hlog
  obtain ⟨drained, hbooks⟩ := h.books
  obtain ⟨p', hrun, -, hasm | ⟨ids, hasm⟩⟩ := @route_pipeline sdk c p l now h.running
  · exact ⟨p', hrun, ⟨drained, hasm ▸ hbooks⟩, by rwa [hasm]⟩
  · obtain ⟨hopen, hout, -⟩ := tag_open p.asm l.logID ids
    refine ⟨p', hrun, ⟨drained, hasm ▸ hbooks.tag l.logID ids⟩, fun id hid => ?_⟩
    rw [Assembler.Held, hasm, hopen, hout]
    exact hheld id hid

theorem Tracks.entry {entry : Option Line} (ht : c.tidy sdk now (.entry entry)) :
    ∃ p', Tracks (c.onEntry sdk entry now) p' := by
  obtain ⟨drained, hbooks⟩ := h.books
  rcases onEntry_cases sdk h.running entry now with
    ⟨-, hsame, guard, hrun⟩ | ⟨l, guard, c₁, hadm, hsame, hrun, heq⟩
  · refine ⟨_, hrun, ⟨drained, hbooks⟩, fun id hid => h.held id ?_⟩
    rwa [remembers_congr hsame.tagged hsame.pending] at hid
  · rw [heq]
    simp only [tidy, h.running, hadm] at ht
    have hbefore (id : UInt32) (hid : c₁.remembers id = true) : p.asm.Held id := by
      rw [remembers_congr hsame.tagged hsame.pending] at hid
      exact h.held id hid
    cases hid : l.hasLogID with
    | false =>
      have hasm : p.asm.line sdk l now = p.asm := by simp [Assembler.line, hid]
      refine Tracks.route ⟨hrun, ⟨drained, ?_⟩, ?_⟩ (fun hlog => absurd hlog ?_) now
      · rwa [hasm]
      · rwa [hasm]
      · simp [hid]
    | true =>
      rw [hid, Bool.not_true, Bool.false_or, and_eq_true, decide_eq_true_eq] at ht
      obtain ⟨horderly, hevicted⟩ := ht
      have hline : Assembler.Loses { id | c.remembers id = false } p.asm (p.asm.line sdk l now) ∧
          (p.asm.line sdk l now).Held l.logID := by
        refine loses_line sdk hbooks hid horderly fun hopens hfull r hr => ?_
        rw [hopens, decide_eq_false (not_lt.mpr hfull), hr] at hevicted
        simpa using hevicted
      refine Tracks.route ⟨hrun, ⟨drained, hbooks.line sdk l now⟩, fun id hrem => ?_⟩
        (fun _ => hline.2) now
      refine (hline.1 id (hbefore id hrem)).resolve_right fun hlost => ?_
      rw [remembers_congr hsame.tagged hsame.pending, hlost] at hrem
      cases hrem

theorem Tracks.tick {taken : Bool} (ht : c.tidy sdk now (.tick taken)) :
    ∃ p', Tracks (c.tick sdk taken now) p' := by
  obtain ⟨drained, hbooks⟩ := h.books
  have hnow : orClock (now : Time) now = now := ite_self _
  have hloses : Assembler.Loses { id | c.remembers id = false } p.asm (p.asm.tick now now) := by
    refine loses_tick hbooks now now fun r hr hb he => ?_
    simp only [tidy, h.running, Option.elim_some, all_eq_true] at ht
    rw [hnow] at he
    simpa [hb, he] using ht r hr
  rw [tick_eq sdk h.running]
  refine ⟨_, rfl, ⟨_, (hbooks.tick now now).drain⟩, fun id hid => ?_⟩
  obtain ⟨hid, hnot⟩ := forgetRecords_forgets hid
  rw [remembers_congr (c := c) (by rw [expire_eq]) (by rw [expire_eq])] at hid
  obtain (hopen | hended) | hlost := hloses id (h.held id hid)
  · exact .inl hopen
  · exact absurd hended hnot
  · rw [hlost] at hid
    cases hid

theorem Tracks.poll {answer : Except String ConnectionsSnapshot}
    (ht : c.tidy sdk now (.poll answer)) : ∃ p', Tracks (c.pollConnections sdk answer now) p' := by
  obtain ⟨drained, hbooks⟩ := h.books
  have htag : (c.pollConnections sdk answer now).tagged = c.tagged := by rw [poll_eq]
  have hpend : (c.pollConnections sdk answer now).pending = c.pending := by rw [poll_eq]
  cases answer with
  | error err =>
    refine ⟨p, ?_, ⟨drained, hbooks⟩, fun id hid => h.held id ?_⟩
    · simp only [pollConnections, h.running]
      rfl
    · rwa [remembers_congr htag hpend] at hid
  | ok snap =>
    obtain ⟨-, -, -, -, p', hrun, -, hasm⟩ := poll_ok sdk h.running snap now
    -- The restart, if there was one, comes before the table is looked at.
    have hrestart : ∃ b, b = (if c.regressed snap then
          p.asm.coreRestart (c.generation + 1) now now else p.asm) ∧ b.Books drained ∧
        Assembler.Loses { id | c.remembers id = false } p.asm b := by
      refine ⟨_, rfl, ?_⟩
      split
      · rename_i hreg
        refine ⟨hbooks.coreRestart _ now now,
          loses_coreRestart hbooks _ now now fun r hr hb => ?_⟩
        simp only [tidy, hreg, h.running, Option.elim_some, Bool.not_true, Bool.false_or,
          all_eq_true] at ht
        simpa [hb] using ht r hr
      · exact ⟨hbooks, Assembler.Loses.refl p.asm⟩
    obtain ⟨b, hb, hbooks', hloses⟩ := hrestart
    rw [← hb] at hasm
    refine ⟨p', hrun, ⟨drained, hasm ▸ hbooks'.snapshot sdk snap.table now⟩, fun id hid => ?_⟩
    rw [remembers_congr htag hpend] at hid
    have hall := hloses.trans (loses_snapshot sdk hbooks' snap.table now)
    rw [hasm]
    refine (hall id (h.held id hid)).resolve_right fun hlost => ?_
    rw [hlost] at hid
    cases hid

/-- **The step lemma**: a tidy step that is no config leaves what is remembered tracked. -/
theorem Tracks.step {i : Input} (hcfg : ∀ cfg node, i ≠ .config cfg node) (ht : c.tidy sdk now i) :
    ∃ p', Tracks (c.step sdk now i) p' := by
  cases i with
  | entry entry => exact h.entry ht
  | tick taken => exact h.tick ht
  | poll answer => exact h.poll ht
  | streamOpen | streamError =>
    rw [step_hook sdk c now rfl]
    exact ⟨p, h.running, h.books, h.held⟩
  | config cfg node => exact absurd rfl (hcfg cfg node)

theorem Tracks.run {inputs : List (Clock × Input)}
    (hcfg : ∀ i ∈ inputs, ∀ cfg node, i.2 ≠ .config cfg node) (ht : Along sdk (tidy sdk) c inputs) :
    ∃ p', Tracks (c.run sdk inputs) p' := by
  induction inputs generalizing c p with
  | nil => exact ⟨p, h⟩
  | cons i inputs ih =>
    obtain ⟨p₁, h₁⟩ := h.step (hcfg i mem_cons_self) ht.1
    exact ih h₁ (fun j hj => hcfg j (mem_cons_of_mem _ hj)) ht.2

end

/-! ### The bound -/

/-- The bookkeeping is bounded by what the assembler tracks: every log id in either map is of an
open connection or of a final record that waits to be drained. -/
structure Bounded (c : Collector) (p : Pipeline) : Prop where
  running : c.pipeline = some p
  held : ∀ id, c.remembers id = true → p.asm.Held id
  size : (c.tagged.entries.length : Int) ≤ p.asm.opts.maxOpen + p.asm.out.length

theorem Tracks.bounded (h : Tracks c p) : Bounded c p := by
  refine ⟨h.running, h.held, ?_⟩
  obtain ⟨drained, hbooks⟩ := h.books
  have hsub : c.tagged.keys ⊆ p.asm.open_.keys ++ p.asm.out.map (·.logID) := by
    intro id hid
    have hsome : (c.tagged.lookup id).isSome :=
      lookup_isSome.mpr (AList.mem_keys.mpr hid)
    obtain hopen | ⟨rec, hrec, -, hlog⟩ := h.held id (by rw [remembers, hsome, Bool.true_or])
    · exact mem_append_left _ (AList.mem_keys.mp (lookup_isSome.mp hopen))
    · exact mem_append_right _ (mem_map.mpr ⟨rec, hrec, hlog⟩)
  have hlen := (subperm_of_subset c.tagged.keys_nodup hsub).length_le
  have hsize := hbooks.consistent.size
  have hbound := hbooks.consistent.bound
  rw [length_append, length_map, keys_length, keys_length] at hlen
  omega

/-- The sessions that hold a log id once a line has opened a connection under it are those that
line is matched to. -/
def OwnSessions (sdk : Sdk) (c : Collector) (entry : Option Line) (now : Clock) : Prop :=
  ∀ p l p', c.pipeline = some p → c.admitted sdk entry now = some (l, p') → l.hasLogID = true →
    p.asm.opens l = true → ∀ held, (c.onEntry sdk entry now).tagged.lookup l.logID = some held →
      held = (c.decide_ sdk p'.asm l).sessionIDs

theorem Tracks.ownSessions (h : Tracks c p) {entry : Option Line}
    (ht : c.tidy sdk now (.entry entry)) : OwnSessions sdk c entry now := by
  intro p₀ l p' hp₀ hadm hid hopens held hheld
  cases h.running.symm.trans hp₀
  rcases onEntry_cases sdk h.running entry now with
    ⟨hnone, -⟩ | ⟨l', guard, c₁, hadm', hsame, -, heq⟩
  · rw [hnone] at hadm
    cases hadm
  · cases hadm'.symm.trans hadm
    rw [heq] at hheld
    simp only [tidy, h.running, hadm, hid, Bool.not_true, Bool.false_or, and_eq_true,
      decide_eq_true_eq] at ht
    -- The log id is free, so nothing is remembered under it.
    have hfree : c.tagged.lookup l.logID = none := by
      by_contra hsome
      refine (ht.1.free hopens).1 (h.held _ ?_)
      rw [remembers, Option.isSome_iff_ne_none.mpr hsome, Bool.true_or]
    obtain hbefore | hown := route_tagged hheld
    · rw [hsame.tagged, hfree] at hbefore
      cases hbefore
    · rwa [hsame.decide] at hown

theorem tracks_new {opts : Options} (hp : c.pipeline = some p) (hnew : p.asm = .new opts)
    (htag : c.tagged = ∅) (hpend : c.pending = ∅) : Tracks c p := by
  refine ⟨hp, ⟨[], hnew ▸ Assembler.Books.new opts⟩, fun id hid => ?_⟩
  rw [remembers, htag, hpend] at hid
  cases hid

/-- **The bookkeeping is bounded by what the assembler tracks**, in every state of a run of lines,
ticks and polls from the start of a pipeline all of whose steps are tidy; and no connection
inherits the sessions of an earlier one under its log id. -/
theorem bookkeeping_bounded {opts : Options} {inputs : List (Clock × Input)}
    (hp : c.pipeline = some p) (hnew : p.asm = .new opts) (htag : c.tagged = ∅)
    (hpend : c.pending = ∅) (hcfg : ∀ i ∈ inputs, ∀ cfg node, i.2 ≠ .config cfg node)
    (ht : Along sdk (tidy sdk) c inputs) :
    (∀ pre post, inputs = pre ++ post → ∃ p', Bounded (c.run sdk pre) p') ∧
      ∀ pre now entry post, inputs = pre ++ (now, .entry entry) :: post →
        OwnSessions sdk (c.run sdk pre) entry now := by
  have hpre : ∀ pre post, inputs = pre ++ post → ∃ p', Tracks (c.run sdk pre) p' := by
    rintro pre post rfl
    exact (tracks_new hp hnew htag hpend).run (fun i hi => hcfg i (mem_append_left _ hi))
      (along_append.mp ht).1
  refine ⟨fun pre post hsplit => ?_, fun pre now entry post hsplit => ?_⟩
  · obtain ⟨p', h⟩ := hpre pre post hsplit
    exact ⟨p', h.bounded⟩
  · obtain ⟨p', h⟩ := hpre pre _ hsplit
    rw [hsplit] at ht
    exact h.ownSessions (along_append.mp ht).2.1

/-- The connection's three lines, and a tick that drains its record. -/
def threeLinesDrained : List (Clock × Input) := threeLines ++ [(4, .tick true)]

theorem bookkeeping_bounded_sample :
    Along asciiSdk (tidy asciiSdk) (freshCollector { sessions := [wholeNode] }) threeLinesDrained ∧
      ∃ p', Bounded ((freshCollector { sessions := [wholeNode] }).run asciiSdk threeLinesDrained)
        p' := by
  have ht : Along asciiSdk (tidy asciiSdk) (freshCollector { sessions := [wholeNode] })
      threeLinesDrained := by decide +kernel
  have h := @bookkeeping_bounded asciiSdk (freshCollector { sessions := [wholeNode] }) freshPipeline
    { nodeID := "node" } threeLinesDrained rfl rfl rfl rfl (by simp [threeLinesDrained, threeLines])
    ht
  exact ⟨ht, h.1 threeLinesDrained [] (append_nil _).symm⟩

/-- A subscription that begins in the middle of a connection: a line that tells neither source nor
destination, the end, and two ticks, by the second of which the session has expired. -/
def midwayConnection : List (Clock × Input) :=
  [(1, .entry (some { debugLine with level := "info" })),
    (2, .entry (some closeLine)), (3, .tick true),
    (.unix 1000, .tick true)]

/-- The connection ends without a record and is remembered for good. The next connection under
its log id gets the session it had, though that has expired. -/
theorem unrecorded_connection_remembered :
    let c := (freshCollector { sessions := [wholeNode] }).run asciiSdk midwayConnection
    let c' := c.run asciiSdk [(.unix 1001, .entry (some acceptLine))]
    c.tagged.lookup 7 = some ["whole"] ∧ c.pipeline.map (fun p => decide (p.asm.Held 7)) = some false ∧
      c.policy.sessions = [] ∧ c'.tagged.lookup 7 = some ["whole"] ∧
      c'.lines.map (fun line => (line.at_, line.sessionID)) =
        [(unixEpoch + 1, "whole"), (unixEpoch + 2, "whole"), (Clock.unix 1001, "whole")] := by
  decide +kernel

end Collector

end LatticeAgent.Trace
