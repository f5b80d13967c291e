import LatticeAgent.Trace.Trailing
import Mathlib.Data.List.NodupEquivFin

/-! # The assembler as one log id sees it

Connections do not depend on each other, but for the source index, where the newest connection of
an address displaces the others, and for evictions. So the assembler is followed one log id at a
time: `Life` is what there is under a log id, and `Life.fed`, `Life.ticked` and `Life.polled` say
what a line, a tick and a poll make of it.

`line_life`, `tick_life` and `snapshot_life` connect the two: as long as a log id is used once, a
call takes the life under it where these functions say, unless a line has the connection
evicted. -/

namespace LatticeAgent.Trace

open List

/-- How a connection closed, as its final record has it. -/
structure Closing where
  reason : Option CloseReason
  err : String
deriving DecidableEq, Repr

/-- What there is under a log id that is used once. -/
inductive Life where
  /-- No connection has been created. -/
  | absent
  /-- The connection is open, and is or is not the one that its source address leads to. -/
  | live (c : Conn) (owned : Bool)
  /-- The connection has left, with at most one final record. -/
  | gone (closings : List Closing)

def ConnRecord.closing (rec : ConnRecord) : Closing := ⟨rec.closeReason, rec.closeError⟩

/-- How a connection closes that ends so; nothing is recorded of one of which nothing is known. -/
def Conn.closings (c : Conn) (e : Ending) : List Closing :=
  if c.record.srcIP = "" ∧ c.record.dstHost = "" then []
  else [⟨some (e.cand.reason.getD .unknown), e.cand.err⟩]

/-- The entries of a poll that are of a connection, by its address and its start. -/
def Conn.entries (c : Conn) (owned : Bool) (items : List SnapshotItem) : List SnapshotItem :=
  items.filter fun item =>
    owned && decide (Trace.srcKey item.srcIP item.srcPort = c.srcKey) && !Assembler.early item c

namespace Life

/-- A connection that is left at `c`, ended or not. -/
def left (c : Conn) (owned : Bool) : Option Ending → Life
  | none => .live c owned
  | some e => .gone (c.closings e)

/-- What a line makes of the life under `x`. -/
def fed (sdk : Sdk) (nodeID : String) (x : UInt32) (l : Line) (at_ : Time) : Life → Life
  | .absent =>
    if l.hasLogID = true ∧ l.logID = x then
      left ((Conn.fresh nodeID l at_).fed sdk l at_) l.indexes
        ((Conn.fresh nodeID l at_).lineEnding sdk l at_)
    else .absent
  | .live c owned =>
    if l.hasLogID = true then
      if l.logID = x then left (c.fed sdk l at_) owned (c.lineEnding sdk l at_)
      else .live c (owned && !(l.indexes && l.key == c.srcKey))
    else .live c owned
  | .gone closings => .gone closings

/-- What a tick makes of it. -/
def ticked (opts : Options) (snapSeq : UInt64) (now : Time) : Life → Life
  | .live c owned =>
    match c.tickEnding opts snapSeq now with
    | none => .live (c.ticked opts now) owned
    | some e => .gone (c.closings e)
  | life => life

/-- What a poll makes of it, the one after `snapSeq`. -/
def polled (sdk : Sdk) (opts : Options) (snapSeq : UInt64) (items : List SnapshotItem)
    (at_ : Time) : Life → Life
  | .live c owned =>
    let c := (c.entries owned items).foldl
      (fun c item => c.join sdk item at_ (snapSeq + 1) opts.stallFloor opts.stallQuiet) c
    left c owned (c.sweepEnding (snapSeq + 1) at_)
  | life => life

end Life

theorem Conn.closing_final {c : Conn} (h : ¬ (c.record.srcIP = "" ∧ c.record.dstHost = ""))
    (gen : UInt64) (e : Ending) : (c.final gen e).closing ∈ c.closings e := by
  rw [closings, if_neg h]
  exact mem_singleton_self _

namespace Assembler

variable {sdk : Sdk} {a a' : Assembler} {x : UInt32}

/-! ### Log ids -/

/-- The log ids of all connections ever created. -/
def logIDs (a : Assembler) : List UInt32 := a.conns.map (·.record.logID)

theorem logIDs_getElem? (a : Assembler) (r : Nat) :
    a.logIDs[r]? = if r < a.conns.length then some (a.conn r).record.logID else none := by
  unfold logIDs conn
  rw [getElem?_map, getD_eq_getElem?_getD]
  by_cases hr : r < a.conns.length <;> simp [hr]

theorem mem_logIDs {id : UInt32} :
    id ∈ a.logIDs ↔ ∃ r < a.conns.length, (a.conn r).record.logID = id := by
  rw [mem_iff_getElem?]
  refine exists_congr fun r => ?_
  rw [logIDs_getElem?]
  split <;> simp_all

theorem conn_inj (h : a.logIDs.count x ≤ 1) {r r' : Nat} (hr : r < a.conns.length)
    (hr' : r' < a.conns.length) (hx : (a.conn r).record.logID = x)
    (hx' : (a.conn r').record.logID = x) : r = r' := by
  have hlen : a.logIDs.length = a.conns.length := length_map _
  have hget {r : Nat} (hr : r < a.conns.length) (hx : (a.conn r).record.logID = x) :
      x = a.logIDs.get ⟨r, hlen ▸ hr⟩ := by
    have hsome := a.logIDs_getElem? r
    rw [if_pos hr, hx, getElem?_eq_getElem (hlen ▸ hr)] at hsome
    exact (Option.some.inj hsome).symm
  -- Two places of the list would make it a duplicate.
  have hnone : ¬ List.Duplicate x a.logIDs := fun hc => by
    have := duplicate_iff_two_le_count.mp hc
    omega
  rw [duplicate_iff_exists_distinct_get] at hnone
  by_contra hne
  rcases Nat.lt_or_gt_of_ne hne with hlt | hlt
  · exact hnone ⟨⟨r, hlen ▸ hr⟩, ⟨r', hlen ▸ hr'⟩, hlt, hget hr hx, hget hr' hx'⟩
  · exact hnone ⟨⟨r', hlen ▸ hr'⟩, ⟨r, hlen ▸ hr⟩, hlt, hget hr' hx', hget hr hx⟩

theorem Leaves.logIDs {gone : List Nat} (h : Leaves gone a a') :
    ∃ new, a'.logIDs = a.logIDs ++ new ∧ a'.conns.length = a.conns.length + new.length := by
  have hlen (a : Assembler) : a.logIDs.length = a.conns.length := length_map _
  have hgrows := h.grows
  obtain ⟨new, hnew⟩ : a.logIDs <+: a'.logIDs := by
    refine prefix_iff_getElem?.mpr fun r hr => ?_
    have hr' := hlen a ▸ hr
    rw [logIDs_getElem?, if_pos (by omega), h.ids r hr', ← getElem?_eq_getElem hr,
      logIDs_getElem?, if_pos hr']
  refine ⟨new, hnew.symm, ?_⟩
  rw [← hlen a', ← hlen a, ← hnew, length_append]

theorem Leaves.logIDs_eq {gone : List Nat} (h : Leaves gone a a')
    (hlen : a'.conns.length = a.conns.length) : a'.logIDs = a.logIDs := by
  obtain ⟨new, hnew, hcount⟩ := h.logIDs
  rw [hnew, length_eq_zero_iff.mp (by omega : new.length = 0), append_nil]

theorem line_logIDs (sdk : Sdk) (h : a.Consistent) (l : Line) (clock : Time) :
    (a.line sdk l clock).logIDs =
      a.logIDs ++ if a.target l = some a.conns.length then [l.logID] else [] := by
  obtain ⟨hlen, hconn⟩ := line_conn sdk h l clock
  have hleaves := line_leaves sdk h l clock
  split at hlen
  · rename_i ht
    obtain ⟨new, hnew, hcount⟩ := hleaves.logIDs
    obtain ⟨id, rfl⟩ := length_eq_one_iff.mp (by omega : new.length = 1)
    have hids : a.logIDs.length = a.conns.length := length_map _
    have hlast := (a.line sdk l clock).logIDs_getElem? a.conns.length
    rw [hnew, getElem?_append_right hids.le, hids, Nat.sub_self, if_pos (by omega),
      hconn _ (by omega), if_pos ht, Conn.fed_eq, found_new] at hlast
    rw [hnew, if_pos ht, show id = l.logID from Option.some.inj hlast]
  · rename_i ht
    rw [if_neg ht, append_nil]
    exact hleaves.logIDs_eq hlen

end Assembler

namespace AsmRun

open Assembler

variable {sdk : Sdk} {s : AsmRun} {x : UInt32}

theorem step_logIDs (sdk : Sdk) (h : s.asm.Consistent) (call : AsmCall) :
    ∃ new, (s.step sdk call).asm.logIDs = s.asm.logIDs ++ new := by
  obtain ⟨done, hleaves, -⟩ := step_leaves sdk h call
  obtain ⟨new, hnew, -⟩ := hleaves.logIDs
  exact ⟨new, hnew⟩

theorem logIDs_of_length (sdk : Sdk) (h : s.asm.Consistent) (call : AsmCall)
    (hlen : (s.step sdk call).asm.conns.length = s.asm.conns.length) :
    (s.step sdk call).asm.logIDs = s.asm.logIDs := by
  obtain ⟨done, hleaves, -⟩ := step_leaves sdk h call
  exact hleaves.logIDs_eq hlen

/-! ### What every run keeps -/

/-- The books are in order, only log ids that were used are done, and a final record has the log
id of its connection. -/
structure Traced (s : AsmRun) : Prop where
  linked : s.asm.Linked
  done : ∀ id, s.asm.done.has id = true → id ∈ s.asm.logIDs
  signed : ∀ y ∈ s.asm.finals, y.2.logID = (s.asm.conn y.1).record.logID

theorem Traced.consistent (h : s.Traced) : s.asm.Consistent := h.linked.consistent

theorem has_of_has_add {d : DoneSet} {id id' : UInt32} (h : (d.add id').has id) :
    d.has id ∨ id = id' := by
  unfold DoneSet.add at h
  split at h
  · exact .inl h
  · split at h <;> simp [DoneSet.has] at h ⊢ <;> tauto

theorem has_of_has_foldl {d : DoneSet} {ids : Nat → UInt32} {gone : List Nat} {id : UInt32}
    (h : (gone.foldl (fun d r => d.add (ids r)) d).has id = true) :
    d.has id ∨ ∃ r ∈ gone, ids r = id := by
  induction gone generalizing d with
  | nil => exact .inl h
  | cons r gone ih =>
    obtain h | ⟨r', hr', hid⟩ := ih h
    · obtain h | rfl := has_of_has_add h
      · exact .inl h
      · exact .inr ⟨r, mem_cons_self, rfl⟩
    · exact .inr ⟨r', mem_cons_of_mem _ hr', hid⟩

theorem Traced.new (opts : Options) : Traced ⟨.new opts, []⟩ :=
  ⟨linked_new opts, fun id h => by simp [Assembler.new, DoneSet.new, DoneSet.has] at h,
    forall_mem_nil _⟩

theorem Traced.step (h : s.Traced) (call : AsmCall) : (s.step sdk call).Traced := by
  obtain ⟨new, hids⟩ := step_logIDs sdk h.consistent call
  refine ⟨step_linked sdk h.linked call, fun id hid => ?_, fun y hy => ?_⟩
  · obtain ⟨done, hleaves, hdone⟩ := step_leaves sdk h.consistent call
    have hhas : done.has id := by
      rw [hdone] at hid
      cases call with
      | coreRestart generation at_ clock => simp [DoneSet.reset, DoneSet.has] at hid
      | _ => exact hid
    have hfold : done = (s.asm.leaving sdk call).foldl
        (fun d r => d.add ((s.step sdk call).asm.conn r).record.logID) s.asm.done := hleaves.done
    rw [hfold] at hhas
    obtain hold | ⟨r, hr, hlog⟩ := has_of_has_foldl hhas
    · rw [hids]
      exact mem_append_left _ (h.done id hold)
    · refine mem_logIDs.mpr ⟨r, ?_, hlog⟩
      obtain hopen | hnew := ((hleaves.mem r).mp hr).1
      · exact lt_of_lt_of_le (h.consistent.allocated r hopen) (step_length h.consistent call)
      · exact hnew.2
  · obtain ⟨added, hfinals, -, hends⟩ := @step_records sdk s h.consistent call
    rw [hfinals] at hy
    obtain hy | hy := mem_append.mp hy
    · rw [h.signed y hy, step_logID sdk h.consistent call (h.linked.finals y hy).1]
    · obtain ⟨e, gen, -, hrec⟩ := hends y hy
      rw [hrec]
      rfl

end AsmRun

/-! ### The source index -/

theorem Line.event_of_indexes {l : Line} (h : l.indexes) :
    l.event = .inboundFrom ∧ l.srcIP ≠ "" := by
  simpa [Line.indexes] using h

namespace Assembler

variable {a : Assembler}

variable {l : Line} {r : Nat}

theorem target_accept (hlog : l.hasLogID) (hev : l.event = .inboundFrom) :
    a.target l = some a.conns.length := by
  unfold target
  rw [hlog, if_neg (by simp)]
  split <;> simp [hev]

theorem ready_indexed (h : a.Consistent) (ht : a.target l = some r) (at_ : Time) :
    (a.ready l at_).indexed r l =
      if l.indexes then (a.ready l at_).bySrc.insert l.key r else (a.ready l at_).bySrc := by
  by_cases hi : l.indexes = true
  · obtain ⟨-, -, hev⟩ | ⟨rfl, -⟩ := target_cases h ht
    · exact absurd (Line.event_of_indexes hi).1 hev
    · have hkey : ((a.ready l at_).conn a.conns.length).srcKey = "" := by
        rw [((ready_conn h l at_).2.2 _ ht).2, found_new]
        rfl
      rw [indexed, if_pos hi, if_pos (Line.event_of_indexes hi), if_neg fun hc => hc.1 hkey]
      rfl
  · rw [indexed, if_neg hi, if_neg]
    simpa [Line.indexes] using hi

theorem ready_bySrc (h : a.Consistent) (l : Line) (at_ : Time) (hr : r ∈ (a.ready l at_).order)
    (key : String) : (a.ready l at_).bySrc.lookup key = some r ↔ a.bySrc.lookup key = some r := by
  unfold ready at hr ⊢
  split
  · rename_i ht
    rw [if_pos ht] at hr
    have hgone : r ∉ (a.open_.lookup l.logID).toList ++ (a.collided l at_).evictee.toList :=
      fun hc => (((newborn_leaves h l at_).mem r).mp hc).2 hr
    rw [mem_append, not_or, Option.mem_toList, Option.mem_toList] at hgone
    refine (cleared_bySrc (a.collided l at_) hgone.2).trans ?_
    unfold collided
    rcases hopen : a.open_.lookup l.logID with - | r'
    · exact .rfl
    · exact (a.touches_ended r' (some (collisionEnding at_))).bySrc key r
        (.inl fun heq => hgone.1 (heq ▸ hopen))
  · exact .rfl

theorem line_order (sdk : Sdk) (h : a.Consistent) (clock : Time) (ht : a.target l = some r) :
    r ∈ (a.line sdk l clock).order ↔
      (a.found l (orClock l.at_ clock) r).lineEnding sdk l (orClock l.at_ clock) = none := by
  rw [(line_touches sdk h ht clock).order]
  cases (a.found l (orClock l.at_ clock) r).lineEnding sdk l (orClock l.at_ clock) with
  | none => exact iff_of_true (mem_ready h ht _).1 rfl
  | some e =>
    exact iff_of_false
      (fun hc => ((ready_leaves h l _).listed.1.mem_erase_iff.mp hc).1 rfl) (Option.some_ne_none e)

/-- The connection that a line reaches has the address that the line brings; another one loses its
own to it. -/
theorem line_bySrc (sdk : Sdk) (h : a.Consistent) (clock : Time) {r' : Nat}
    (ht : a.target l = some r') (hr : r ∈ (a.line sdk l clock).order) (key : String) :
    (a.line sdk l clock).bySrc.lookup key = some r ↔
      if l.indexes = true ∧ l.key = key then r = r' else a.bySrc.lookup key = some r := by
  have htouch := line_touches sdk h ht clock
  have hside : r ≠ r' ∨
      (a.found l (orClock l.at_ clock) r').lineEnding sdk l (orClock l.at_ clock) = none := by
    by_cases heq : r = r'
    · subst heq
      exact .inr ((line_order sdk h clock ht).mp hr)
    · exact .inl heq
  have hready : r ∈ (a.ready l (orClock l.at_ clock)).order := by
    rw [htouch.order] at hr
    split at hr
    · exact mem_of_mem_erase hr
    · exact hr
  refine (htouch.bySrc key r hside).trans ?_
  change ((a.ready l (orClock l.at_ clock)).indexed r' l).lookup key = some r ↔ _
  rw [ready_indexed h ht, ← ready_bySrc h l (orClock l.at_ clock) hready key]
  by_cases hi : l.indexes = true
  · rw [if_pos hi]
    by_cases hkey : l.key = key
    · rw [← hkey, AList.lookup_insert]
      simp [hi, eq_comm]
    · rw [AList.lookup_insert_ne (Ne.symm hkey)]
      simp [hkey]
  · rw [if_neg hi]
    simp [hi]

/-! ### The life under a log id -/

/-- What there is under a log id in a state of the assembler. -/
inductive HasLife (a : Assembler) (x : UInt32) : Life → Prop
  | absent (hnew : x ∉ a.logIDs) : HasLife a x .absent
  | live {r : Nat} (hr : r ∈ a.order) (hid : (a.conn r).record.logID = x) :
      HasLife a x (.live (a.conn r) (decide (a.bySrc.lookup (a.conn r).srcKey = some r)))
  | gone {closings : List Closing} (hused : x ∈ a.logIDs)
      (hleft : ∀ r ∈ a.order, (a.conn r).record.logID ≠ x)
      (hall : ∀ y ∈ a.finals, y.2.logID = x → y.2.closing ∈ closings) :
      HasLife a x (.gone closings)

theorem HasLife.of_open {c : Conn} {owned : Bool} {x : UInt32} (hr : r ∈ a.order)
    (hid : (a.conn r).record.logID = x) (hc : a.conn r = c)
    (howned : a.bySrc.lookup c.srcKey = some r ↔ owned) : a.HasLife x (.live c owned) := by
  have heq : decide (a.bySrc.lookup (a.conn r).srcKey = some r) = owned := by
    rw [hc, Bool.eq_iff_iff, decide_eq_true_iff]
    exact howned
  rw [← heq, ← hc]
  exact .live hr hid

end Assembler

namespace AsmRun

open Assembler

variable {sdk : Sdk} {s : AsmRun} {x : UInt32}

theorem count_logIDs_le (h : s.asm.Consistent) {call : AsmCall}
    (honce : (s.step sdk call).asm.logIDs.count x ≤ 1) : s.asm.logIDs.count x ≤ 1 := by
  obtain ⟨new, hnew⟩ := step_logIDs sdk h call
  rw [hnew, count_append] at honce
  omega

variable {l : Line} {r : Nat} {y : Nat × ConnRecord}

section

variable (h : s.Traced)

include h

theorem Traced.logID_of_final (hy : y ∈ s.asm.finals) (hx : y.2.logID = x) :
    y.1 < s.asm.conns.length ∧ y.1 ∉ s.asm.order ∧ (s.asm.conn y.1).record.logID = x := by
  obtain ⟨hlt, hout⟩ := h.linked.finals y hy
  exact ⟨hlt, hout, (h.signed y hy).symm.trans hx⟩

theorem Traced.no_finals_of_new (hnew : x ∉ s.asm.logIDs) :
    ∀ y ∈ s.asm.finals, y.2.logID ≠ x := fun y hy hx => by
  obtain ⟨hlt, -, hid⟩ := h.logID_of_final hy hx
  exact hnew (mem_logIDs.mpr ⟨y.1, hlt, hid⟩)

theorem Traced.no_finals_of_open (honce : s.asm.logIDs.count x ≤ 1) (hr : r ∈ s.asm.order)
    (hid : (s.asm.conn r).record.logID = x) :
    ∀ y ∈ s.asm.finals, y.2.logID ≠ x := fun y hy hx => by
  obtain ⟨hlt, hout, hid'⟩ := h.logID_of_final hy hx
  exact hout (conn_inj honce (h.consistent.allocated r hr) hlt hid hid' ▸ hr)

theorem closing_of_new {call : AsmCall} (hcall : call ≠ .drain)
    (hy : y ∈ (s.step sdk call).asm.finals) :
    y ∈ s.asm.finals ∨ ∃ e, Ends sdk s.asm y.1 call e ∧
      y.2.closing ∈ ((s.step sdk call).asm.conn y.1).closings e := by
  obtain ⟨new, hnew⟩ := step_pushes sdk h.consistent call hcall
  rw [hnew.finals] at hy
  obtain hy | hy := mem_append.mp hy
  · exact .inl hy
  · obtain ⟨e, gen, hends, hrec⟩ := hnew.ends y hy
    have hknown := hnew.known y hy
    refine .inr ⟨e, hends, ?_⟩
    rw [hrec] at hknown ⊢
    exact Conn.closing_final hknown gen e

theorem gone_of_left (call : AsmCall) (hcall : call ≠ .drain)
    (honce : (s.step sdk call).asm.logIDs.count x ≤ 1) (hnone : ∀ y ∈ s.asm.finals, y.2.logID ≠ x)
    (hr : r < (s.step sdk call).asm.conns.length)
    (hid : ((s.step sdk call).asm.conn r).record.logID = x) (hout : r ∉ (s.step sdk call).asm.order)
    {closings : List Closing}
    (hends : ∀ e, Ends sdk s.asm r call e → ((s.step sdk call).asm.conn r).closings e ⊆ closings) :
    (s.step sdk call).asm.HasLife x (.gone closings) := by
  have h' : (s.step sdk call).Traced := h.step call
  have hone {r' : Nat} (hr' : r' < (s.step sdk call).asm.conns.length)
      (hid' : ((s.step sdk call).asm.conn r').record.logID = x) : r' = r :=
    conn_inj honce hr' hr hid' hid
  refine .gone (mem_logIDs.mpr ⟨r, hr, hid⟩) (fun r' hr' hid' => ?_) fun y hy hx => ?_
  · exact hout (hone (h'.consistent.allocated r' hr') hid' ▸ hr')
  · obtain ⟨hlt, -, hid'⟩ := h'.logID_of_final hy hx
    obtain hold | ⟨e, he, hclosing⟩ := closing_of_new h hcall hy
    · exact absurd hx (hnone y hold)
    · rw [hone hlt hid'] at he hclosing
      exact hends e he hclosing

theorem gone_step (call : AsmCall) (hcall : call ≠ .drain)
    (honce : (s.step sdk call).asm.logIDs.count x ≤ 1) {closings : List Closing}
    (hlife : s.asm.HasLife x (.gone closings)) :
    (s.step sdk call).asm.HasLife x (.gone closings) := by
  obtain - | - | ⟨hused, hleft, hall⟩ := hlife
  have h' : (s.step sdk call).Traced := h.step call
  obtain ⟨r, hr, hid⟩ := mem_logIDs.mp hused
  have hgrows : s.asm.conns.length ≤ (s.step sdk call).asm.conns.length := step_length h.consistent call
  have hkeeps {r : Nat} (hr : r < s.asm.conns.length) := step_logID sdk h.consistent call hr
  -- Whatever has the log id afterwards had it before.
  have hold {r' : Nat} (hr' : r' < (s.step sdk call).asm.conns.length)
      (hid' : ((s.step sdk call).asm.conn r').record.logID = x) : r' < s.asm.conns.length := by
    rw [← conn_inj honce (lt_of_lt_of_le hr hgrows) hr' ((hkeeps hr).trans hid) hid']
    exact hr
  refine .gone (mem_logIDs.mpr ⟨r, lt_of_lt_of_le hr hgrows, (hkeeps hr).trans hid⟩)
    (fun r' hr' hid' => ?_) fun y hy hx => ?_
  · have hlt := hold (h'.consistent.allocated r' hr') hid'
    obtain hopen | hnew := step_order sdk h.consistent call hr'
    · exact hleft r' hopen ((hkeeps hlt).symm.trans hid')
    · omega
  · obtain ⟨hlt', -, hid'⟩ := h'.logID_of_final hy hx
    have hlt := hold hlt' hid'
    obtain hfinal | ⟨e, he, -⟩ := closing_of_new h hcall hy
    · exact hall y hfinal hx
    · obtain hopen | ⟨hnew, -⟩ := he.mem h.consistent
      · exact absurd ((hkeeps hlt).symm.trans hid') (hleft y.1 hopen)
      · omega

theorem Traced.target_of_new (hlog : l.hasLogID) (hnew : l.logID ∉ s.asm.logIDs) :
    s.asm.target l = some s.asm.conns.length := by
  have hshut : s.asm.open_.lookup l.logID = none := by
    rcases hr : s.asm.open_.lookup l.logID with - | r
    · rfl
    · obtain ⟨hmem, hid⟩ := h.consistent.opened _ r hr
      exact absurd (mem_logIDs.mpr ⟨r, h.consistent.allocated r hmem, hid⟩) hnew
  have hundone : ¬ s.asm.done.has l.logID := fun hc => hnew (h.done _ hc)
  unfold target
  rw [hlog, if_neg (by simp), hshut]
  exact if_neg fun hc => hundone hc.2

theorem reached_life {clock : Time} (owned : Bool)
    (honce : (s.step sdk (.line l clock)).asm.logIDs.count x ≤ 1)
    (htarget : s.asm.target l = some r) (hid : l.logID = x)
    (hnone : ∀ y ∈ s.asm.finals, y.2.logID ≠ x)
    (hopen : s.asm.open_.lookup l.logID = some r → l.event ≠ .inboundFrom)
    (howned : (s.asm.found l (orClock l.at_ clock) r).lineEnding sdk l (orClock l.at_ clock) = none →
      ((s.step sdk (.line l clock)).asm.bySrc.lookup
        ((s.step sdk (.line l clock)).asm.conn r).srcKey = some r ↔ owned)) :
    (s.step sdk (.line l clock)).asm.HasLife x
      (.left ((s.asm.found l (orClock l.at_ clock) r).fed sdk l (orClock l.at_ clock)) owned
        ((s.asm.found l (orClock l.at_ clock) r).lineEnding sdk l (orClock l.at_ clock))) := by
  have horder : r ∈ (s.step sdk (.line l clock)).asm.order ↔ _ :=
    line_order sdk h.consistent clock htarget
  have hfed : (s.step sdk (.line l clock)).asm.conn r = _ :=
    conn_of_target h.consistent htarget clock
  have hid' : ((s.step sdk (.line l clock)).asm.conn r).record.logID = x := by
    rw [hfed, Conn.fed_eq]
    exact (found_logID h.consistent htarget _).trans hid
  cases he : (s.asm.found l (orClock l.at_ clock) r).lineEnding sdk l (orClock l.at_ clock) with
  | none => exact .of_open (horder.mpr he) hid' hfed (hfed ▸ howned he)
  | some e =>
    refine gone_of_left h (.line l clock) nofun honce hnone ?_ hid' (fun hr => ?_) fun e' he' => ?_
    · exact target_lt h.consistent htarget clock
    · rw [horder.mp hr] at he
      cases he
    · rw [hfed]
      cases he' with
      | line _ hend =>
        rw [hend] at he
        rw [Option.some.inj he]
        exact List.Subset.refl _
      | collision hlook hev => exact absurd hev (hopen hlook)

theorem line_life_new (clock : Time) (hlog : l.hasLogID) (hnew : l.logID ∉ s.asm.logIDs)
    (honce : (s.step sdk (.line l clock)).asm.logIDs.count l.logID ≤ 1) :
    (s.step sdk (.line l clock)).asm.HasLife l.logID
      (.left ((Conn.fresh s.asm.opts.nodeID l (orClock l.at_ clock)).fed sdk l (orClock l.at_ clock))
        l.indexes
        ((Conn.fresh s.asm.opts.nodeID l (orClock l.at_ clock)).lineEnding sdk l
          (orClock l.at_ clock))) := by
  have hc := h.consistent
  have htarget := h.target_of_new hlog hnew
  have hunborn : s.asm.conns.length ∉ s.asm.order := fun hr =>
    Nat.lt_irrefl _ (hc.allocated _ hr)
  rw [← s.asm.found_new l (orClock l.at_ clock)]
  refine reached_life h l.indexes honce htarget rfl (h.no_finals_of_new hnew) (fun hopen => ?_)
    fun hend => ?_
  · exact absurd (hc.opened _ _ hopen).1 hunborn
  · refine (line_bySrc sdk hc clock htarget ((line_order sdk hc clock htarget).mpr hend) _).trans ?_
    rw [conn_of_target hc htarget, Conn.fed_eq]
    by_cases hi : l.indexes = true
    · simp [hi]
    · rw [if_neg fun hc => hi hc.1]
      exact iff_of_false (fun hlook => hunborn (hc.bySrc _ _ hlook).1) hi

theorem line_life_own (clock : Time) (hlog : l.hasLogID) (hr : r ∈ s.asm.order)
    (hid : (s.asm.conn r).record.logID = l.logID)
    (honce : (s.step sdk (.line l clock)).asm.logIDs.count l.logID ≤ 1) :
    (s.step sdk (.line l clock)).asm.HasLife l.logID
      (.left ((s.asm.conn r).fed sdk l (orClock l.at_ clock))
        (decide (s.asm.bySrc.lookup (s.asm.conn r).srcKey = some r))
        ((s.asm.conn r).lineEnding sdk l (orClock l.at_ clock))) := by
  have hc := h.consistent
  have hold := hc.allocated r hr
  have hopen := hc.found r hr
  rw [hid] at hopen
  -- An accept line would use the log id a second time.
  have hev : l.event ≠ .inboundFrom := fun hev => by
    rw [show (s.step sdk (.line l clock)).asm.logIDs = _ from line_logIDs sdk hc l clock,
      if_pos (target_accept hlog hev), count_append, count_singleton_self] at honce
    have := count_pos_iff.mpr (mem_logIDs.mpr ⟨r, hold, hid⟩)
    omega
  have htarget : s.asm.target l = some r := by
    unfold target
    rw [hlog, if_neg (by simp), hopen]
    exact congrArg some (if_neg hev)
  have hfound : s.asm.found l (orClock l.at_ clock) r = s.asm.conn r := if_pos hold
  have hindexes : ¬ l.indexes := fun hi => hev (Line.event_of_indexes hi).1
  rw [← hfound]
  refine reached_life h _ honce htarget rfl (h.no_finals_of_open (count_logIDs_le hc honce) hr hid)
    (fun _ => hev) fun hend => ?_
  rw [conn_of_target hc htarget, hfound, Conn.fed_eq, if_neg hindexes, decide_eq_true_iff]
  refine (line_bySrc sdk hc clock htarget ((line_order sdk hc clock htarget).mpr hend) _).trans ?_
  simp [hindexes]

/-- A line of another log id takes at most the address of an open connection, or has it evicted. -/
theorem line_life_other (clock : Time) (hr : r ∈ s.asm.order)
    (hid : (s.asm.conn r).record.logID = x) (hx : l.logID ≠ x) (hlog : l.hasLogID)
    (honce : (s.step sdk (.line l clock)).asm.logIDs.count x ≤ 1) :
    (s.step sdk (.line l clock)).asm.HasLife x
        (.live (s.asm.conn r) (decide (s.asm.bySrc.lookup (s.asm.conn r).srcKey = some r) &&
          !(l.indexes && l.key == (s.asm.conn r).srcKey))) ∨
      (s.step sdk (.line l clock)).asm.HasLife x (.gone []) := by
  have hc := h.consistent
  have hold := hc.allocated r hr
  have hlt : r < (s.step sdk (.line l clock)).asm.conns.length :=
    lt_of_lt_of_le hold (step_length hc _)
  have hid' := (step_logID sdk hc (.line l clock) hold).trans hid
  have htarget : s.asm.target l ≠ some r := fun ht => by
    have hlogID := found_logID hc ht l.at_
    rw [found, if_pos hold] at hlogID
    exact hx (hlogID.symm.trans hid)
  have hsame : (s.step sdk (.line l clock)).asm.conn r = _ := (line_conn sdk hc l clock).2 r hlt
  rw [if_neg htarget] at hsame
  by_cases hr' : r ∈ (s.step sdk (.line l clock)).asm.order
  · refine .inl (.of_open hr' hid' hsame ?_)
    cases ht : s.asm.target l with
    | none =>
      have hnot : ¬ l.indexes := fun hi => by
        rw [target_accept hlog (Line.event_of_indexes hi).1] at ht
        cases ht
      rw [show (s.step sdk (.line l clock)).asm = s.asm from line_ignored sdk hc ht clock]
      simp [hnot]
    | some r' =>
      have hne : r ≠ r' := fun heq => htarget (heq ▸ ht)
      refine (line_bySrc sdk hc clock ht hr' _).trans ?_
      by_cases hi : l.indexes = true ∧ l.key = (s.asm.conn r).srcKey
      · simp [hi.1, hi.2, hne]
      · rw [if_neg hi]
        rw [not_and] at hi
        cases hidx : l.indexes with
        | false => simp
        | true => simp [hi hidx]
  · refine .inr (gone_of_left h (.line l clock) (by simp) honce ?_ hlt hid' hr' fun e he => ?_)
    · exact h.no_finals_of_open (count_logIDs_le hc honce) hr hid
    · cases he with
      | line hsome _ => exact absurd hsome htarget
      | collision hlook _ => exact absurd ((hc.opened _ _ hlook).2.symm.trans hid) hx

/-- **A line and the life under a log id.** -/
theorem line_life {life : Life} (hlife : s.asm.HasLife x life) (l : Line) (clock : Time)
    (honce : (s.step sdk (.line l clock)).asm.logIDs.count x ≤ 1) :
    (s.step sdk (.line l clock)).asm.HasLife x
        (life.fed sdk s.asm.opts.nodeID x l (orClock l.at_ clock)) ∨
      (s.step sdk (.line l clock)).asm.HasLife x (.gone []) := by
  cases hlife with
  | absent hnew =>
    dsimp only [Life.fed]
    by_cases hx : l.hasLogID = true ∧ l.logID = x
    · obtain ⟨hlog, rfl⟩ := hx
      rw [if_pos ⟨hlog, rfl⟩]
      exact .inl (line_life_new h clock hlog hnew honce)
    · rw [if_neg hx]
      refine .inl (.absent ?_)
      rw [show (s.step sdk (.line l clock)).asm.logIDs = _ from line_logIDs sdk h.consistent l clock,
        mem_append, not_or]
      refine ⟨hnew, fun hmem => ?_⟩
      split at hmem
      · exact hx ⟨hasLogID_of_target ‹_›, (mem_singleton.mp hmem).symm⟩
      · cases hmem
  | live hr hid =>
    dsimp only [Life.fed]
    by_cases hlog : l.hasLogID = true
    · rw [if_pos hlog]
      by_cases hx : l.logID = x
      · subst hx
        rw [if_pos rfl]
        exact .inl (line_life_own h clock hlog hr hid honce)
      · rw [if_neg hx]
        exact line_life_other h clock hr hid hx hlog honce
    · have hsame : (s.step sdk (.line l clock)).asm = s.asm := by
        simp [step, Assembler.line, hlog]
      rw [if_neg hlog, hsame]
      exact .inl (.live hr hid)
  | gone hused hleft hall =>
    exact .inl (gone_step h (.line l clock) (fun hc => by cases hc) honce (.gone hused hleft hall))

/-- A loop over the open connections and the life under the log id of one of them. -/
theorem swept_life (call : AsmCall) (hcall : call ≠ .drain)
    (honce : (s.step sdk call).asm.logIDs.count x ≤ 1) {w : Conn → Conn} {e : Conn → Option Ending}
    {b : Assembler} (hswept : Swept s.asm.order w e b (s.step sdk call).asm)
    (hsrc : b.bySrc = s.asm.bySrc) (horder : b.order = s.asm.order) (hr : r ∈ s.asm.order)
    (hid : (s.asm.conn r).record.logID = x) (hkey : (w (b.conn r)).srcKey = (s.asm.conn r).srcKey)
    (hends : ∀ e', Ends sdk s.asm r call e' → e (b.conn r) = some e') :
    (s.step sdk call).asm.HasLife x
      (.left (w (b.conn r)) (decide (s.asm.bySrc.lookup (s.asm.conn r).srcKey = some r))
        (e (b.conn r))) := by
  have hc := h.consistent
  have hold := hc.allocated r hr
  have hid' := (step_logID sdk hc call hold).trans hid
  have hconn : (s.step sdk call).asm.conn r = w (b.conn r) := (hswept.conn r).trans (if_pos hr)
  cases he : e (b.conn r) with
  | none =>
    refine .of_open ((hswept.order r).mpr ⟨horder ▸ hr, by simp [he]⟩) hid' hconn ?_
    rw [hkey, decide_eq_true_iff, ← hsrc]
    exact hswept.bySrc _ r (.inr he)
  | some e' =>
    refine gone_of_left h call hcall honce
      (h.no_finals_of_open (count_logIDs_le hc honce) hr hid) (lt_of_lt_of_le hold (step_length hc _))
      hid' (fun hr' => ?_) fun e'' he'' => ?_
    · exact ((hswept.order r).mp hr').2 ⟨hr, by simp [he]⟩
    · rw [hconn, Option.some.inj (he.symm.trans (hends e'' he''))]
      exact List.Subset.refl _

/-- **A tick and the life under a log id.** -/
theorem tick_life {life : Life} (hlife : s.asm.HasLife x life) (now clock : Time)
    (honce : (s.step sdk (.tick now clock)).asm.logIDs.count x ≤ 1) :
    (s.step sdk (.tick now clock)).asm.HasLife x
      (life.ticked s.asm.opts s.asm.snapSeq (orClock now clock)) := by
  have hswept := swept_tick h.consistent now clock
  cases hlife with
  | absent hnew => 
      exact .absent (logIDs_of_length sdk h.consistent (.tick now clock) hswept.length ▸ hnew)
  | @live r hr hid =>
    have hlife := swept_life h (.tick now clock) nofun honce hswept rfl rfl hr hid (by
      split
      · rfl
      · rw [Conn.ticked_eq]) fun e' he' => by cases he' with | tick _ he => exact he
    dsimp only [Life.ticked]
    cases he : (s.asm.conn r).tickEnding s.asm.opts s.asm.snapSeq (orClock now clock) <;>
    · simp only [he] at hlife
      exact hlife
  | gone hused hleft hall => exact gone_step h (.tick now clock) nofun honce (.gone hused hleft hall)

end

/-- The entries that are joined to a connection are those of its address. -/
theorem joins_eq_entries {a : Assembler} (h : a.Consistent) (r : Nat) (items : List SnapshotItem) :
    a.joins r items =
      (a.conn r).entries (decide (a.bySrc.lookup (a.conn r).srcKey = some r)) items := by
  refine filter_congr fun item _ => ?_
  congr 1
  rw [Bool.eq_iff_iff, Bool.and_eq_true, decide_eq_true_iff, decide_eq_true_iff, decide_eq_true_iff]
  constructor
  · intro hlook
    have hkey := (h.bySrc _ r hlook).2.1
    exact ⟨hkey ▸ hlook, hkey.symm⟩
  · rintro ⟨hlook, hkey⟩
    rw [hkey]
    exact hlook

/-- **A poll and the life under a log id.** -/
theorem snapshot_life (h : s.Traced) {life : Life} (hlife : s.asm.HasLife x life) (snap : Snapshot)
    (clock : Time) (honce : (s.step sdk (.snapshot snap clock)).asm.logIDs.count x ≤ 1) :
    (s.step sdk (.snapshot snap clock)).asm.HasLife x
      (life.polled sdk s.asm.opts s.asm.snapSeq snap.items (orClock snap.at_ clock)) := by
  have hswept := swept_snapshot sdk h.consistent snap clock
  cases hlife with
  | absent hnew =>
    exact .absent (logIDs_of_length sdk h.consistent (.snapshot snap clock)
      (hswept.length.trans (polled_length sdk _ _ _)) ▸ hnew)
  | @live r hr hid =>
    have hpolled := polled_conn sdk s.asm snap (orClock snap.at_ clock)
      (h.consistent.allocated r hr)
    rw [joins_eq_entries h.consistent] at hpolled
    dsimp only [Life.polled]
    rw [← hpolled]
    refine swept_life h (.snapshot snap clock) nofun honce hswept (by rw [polled_eq]) (by rw [polled_eq]) hr hid ?_
      fun e' he' => by cases he' with | sweep _ he => exact he
    rw [id, hpolled]
    exact (joined_keeps ..).2.2.2
  | gone hused hleft hall =>
    exact gone_step h (.snapshot snap clock) nofun honce (.gone hused hleft hall)

end AsmRun

end LatticeAgent.Trace
