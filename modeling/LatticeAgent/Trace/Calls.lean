import LatticeAgent.Trace.Books

/-! # What a call of the assembler does

Each call in the terms of the connections: `step_becomes` says what it leaves of each connection,
`step_leaves` which connections leave and in which order, and `step_pushes` which final records
it adds and how the connections they are of were ended. -/

namespace LatticeAgent.Trace

open List

namespace Assembler

variable {a a' : Assembler} {sdk : Sdk}

/-! ### What it leaves of the connections -/

variable (sdk : Sdk)

theorem line_ignored (h : a.Consistent) {l : Line} (ht : a.target l = none) (clock : Time)
    : a.line sdk l clock = a := by rw [line_eq sdk h, ht, Option.elim_none]

theorem ready_frame (a : Assembler) (l : Line) (at_ : Time) :
    (a.ready l at_).opts = a.opts ∧ (a.ready l at_).gen = a.gen ∧
      (a.ready l at_).snapSeq = a.snapSeq := by
  unfold ready
  split
  · obtain ⟨hopts, hgen, hseq, -⟩ := (a.collided l at_).cleared_frame
    obtain ⟨hopts', hgen', hseq', -⟩ := a.collided_frame l at_
    exact ⟨hopts.trans hopts', hgen.trans hgen', hseq.trans hseq'⟩
  · exact ⟨rfl, rfl, rfl⟩

theorem line_settings (h : a.Consistent) (l : Line) (clock : Time) :
    (a.line sdk l clock).opts = a.opts ∧ (a.line sdk l clock).snapSeq = a.snapSeq := by
  cases ht : a.target l with
  | none => rw [line_ignored sdk h ht]; exact ⟨rfl, rfl⟩
  | some r =>
    have htouch := line_touches sdk h ht clock
    obtain ⟨hopts, -, hseq⟩ := a.ready_frame l (orClock l.at_ clock)
    exact ⟨htouch.opts.trans hopts, htouch.snapSeq.trans hseq⟩

theorem snapshot_settings (h : a.Consistent) (s : Snapshot) (clock : Time) :
    (a.snapshot sdk s clock).opts = a.opts ∧
      (a.snapshot sdk s clock).snapSeq = a.snapSeq + 1 := by
  have hswept := swept_snapshot sdk h s clock
  rw [hswept.opts, hswept.snapSeq, polled_eq]
  exact ⟨rfl, rfl⟩

theorem line_conn (h : a.Consistent) (l : Line) (clock : Time) :
    (a.line sdk l clock).conns.length =
      a.conns.length + (if a.target l = some a.conns.length then 1 else 0) ∧
    ∀ r < (a.line sdk l clock).conns.length, (a.line sdk l clock).conn r =
      if a.target l = some r then (a.found l (orClock l.at_ clock) r).fed sdk l (orClock l.at_ clock)
      else a.conn r := by
  obtain ⟨hlen, hold, hself⟩ := ready_conn h l (orClock l.at_ clock)
  cases ht : a.target l with
  | none => rw [line_ignored sdk h ht]; exact ⟨rfl, fun r _ => rfl⟩
  | some r =>
    have htouch := line_touches sdk h ht clock
    rw [ht] at hlen
    refine ⟨htouch.length.trans hlen, fun r' hr' => ?_⟩
    rw [htouch.length.trans hlen] at hr'
    by_cases heq : r' = r
    · subst heq
      rw [if_pos rfl, htouch.conn (hself r' ht).1]
    · rw [if_neg fun hc => heq (Option.some.inj hc).symm, htouch.other heq]
      refine hold r' ?_
      split at hr'
      · have : r = a.conns.length := Option.some.inj ‹_›
        omega
      · exact hr'

theorem tick_conn (h : a.Consistent) (now clock : Time) (r : Nat) :
    (a.tick now clock).conn r =
      if r ∈ a.order ∧ (a.conn r).tickEnding a.opts a.snapSeq (orClock now clock) = none then
        (a.conn r).ticked a.opts (orClock now clock)
      else a.conn r := by
  rw [(swept_tick h now clock).conn]
  by_cases hr : r ∈ a.order
  · cases he : (a.conn r).tickEnding a.opts a.snapSeq (orClock now clock) with
    | none => simp [hr]
    | some e => simp
  · simp [hr]

theorem joined_keeps (at_ : Time) (seq : UInt64) (floor quiet : Duration)
    (items : List SnapshotItem) (c : Conn) :
    let c' := items.foldl (fun c item => c.join sdk item at_ seq floor quiet) c
    c'.record.logID = c.record.logID ∧ c'.sessions = c.sessions ∧
      c'.record.startedAt = c.record.startedAt ∧ c'.srcKey = c.srcKey := by
  induction items generalizing c with
  | nil => exact ⟨rfl, rfl, rfl, rfl⟩
  | cons item items ih =>
    have h := ih (c.join sdk item at_ seq floor quiet)
    rw [Conn.join_eq] at h
    rw [foldl_cons, Conn.join_eq]
    exact h

theorem snapshot_conn (h : a.Consistent) (s : Snapshot) (clock : Time) (r : Nat) :
    (a.snapshot sdk s clock).conn r = (a.polled sdk s (orClock s.at_ clock)).conn r := by
  rw [(swept_snapshot sdk h s clock).conn]
  simp

theorem coreRestart_conn (h : a.Consistent) (generation : UInt64) (at_ clock : Time) (r : Nat) :
    (a.coreRestart generation at_ clock).conn r = a.conn r := by
  have hconn := (swept_restarted h (orClock at_ clock)).conn r
  rw [id, ite_self] at hconn
  exact hconn

theorem mem_unionSessions {have_ ids : List String} {s : String} :
    s ∈ unionSessions have_ ids ↔ s ∈ have_ ∨ (s ∈ ids ∧ s ≠ "") := by
  induction ids generalizing have_ with
  | nil => simp [unionSessions]
  | cons id ids ih =>
    rw [unionSessions, foldl_cons, ← unionSessions, ih]
    split
    · rename_i h
      constructor
      · rintro (h' | h')
        · exact .inl h'
        · exact .inr ⟨mem_cons_of_mem _ h'.1, h'.2⟩
      · rintro (h' | ⟨h', hne⟩)
        · exact .inl h'
        · rcases mem_cons.mp h' with rfl | h'
          · exact .inl (h.resolve_left hne)
          · exact .inr ⟨h', hne⟩
    · rename_i h
      simp only [mem_append, mem_cons, List.not_mem_nil, or_false]
      have hne : id ≠ "" := fun he => h (.inl he)
      constructor
      · rintro ((h' | rfl) | h')
        · exact .inl h'
        · exact .inr ⟨.inl rfl, hne⟩
        · exact .inr ⟨.inr h'.1, h'.2⟩
      · rintro (h' | ⟨rfl | h', hs⟩)
        · exact .inl (.inl h')
        · exact .inl (.inr rfl)
        · exact .inr ⟨h', hs⟩

theorem tag_eq (a : Assembler) (logID : UInt32) (ids : List String) :
    a.tag logID ids = { a with conns := (a.tag logID ids).conns } := by
  unfold tag
  split
  · rfl
  · split <;> rfl

theorem tag_conn (a : Assembler) (logID : UInt32) (ids : List String) :
    (a.tag logID ids).conns.length = a.conns.length ∧
      ∀ r, ∃ sessions, (∀ s ∈ (a.conn r).sessions, s ∈ sessions) ∧
        (a.tag logID ids).conn r = { a.conn r with sessions := sessions } := by
  have hsame : ∀ r, ∃ sessions, (∀ s ∈ (a.conn r).sessions, s ∈ sessions) ∧
      a.conn r = { a.conn r with sessions := sessions } := fun r => ⟨_, fun _ hs => hs, rfl⟩
  unfold tag
  split
  · exact ⟨rfl, hsame⟩
  · split
    · exact ⟨rfl, hsame⟩
    · refine ⟨modify_length _ _ _, fun r => ?_⟩
      rw [conn_modify]
      split
      · rename_i heq
        rw [heq.1]
        exact ⟨_, fun s hs => (mem_insertionSort _).mpr (mem_unionSessions.mpr (.inl hs)), rfl⟩
      · exact hsame r

theorem target_mem (h : a.Consistent) {l : Line} {r : Nat} (ht : a.target l = some r) :
    r ∈ a.order ∨ r = a.conns.length := (target_cases h ht).imp And.left And.left

theorem joins_of_not_mem (h : a.Consistent) {r : Nat} (hr : r ∉ a.order)
    (items : List SnapshotItem) : a.joins r items = [] := by
  refine filter_eq_nil_iff.mpr fun item _ hkey => ?_
  rw [Bool.and_eq_true, decide_eq_true_eq] at hkey
  exact hr (h.bySrc _ r hkey.1).1

end Assembler

namespace AsmRun

open Assembler

variable {sdk : Sdk} {s : AsmRun}

/-- What becomes of a connection in a call. -/
inductive Becomes (sdk : Sdk) (s : AsmRun) (r : Nat) : AsmCall → Conn → Prop
  | fed {l : Line} {clock : Time} (h : s.asm.target l = some r) :
      Becomes sdk s r (.line l clock)
        ((s.asm.found l (orClock l.at_ clock) r).fed sdk l (orClock l.at_ clock))
  | unfed {l : Line} {clock : Time} (h : s.asm.target l ≠ some r) (hr : r < s.asm.conns.length) :
      Becomes sdk s r (.line l clock) (s.asm.conn r)
  | polled {snap : Snapshot} {clock : Time} (hr : r < s.asm.conns.length) :
      Becomes sdk s r (.snapshot snap clock)
        ((s.asm.joins r snap.items).foldl
          (fun c item => c.join sdk item (orClock snap.at_ clock) (s.asm.snapSeq + 1)
            s.asm.opts.stallFloor s.asm.opts.stallQuiet) (s.asm.conn r))
  | ticked {now clock : Time} (hr : r < s.asm.conns.length)
      (h : r ∈ s.asm.order ∧
        (s.asm.conn r).tickEnding s.asm.opts s.asm.snapSeq (orClock now clock) = none) :
      Becomes sdk s r (.tick now clock) ((s.asm.conn r).ticked s.asm.opts (orClock now clock))
  | unticked {now clock : Time} (hr : r < s.asm.conns.length)
      (h : ¬ (r ∈ s.asm.order ∧
        (s.asm.conn r).tickEnding s.asm.opts s.asm.snapSeq (orClock now clock) = none)) :
      Becomes sdk s r (.tick now clock) (s.asm.conn r)
  | restarted {generation : UInt64} {at_ clock : Time} (hr : r < s.asm.conns.length) :
      Becomes sdk s r (.coreRestart generation at_ clock) (s.asm.conn r)
  | tagged {logID : UInt32} {ids : List String} (hr : r < s.asm.conns.length)
      {sessions : List String} (hs : ∀ id ∈ (s.asm.conn r).sessions, id ∈ sessions) :
      Becomes sdk s r (.tag logID ids) { s.asm.conn r with sessions := sessions }
  | drained (hr : r < s.asm.conns.length) : Becomes sdk s r .drain (s.asm.conn r)

/-- **What a call does to one connection.** -/
theorem step_becomes (h : s.asm.Consistent) (call : AsmCall) {r : Nat}
    (hr : r < (s.step sdk call).asm.conns.length) :
    Becomes sdk s r call ((s.step sdk call).asm.conn r) := by
  cases call with
  | line l clock =>
    obtain ⟨hlen, hconn⟩ := line_conn sdk h l clock
    change r < (s.asm.line sdk l clock).conns.length at hr
    change Becomes sdk s r _ ((s.asm.line sdk l clock).conn r)
    rw [hconn r hr]
    by_cases ht : s.asm.target l = some r
    · rw [if_pos ht]
      exact .fed ht
    · rw [if_neg ht]
      refine .unfed ht ?_
      -- Only the connection the line is applied to can be new.
      by_contra hlt
      have heq : s.asm.target l = some s.asm.conns.length := by
        by_contra hne
        rw [if_neg hne] at hlen
        omega
      rw [if_pos heq] at hlen
      have : r = s.asm.conns.length := by omega
      exact ht (this ▸ heq)
  | snapshot snap clock =>
    have hlen := (swept_snapshot sdk h snap clock).length.trans (polled_length sdk _ _ _)
    have hlt : r < s.asm.conns.length := hlen ▸ hr
    have hconn : (s.step sdk (.snapshot snap clock)).asm.conn r = _ :=
      snapshot_conn sdk h snap clock r
    rw [hconn, polled_conn sdk _ _ _ hlt]
    exact .polled hlt
  | tick now clock =>
    have hlt : r < s.asm.conns.length := (swept_tick h now clock).length ▸ hr
    change Becomes sdk s r _ ((s.asm.tick now clock).conn r)
    rw [tick_conn h now clock r]
    split
    · exact .ticked hlt ‹_›
    · exact .unticked hlt ‹_›
  | coreRestart generation at_ clock =>
    have hlt : r < s.asm.conns.length := (swept_restarted h (orClock at_ clock)).length ▸ hr
    change Becomes sdk s r _ ((s.asm.coreRestart generation at_ clock).conn r)
    rw [coreRestart_conn h]
    exact .restarted hlt
  | tag logID ids =>
    obtain ⟨hlen, hconn⟩ := s.asm.tag_conn logID ids
    obtain ⟨sessions, hs, heq⟩ := hconn r
    change Becomes sdk s r _ ((s.asm.tag logID ids).conn r)
    rw [heq]
    exact .tagged (hlen ▸ hr) hs
  | drain => exact .drained hr

end AsmRun

/-! ### What leaves -/

namespace Assembler

section

variable (sdk : Sdk) (a : Assembler)

/-- The connections that a call ends or evicts, in the order they leave. -/
def leaving : AsmCall → List Nat
  | .line l clock =>
    let at_ := orClock l.at_ clock
    (if a.target l = some a.conns.length then
      (a.open_.lookup l.logID).toList ++ (a.collided l at_).evictee.toList else []) ++
    ((a.target l).filter fun r => ((a.found l at_ r).lineEnding sdk l at_).isSome).toList
  | .tick now clock =>
    a.order.filter fun r =>
      ((a.conn r).tickEnding a.opts a.snapSeq (orClock now clock)).isSome
  | .snapshot s clock =>
    a.order.filter fun r =>
      (((a.polled sdk s (orClock s.at_ clock)).conn r).sweepEnding (a.snapSeq + 1)
        (orClock s.at_ clock)).isSome
  | .coreRestart .. => a.order
  | _ => []

end

variable {sdk : Sdk} {a b a' : Assembler}

/-- The list holds connections that exist, each once. -/
def Listed (a : Assembler) : Prop := a.order.Nodup ∧ ∀ r ∈ a.order, r < a.conns.length

theorem Consistent.listed_order (h : a.Consistent) : a.Listed := ⟨h.nodup, h.allocated⟩

/-- The connections that leave from `a` to `a'`: each that was open or is new leaves once or is
open, and the done set takes their log ids in turn. -/
structure Leaves (gone : List Nat) (a a' : Assembler) : Prop where
  listed : a'.Listed
  grows : a.conns.length ≤ a'.conns.length
  ids : ∀ r < a.conns.length, (a'.conn r).record.logID = (a.conn r).record.logID
  nodup : gone.Nodup
  mem : ∀ r, r ∈ gone ↔
    (r ∈ a.order ∨ a.conns.length ≤ r ∧ r < a'.conns.length) ∧ r ∉ a'.order
  order : ∀ r ∈ a'.order, r ∈ a.order ∨ a.conns.length ≤ r
  done : a'.done = gone.foldl (fun d r => d.add (a'.conn r).record.logID) a.done

namespace Leaves

theorem nil (h : a.Listed) (horder : a'.order = a.order) (hlen : a'.conns.length = a.conns.length)
    (hids : ∀ r < a.conns.length, (a'.conn r).record.logID = (a.conn r).record.logID)
    (hdone : a'.done = a.done) : Leaves [] a a' := by
  refine ⟨?_, hlen.ge, hids, nodup_nil, fun r => ?_, fun r hr => .inl (horder ▸ hr), hdone⟩
  · rw [Listed, horder, hlen]
    exact h
  · have hnone : ¬ (a.conns.length ≤ r ∧ r < a.conns.length) := by omega
    simp [horder, hlen, hnone]

theorem trans {gone gone' : List Nat} (ha : a.Listed) (h : Leaves gone a b)
    (h' : Leaves gone' b a') : Leaves (gone ++ gone') a a' := by
  have hlt : ∀ r ∈ gone, r < b.conns.length := fun r hr => by
    obtain hr | hr := ((h.mem r).mp hr).1
    · exact lt_of_lt_of_le (ha.2 r hr) h.grows
    · exact hr.2
  have hgrows := h.grows
  have hgrows' := h'.grows
  refine ⟨h'.listed, hgrows.trans hgrows',
    fun r hr => (h'.ids r (lt_of_lt_of_le hr hgrows)).trans (h.ids r hr), ?_, fun r => ?_,
    fun r hr => ?_, ?_⟩
  · refine h.nodup.append h'.nodup fun r hr hr' => ?_
    obtain hin | hin := ((h'.mem r).mp hr').1
    · exact ((h.mem r).mp hr).2 hin
    · exact Nat.not_le_of_lt (hlt r hr) hin.1
  · have hlast := h'.order r
    have hfirst := h.order r
    have hknown := ha.2 r
    have hin := h.listed.2 r
    rw [mem_append, h.mem, h'.mem]
    grind
  · obtain hr | hr := h'.order r hr
    · exact h.order r hr
    · exact .inr (hgrows.trans hr)
  · rw [h'.done, h.done, foldl_append]
    congr 1
    exact foldl_ext _ _ _ fun d r hr => by rw [h'.ids r (hlt r hr)]

end Leaves

theorem Touches.leaves {r : Nat} {c : Conn} {e : Option Ending} (ht : Touches r c e a a')
    (h : a.Listed) (hr : r ∈ a.order) (hid : c.record.logID = (a.conn r).record.logID) :
    Leaves (if e.isSome then [r] else []) a a' := by
  have hself := ht.conn (h.2 r hr)
  have hids : ∀ r' < a.conns.length, (a'.conn r').record.logID = (a.conn r').record.logID := by
    intro r' _
    by_cases heq : r' = r
    · rw [heq, hself, hid]
    · rw [ht.other heq]
  have horder := ht.order
  have hdone := ht.done
  split at horder
  · rename_i he
    rw [if_pos he] at hdone ⊢
    have hmem (r' : Nat) : r' ∈ a'.order ↔ r' ≠ r ∧ r' ∈ a.order := by
      rw [horder, h.1.mem_erase_iff]
    have hold (r' : Nat) : ¬ (a.conns.length ≤ r' ∧ r' < a'.conns.length) := by
      rw [ht.length]
      omega
    refine ⟨⟨horder ▸ h.1.erase r, fun r' hr' => ht.length ▸ h.2 r' ((hmem r').mp hr').2⟩,
      ht.length.ge, hids, nodup_singleton r, fun r' => ?_, fun r' hr' => .inl ((hmem r').mp hr').2,
      by rw [hdone, foldl_cons, hself]; rfl⟩
    rw [hmem, mem_singleton]
    have := hold r'
    grind
  · rename_i he
    rw [if_neg he] at hdone ⊢
    exact .nil h horder ht.length hids hdone

theorem cleared_leaves (h : a.Listed) : Leaves a.evictee.toList a a.cleared := by
  obtain ⟨horder, hdone⟩ := a.cleared_order
  have hconns := a.cleared_frame.2.2.2.1
  have hids : ∀ r < a.conns.length, (a.cleared.conn r).record.logID = (a.conn r).record.logID :=
    fun r _ => by rw [conn, hconns, conn]
  cases he : a.evictee with
  | none =>
    rw [he] at horder hdone
    exact .nil h horder (by rw [hconns]) hids hdone
  | some r =>
    have hr : r ∈ a.order := by
      unfold evictee at he
      split at he
      · exact mem_of_mem_head? he
      · cases he
    rw [he] at horder hdone
    have hmem (r' : Nat) : r' ∈ a.cleared.order ↔ r' ≠ r ∧ r' ∈ a.order := by
      rw [horder, Option.elim_some, h.1.mem_erase_iff]
    refine ⟨⟨horder ▸ h.1.erase r, fun r' hr' => hconns ▸ h.2 r' ((hmem r').mp hr').2⟩,
      by rw [hconns], hids, nodup_singleton r, fun r' => ?_,
      fun r' hr' => .inl ((hmem r').mp hr').2, ?_⟩
    · have hnone : ¬ (a.conns.length ≤ r' ∧ r' < a.conns.length) := by omega
      rw [hmem, hconns, Option.toList_some, mem_singleton]
      grind
    · rw [hdone, Option.toList_some, foldl_cons, hids r (h.2 r hr)]
      rfl

theorem opened_leaves (h : a.Listed) (l : Line) (at_ : Time) : Leaves [] a (a.opened l at_) := by
  have hlen : (a.opened l at_).conns.length = a.conns.length + 1 := by simp [opened]
  have hmem (r : Nat) : r ∈ (a.opened l at_).order ↔ r ∈ a.order ∨ r = a.conns.length := by
    simp [opened]
  refine ⟨⟨?_, fun r hr => ?_⟩, by omega, fun r hr => ?_, nodup_nil, fun r => ?_,
    fun r hr => ((hmem r).mp hr).imp_right Eq.ge, rfl⟩
  · refine h.1.append (nodup_singleton _) ?_
    rw [disjoint_singleton]
    exact fun hc => Nat.lt_irrefl _ (h.2 _ hc)
  · obtain hr | rfl := (hmem r).mp hr
    · have := h.2 r hr
      omega
    · omega
  · simp [opened, conn, getD_eq_getElem?_getD, getElem?_append_left hr]
  · rw [hmem, hlen]
    grind

/-- What leaves when a line opens a connection: the one whose log id it takes over, and the
oldest if there is no room. -/
theorem newborn_leaves (h : a.Consistent) (l : Line) (at_ : Time) :
    Leaves ((a.open_.lookup l.logID).toList ++ (a.collided l at_).evictee.toList) a
      (a.newborn l at_) := by
  have hcol : Leaves (a.open_.lookup l.logID).toList a (a.collided l at_) := by
    unfold collided
    rcases hr : a.open_.lookup l.logID with - | r
    · exact .nil h.listed_order rfl rfl (fun _ _ => rfl) rfl
    · exact (a.touches_ended r (some (collisionEnding at_))).leaves h.listed_order
        (h.opened _ r hr).1 rfl
  have hclear := hcol.trans h.listed_order (cleared_leaves hcol.listed)
  have hopen := hclear.trans h.listed_order (opened_leaves hclear.listed l at_)
  rwa [append_nil] at hopen

theorem ready_leaves (h : a.Consistent) (l : Line) (at_ : Time) :
    Leaves (if a.target l = some a.conns.length then
      (a.open_.lookup l.logID).toList ++ (a.collided l at_).evictee.toList else []) a
      (a.ready l at_) := by
  unfold ready
  split
  · exact newborn_leaves h l at_
  · exact .nil h.listed_order rfl rfl (fun _ _ => rfl) rfl

theorem line_leaves (sdk : Sdk) (h : a.Consistent) (l : Line) (clock : Time) :
    Leaves (a.leaving sdk (.line l clock)) a (a.line sdk l clock) := by
  unfold leaving
  dsimp only
  cases ht : a.target l with
  | none =>
    rw [line_ignored sdk h ht]
    exact .nil h.listed_order rfl rfl (fun _ _ => rfl) rfl
  | some r =>
    have htouch := line_touches sdk h ht clock
    generalize orClock l.at_ clock = at_ at htouch ⊢
    have hready := ready_leaves h l at_
    rw [ht] at hready
    refine hready.trans h.listed_order ?_
    have hlast := htouch.leaves hready.listed (mem_ready h ht at_).1 (by
      rw [Conn.fed_eq]
      exact congrArg (·.record.logID) ((ready_conn h l at_).2.2 r ht).2.symm)
    rw [Option.filter_some]
    split <;> rename_i he <;> simp only [he] at hlast <;>
      exact ⟨hlast.listed, hlast.grows, hlast.ids, hlast.nodup, hlast.mem, hlast.order, hlast.done⟩

variable {e : Conn → Option Ending} {w : Conn → Conn}

theorem Swept.leaves (h : Swept a.order w e b a') (ha : a.Listed)
    (hw : ∀ c, (w c).record.logID = c.record.logID) (horder : b.order = a.order)
    (hlen : b.conns.length = a.conns.length)
    (hids : ∀ r < a.conns.length, (b.conn r).record.logID = (a.conn r).record.logID)
    (hdone : b.done = a.done) : Leaves (a.order.filter fun r => (e (b.conn r)).isSome) a a' := by
  have hmem (r : Nat) : r ∈ a'.order ↔ r ∈ a.order ∧ ¬ (e (b.conn r)).isSome = true := by
    rw [h.order, horder]
    tauto
  have hlen' := h.length.trans hlen
  refine ⟨⟨h.nodup, fun r hr => hlen' ▸ ha.2 r ((hmem r).mp hr).1⟩, hlen'.ge, fun r hr => ?_,
    ha.1.filter _, fun r => ?_, fun r hr => .inl ((hmem r).mp hr).1, ?_⟩
  · rw [h.conn]
    split
    · rw [hw, hids r hr]
    · exact hids r hr
  · have hnone : ¬ (a.conns.length ≤ r ∧ r < a.conns.length) := by omega
    rw [hmem, hlen', mem_filter]
    grind
  · rw [h.done, hdone]
    refine foldl_ext _ _ _ fun d r hr => ?_
    rw [h.conn, if_pos (mem_of_mem_filter hr)]

/-! ### The ways a connection ends -/

/-- How a call ends a connection. -/
inductive Ends (sdk : Sdk) (a : Assembler) (r : Nat) : AsmCall → Ending → Prop
  | line {l : Line} {clock : Time} {e : Ending} (htarget : a.target l = some r)
      (he : (a.found l (orClock l.at_ clock) r).lineEnding sdk l (orClock l.at_ clock) = some e) :
      Ends sdk a r (.line l clock) e
  | collision {l : Line} {clock : Time} (hopen : a.open_.lookup l.logID = some r)
      (hev : l.event = .inboundFrom) (htarget : a.target l = some a.conns.length) :
      Ends sdk a r (.line l clock) (collisionEnding (orClock l.at_ clock))
  | tick {now clock : Time} {e : Ending} (hr : r ∈ a.order)
      (he : (a.conn r).tickEnding a.opts a.snapSeq (orClock now clock) = some e) :
      Ends sdk a r (.tick now clock) e
  | sweep {s : Snapshot} {clock : Time} {e : Ending} (hr : r ∈ a.order)
      (he : ((a.polled sdk s (orClock s.at_ clock)).conn r).sweepEnding (a.snapSeq + 1)
        (orClock s.at_ clock) = some e) : Ends sdk a r (.snapshot s clock) e
  | restart {generation : UInt64} {at_ clock : Time} (hr : r ∈ a.order) :
      Ends sdk a r (.coreRestart generation at_ clock) (Conn.restartEnding (orClock at_ clock))

/-- Final records that a call adds, each of a connection that the call ends and of which something
is known. -/
structure Pushes (sdk : Sdk) (a : Assembler) (call : AsmCall) (new : List (Nat × ConnRecord))
    (a' : Assembler) : Prop where
  finals : a'.finals = a.finals ++ new
  out : Emits (fun rec => ∃ r < a'.conns.length, ∃ gen now, rec = (a'.conn r).openRecord gen now) a a'
  closed : a'.closed = a.closed ++ new.map (·.2)
  ends : ∀ x ∈ new, ∃ e gen, Ends sdk a x.1 call e ∧ x.2 = (a'.conn x.1).final gen e
  known : ∀ x ∈ new, ¬ (x.2.srcIP = "" ∧ x.2.dstHost = "")

/-- What is pushed is a final record of a connection that is ended, or the record of an open one. -/
theorem Pushes.records {call : AsmCall} {new : List (Nat × ConnRecord)}
    (h : Pushes sdk a call new a') : ∃ recs, a'.out = a.out ++ recs ∧ ∀ rec ∈ recs,
      (∃ x ∈ new, x.2 = rec) ∨
        ∃ r < a'.conns.length, ∃ gen now, rec = (a'.conn r).openRecord gen now := by
  obtain ⟨recs, hout, hopen⟩ := h.out
  have hfinal : recs.filter (fun rec => !rec.open_) = new.map (·.2) := by
    have hclosed := h.closed
    rw [Assembler.closed, hout, filter_append] at hclosed
    exact append_cancel_left hclosed
  refine ⟨recs, hout, fun rec hrec => ?_⟩
  cases ho : rec.open_ with
  | true => exact .inr (hopen rec hrec ho)
  | false => exact .inl (mem_map.mp (hfinal ▸ mem_filter.mpr ⟨hrec, by simp [ho]⟩))

theorem Pushes.nil {call : AsmCall} (hf : a'.finals = a.finals) (ho : a'.out = a.out) :
    ∃ new, Pushes sdk a call new a' := by
  have hc : a'.closed = a.closed := congrArg (List.filter _) ho
  exact ⟨[], by rw [hf, append_nil], .nil ho,
    by rw [hc, map_nil, append_nil], forall_mem_nil _, forall_mem_nil _⟩

theorem Swept.pushes {l : List Nat} {call : AsmCall} (h : Swept l w e b a')
    (hf : b.finals = a.finals) (ho : b.out = a.out) (hl : ∀ r ∈ l, r < b.conns.length)
    (hends : ∀ r ∈ l, ∀ e', e (b.conn r) = some e' → Ends sdk a r call e') :
    ∃ new, Pushes sdk a call new a' := by
  refine ⟨l.flatMap fun r => (w (b.conn r)).finals r b.gen (e (b.conn r)), ?_,
    (Emits.nil ho).trans (h.out.mono fun rec hrec => ?_), ?_, fun x hx => ?_, fun x hx => ?_⟩
  · rw [h.finals, hf]
  · obtain ⟨r, hr, now, rfl⟩ := hrec
    exact ⟨r, h.length ▸ hl r hr, b.gen, now, by rw [h.conn, if_pos hr]⟩
  · rw [h.closed, show b.closed = a.closed from congrArg (List.filter _) ho]
  · obtain ⟨r, hr, hx⟩ := mem_flatMap.mp hx
    obtain ⟨e', he', rfl, -⟩ := Conn.mem_finals hx
    refine ⟨e', b.gen, hends r hr e' he', ?_⟩
    rw [h.conn, if_pos hr]
  · obtain ⟨r, -, hx⟩ := mem_flatMap.mp hx
    obtain ⟨e', -, rfl, hknown⟩ := Conn.mem_finals hx
    exact hknown

theorem ready_finals (a : Assembler) (l : Line) (at_ : Time) :
    ∃ old, (a.ready l at_).finals = a.finals ++ old ∧ Emits (fun _ => False) a (a.ready l at_) ∧
      (a.ready l at_).closed = a.closed ++ old.map (·.2) ∧
      ∀ x ∈ old, a.target l = some a.conns.length ∧ a.open_.lookup l.logID = some x.1 ∧
        x.2 = (a.conn x.1).final a.gen (collisionEnding at_) ∧
        ¬ (x.2.srcIP = "" ∧ x.2.dstHost = "") := by
  have hnone : ∃ old, a.finals = a.finals ++ old ∧ Emits (fun _ => False) a a ∧
      a.closed = a.closed ++ old.map (·.2) ∧
      ∀ x ∈ old, a.target l = some a.conns.length ∧ a.open_.lookup l.logID = some x.1 ∧
        x.2 = (a.conn x.1).final a.gen (collisionEnding at_) ∧
        ¬ (x.2.srcIP = "" ∧ x.2.dstHost = "") :=
    ⟨[], (append_nil _).symm, .nil rfl, (append_nil _).symm, forall_mem_nil _⟩
  unfold ready
  split
  · rename_i ht
    obtain ⟨-, -, -, -, hfinals, hout⟩ := (a.collided l at_).cleared_frame
    have hclosed : (a.newborn l at_).closed = (a.collided l at_).closed :=
      congrArg (List.filter _) hout
    rw [hclosed, show (a.newborn l at_).finals = (a.collided l at_).finals from hfinals,
      Emits, show (a.newborn l at_).out = (a.collided l at_).out from hout]
    unfold collided
    rcases hr : a.open_.lookup l.logID with - | r
    · rwa [hr] at hnone
    · have h := a.touches_ended r (some (collisionEnding at_))
      refine ⟨_, h.finals, a.ended_emits r (some (collisionEnding at_)), h.closed, fun x hx => ?_⟩
      obtain ⟨e, he, rfl, hknown⟩ := Conn.mem_finals hx
      cases he
      exact ⟨ht, rfl, rfl, hknown⟩
  · exact hnone

theorem line_pushes (sdk : Sdk) (h : a.Consistent) (l : Line) (clock : Time) :
    ∃ new, Pushes sdk a (.line l clock) new (a.line sdk l clock) := by
  cases ht : a.target l with
  | none =>
    rw [line_ignored sdk h ht]
    exact Pushes.nil rfl rfl
  | some r =>
    have htouch := line_touches sdk h ht clock
    obtain ⟨-, hself⟩ := ready_conn h l (orClock l.at_ clock)
    obtain ⟨hlen, hconn⟩ := line_conn sdk h l clock
    obtain ⟨old, hfinals, hout, hclosed, hold⟩ := a.ready_finals l (orClock l.at_ clock)
    -- A collision ends the connection before, and the line its own.
    obtain ⟨own, hown, hf, hc⟩ : ∃ own,
        (∀ x ∈ own, x ∈ ((a.found l (orClock l.at_ clock) r).fed sdk l (orClock l.at_ clock)).finals r
          (a.ready l (orClock l.at_ clock)).gen
          ((a.found l (orClock l.at_ clock) r).lineEnding sdk l (orClock l.at_ clock))) ∧
        (a.line sdk l clock).finals = (a.ready l (orClock l.at_ clock)).finals ++ own ∧
        (a.line sdk l clock).closed = (a.ready l (orClock l.at_ clock)).closed ++ own.map (·.2) :=
      ⟨_, fun _ hx => hx, htouch.finals, htouch.closed⟩
    refine ⟨old ++ own, ?_, (hout.mono fun _ h => h.elim).trans (htouch.out.mono fun rec hrec => ?_),
      ?_, fun x hx => ?_, fun x hx => ?_⟩
    · rw [hf, hfinals, append_assoc]
    · obtain ⟨now, rfl⟩ := hrec
      exact ⟨r, htouch.length ▸ (hself.2 r ht).1, _, now, by rw [htouch.conn (hself.2 r ht).1]⟩
    · rw [hc, hclosed, map_append, append_assoc]
    · obtain hx | hx := mem_append.mp hx
      · obtain ⟨hnew, hopen, hrec, -⟩ := hold x hx
        have hlt := h.allocated _ (h.opened _ _ hopen).1
        have hev : l.event = .inboundFrom := by
          obtain ⟨hr, -⟩ | ⟨-, hev⟩ := target_cases h hnew
          · exact absurd (h.allocated _ hr) (Nat.lt_irrefl _)
          · exact hev (by simp [hopen])
        refine ⟨_, a.gen, .collision hopen hev hnew, ?_⟩
        rw [hconn x.1 (by omega), hnew, if_neg fun hc => Nat.ne_of_gt hlt (Option.some.inj hc),
          hrec]
      · obtain ⟨e, he, rfl, -⟩ := Conn.mem_finals (hown x hx)
        exact ⟨e, _, .line ht he, by rw [htouch.conn (hself.2 r ht).1]⟩
    · obtain hx | hx := mem_append.mp hx
      · exact (hold x hx).2.2.2
      · obtain ⟨e, -, rfl, hknown⟩ := Conn.mem_finals (hown x hx)
        exact hknown

end Assembler

namespace AsmRun

open Assembler

variable {sdk : Sdk} {s : AsmRun} {r : Nat}

/-- The done set after a call is what it was, with the log ids of what left, unless the call
resets it. -/
theorem step_leaves (sdk : Sdk) (h : s.asm.Consistent) (call : AsmCall) :
    ∃ done, Leaves (s.asm.leaving sdk call) s.asm { (s.step sdk call).asm with done := done } ∧
      (s.step sdk call).asm.done =
        match call with
        | .coreRestart .. => done.reset
        | _ => done := by
  have ha := h.listed_order
  cases call with
  | line l clock => exact ⟨_, line_leaves sdk h l clock, rfl⟩
  | tick now clock =>
    refine ⟨_, (swept_tick h now clock).leaves ha (fun c => ?_) rfl rfl (fun _ _ => rfl) rfl, rfl⟩
    split
    · rfl
    · rw [Conn.ticked_eq]
  | snapshot snap clock =>
    refine ⟨_, (swept_snapshot sdk h snap clock).leaves ha (fun _ => rfl) ?_
      (polled_length sdk _ _ _) (fun r hr => ?_) ?_, rfl⟩
    · rw [polled_eq]
    · rw [polled_conn sdk _ _ _ hr, (joined_keeps ..).1]
    · rw [polled_eq]
  | coreRestart generation at_ clock =>
    have hloop := (swept_restarted h (orClock at_ clock)).leaves ha (fun _ => rfl) rfl rfl
      (fun _ _ => rfl) rfl
    simp only [Option.isSome_some, filter_true] at hloop
    exact ⟨_, ⟨hloop.listed, hloop.grows, hloop.ids, hloop.nodup, hloop.mem, hloop.order,
      hloop.done⟩, rfl⟩
  | tag logID ids =>
    obtain ⟨hlen, hconn⟩ := s.asm.tag_conn logID ids
    have horder : (s.asm.tag logID ids).order = s.asm.order := by rw [tag_eq]
    have hdone : (s.asm.tag logID ids).done = s.asm.done := by rw [tag_eq]
    refine ⟨_, .nil ha horder hlen (fun r _ => ?_) hdone, rfl⟩
    obtain ⟨sessions, -, heq⟩ := hconn r
    exact congrArg (·.record.logID) heq
  | drain => exact ⟨_, .nil ha rfl rfl (fun _ _ => rfl) rfl, rfl⟩

theorem step_length (h : s.asm.Consistent) (call : AsmCall) :
    s.asm.conns.length ≤ (s.step sdk call).asm.conns.length :=
  (step_leaves sdk h call).elim fun _ hleaves => hleaves.1.grows

theorem step_logID (sdk : Sdk) (h : s.asm.Consistent) (call : AsmCall)
    (hr : r < s.asm.conns.length) :
    ((s.step sdk call).asm.conn r).record.logID = (s.asm.conn r).record.logID :=
  (step_leaves sdk h call).elim fun _ hleaves => hleaves.1.ids r hr

theorem step_order (sdk : Sdk) (h : s.asm.Consistent) (call : AsmCall)
    (hr : r ∈ (s.step sdk call).asm.order) : r ∈ s.asm.order ∨ s.asm.conns.length ≤ r :=
  (step_leaves sdk h call).elim fun _ hleaves => hleaves.1.order r hr

theorem target_lt (h : s.asm.Consistent) {l : Line} (ht : s.asm.target l = some r)
    (clock : Time) : r < (s.step sdk (.line l clock)).asm.conns.length :=
  (line_touches sdk h ht clock).length ▸ ((ready_conn h l _).2.2 r ht).1

theorem conn_of_target (h : s.asm.Consistent) {l : Line}
    (htarget : s.asm.target l = some r) (clock : Time) :
    (s.step sdk (.line l clock)).asm.conn r =
      (s.asm.found l (orClock l.at_ clock) r).fed sdk l (orClock l.at_ clock) :=
  (line_touches sdk h htarget clock).conn ((ready_conn h l _).2.2 r htarget).1

/-- Every final record of a call is of a connection that the call ends. -/
theorem step_pushes (sdk : Sdk) (h : s.asm.Consistent) (call : AsmCall) (hcall : call ≠ .drain) :
    ∃ new, Pushes sdk s.asm call new (s.step sdk call).asm := by
  cases call with
  | line l clock => exact line_pushes sdk h l clock
  | snapshot snap clock =>
    refine (swept_snapshot sdk h snap clock).pushes ?_ ?_ ?_ fun r hr e' he' => .sweep hr he'
    · rw [polled_eq]
    · rw [polled_eq]
    · exact fun r hr => (polled_length sdk _ _ _).symm ▸ h.allocated r hr
  | tick now clock => 
      exact (swept_tick h now clock).pushes rfl rfl h.allocated fun r hr e' he' => .tick hr he'
  | coreRestart generation at_ clock =>
    obtain ⟨new, hnew⟩ : ∃ new, Pushes sdk s.asm (.coreRestart generation at_ clock) new
        (s.asm.restarted (orClock at_ clock)) :=
      (swept_restarted h (orClock at_ clock)).pushes rfl rfl h.allocated
        fun r hr e' he' => Option.some.inj he' ▸ .restart hr
    exact ⟨new, hnew.finals, hnew.out, hnew.closed, hnew.ends, hnew.known⟩
  | tag logID ids =>
    exact Pushes.nil (by rw [step, tag_eq]) (by rw [step, tag_eq])
  | drain => exact absurd rfl hcall

end AsmRun

end LatticeAgent.Trace
