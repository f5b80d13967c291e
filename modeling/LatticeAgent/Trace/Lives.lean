import LatticeAgent.Trace.Assembler

/-! # The life of one connection

The assembler works on all its connections at once, but what a call leaves of a connection, and
whether the call ends it, depends on that connection and on what the call brings for it. For
each call this module has the function of one connection that says so: `Conn.fed` and
`Conn.lineEnding` for a line, `Conn.join` and `Conn.sweepEnding` for a poll, `Conn.ticked` and
`Conn.tickEnding` for a tick.

`Touches` is what an operation on one connection does to the assembler and `Swept` what a loop of
them does; every call is one or the other (`line_touches`, `swept_tick`, `swept_snapshot`,
`swept_restarted`). -/

namespace LatticeAgent.Trace

open List Event Conn

/-- How a connection is finished. -/
structure Ending where
  cand : CloseCandidate
  at_ : Time
  src : DurationSource
deriving DecidableEq, Repr

/-- A half close: one direction of the connection has ended. -/
def Event.half : Event → Bool
  | .finished | .closed => true
  | _ => false

/-- What a half close without an error text means. -/
def Line.whenEmpty (l : Line) : CloseReason :=
  if l.event = .finished then .eof else if l.packet then .udpIdle else .canceled

/-- The evidence of a half close. -/
def Line.halfCandidate (sdk : Sdk) (l : Line) : CloseCandidate :=
  Assembler.lineCandidate l (closeReasonFor sdk l.error l.whenEmpty) (evidenceRank l.error l.whenEmpty)

/-- The line puts a connection's source address into the index. -/
def Line.indexes (l : Line) : Bool := l.event == .inboundFrom && l.srcIP != ""

/-- The key under which the line puts it there. -/
def Line.key (l : Line) : String := srcKey l.srcIP (toString l.srcPort)

namespace Conn

/-! ### What the calls leave of a connection -/

/-- What `indexSrc` writes. -/
def keyed (c : Conn) : Conn :=
  if c.record.srcIP = "" then c
  else { c with srcKey := Trace.srcKey c.record.srcIP (toString c.record.srcPort) }

/-- What `apply` writes. -/
def fed (sdk : Sdk) (c : Conn) (l : Line) (at_ : Time) : Conn :=
  if l.event = .outboundTo ∧ c.haveOutbound = true then { c with lastSeenAt := at_ }
  else
    let c := c.seen l at_
    match l.event with
    | .inboundFrom => (c.inboundFrom l).keyed
    | .inboundTo => c.inboundTo l
    | .ruleMatch => c.ruleMatch l
    | .sniffed => c.sniffed l
    | .outboundTo => c.outboundTo l
    | .dns => c.dns sdk l
    | .dialFailed => c.dialFailed l
    | .finished | .closed => (c.offer (l.halfCandidate sdk)).halfClosed l at_
    | .authFailed | .handshakeFailed | .connectionClosed | .other => c

/-- What `Tick` writes to a connection it does not finish. -/
def ticked (c : Conn) (opts : Options) (now : Time) : Conn :=
  let c := c.evalStall now opts.stallFloor opts.stallQuiet
  if opts.snapshotEvery ≤ now.sub c.lastEmitAt then { c with lastEmitAt := now } else c

/-- How a line ends its connection. -/
def lineEnding (sdk : Sdk) (c : Conn) (l : Line) (at_ : Time) : Option Ending :=
  match l.event with
  | .dialFailed => some ⟨Assembler.lineCandidate l .dialFailed rankTerminal, at_, .core⟩
  | .authFailed => some ⟨Assembler.lineCandidate l .authFailed rankTerminal, at_, .core⟩
  | .handshakeFailed => some ⟨Assembler.lineCandidate l .handshakeFailed rankTerminal, at_, .core⟩
  | .connectionClosed =>
    some ⟨Assembler.lineCandidate l (closeReasonFor sdk l.error .eof) rankTerminal, at_, .core⟩
  | .finished | .closed =>
    let c := c.fed sdk l at_
    if c.closedUp && c.closedDown then some ⟨c.close, at_, .core⟩ else none
  | _ => none

/-- One direction has closed, and the other is not coming any more. -/
def settled (c : Conn) (opts : Options) (snapSeq : UInt64) (now : Time) : Bool :=
  !c.firstHalfAt.isZero && decide (opts.halfCloseGrace ≤ now.sub c.firstHalfAt) &&
    !(c.sampled && decide (snapSeq ≤ c.lastSnapSeq))

/-- How a tick ends a connection. -/
def tickEnding (c : Conn) (opts : Options) (snapSeq : UInt64) (now : Time) : Option Ending :=
  if c.settled opts snapSeq now then some ⟨c.close, c.firstHalfAt, .core⟩
  else if opts.orphanTTL ≤ now.sub c.lastSeenAt then some ⟨Assembler.orphan c, now, .core⟩
  else none

/-- How the sweep after a poll ends a connection. -/
def sweepEnding (c : Conn) (snapSeq : UInt64) (at_ : Time) : Option Ending :=
  if c.sampled && decide (c.lastSnapSeq < snapSeq) then
    if c.close.rank = rankNone then some ⟨Assembler.vanished, at_, .clock⟩
    else some ⟨c.close, at_, .core⟩
  else none

/-- How a restart of the core ends a connection. -/
def restartEnding (at_ : Time) : Ending := ⟨⟨some .coreRestart, "", rankTerminal⟩, at_, .clock⟩

/-- A connection as the line that opens it finds it. -/
def fresh (nodeID : String) (l : Line) (at_ : Time) : Conn :=
  { record :=
      { nodeID := nodeID
        logID := l.logID
        network := networkOf l
        startedAt := at_ + milliseconds (-l.elapsedMS)
        userKind := if l.event = .inboundFrom ∨ l.event = .inboundTo then .unnamed
          else .unobserved }
    lastSeenAt := at_
    lastElapsedMS := l.elapsedMS
    lastEmitAt := at_ + milliseconds (-l.elapsedMS) }

/-- The final record of a connection. -/
def final (c : Conn) (gen : UInt64) (e : Ending) : ConnRecord :=
  { c.record with
    sessionIDs := c.sessions
    open_ := false
    endedAt := e.at_
    coreGeneration := gen
    closeReason := some (e.cand.reason.getD .unknown)
    closeError := e.cand.err
    durationMS :=
      match e.src with
      | .clock => millis (e.at_.sub c.record.startedAt)
      | .core => c.lastElapsedMS }

/-- The final records of a connection, by its pointer: one, unless nothing is known of it. -/
def finals (c : Conn) (r : Nat) (gen : UInt64) : Option Ending → List (Nat × ConnRecord)
  | none => []
  | some e => if c.record.srcIP = "" ∧ c.record.dstHost = "" then [] else [(r, c.final gen e)]

/-- The record of a connection that is still open. -/
def openRecord (c : Conn) (gen : UInt64) (now : Time) : ConnRecord :=
  { c.record with
    sessionIDs := c.sessions
    open_ := true
    coreGeneration := gen
    closeReason := some .unknown
    durationMS := millis (now.sub c.record.startedAt) }

variable (c : Conn)

theorem halfClosed_keeps (l : Line) (at_ : Time) :
    c.halfClosed l at_ =
      { c with
        firstHalfAt := (c.halfClosed l at_).firstHalfAt
        closedUp := (c.halfClosed l at_).closedUp
        closedDown := (c.halfClosed l at_).closedDown } := by
  unfold halfClosed
  dsimp only
  split <;> split <;> (try split) <;> rfl

theorem halfClosed_flags (l : Line) (at_ : Time) :
    (c.halfClosed l at_).closedUp = (c.closedUp || decide (l.direction ≠ .download)) ∧
      (c.halfClosed l at_).closedDown = (c.closedDown || decide (l.direction = .download) ||
        decide (l.direction = .none) && c.closedUp) ∧
      (c.halfClosed l at_).firstHalfAt = if c.firstHalfAt.isZero then at_ else c.firstHalfAt := by
  unfold halfClosed
  cases l.direction <;> cases hup : c.closedUp <;> cases hzero : c.firstHalfAt.isZero <;>
    simp [hup]

theorem offer_keeps (cand : CloseCandidate) :
    c.offer cand = { c with close := (c.offer cand).close } := by
  unfold offer
  split <;> rfl

theorem offer_close (cand : CloseCandidate) :
    (c.offer cand).close = if c.close.rank < cand.rank then cand else c.close := by
  unfold offer
  split <;> rfl

theorem fed_half (sdk : Sdk) (c : Conn) {l : Line} (h : l.event.half) (at_ : Time) :
    c.fed sdk l at_ = ((c.seen l at_).offer (l.halfCandidate sdk)).halfClosed l at_ := by
  unfold fed
  cases hev : l.event <;> simp_all [half]

/-- **What a line tells a connection**, and what it leaves alone. -/
theorem fed_eq (sdk : Sdk) (c : Conn) (l : Line) (at_ : Time) :
    c.fed sdk l at_ =
      { c with
        record :=
          { (c.fed sdk l at_).record with
            logID := c.record.logID
            startedAt := c.record.startedAt
            stalledAt := c.record.stalledAt
            upload := c.record.upload
            download := c.record.download
            bytesKnown := c.record.bytesKnown
            srcIP := if l.event = .inboundFrom then l.srcIP else c.record.srcIP
            srcPort := if l.event = .inboundFrom then l.srcPort else c.record.srcPort
            dstHost := if l.event = .inboundTo ∨ l.event = .outboundTo then
              (c.fed sdk l at_).record.dstHost else c.record.dstHost }
        lastSeenAt := at_
        lastElapsedMS := (c.fed sdk l at_).lastElapsedMS
        haveOutbound := c.haveOutbound || l.event == .outboundTo
        closedUp := if l.event.half then (c.halfClosed l at_).closedUp else c.closedUp
        closedDown := if l.event.half then (c.halfClosed l at_).closedDown else c.closedDown
        firstHalfAt := if l.event.half then (c.halfClosed l at_).firstHalfAt else c.firstHalfAt
        close := if l.event.half then (c.offer (l.halfCandidate sdk)).close else c.close
        srcKey := if l.indexes then l.key else c.srcKey } := by
  have hhalf : ((c.seen l at_).offer (l.halfCandidate sdk)).halfClosed l at_ =
      { c.seen l at_ with
        close := (c.offer (l.halfCandidate sdk)).close
        closedUp := (c.halfClosed l at_).closedUp
        closedDown := (c.halfClosed l at_).closedDown
        firstHalfAt := (c.halfClosed l at_).firstHalfAt } := by
    rw [halfClosed_keeps]
    simp only [halfClosed_flags]
    rw [offer_keeps]
    simp only [offer_close]
    rfl
  unfold Line.indexes
  cases hev : l.event with
  | finished | closed =>
    have hev : l.event.half := by rw [hev]; rfl
    rw [fed_half sdk c hev, hhalf]
    simp [seen, half]
  | inboundFrom =>
    have hfed : c.fed sdk l at_ = ((c.seen l at_).inboundFrom l).keyed := by simp [fed, hev]
    rw [hfed]
    unfold keyed
    by_cases hip : l.srcIP = ""
    · rw [if_pos (show ((c.seen l at_).inboundFrom l).record.srcIP = "" from hip)]
      simp [half, hip, inboundFrom, seen]
    · rw [if_neg (show ¬ ((c.seen l at_).inboundFrom l).record.srcIP = "" from hip)]
      simp [half, hip, inboundFrom, seen, Line.key]
  | outboundTo =>
    by_cases hout : c.haveOutbound = true
    · simp [fed, hev, hout, half]
    · simp [fed, hev, hout, outboundTo, seen, half]
  | ruleMatch =>
    have hfed : c.fed sdk l at_ = (c.seen l at_).ruleMatch l := by simp [fed, hev]
    rw [hfed]
    unfold ruleMatch
    split <;> simp [seen, half]
  | dns =>
    have hfed : c.fed sdk l at_ = (c.seen l at_).dns sdk l := by simp [fed, hev]
    rw [hfed]
    unfold dns
    split
    · split <;> simp [seen, half]
    · simp [seen, half]
  | _ => simp [fed, hev, seen, half, inboundTo, sniffed, dialFailed]

theorem lineEnding_cases {sdk : Sdk} {c : Conn} {l : Line} {at_ : Time} {e : Ending}
    (h : c.lineEnding sdk l at_ = some e) :
    (l.event.half ∧ e.cand = (c.fed sdk l at_).close ∧
        ((c.fed sdk l at_).closedUp && (c.fed sdk l at_).closedDown)) ∨
      (l.event.half = false ∧ ∃ reason, e.cand = Assembler.lineCandidate l reason rankTerminal ∧
        (l.event = .connectionClosed ∧ reason = closeReasonFor sdk l.error .eof ∨
          reason = .dialFailed ∨ reason = .authFailed ∨ reason = .handshakeFailed)) := by
  unfold lineEnding at h
  cases hev : l.event <;> simp only [hev] at h
  case finished | closed =>
    split at h
    · rename_i hboth
      cases h
      exact .inl ⟨rfl, rfl, hboth⟩
    · cases h
  all_goals cases h
  all_goals exact .inr ⟨rfl, _, rfl, by simp⟩

theorem evalStall_eq (now : Time) (floor quiet : Duration) :
    c.evalStall now floor quiet =
      { c with
        record := { c.record with stalledAt := (c.evalStall now floor quiet).record.stalledAt } } := by
  unfold evalStall
  (repeat' split) <;> rfl

theorem ticked_eq (opts : Options) (now : Time) :
    c.ticked opts now =
      { c with
        record := { c.record with stalledAt := (c.ticked opts now).record.stalledAt }
        lastEmitAt := (c.ticked opts now).lastEmitAt } := by
  unfold ticked
  dsimp only
  rw [evalStall_eq]
  split <;> rfl

theorem join_eq (sdk : Sdk) (c : Conn) (item : SnapshotItem) (at_ : Time) (seq : UInt64)
    (floor quiet : Duration) :
    c.join sdk item at_ seq floor quiet =
      { c with
        record :=
          { (c.join sdk item at_ seq floor quiet).record with
            logID := c.record.logID
            startedAt := c.record.startedAt
            srcIP := c.record.srcIP
            srcPort := c.record.srcPort
            upload := item.upload
            download := item.download
            bytesKnown := true }
        lastByteChangeAt := (c.join sdk item at_ seq floor quiet).lastByteChangeAt
        sampled := true
        lastSnapAt := at_
        lastSnapSeq := seq
        lastSeenAt := at_ } := by
  rw [join, evalStall_eq]

theorem mem_finals {c : Conn} {r : Nat} {gen : UInt64} {e : Option Ending} {x : Nat × ConnRecord}
    (h : x ∈ c.finals r gen e) : ∃ e', e = some e' ∧ x = (r, c.final gen e') ∧
      ¬ (c.record.srcIP = "" ∧ c.record.dstHost = "") := by
  cases e with
  | none => cases h
  | some e =>
    by_cases hknown : c.record.srcIP = "" ∧ c.record.dstHost = ""
    · rw [finals, if_pos hknown] at h
      cases h
    · rw [finals, if_neg hknown] at h
      exact ⟨e, rfl, mem_singleton.mp h, hknown⟩

end Conn

/-- What the indices know of a connection. -/
def Conn.identity (c : Conn) : UInt32 × String × String × Int × Bool :=
  (c.record.logID, c.srcKey, c.record.srcIP, c.record.srcPort, c.sampled)

namespace Assembler

variable {a a' : Assembler} {r : Nat}

/-- The map, the list and the source index hold the same connections. -/
structure Consistent (a : Assembler) : Prop where
  opened : ∀ id r, a.open_.lookup id = some r → r ∈ a.order ∧ (a.conn r).record.logID = id
  found : ∀ r ∈ a.order, a.open_.lookup (a.conn r).record.logID = some r
  size : a.open_.entries.length = a.order.length
  /-- Pointers are numbered as they are allocated, so this is the creation order. -/
  order : a.order.Pairwise (· < ·)
  allocated : ∀ r ∈ a.order, r < a.conns.length
  bySrc : ∀ key r, a.bySrc.lookup key = some r →
    r ∈ a.order ∧ (a.conn r).srcKey = key ∧ key ≠ ""
  keyed : ∀ r ∈ a.order, (a.conn r).srcKey =
    srcKey (a.conn r).record.srcIP (toString (a.conn r).record.srcPort)
  /-- Only what has an address is ever found in the connection table. -/
  sampled : ∀ r ∈ a.order, (a.conn r).sampled = true → (a.conn r).record.srcIP ≠ ""
  bound : (a.order.length : Int) ≤ a.opts.maxOpen
  positive : 0 < a.opts.maxOpen

theorem Consistent.nodup (h : a.Consistent) : a.order.Nodup := h.order.imp Nat.ne_of_lt

/-! ### One connection at a time -/

theorem conn_modify (a : Assembler) (r : Nat) (f : Conn → Conn) (r' : Nat) :
    (a.modify r f).conn r' = if r' = r ∧ r < a.conns.length then f (a.conn r) else a.conn r' := by
  unfold conn modify
  by_cases hr : r' = r
  · subst hr
    by_cases hlt : r' < a.conns.length <;> simp [getD_eq_getElem?_getD, hlt, conn]
  · simp [hr, getD_eq_getElem?_getD, getElem?_set_ne (Ne.symm hr)]

@[simp] theorem modify_length (a : Assembler) (r : Nat) (f : Conn → Conn) :
    (a.modify r f).conns.length = a.conns.length := by simp [modify]

/-- A connection is finished, or not. -/
def ended (a : Assembler) (r : Nat) : Option Ending → Assembler
  | none => a
  | some e => a.finish r e.cand e.at_ e.src

/-- The final records among those pushed. -/
def closed (a : Assembler) : List ConnRecord := a.out.filter fun rec => !rec.open_

/-- From `a` to `a'` records are pushed, those of open connections being such as `P` says. -/
def Emits (P : ConnRecord → Prop) (a a' : Assembler) : Prop :=
  ∃ recs, a'.out = a.out ++ recs ∧ ∀ rec ∈ recs, rec.open_ = true → P rec

namespace Emits

variable {P Q : ConnRecord → Prop}

theorem nil (h : a'.out = a.out) : Emits P a a' :=
  ⟨[], by rw [h, append_nil], forall_mem_nil _⟩

theorem mono (h : Emits P a a') (hP : ∀ rec, P rec → Q rec) : Emits Q a a' :=
  h.imp fun _ h => h.imp_right fun hrecs rec hrec hopen => hP rec (hrecs rec hrec hopen)

theorem trans {b : Assembler} (h : Emits P a b) (h' : Emits P b a') : Emits P a a' := by
  obtain ⟨recs, hout, hrecs⟩ := h
  obtain ⟨recs', hout', hrecs'⟩ := h'
  exact ⟨recs ++ recs', by rw [hout', hout, append_assoc],
    fun rec hrec => (mem_append.mp hrec).elim (hrecs rec) (hrecs' rec)⟩

end Emits

/-- An operation on one connection: it leaves the connection at `c`, ended or not. -/
structure Touches (r : Nat) (c : Conn) (e : Option Ending) (a a' : Assembler) : Prop where
  opts : a'.opts = a.opts
  gen : a'.gen = a.gen
  snapSeq : a'.snapSeq = a.snapSeq
  conns : a'.conns = a.conns.set r c
  order : a'.order = if e.isSome then a.order.erase r else a.order
  done : a'.done = if e.isSome then a.done.add c.record.logID else a.done
  finals : a'.finals = a.finals ++ c.finals r a.gen e
  out : Emits (fun rec => ∃ now, rec = c.openRecord a.gen now) a a'
  closed : a'.closed = a.closed ++ (c.finals r a.gen e).map (·.2)
  bySrc : ∀ key r', r' ≠ r ∨ e = none →
    (a'.bySrc.lookup key = some r' ↔ a.bySrc.lookup key = some r')

namespace Touches

variable {r : Nat} {c : Conn} {e : Option Ending}

theorem length (h : Touches r c e a a') : a'.conns.length = a.conns.length := by
  rw [h.conns, length_set]

theorem conn (h : Touches r c e a a') (hr : r < a.conns.length) : a'.conn r = c := by
  simp [Assembler.conn, h.conns, getD_eq_getElem?_getD, hr]

theorem other (h : Touches r c e a a') {r' : Nat} (hne : r' ≠ r) : a'.conn r' = a.conn r' := by
  simp [Assembler.conn, h.conns, getD_eq_getElem?_getD, getElem?_set_ne (Ne.symm hne)]

end Touches

variable (a r)

theorem set_conn : a.conns.set r (a.conn r) = a.conns := by
  refine ext_getElem? fun i => ?_
  by_cases hi : i = r
  · subst hi
    by_cases hlt : i < a.conns.length <;> simp [conn, getD_eq_getElem?_getD, hlt]
  · rw [getElem?_set_ne (Ne.symm hi)]

theorem forget_bySrc {r r' : Nat} (key : String) (hne : r' ≠ r) :
    (a.forget r).bySrc.lookup key = some r' ↔ a.bySrc.lookup key = some r' := by
  unfold forget
  dsimp only
  split
  · rename_i hkey
    by_cases heq : key = (a.conn r).srcKey
    · rw [heq, AList.lookup_erase, hkey.2]
      simp [Ne.symm hne]
    · rw [AList.lookup_erase_ne heq]
  · exact .rfl

theorem ended_emits (e : Option Ending) :
    Emits (fun _ => False) a (a.ended r e) := by
  cases e with
  | none => exact .nil rfl
  | some e =>
    unfold ended finish
    dsimp only
    split
    · exact .nil rfl
    · exact ⟨_, rfl, by simp [finalRecord]⟩

theorem touches_ended (e : Option Ending) :
    Touches r (a.conn r) e a (a.ended r e) := by
  cases e with
  | none =>
    exact ⟨rfl, rfl, rfl, (a.set_conn r).symm, rfl, rfl, (append_nil _).symm,
      .nil rfl, (append_nil _).symm, fun _ _ _ => .rfl⟩
  | some e =>
    have hsrc : ∀ key r', r' ≠ r ∨ some e = none →
        ((a.forget r).bySrc.lookup key = some r' ↔ a.bySrc.lookup key = some r') :=
      fun key r' hne => forget_bySrc a key (hne.resolve_right (Option.some_ne_none e))
    have hfinals : (a.conn r).finals r a.gen (some e) =
        if (a.conn r).record.srcIP = "" ∧ (a.conn r).record.dstHost = "" then []
        else [(r, (a.conn r).final a.gen e)] := rfl
    by_cases hknown : (a.conn r).record.srcIP = "" ∧ (a.conn r).record.dstHost = ""
    · rw [if_pos hknown] at hfinals
      have heq : a.ended r (some e) =
          { a.forget r with
            done := a.done.add (a.conn r).record.logID
            stats := { a.stats with partials := a.stats.partials + 1 } } := if_pos hknown
      rw [heq]
      refine ⟨rfl, rfl, rfl, (a.set_conn r).symm, rfl, rfl, ?_, .nil rfl, ?_, hsrc⟩ <;>
        simp only [hfinals, map_nil, append_nil] <;> rfl
    · rw [if_neg hknown] at hfinals
      have heq : a.ended r (some e) =
          { { a.forget r with done := a.done.add (a.conn r).record.logID }.push
              ((a.conn r).final a.gen e) with
            finals := a.finals ++ [(r, (a.conn r).final a.gen e)] } := if_neg hknown
      rw [heq]
      refine ⟨rfl, rfl, rfl, (a.set_conn r).symm, rfl, rfl, by rw [hfinals],
        ((heq ▸ a.ended_emits r (some e)).mono fun _ h => h.elim), ?_, hsrc⟩
      rw [hfinals]
      exact filter_append ..

theorem ended_open (e : Ending) :
    (a.ended r (some e)).open_ = a.open_.erase (a.conn r).record.logID := by
  unfold ended finish
  dsimp only
  split <;> rfl

theorem modify_modify (f g : Conn → Conn) :
    (a.modify r f).modify r g = a.modify r fun c => g (f c) := by
  have hconns : (a.conns.set r (f (a.conn r))).set r (g ((a.modify r f).conn r)) =
      a.conns.set r (g (f (a.conn r))) := by
    rw [set_set]
    by_cases hr : r < a.conns.length
    · rw [conn_modify, if_pos ⟨rfl, hr⟩]
    · rw [set_eq_of_length_le (by omega), set_eq_of_length_le (by omega)]
  simp only [modify] at hconns ⊢
  rw [hconns]

variable {a r}

/-- A loop over connections: each is left at `w` of what it was, and ended or not by `e`. -/
structure Swept (l : List Nat) (w : Conn → Conn) (e : Conn → Option Ending) (a a' : Assembler) :
    Prop where
  opts : a'.opts = a.opts
  gen : a'.gen = a.gen
  snapSeq : a'.snapSeq = a.snapSeq
  length : a'.conns.length = a.conns.length
  conn : ∀ r, a'.conn r = if r ∈ l then w (a.conn r) else a.conn r
  nodup : a'.order.Nodup
  order : ∀ r, r ∈ a'.order ↔ r ∈ a.order ∧ ¬ (r ∈ l ∧ (e (a.conn r)).isSome = true)
  done : a'.done = (l.filter fun r => (e (a.conn r)).isSome).foldl
    (fun d r => d.add (w (a.conn r)).record.logID) a.done
  finals : a'.finals = a.finals ++ l.flatMap fun r => (w (a.conn r)).finals r a.gen (e (a.conn r))
  out : Emits (fun rec => ∃ r ∈ l, ∃ now, rec = (w (a.conn r)).openRecord a.gen now) a a'
  closed : a'.closed = a.closed ++
    (l.flatMap fun r => (w (a.conn r)).finals r a.gen (e (a.conn r))).map (·.2)
  bySrc : ∀ key r, r ∉ l ∨ e (a.conn r) = none →
    (a'.bySrc.lookup key = some r ↔ a.bySrc.lookup key = some r)

/-- **The loop rule.**  A pass that touches one connection, as that connection and what no pass
changes tell it to, makes a loop that sweeps them all. -/
theorem swept_foldl {f : Assembler → Nat → Assembler} {w : Conn → Conn} {e : Conn → Option Ending}
    (opts : Options) (snapSeq : UInt64)
    (hf : ∀ b r, b.opts = opts → b.snapSeq = snapSeq → r < b.conns.length →
      Touches r (w (b.conn r)) (e (b.conn r)) b (f b r))
    (l : List Nat) (hl : l.Nodup) (a : Assembler) (hn : a.order.Nodup) (hopts : a.opts = opts)
    (hseq : a.snapSeq = snapSeq) (hlt : ∀ r ∈ l, r < a.conns.length) :
    Swept l w e a (l.foldl f a) := by
  induction l generalizing a with
  | nil =>
    refine ⟨rfl, rfl, rfl, rfl, fun r => (if_neg List.not_mem_nil).symm, hn, fun r => ?_, rfl,
      (append_nil _).symm, .nil rfl, (append_nil _).symm, fun _ _ _ => .rfl⟩
    simp
  | cons r l ih =>
    obtain ⟨hnot, hl⟩ := nodup_cons.mp hl
    have ht := hf a r hopts hseq (hlt r mem_cons_self)
    have hsame : ∀ r' ∈ l, (f a r).conn r' = a.conn r' := fun r' hr' =>
      ht.other fun heq => hnot (heq ▸ hr')
    have hnodup : (f a r).order.Nodup := by
      rw [ht.order]
      split
      · exact hn.erase r
      · exact hn
    have h := ih hl (f a r) hnodup (ht.opts.trans hopts) (ht.snapSeq.trans hseq)
      fun r' hr' => ht.length.symm ▸ hlt r' (mem_cons_of_mem _ hr')
    have hlast : (l.flatMap fun r' => (w ((f a r).conn r')).finals r' (f a r).gen
        (e ((f a r).conn r'))) =
        l.flatMap fun r' => (w (a.conn r')).finals r' a.gen (e (a.conn r')) :=
      flatMap_congr fun r' hr' => by rw [hsame r' hr', ht.gen]
    refine ⟨h.opts.trans ht.opts, h.gen.trans ht.gen, h.snapSeq.trans ht.snapSeq,
      h.length.trans ht.length, fun r' => ?_, h.nodup, fun r' => ?_, ?_, ?_,
      (ht.out.mono fun rec hrec => ⟨r, mem_cons_self, hrec⟩).trans
        (h.out.mono fun rec hrec => ?_), ?_, fun key r' hr' => ?_⟩
    · rw [foldl_cons, h.conn]
      by_cases heq : r' = r
      · subst heq
        rw [if_neg hnot, if_pos mem_cons_self, ht.conn (hlt r' mem_cons_self)]
      · rw [ht.other heq]
        simp [heq]
    · rw [foldl_cons, h.order, ht.order]
      by_cases heq : r' = r
      · subst heq
        cases he : (e (a.conn r')).isSome with
        | true => simp [hn.mem_erase_iff]
        | false => simp [hnot]
      · rw [ht.other heq]
        cases (e (a.conn r)).isSome with
        | true => simp [hn.mem_erase_iff, heq]
        | false => simp [heq]
    · have hrest : (l.filter fun r' => (e ((f a r).conn r')).isSome).foldl
          (fun d r' => d.add (w ((f a r).conn r')).record.logID) (f a r).done =
          (l.filter fun r' => (e (a.conn r')).isSome).foldl
            (fun d r' => d.add (w (a.conn r')).record.logID) (f a r).done := by
        rw [filter_congr fun r' hr' => by rw [hsame r' hr']]
        exact foldl_ext _ _ _ fun d r' hr' => by rw [hsame r' (mem_of_mem_filter hr')]
      rw [foldl_cons, h.done, hrest, ht.done, filter_cons]
      split <;> rfl
    · rw [foldl_cons, h.finals, hlast, ht.finals, append_assoc]
      rfl
    · obtain ⟨r', hr', hrec⟩ := hrec
      rw [hsame r' hr', ht.gen] at hrec
      exact ⟨r', mem_cons_of_mem _ hr', hrec⟩
    · rw [foldl_cons, h.closed, hlast, ht.closed, append_assoc, flatMap_cons,
        map_append]
    · rw [foldl_cons]
      by_cases heq : r' = r
      · subst heq
        exact (h.bySrc key r' (.inl hnot)).trans
          (ht.bySrc key r' (.inr (hr'.resolve_left fun hc => hc mem_cons_self)))
      · refine (h.bySrc key r' ?_).trans (ht.bySrc key r' (.inl heq))
        rw [ht.other heq]
        exact hr'.imp_left fun hc hmem => hc (mem_cons_of_mem _ hmem)

/-! ### Ticks, polls and restarts -/

variable (sdk : Sdk) {b : Assembler} {l : Line}

theorem tickOne_ends {now : Time} {e : Ending}
    (he : (b.conn r).tickEnding b.opts b.snapSeq now = some e) :
    ∃ n, tickOne now b r = { b with stats := { b.stats with orphaned := n } }.ended r (some e) := by
  unfold tickEnding settled at he
  unfold tickOne stillListed
  dsimp only
  split at he
  · rename_i hset
    cases he
    rw [if_pos hset]
    exact ⟨b.stats.orphaned, rfl⟩
  · rename_i hset
    rw [if_neg hset]
    split at he
    · rename_i hquiet
      cases he
      rw [if_pos hquiet]
      exact ⟨_, rfl⟩
    · cases he

theorem tickOne_stays {now : Time} (hr : r < b.conns.length)
    (he : (b.conn r).tickEnding b.opts b.snapSeq now = none) :
    ∃ recs, (recs = [] ∨ recs = [((b.conn r).ticked b.opts now).openRecord b.gen now]) ∧
      tickOne now b r =
        { b.modify r fun c => c.ticked b.opts now with
          out := b.out ++ recs
          stats := { b.stats with emitted := b.stats.emitted + .ofNat recs.length } } := by
  set stalled := fun c : Conn => c.evalStall now b.opts.stallFloor b.opts.stallQuiet with hstalled
  have hconn : (b.modify r stalled).conn r = stalled (b.conn r) := by
    rw [conn_modify, if_pos ⟨rfl, hr⟩]
  have hpass : tickOne now b r =
      if b.opts.snapshotEvery ≤ now.sub (stalled (b.conn r)).lastEmitAt then
        (b.modify r stalled).emitOpen r now else b.modify r stalled := by
    unfold tickEnding settled at he
    unfold tickOne stillListed
    dsimp only
    split at he
    · cases he
    · rename_i hset
      split at he
      · cases he
      · rename_i hquiet
        rw [if_neg hset, if_neg hquiet, hconn]
        rfl
  rw [hpass]
  split
  · rename_i hemit
    have hticked : (b.conn r).ticked b.opts now = { stalled (b.conn r) with lastEmitAt := now } :=
      if_pos hemit
    refine ⟨_, .inr rfl, ?_⟩
    unfold emitOpen
    rw [modify_modify, hconn]
    simp only [push, modify, hticked]
    rfl
  · rename_i hemit
    have hticked : (b.conn r).ticked b.opts now = stalled (b.conn r) := if_neg hemit
    refine ⟨[], .inl rfl, ?_⟩
    simp [modify, hticked]

theorem touches_tickOne (now : Time) (b : Assembler) (r : Nat) (hr : r < b.conns.length) :
    Touches r (if ((b.conn r).tickEnding b.opts b.snapSeq now).isSome then b.conn r
        else (b.conn r).ticked b.opts now)
      ((b.conn r).tickEnding b.opts b.snapSeq now) b (tickOne now b r) := by
  cases he : (b.conn r).tickEnding b.opts b.snapSeq now with
  | some e =>
    obtain ⟨n, heq⟩ := tickOne_ends he
    have h := touches_ended { b with stats := { b.stats with orphaned := n } } r (some e)
    rw [heq]
    exact ⟨h.opts, h.gen, h.snapSeq, h.conns, h.order, h.done, h.finals, h.out, h.closed, h.bySrc⟩
  | none =>
    obtain ⟨recs, hrecs, heq⟩ := tickOne_stays hr he
    have hopen : recs.filter (fun rec => !rec.open_) = [] := by
      obtain rfl | rfl := hrecs <;> rfl
    rw [heq]
    refine ⟨rfl, rfl, rfl, rfl, rfl, rfl, (append_nil _).symm, ⟨recs, rfl, ?_⟩, ?_,
      fun _ _ _ => .rfl⟩
    · obtain rfl | rfl := hrecs
      · exact forall_mem_nil _
      · exact fun rec hrec _ => ⟨now, mem_singleton.mp hrec⟩
    change (b.out ++ recs).filter _ = b.closed ++ []
    rw [filter_append, hopen]
    rfl

variable (at_ : Time)

theorem sweepOne_eq (b : Assembler) (r : Nat) :
    sweepOne at_ b r = b.ended r ((b.conn r).sweepEnding b.snapSeq at_) := by
  unfold sweepOne sweepEnding
  dsimp only
  split
  · split <;> rfl
  · rfl

theorem swept_tick (h : a.Consistent) (now clock : Time) :
    Swept a.order
      (fun c => if (c.tickEnding a.opts a.snapSeq (orClock now clock)).isSome then c
        else c.ticked a.opts (orClock now clock))
      (fun c => c.tickEnding a.opts a.snapSeq (orClock now clock)) a (a.tick now clock) := by
  refine swept_foldl a.opts a.snapSeq (fun b r hopts hseq hr => ?_) a.order h.nodup a h.nodup rfl rfl
    h.allocated
  rw [← hopts, ← hseq]
  exact touches_tickOne (orClock now clock) b r hr

/-- The entry of the table started well before the connection, so it is another one's. -/
def early (item : SnapshotItem) (c : Conn) : Bool :=
  !item.start.isZero && decide (item.start < c.record.startedAt - snapshotStartSkew)

/-- The entries of a poll that are joined to a connection. -/
def joins (a : Assembler) (r : Nat) (items : List SnapshotItem) : List SnapshotItem :=
  items.filter fun item =>
    decide (a.bySrc.lookup (srcKey item.srcIP item.srcPort) = some r) && !early item (a.conn r)

/-- The entries of a poll folded into one connection. -/
def joined (sdk : Sdk) (a : Assembler) (at_ : Time) (r : Nat) (items : List SnapshotItem) : Conn :=
  (a.joins r items).foldl
    (fun c item => c.join sdk item at_ a.snapSeq a.opts.stallFloor a.opts.stallQuiet) (a.conn r)

theorem snapshotOne_conn (a : Assembler) (item : SnapshotItem) (hr : r < a.conns.length) :
    (snapshotOne sdk at_ a item).conn r =
      if a.bySrc.lookup (srcKey item.srcIP item.srcPort) = some r ∧ early item (a.conn r) = false then
        (a.conn r).join sdk item at_ a.snapSeq a.opts.stallFloor a.opts.stallQuiet
      else a.conn r := by
  unfold snapshotOne
  rcases a.bySrc.lookup (srcKey item.srcIP item.srcPort) with - | r'
  · simp
  · dsimp only
    change (if early item (a.conn r') = true then a else _).conn r = _
    by_cases heq : r' = r
    · subst heq
      cases early item (a.conn r') with
      | true => simp
      | false => simp [conn_modify, hr]
    · have hne : r ≠ r' := Ne.symm heq
      cases early item (a.conn r') with
      | true => simp [heq]
      | false => simp [heq, hne, conn_modify]

theorem snapshotOne_frame (a : Assembler) (item : SnapshotItem) :
    snapshotOne sdk at_ a item = { a with conns := (snapshotOne sdk at_ a item).conns } ∧
      (snapshotOne sdk at_ a item).conns.length = a.conns.length := by
  unfold snapshotOne
  split
  · exact ⟨rfl, rfl⟩
  · split
    · exact ⟨rfl, rfl⟩
    · exact ⟨rfl, modify_length ..⟩

theorem items_eq (items : List SnapshotItem) (a : Assembler) :
    items.foldl (snapshotOne sdk at_) a =
        { a with conns := (items.foldl (snapshotOne sdk at_) a).conns } ∧
      (items.foldl (snapshotOne sdk at_) a).conns.length = a.conns.length := by
  induction items generalizing a with
  | nil => exact ⟨rfl, rfl⟩
  | cons item items ih =>
    obtain ⟨heq, hlen⟩ := snapshotOne_frame sdk at_ a item
    obtain ⟨heq', hlen'⟩ := ih (snapshotOne sdk at_ a item)
    rw [foldl_cons]
    refine ⟨?_, hlen'.trans hlen⟩
    rw [heq', heq]

theorem items_conn (items : List SnapshotItem) (a : Assembler) (hr : r < a.conns.length) :
    (items.foldl (snapshotOne sdk at_) a).conn r = a.joined sdk at_ r items := by
  induction items generalizing a with
  | nil => rfl
  | cons item items ih =>
    obtain ⟨hframe, hlen⟩ := snapshotOne_frame sdk at_ a item
    have hconn := snapshotOne_conn sdk at_ a item hr
    have hstart : ((snapshotOne sdk at_ a item).conn r).record.startedAt =
        (a.conn r).record.startedAt := by
      rw [hconn]
      split
      · rw [join_eq]
      · rfl
    have hjoins : (snapshotOne sdk at_ a item).joins r items = a.joins r items := by
      unfold joins early
      rw [hstart, hframe]
    rw [foldl_cons, ih _ (hlen ▸ hr)]
    unfold joined
    rw [hjoins, hconn, hframe]
    unfold joins
    rw [filter_cons]
    by_cases h : a.bySrc.lookup (srcKey item.srcIP item.srcPort) = some r ∧
        early item (a.conn r) = false
    · simp [h.1, h.2]
    · rw [if_neg h, if_neg]
      simpa using h

/-- The loop of `CoreRestart`, before the ended log ids are forgotten. -/
def restarted (a : Assembler) (at_ : Time) : Assembler :=
  a.order.foldl (fun a r => a.ended r (some (Conn.restartEnding at_))) a

theorem swept_restarted (h : a.Consistent) (at_ : Time) :
    Swept a.order id (fun _ => some (restartEnding at_)) a (a.restarted at_) :=
  swept_foldl a.opts a.snapSeq (fun b r _ _ _ => b.touches_ended r _) a.order h.nodup a h.nodup rfl
    rfl h.allocated

/-- A poll before its sweep. -/
def polled (sdk : Sdk) (a : Assembler) (s : Snapshot) (at_ : Time) : Assembler :=
  s.items.foldl (snapshotOne sdk at_) { a with snapSeq := a.snapSeq + 1 }

theorem polled_eq (a : Assembler) (s : Snapshot) (at_ : Time) :
    a.polled sdk s at_ =
      { a with snapSeq := a.snapSeq + 1, conns := (a.polled sdk s at_).conns } :=
  (items_eq sdk at_ s.items _).1

theorem polled_length (a : Assembler) (s : Snapshot) (at_ : Time) :
    (a.polled sdk s at_).conns.length = a.conns.length := (items_eq sdk at_ s.items _).2

theorem polled_conn (a : Assembler) (s : Snapshot) (at_ : Time) (hr : r < a.conns.length) :
    (a.polled sdk s at_).conn r = (a.joins r s.items).foldl
      (fun c item => c.join sdk item at_ (a.snapSeq + 1) a.opts.stallFloor a.opts.stallQuiet)
      (a.conn r) := items_conn sdk at_ s.items { a with snapSeq := a.snapSeq + 1 } hr

theorem swept_snapshot (h : a.Consistent) (s : Snapshot) (clock : Time) :
    Swept a.order id (fun c => c.sweepEnding (a.snapSeq + 1) (orClock s.at_ clock))
      (a.polled sdk s (orClock s.at_ clock)) (a.snapshot sdk s clock) := by
  have horder : (a.polled sdk s (orClock s.at_ clock)).order = a.order := by rw [polled_eq]
  have hseq : (a.polled sdk s (orClock s.at_ clock)).snapSeq = a.snapSeq + 1 := by rw [polled_eq]
  have hlen := a.polled_length sdk s (orClock s.at_ clock)
  have hsweep : a.snapshot sdk s clock = a.order.foldl (sweepOne (orClock s.at_ clock))
      (a.polled sdk s (orClock s.at_ clock)) := by
    rw [← horder]
    rfl
  rw [hsweep]
  refine swept_foldl a.opts (a.snapSeq + 1) (fun b r _ hb _ => ?_) a.order h.nodup _
    (horder ▸ h.nodup) (by rw [polled_eq]) hseq (hlen ▸ h.allocated)
  rw [← hb, sweepOne_eq]
  exact b.touches_ended r _

/-! ### Lines -/

/-- The source index once a line is applied. -/
def indexed (a : Assembler) (r : Nat) (l : Line) : AList (fun _ : String => Nat) :=
  let key := srcKey l.srcIP (toString l.srcPort)
  if l.event = .inboundFrom ∧ l.srcIP ≠ "" then
    (if (a.conn r).srcKey ≠ "" ∧ (a.conn r).srcKey ≠ key ∧
        a.bySrc.lookup (a.conn r).srcKey = some r then a.bySrc.erase (a.conn r).srcKey
      else a.bySrc).insert key r
  else a.bySrc

/-- A line applied, before it ends its connection. -/
def written (sdk : Sdk) (a : Assembler) (r : Nat) (l : Line) (at_ : Time) : Assembler :=
  { a.modify r fun c => c.fed sdk l at_ with bySrc := a.indexed r l }

theorem indexed_of_ne (h : l.event ≠ .inboundFrom) (r : Nat) : a.indexed r l = a.bySrc :=
  if_neg fun hc => h hc.1

theorem written_of_ne (h : l.event ≠ .inboundFrom) (r : Nat) (at_ : Time) :
    a.written sdk r l at_ = a.modify r fun c => c.fed sdk l at_ := by
  unfold written
  rw [indexed_of_ne h]
  rfl

theorem accept_eq (hr : r < a.conns.length) (hev : l.event = .inboundFrom) (at_ : Time) :
    ((a.modify r fun c => c.seen l at_).modify r fun c => c.inboundFrom l).indexSrc r =
      a.written sdk r l at_ := by
  have hfed : (a.conn r).fed sdk l at_ = (((a.conn r).seen l at_).inboundFrom l).keyed := by
    simp [Conn.fed, hev]
  rw [modify_modify]
  have hconn : (a.modify r fun c => (c.seen l at_).inboundFrom l).conn r =
      ((a.conn r).seen l at_).inboundFrom l := by rw [conn_modify, if_pos ⟨rfl, hr⟩]
  unfold indexSrc written indexed
  dsimp only
  rw [hconn]
  by_cases hip : l.srcIP = ""
  · have hkeyed : (((a.conn r).seen l at_).inboundFrom l).keyed =
        ((a.conn r).seen l at_).inboundFrom l := if_pos hip
    rw [if_pos (show (((a.conn r).seen l at_).inboundFrom l).record.srcIP = "" from hip),
      if_neg fun h => h.2 hip]
    simp only [modify, hfed, hkeyed]
  · have hkeyed : (((a.conn r).seen l at_).inboundFrom l).keyed =
        { ((a.conn r).seen l at_).inboundFrom l with
          srcKey := srcKey l.srcIP (toString l.srcPort) } := if_neg hip
    rw [if_neg (show (((a.conn r).seen l at_).inboundFrom l).record.srcIP ≠ "" from hip),
      if_pos (show l.event = .inboundFrom ∧ l.srcIP ≠ "" from ⟨hev, hip⟩), modify_modify]
    simp only [modify, hfed, hkeyed]
    rfl

theorem halfClosed_eq (hr : r < a.conns.length) (cand : CloseCandidate) (l : Line)
    (at_ : Time) :
    (a.modify r fun c => c.offer cand).halfClosed r l at_ =
      (a.modify r fun c => (c.offer cand).halfClosed l at_).ended r
        (let c := ((a.conn r).offer cand).halfClosed l at_
        if c.closedUp && c.closedDown then some ⟨c.close, at_, .core⟩ else none) := by
  have hconn : (a.modify r fun c => (c.offer cand).halfClosed l at_).conn r =
      ((a.conn r).offer cand).halfClosed l at_ := by rw [conn_modify, if_pos ⟨rfl, hr⟩]
  unfold halfClosed
  dsimp only
  rw [modify_modify, hconn]
  split <;> rfl

/-- **A line applied**: its connection is written, and then ended or not. -/
theorem apply_eq (hr : r < a.conns.length) (l : Line) (at_ : Time) :
    a.apply sdk r l at_ =
      (a.written sdk r l at_).ended r ((a.conn r).lineEnding sdk l at_) := by
  unfold apply
  split
  · rename_i h
    have hfed : (a.conn r).fed sdk l at_ = { a.conn r with lastSeenAt := at_ } := if_pos h
    have hend : (a.conn r).lineEnding sdk l at_ = none := by simp [Conn.lineEnding, h.1]
    rw [hend, written_of_ne sdk (by simp [h.1])]
    simp only [ended, modify, hfed]
  · rename_i h
    set b := a.modify r fun c => c.seen l at_ with hb
    have hconn : b.conn r = (a.conn r).seen l at_ := by rw [conn_modify, if_pos ⟨rfl, hr⟩]
    -- What the line writes is what it writes once it has been seen.
    have hwrite (g : Conn → Conn) (hne : l.event ≠ .inboundFrom)
        (hfed : (a.conn r).fed sdk l at_ = g ((a.conn r).seen l at_)) :
        a.written sdk r l at_ = b.modify r g := by
      rw [written_of_ne sdk hne, hb, modify_modify]
      simp only [modify, hfed]
    have hseen (hne : l.event ≠ .inboundFrom)
        (hfed : (a.conn r).fed sdk l at_ = (a.conn r).seen l at_) : a.written sdk r l at_ = b := by
      rw [written_of_ne sdk hne, hb]
      simp only [modify, hfed]
    have hfed : (a.conn r).fed sdk l at_ = _ := if_neg h
    have hhalf (cand : CloseCandidate) (hev : l.event = .finished ∨ l.event = .closed)
        (hcand : l.halfCandidate sdk = cand) :
        (b.modify r fun c => c.offer cand).halfClosed r l at_ = (a.written sdk r l at_).ended r
          (if ((a.conn r).fed sdk l at_).closedUp && ((a.conn r).fed sdk l at_).closedDown then
            some ⟨((a.conn r).fed sdk l at_).close, at_, .core⟩ else none) := by
      have hfed : (a.conn r).fed sdk l at_ =
          (((a.conn r).seen l at_).offer cand).halfClosed l at_ := by
        rw [hfed, ← hcand]
        obtain hev | hev := hev <;> rw [hev]
      have hne : l.event ≠ .inboundFrom := by obtain hev | hev := hev <;> simp [hev]
      rw [hwrite (fun c => (c.offer cand).halfClosed l at_) hne hfed, hfed, ← hconn]
      exact halfClosed_eq (by simpa [hb] using hr) cand l at_
    unfold Conn.lineEnding
    cases hev : l.event with
    | inboundFrom => exact accept_eq sdk hr hev at_
    | inboundTo | ruleMatch | sniffed | outboundTo | dns =>
      rw [hev] at hfed
      exact (hwrite _ (by simp [hev]) hfed).symm
    | dialFailed =>
      rw [hev] at hfed
      rw [hwrite (fun c => c.dialFailed l) (by simp [hev]) hfed]
      rfl
    | authFailed | handshakeFailed | connectionClosed | other =>
      rw [hev] at hfed
      rw [hseen (by simp [hev]) hfed]
      rfl
    | finished =>
      have hcand : l.halfCandidate sdk = lineCandidate l (closeReasonFor sdk l.error .eof)
          (evidenceRank l.error .eof) := by simp [Line.halfCandidate, Line.whenEmpty, hev]
      exact hhalf _ (.inl hev) hcand
    | closed =>
      have hcand : l.halfCandidate sdk =
          lineCandidate l (closeReasonFor sdk l.error (if l.packet then .udpIdle else .canceled))
            (evidenceRank l.error (if l.packet then .udpIdle else .canceled)) := by
        simp [Line.halfCandidate, Line.whenEmpty, hev]
      exact hhalf _ (.inr hev) hcand

/-- The connection a line is applied to: the open one of its log id, or a new one. -/
def target (a : Assembler) (l : Line) : Option Nat :=
  if !l.hasLogID then none
  else
    match a.open_.lookup l.logID with
    | some r => some (if l.event = .inboundFrom then a.conns.length else r)
    | none =>
      if l.event ≠ .inboundFrom ∧ a.done.has l.logID = true then none else some a.conns.length

/-- How an accept line ends the open connection of its log id. -/
def collisionEnding (at_ : Time) : Ending := ⟨collision, at_, .core⟩

/-- The assembler once an accept line has finished the open connection of its log id. -/
def collided (a : Assembler) (l : Line) (at_ : Time) : Assembler :=
  (a.open_.lookup l.logID).elim a fun r => a.ended r (some (collisionEnding at_))

/-- The connection that is evicted when another one is opened. -/
def evictee (a : Assembler) : Option Nat :=
  if a.opts.maxOpen ≤ a.open_.entries.length then a.order.head? else none

/-- The assembler once there is room for another connection. -/
def cleared (a : Assembler) : Assembler :=
  if a.opts.maxOpen ≤ a.open_.entries.length then a.evictOldest else a

/-- The assembler with a new connection, which a line has opened. -/
def opened (a : Assembler) (l : Line) (at_ : Time) : Assembler :=
  { a with
    conns := a.conns ++ [Conn.fresh a.opts.nodeID l at_]
    open_ := a.open_.insert l.logID a.conns.length
    order := a.order ++ [a.conns.length] }

theorem create_eq (a : Assembler) (l : Line) (at_ : Time) :
    a.create l at_ = (a.cleared.conns.length, a.cleared.opened l at_) := rfl

theorem cleared_frame (a : Assembler) :
    a.cleared.opts = a.opts ∧ a.cleared.gen = a.gen ∧ a.cleared.snapSeq = a.snapSeq ∧
      a.cleared.conns = a.conns ∧ a.cleared.finals = a.finals ∧ a.cleared.out = a.out := by
  unfold cleared evictOldest
  split
  · split <;> exact ⟨rfl, rfl, rfl, rfl, rfl, rfl⟩
  · exact ⟨rfl, rfl, rfl, rfl, rfl, rfl⟩

theorem cleared_order (a : Assembler) :
    a.cleared.order = a.evictee.elim a.order a.order.erase ∧
      a.cleared.done = a.evictee.elim a.done fun r => a.done.add (a.conn r).record.logID := by
  unfold cleared evictee evictOldest
  split
  · cases h : a.order <;> exact ⟨by simp [forget, h], rfl⟩
  · exact ⟨rfl, rfl⟩

theorem cleared_bySrc (a : Assembler) {key : String} (h : a.evictee ≠ some r) :
    a.cleared.bySrc.lookup key = some r ↔ a.bySrc.lookup key = some r := by
  unfold cleared
  split
  · rename_i hfull
    unfold evictOldest
    split
    · exact .rfl
    · rename_i r' rest horder
      refine forget_bySrc a key fun heq => h ?_
      rw [evictee, if_pos hfull, horder, heq]
      rfl
  · exact .rfl

/-- The assembler once a line has opened a connection. -/
def newborn (a : Assembler) (l : Line) (at_ : Time) : Assembler :=
  (a.collided l at_).cleared.opened l at_

/-- What the accept line of a connection does to an open one of its log id. -/
theorem collided_frame (a : Assembler) (l : Line) (at_ : Time) :
    (a.collided l at_).opts = a.opts ∧ (a.collided l at_).gen = a.gen ∧
      (a.collided l at_).snapSeq = a.snapSeq ∧ (a.collided l at_).conns = a.conns := by
  unfold collided
  rcases a.open_.lookup l.logID with - | r
  · exact ⟨rfl, rfl, rfl, rfl⟩
  · have h := a.touches_ended r (some (collisionEnding at_))
    exact ⟨h.opts, h.gen, h.snapSeq, h.conns.trans (a.set_conn r)⟩

/-- The assembler once the connection of a line is open. -/
def ready (a : Assembler) (l : Line) (at_ : Time) : Assembler :=
  if a.target l = some a.conns.length then a.newborn l at_ else a

/-- A connection as a line finds it: one that is not allocated yet is the line's own. -/
def found (a : Assembler) (l : Line) (at_ : Time) (r : Nat) : Conn :=
  if r < a.conns.length then a.conn r else Conn.fresh a.opts.nodeID l at_

theorem found_new (a : Assembler) (l : Line) (at_ : Time) :
    a.found l at_ a.conns.length = fresh a.opts.nodeID l at_ := if_neg (Nat.lt_irrefl _)

theorem hasLogID_of_target (h : a.target l = some r) : l.hasLogID := by
  unfold target at h
  split at h
  · cases h
  · rename_i hlog
    simpa using hlog

section

variable (h : a.Consistent)

include h

theorem target_cases (ht : a.target l = some r) :
    (r ∈ a.order ∧ a.open_.lookup l.logID = some r ∧ l.event ≠ .inboundFrom) ∨
      (r = a.conns.length ∧ (a.open_.lookup l.logID ≠ none → l.event = .inboundFrom)) := by
  unfold target at ht
  rw [hasLogID_of_target ht, if_neg (by simp)] at ht
  rcases hr : a.open_.lookup l.logID with - | r'
  · rw [hr] at ht
    dsimp only at ht
    split at ht
    · cases ht
    · exact .inr ⟨(Option.some.inj ht).symm, fun hc => absurd rfl hc⟩
  · rw [hr] at ht
    by_cases hev : l.event = .inboundFrom
    · simp only [if_pos hev, Option.some.injEq] at ht
      exact .inr ⟨ht.symm, fun _ => hev⟩
    · simp only [if_neg hev, Option.some.injEq] at ht
      subst ht
      exact .inl ⟨(h.opened _ _ hr).1, rfl, hev⟩

theorem ready_conn (l : Line) (at_ : Time) :
    (a.ready l at_).conns.length =
        a.conns.length + (if a.target l = some a.conns.length then 1 else 0) ∧
      (∀ r < a.conns.length, (a.ready l at_).conn r = a.conn r) ∧
      ∀ r, a.target l = some r →
        r < (a.ready l at_).conns.length ∧ (a.ready l at_).conn r = a.found l at_ r := by
  unfold ready
  by_cases hnew : a.target l = some a.conns.length
  · have hopts : (a.collided l at_).cleared.opts = a.opts :=
      (a.collided l at_).cleared_frame.1.trans (a.collided_frame l at_).1
    have hconns : (a.collided l at_).cleared.conns = a.conns :=
      (a.collided l at_).cleared_frame.2.2.2.1.trans (a.collided_frame l at_).2.2.2
    have hall : (a.newborn l at_).conns = a.conns ++ [fresh a.opts.nodeID l at_] := by
      rw [newborn, opened, hconns, hopts]
    simp only [if_pos hnew]
    refine ⟨by simp [hall], fun r hr => ?_, fun r hr => ?_⟩
    · simp [conn, hall, getD_eq_getElem?_getD, getElem?_append_left hr]
    · obtain rfl : a.conns.length = r := Option.some.inj (hnew.symm.trans hr)
      rw [found_new]
      simp [conn, hall, getD_eq_getElem?_getD]
  · simp only [if_neg hnew]
    refine ⟨rfl, fun r _ => trivial, fun r hr => ?_⟩
    obtain ⟨hmem, -⟩ | ⟨rfl, -⟩ := target_cases h hr
    · exact ⟨h.allocated r hmem, (if_pos (h.allocated r hmem)).symm⟩
    · exact absurd hr hnew

theorem found_logID (ht : a.target l = some r) (at_ : Time) :
    (a.found l at_ r).record.logID = l.logID := by
  obtain ⟨hr, hopen, -⟩ | ⟨rfl, -⟩ := target_cases h ht
  · rw [found, if_pos (h.allocated r hr), (h.opened _ r hopen).2]
  · rw [found_new]
    rfl

theorem ready_of_mem (ht : a.target l = some r) (hr : r ∈ a.order) (at_ : Time) :
    a.ready l at_ = a :=
  if_neg fun hc => Nat.lt_irrefl _ (Option.some.inj (ht.symm.trans hc) ▸ h.allocated r hr)

theorem mem_ready (ht : a.target l = some r) (at_ : Time) :
    r ∈ (a.ready l at_).order ∧ (a.ready l at_).open_.lookup l.logID = some r := by
  obtain ⟨hr, hopen, -⟩ | ⟨rfl, -⟩ := target_cases h ht
  · rw [ready_of_mem h ht hr]
    exact ⟨hr, hopen⟩
  · rw [ready, if_pos ht, newborn, opened, (a.collided l at_).cleared_frame.2.2.2.1,
      (a.collided_frame l at_).2.2.2]
    exact ⟨mem_append_right _ (mem_singleton_self _), AList.lookup_insert _⟩

/-- **A line**: it is ignored, or written to its connection, which is then ended or not. -/
theorem line_eq (l : Line) (clock : Time) :
    let at_ := orClock l.at_ clock
    a.line sdk l clock =
      (a.target l).elim a fun r =>
        ((a.ready l at_).written sdk r l at_).ended r ((a.found l at_ r).lineEnding sdk l at_) := by
  intro at_
  -- A new connection is the last one allocated.
  have hnew (b : Assembler) (hb : b.cleared.opened l at_ = a.newborn l at_)
      (hconns : b.conns = a.conns) (ht : a.target l = some a.conns.length) :
      (b.create l at_).2.apply sdk (b.create l at_).1 l at_ =
        ((a.ready l at_).written sdk a.conns.length l at_).ended a.conns.length
          ((a.found l at_ a.conns.length).lineEnding sdk l at_) := by
    have hready : a.ready l at_ = a.newborn l at_ := if_pos ht
    obtain ⟨hlt, hfound⟩ := (ready_conn h l at_).2.2 _ ht
    have hlen : b.cleared.conns.length = a.conns.length := by rw [b.cleared_frame.2.2.2.1, hconns]
    rw [hready] at hlt hfound ⊢
    rw [create_eq, hlen, hb, apply_eq sdk hlt, hfound]
  unfold line
  split
  · rename_i hlog
    rw [show a.target l = none from if_pos hlog]
    rfl
  · rename_i hlog
    have ht : a.target l = _ := if_neg hlog
    rcases hr : a.open_.lookup l.logID with - | r
    · have hcol : a.collided l at_ = a := by
        rw [collided, hr]
        rfl
      rw [hr] at ht
      dsimp only at ht ⊢
      split
      · rename_i hdone
        rw [if_pos hdone] at ht
        rw [ht]
        rfl
      · rename_i hdone
        rw [if_neg hdone] at ht
        rw [hnew a (by rw [newborn, hcol]) rfl ht, ht]
        rfl
    · rw [hr] at ht
      dsimp only at ht ⊢
      by_cases hev : l.event = .inboundFrom
      · have hcol : a.collided l at_ = a.finish r collision at_ .core := by
          rw [collided, hr]
          rfl
        rw [if_pos hev] at ht ⊢
        rw [ht]
        refine hnew _ (by rw [newborn, hcol]) ?_ ht
        exact (a.touches_ended r (some (collisionEnding at_))).conns.trans (a.set_conn r)
      · have hlt := h.allocated r (h.opened _ r hr).1
        rw [if_neg hev] at ht ⊢
        rw [ready_of_mem h ht (h.opened _ r hr).1, ht, Option.elim_some, found, if_pos hlt]
        exact apply_eq sdk hlt l at_

theorem line_touches (ht : a.target l = some r) (clock : Time) :
    Touches r ((a.found l (orClock l.at_ clock) r).fed sdk l (orClock l.at_ clock))
      ((a.found l (orClock l.at_ clock) r).lineEnding sdk l (orClock l.at_ clock))
      { a.ready l (orClock l.at_ clock) with bySrc := (a.ready l (orClock l.at_ clock)).indexed r l }
      (a.line sdk l clock) := by
  rw [line_eq sdk h l clock, ht, Option.elim_some]
  generalize orClock l.at_ clock = at_
  obtain ⟨hlt, hfound⟩ := (ready_conn h l at_).2.2 r ht
  have hwritten : ((a.ready l at_).written sdk r l at_).conn r = (a.found l at_ r).fed sdk l at_ := by
    rw [← hfound]
    exact ((a.ready l at_).conn_modify r (·.fed sdk l at_) r).trans (if_pos ⟨rfl, hlt⟩)
  have hend := ((a.ready l at_).written sdk r l at_).touches_ended r
    ((a.found l at_ r).lineEnding sdk l at_)
  rw [hwritten] at hend
  refine ⟨hend.opts, hend.gen, hend.snapSeq, ?_, hend.order, hend.done, hend.finals, hend.out,
    hend.closed, hend.bySrc⟩
  rw [hend.conns]
  exact set_set ..

end

end Assembler
end LatticeAgent.Trace
