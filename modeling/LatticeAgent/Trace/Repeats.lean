import LatticeAgent.Trace.Connections

/-! # Repeated lines

A log that is read again from an older position hands lines to the assembler a second time.
`repeated_line_harmless` says when that changes nothing: the line carries its own time, is no
accept line (that one always opens a connection), and is no half close that leaves open which
direction has closed (two of those close both). -/

namespace LatticeAgent.Trace

namespace Conn

variable {sdk : Sdk} {l : Line} {at_ : Time} {c : Conn}

/-! ### A line on a connection that has had it -/

theorem seen_eq_iff : c.seen l at_ = c ↔
    c.lastSeenAt = at_ ∧ l.elapsedMS ≤ c.lastElapsedMS ∧
      (c.record.network = "" → networkOf l = "") ∧
      (l.tagKind = .inbound → c.record.inboundTag = "" → l.tagName = "") ∧
      (l.tagKind = .inbound → c.record.inboundType = "" → l.tagType = "") := by
  cases c with
  | mk record =>
    cases record
    simp only [seen, mk.injEq, ConnRecord.mk.injEq]
    grind

theorem seen_seen (c : Conn) : (c.seen l at_).seen l at_ = c.seen l at_ := by
  rw [seen_eq_iff]
  unfold seen
  dsimp only
  refine ⟨rfl, Int.le_max_right .., ?_, ?_, ?_⟩ <;> grind

/-- A line writes nothing the second time, if what it tells in particular does neither undo what
every line tells nor change anything the second time. -/
theorem again {f : Conn → Conn} (hkeeps : ∀ c : Conn, c.seen l at_ = c → (f c).seen l at_ = f c)
    (hidem : ∀ c, f (f c) = f c) (c : Conn) :
    f ((f (c.seen l at_)).seen l at_) = f (c.seen l at_) := by
  rw [hkeeps _ (seen_seen c), hidem]

theorem seen_inboundTo (h : c.seen l at_ = c) : (c.inboundTo l).seen l at_ = c.inboundTo l := by
  rw [seen_eq_iff] at h ⊢
  unfold inboundTo
  dsimp only
  grind

theorem inboundTo_inboundTo (c : Conn) : (c.inboundTo l).inboundTo l = c.inboundTo l := by
  unfold inboundTo
  dsimp only
  congr 2 <;> split <;> rfl

theorem seen_ruleMatch (h : c.seen l at_ = c) : (c.ruleMatch l).seen l at_ = c.ruleMatch l := by
  unfold ruleMatch
  split
  · exact h
  · rw [seen_eq_iff] at h ⊢
    exact h

theorem ruleMatch_ruleMatch (c : Conn) : (c.ruleMatch l).ruleMatch l = c.ruleMatch l := by
  unfold ruleMatch
  by_cases hsniff : l.action = "sniff"
  · simp only [if_pos hsniff]
  · simp only [if_neg hsniff]
    congr 2 <;> split_ifs <;> simp_all

theorem seen_sniffed (h : c.seen l at_ = c) : (c.sniffed l).seen l at_ = c.sniffed l := by
  rw [seen_eq_iff] at h ⊢
  exact h

theorem seen_dns (h : c.seen l at_ = c) : (c.dns sdk l).seen l at_ = c.dns sdk l := by
  unfold dns
  split
  · split
    · rw [seen_eq_iff] at h ⊢
      exact h
    · exact h
  · exact h

theorem dns_dns (c : Conn) : (c.dns sdk l).dns sdk l = c.dns sdk l := by
  cases hresult : l.dnsResult with
  | nil => simp only [dns, hresult]
  | cons ip rest =>
    simp only [dns, hresult]
    by_cases hfill : c.record.dstIP = "" ∧ sameHost sdk l.dnsDomain c.record.dstHost = true
    · simp only [if_pos hfill]
      split <;> rfl
    · simp only [if_neg hfill]

theorem seen_dialFailed (h : c.seen l at_ = c) : (c.dialFailed l).seen l at_ = c.dialFailed l := by
  rw [seen_eq_iff] at h ⊢
  exact h

theorem dialFailed_dialFailed (c : Conn) : (c.dialFailed l).dialFailed l = c.dialFailed l := by
  unfold dialFailed
  dsimp only
  congr 2 <;> split <;> simp_all

theorem offer_offer (c : Conn) (cand : CloseCandidate) :
    (c.offer cand).offer cand = c.offer cand := by
  unfold offer
  by_cases hrank : c.close.rank < cand.rank
  · simp only [if_pos hrank, Nat.lt_irrefl, if_false]
  · simp only [if_neg hrank]

theorem halfClosed_halfClosed (hat : at_ ≠ 0) (hdir : l.direction ≠ .none) (c : Conn) :
    (c.halfClosed l at_).halfClosed l at_ = c.halfClosed l at_ := by
  have hset : ∀ c' : Conn, ((if c'.firstHalfAt.isZero then { c' with firstHalfAt := at_ }
      else c').firstHalfAt).isZero = false := by
    intro c'
    split
    · simpa [Time.isZero] using hat
    · rename_i hzero
      simpa using hzero
  unfold halfClosed
  cases hd : l.direction with
  | none => exact absurd hd hdir
  | upload | download => simp only [hset, Bool.false_eq_true, if_false]

theorem halfClosed_offer (c : Conn) (cand : CloseCandidate) :
    (c.halfClosed l at_).offer cand = (c.offer cand).halfClosed l at_ := by
  have hclose : (c.halfClosed l at_).close = c.close := by rw [halfClosed_keeps]
  unfold offer
  rw [hclose]
  split
  · unfold halfClosed
    dsimp only
    split <;> split <;> (try split) <;> rfl
  · rfl

theorem seen_half (h : c.seen l at_ = c) (cand : CloseCandidate) :
    ((c.offer cand).halfClosed l at_).seen l at_ = (c.offer cand).halfClosed l at_ := by
  rw [seen_eq_iff] at h ⊢
  rw [halfClosed_keeps, offer_keeps]
  exact h

section

variable (hev : l.event ≠ .inboundFrom) (hat : at_ ≠ 0) (hdir : l.event.half → l.direction ≠ .none)

include hev hat hdir

/-- **A line tells a connection nothing new the second time.** -/
theorem fed_fed (c : Conn) : (c.fed sdk l at_).fed sdk l at_ = c.fed sdk l at_ := by
  -- For all but an outbound line it is the part that the event has for itself.
  have hother {f : Conn → Conn} (hfed : ∀ c, Conn.fed sdk c l at_ = f (c.seen l at_))
      (hkeeps : ∀ c : Conn, c.seen l at_ = c → (f c).seen l at_ = f c)
      (hidem : ∀ c, f (f c) = f c) : (c.fed sdk l at_).fed sdk l at_ = c.fed sdk l at_ := by
    rw [hfed, hfed, again hkeeps hidem]
  cases hevent : l.event with
  | inboundFrom => exact absurd hevent hev
  | outboundTo =>
    by_cases hout : c.haveOutbound = true
    · simp [fed, hevent, hout]
    · simp [fed, hevent, hout, outboundTo, seen]
  | inboundTo =>
    exact hother (fun c => by simp [fed, hevent]) (fun c => seen_inboundTo) inboundTo_inboundTo
  | ruleMatch =>
    exact hother (fun c => by simp [fed, hevent]) (fun c => seen_ruleMatch) ruleMatch_ruleMatch
  | sniffed => exact hother (fun c => by simp [fed, hevent]) (fun c => seen_sniffed) fun c => rfl
  | dns =>
    exact hother (f := fun c => c.dns sdk l) (fun c => by simp [fed, hevent]) (fun c => seen_dns)
      dns_dns
  | dialFailed =>
    exact hother (fun c => by simp [fed, hevent]) (fun c => seen_dialFailed)
      dialFailed_dialFailed
  | finished | closed =>
    have hhalf : l.event.half := by rw [hevent]; rfl
    refine hother (f := fun c => (c.offer (l.halfCandidate sdk)).halfClosed l at_)
      (fun c => fed_half sdk c hhalf at_) (fun c h => seen_half h _) fun c => ?_
    rw [halfClosed_offer, offer_offer, halfClosed_halfClosed hat (hdir hhalf)]
  | authFailed | handshakeFailed | connectionClosed | other =>
    exact hother (f := id) (fun c => by simp [fed, hevent]) (fun c h => h) fun c => rfl

theorem lineEnding_fed (h : c.lineEnding sdk l at_ = none) :
    (c.fed sdk l at_).lineEnding sdk l at_ = none := by
  unfold lineEnding at h ⊢
  cases hevent : l.event with
  | dialFailed | authFailed | handshakeFailed | connectionClosed =>
    rw [hevent] at h
    cases h
  | finished | closed =>
    rw [hevent] at h
    simpa only [fed_fed hev hat hdir] using h
  | _ => rfl

end

end Conn

namespace Assembler

variable {a : Assembler}

/-! ### A line on the assembler that has had it -/

theorem DoneSet.has_add (d : DoneSet) (id : UInt32) : (d.add id).has id := by
  unfold DoneSet.add
  split
  · assumption
  · split <;> simp [DoneSet.has]

theorem ended_gone (a : Assembler) (r : Nat) (e : Ending) :
    (a.ended r (some e)).open_.lookup (a.conn r).record.logID = none ∧
      (a.ended r (some e)).done.has (a.conn r).record.logID := by
  constructor
  · rw [ended_open]
    exact AList.lookup_erase ..
  · rw [(a.touches_ended r (some e)).done]
    exact DoneSet.has_add ..

theorem line_again (sdk : Sdk) {l : Line} (hlog : l.hasLogID) (hev : l.event ≠ .inboundFrom)
    (hat : l.at_ ≠ 0) (hdir : l.event.half → l.direction ≠ .none) {r : Nat}
    (hr : r < a.conns.length) (hopen : a.open_.lookup l.logID = some r)
    (hid : (a.conn r).record.logID = l.logID)
    (hb : Consistent ((a.written sdk r l l.at_).ended r ((a.conn r).lineEnding sdk l l.at_)))
    (clock : Time) :
    ((a.written sdk r l l.at_).ended r ((a.conn r).lineEnding sdk l l.at_)).line sdk l clock =
      (a.written sdk r l l.at_).ended r ((a.conn r).lineEnding sdk l l.at_) := by
  have hclock : orClock l.at_ clock = l.at_ := if_neg (by simpa [Time.isZero] using hat)
  have hconn : (a.modify r fun c => c.fed sdk l l.at_).conn r = (a.conn r).fed sdk l l.at_ := by
    rw [conn_modify, if_pos ⟨rfl, hr⟩]
  rw [written_of_ne sdk hev] at hb ⊢
  cases hend : (a.conn r).lineEnding sdk l l.at_ with
  | none =>
    -- It is still open, and has what the line tells it.
    rw [hend] at hb
    change Consistent (a.modify r fun c => c.fed sdk l l.at_) at hb
    change (a.modify r fun c => c.fed sdk l l.at_).line sdk l clock = _
    have ht : (a.modify r fun c => c.fed sdk l l.at_).target l = some r := by
      simp [target, modify, hlog, hopen, hev]
    rw [line_eq sdk hb, ht, Option.elim_some, ready_of_mem hb ht (hb.opened _ r hopen).1, found,
      if_pos (by rwa [modify_length]), hconn, hclock, Conn.lineEnding_fed hev hat hdir hend,
      written_of_ne sdk hev]
    change (a.modify r fun c => c.fed sdk l l.at_).modify r (fun c => c.fed sdk l l.at_) =
      a.modify r fun c => c.fed sdk l l.at_
    rw [modify_modify]
    exact congrArg (a.modify r) (funext fun c => Conn.fed_fed hev hat hdir c)
  | some e =>
    -- It is gone, and its log id is remembered.
    have hgone := (a.modify r fun c => c.fed sdk l l.at_).ended_gone r e
    rw [hconn, Conn.fed_eq, show _ = l.logID from hid] at hgone
    rw [hend] at hb
    refine line_ignored sdk hb ?_ clock
    simp [target, hgone.1, hgone.2, hev]

/-- The second copy of a line finds what the first has left, whatever the clocks say. -/
theorem line_line (sdk : Sdk) {drained : List ConnRecord} (h : Books drained a) {l : Line}
    (hev : l.event ≠ .inboundFrom) (hat : l.at_ ≠ 0) (hdir : l.event.half → l.direction ≠ .none)
    (clock clock' : Time) : (a.line sdk l clock).line sdk l clock' = a.line sdk l clock := by
  cases ht : a.target l with
  | none =>
    rw [line_ignored sdk h.consistent ht]
    exact line_ignored sdk h.consistent ht clock'
  | some r =>
    have hb := (h.line sdk l clock).consistent
    have hclock : orClock l.at_ clock = l.at_ := if_neg (by simpa [Time.isZero] using hat)
    obtain ⟨hlt, hfound⟩ := (ready_conn h.consistent l l.at_).2.2 r ht
    have hopen := (mem_ready h.consistent ht l.at_).2
    rw [line_eq sdk h.consistent, ht, Option.elim_some, hclock, ← hfound] at hb ⊢
    refine line_again sdk (hasLogID_of_target ht) hev hat hdir hlt hopen ?_ hb clock'
    rw [hfound, found_logID h.consistent ht]

end Assembler

namespace AsmRun

/-- **Repeated lines are harmless.**  In every run, a line that carries its time, is no accept line
and no half close without a direction leaves the same assembler when it is fed twice in a row as
when it is fed once. -/
theorem repeated_line_harmless (sdk : Sdk) (opts : Options) (calls : List AsmCall) {l : Line}
    (hev : l.event ≠ .inboundFrom) (hat : l.at_ ≠ 0)
    (hdir : l.event.half = true → l.direction ≠ .none) (clock clock' : Time) :
    let a := (run sdk ⟨.new opts, []⟩ calls).asm
    (a.line sdk l clock).line sdk l clock' = a.line sdk l clock :=
  Assembler.line_line sdk (run_books sdk (s := ⟨.new opts, []⟩) (.new opts) calls) hev hat hdir
    clock clock'

/-- The end of a connection that has not been seen. -/
def strayClose : Line where
  logID := 8
  hasLogID := true
  event := .connectionClosed
  at_ := 20 * second

/-- With room for one connection: the line evicts the open one, and creates and ends its own. -/
theorem repeated_line_harmless_evicting :
    let accept : Line := { logID := 7, hasLogID := true, event := .inboundFrom, srcIP := "192.0.2.1" }
    let a := (run asciiSdk ⟨.new { maxOpen := 1 }, []⟩ [.line accept second]).asm
    a.order = [0] ∧ (a.line asciiSdk strayClose second).order = [] ∧
      (a.line asciiSdk strayClose second).line asciiSdk strayClose (2 * second) =
        a.line asciiSdk strayClose second :=
  ⟨by decide +kernel, by decide +kernel,
    repeated_line_harmless asciiSdk { maxOpen := 1 } _ (by decide) (by decide) (by decide) second
      (2 * second)⟩

end AsmRun
end LatticeAgent.Trace
