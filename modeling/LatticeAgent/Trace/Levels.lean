import LatticeAgent.Lib.Runs
import LatticeAgent.Trace.ByLogID

/-! # Records and the subscription level

The half close of a cancelled direction that carries no error is logged at trace level only. The
ranks of the close evidence are there so that it makes no difference to a record whether these
lines are delivered: `Levels` runs the assembler with them and without.

It does make one. A cancel starts the grace of its connection and may complete its halves, so
that the connection ends before the line that says more, which is then ignored as a trailing line
(`canceled_at_trace`). As long as the run at trace level ends no connection on a cancel alone
(`Backed`) and nothing new is said of a connection that it has ended and the other run has not
(`KeepsUp`), the records agree (`close_level_independent`). `Related` is the invariant, of the
lives under one log id in the two runs. -/

namespace LatticeAgent.Trace

open List Conn Line AsmRun Bool Life

/-- Logged at trace level only: a cancel without an error. -/
def Line.traceOnly (l : Line) : Bool := l.event == .closed && trimSpace l.error == ""

/-- The line carries the log id. -/
def Line.of (l : Line) (x : UInt32) : Bool := l.hasLogID && l.logID == x

/-- What is fed to the assembler. -/
inductive Feed where
  | line (l : Line) (clock : Time)
  | tick (now clock : Time)
  | snapshot (s : Snapshot) (clock : Time)

namespace Feed

def call : Feed → AsmCall
  | .line l clock => .line l clock
  | .tick now clock => .tick now clock
  | .snapshot s clock => .snapshot s clock

/-- The time of a call, as the assembler takes it. -/
def time : Feed → Time
  | .line l clock => orClock l.at_ clock
  | .tick now clock => orClock now clock
  | .snapshot s clock => orClock s.at_ clock

def traceOnly : Feed → Bool
  | .line l _ => l.traceOnly
  | _ => false

end Feed

/-! ### Half closes -/

namespace Conn

variable {sdk : Sdk} {c d : Conn} {l : Line} {at_ : Time}

/-- The half close is the second one. -/
def completes (c : Conn) (l : Line) (at_ : Time) : Bool :=
  (c.halfClosed l at_).closedUp && (c.halfClosed l at_).closedDown

/-- A tick finds that nothing was heard of the connection for too long. -/
def orphaned (c : Conn) (opts : Options) (snapSeq : UInt64) (now : Time) : Bool :=
  !c.settled opts snapSeq now && decide (opts.orphanTTL ≤ now.sub c.lastSeenAt)

/-- Nothing is known of the connection that a record could be about. -/
def anonymous (c : Conn) : Bool := c.record.srcIP == "" && c.record.dstHost == ""

theorem tickEnding_eq (c : Conn) (opts : Options) (snapSeq : UInt64) (now : Time) :
    c.tickEnding opts snapSeq now =
      if c.settled opts snapSeq now then some ⟨c.close, c.firstHalfAt, .core⟩
      else if c.orphaned opts snapSeq now then some ⟨Assembler.orphan c, now, .core⟩
      else none := by
  unfold tickEnding orphaned
  cases c.settled opts snapSeq now <;> simp

variable (sdk : Sdk)

theorem fed_half_fields (c : Conn) (h : l.event.half) (at_ : Time) :
    let c' := c.fed sdk l at_
    c'.close = (c.offer (l.halfCandidate sdk)).close ∧
      c'.closedUp = (c.halfClosed l at_).closedUp ∧
      c'.closedDown = (c.halfClosed l at_).closedDown ∧
      c'.firstHalfAt = (c.halfClosed l at_).firstHalfAt ∧
      c'.record.srcIP = c.record.srcIP ∧ c'.record.dstHost = c.record.dstHost := by
  have hev : l.event ≠ .inboundFrom ∧ l.event ≠ .inboundTo ∧ l.event ≠ .outboundTo := by
    cases hev : l.event <;> simp_all [Event.half]
  dsimp only
  rw [fed_eq]
  simp [h, hev]

theorem fed_other_fields (c : Conn) (h : l.event.half = false) (at_ : Time) :
    let c' := c.fed sdk l at_
    c'.close = c.close ∧ c'.closedUp = c.closedUp ∧ c'.closedDown = c.closedDown ∧
      c'.firstHalfAt = c.firstHalfAt := by
  dsimp only
  rw [fed_eq]
  simp [h]

@[simp] theorem fed_lastSeenAt (c : Conn) (l : Line) (at_ : Time) :
    (c.fed sdk l at_).lastSeenAt = at_ := by
  rw [fed_eq]

theorem lineEnding_half (c : Conn) (h : l.event.half) (at_ : Time) :
    c.lineEnding sdk l at_ =
      if c.completes l at_ then some ⟨(c.fed sdk l at_).close, at_, .core⟩ else none := by
  obtain ⟨-, hup, hdown, -⟩ := fed_half_fields sdk c h at_
  unfold completes
  rw [← hup, ← hdown]
  unfold lineEnding
  cases hev : l.event <;> simp_all [Event.half]

theorem lineEnding_other (c d : Conn) (h : l.event.half = false) (at_ : Time) :
    c.lineEnding sdk l at_ = d.lineEnding sdk l at_ := by
  unfold lineEnding
  cases hev : l.event <;> simp_all [Event.half]

end Conn

variable {l : Line}

theorem Line.half_of_traceOnly (h : l.traceOnly) :
    l.event.half ∧ l.event = .closed ∧ l.rank = rankSoft := by
  obtain ⟨hev, herr⟩ : l.event = .closed ∧ trimSpace l.error = "" := by
    simpa [traceOnly] using h
  refine ⟨by simp [hev, Event.half], hev, ?_⟩
  unfold rank evidenceRank whenEmpty
  cases l.packet <;> simp [herr, hev]

theorem Line.indexes_of_traceOnly (h : l.traceOnly) : l.indexes = false := by
  simp [indexes, (half_of_traceOnly h).2.1]

theorem Line.rank_of_half (hhalf : l.event.half) (h : l.traceOnly = false) : rankEOF ≤ l.rank := by
  unfold rank evidenceRank
  split
  · decide
  · rename_i herr
    have herr : trimSpace l.error = "" := not_not.mp herr
    have hev : l.event = .finished := by
      cases hev : l.event <;> simp_all [Event.half, traceOnly]
    simp [whenEmpty, hev]

/-! ### One connection in the two runs -/

/-- The close evidence of a connection with the cancels and without: the same, or a cancel and
nothing. -/
inductive CloseSim : CloseCandidate → CloseCandidate → Prop
  | same {cand : CloseCandidate} (hrank : rankEOF ≤ cand.rank) : CloseSim cand cand
  | soft {cand : CloseCandidate} (hrank : cand.rank = rankSoft) : CloseSim cand {}
  | none : CloseSim {} {}

namespace CloseSim

variable {a b : CloseCandidate}

theorem eq (h : CloseSim a b) (hrank : rankEOF ≤ a.rank) : b = a := by
  cases h with
  | same | none => rfl
  | soft hsoft => simp [hsoft, rankEOF, rankSoft] at hrank

theorem offer (h : CloseSim a b) (cand : CloseCandidate) (hrank : rankEOF ≤ cand.rank) :
    rankEOF ≤ (if a.rank < cand.rank then cand else a).rank ∧
      (if b.rank < cand.rank then cand else b) = if a.rank < cand.rank then cand else a := by
  cases h with
  | same ha =>
    refine ⟨?_, rfl⟩
    split
    · exact hrank
    · exact ha
  | soft ha =>
    have hlt : a.rank < cand.rank := lt_of_lt_of_le (ha ▸ (by decide)) hrank
    have hlt' : ({} : CloseCandidate).rank < cand.rank := lt_of_lt_of_le (by decide) hrank
    rw [if_pos hlt, if_pos hlt']
    exact ⟨hrank, rfl⟩
  | none =>
    have hlt : ({} : CloseCandidate).rank < cand.rank := lt_of_lt_of_le (by decide) hrank
    rw [if_pos hlt]
    exact ⟨hrank, rfl⟩

theorem offer_soft (h : CloseSim a b) (cand : CloseCandidate) (hrank : cand.rank = rankSoft) :
    CloseSim (if a.rank < cand.rank then cand else a) b := by
  cases h with
  | same ha =>
    rw [if_neg (by rw [hrank]; exact Nat.not_lt.mpr (le_trans (by decide) ha))]
    exact .same ha
  | soft ha =>
    rw [if_neg (by rw [hrank, ha]; exact Nat.lt_irrefl _)]
    exact .soft ha
  | none =>
    rw [if_pos (by rw [hrank]; decide)]
    exact .soft hrank

end CloseSim

/-- The half closes of a connection in the two runs, up to the time `T`. -/
structure HalfSim (T : Time) (c d : Conn) : Prop where
  close : CloseSim c.close d.close
  up : d.closedUp = true → c.closedUp = true
  down : d.closedDown = true → c.closedDown = true
  half : d.firstHalfAt ≠ 0 → c.firstHalfAt ≠ 0 ∧ c.firstHalfAt ≤ d.firstHalfAt
  within : c.firstHalfAt ≠ 0 → c.firstHalfAt ≤ T

/-- A connection that is open in both runs, up to the time `T`. -/
structure Sim (T : Time) (owned : Bool) (c d : Conn) : Prop extends HalfSim T c d where
  key : d.srcKey = c.srcKey
  started : owned = true → d.record.startedAt = c.record.startedAt
  sampled : d.sampled = c.sampled
  seq : d.lastSnapSeq = c.lastSnapSeq

namespace HalfSim

variable {sdk : Sdk} {T t : Time} {c d c' d' : Conn} {l : Line}

theorem mono (h : HalfSim T c d) (hT : T ≤ t) : HalfSim t c d :=
  { h with within := fun hne => (h.within hne).trans hT }

theorem congr (h : HalfSim T c d) (hclose : c'.close = c.close ∧ d'.close = d.close)
    (hup : c'.closedUp = c.closedUp ∧ d'.closedUp = d.closedUp)
    (hdown : c'.closedDown = c.closedDown ∧ d'.closedDown = d.closedDown)
    (hfirst : c'.firstHalfAt = c.firstHalfAt ∧ d'.firstHalfAt = d.firstHalfAt) :
    HalfSim T c' d' := by
  refine ⟨?_, ?_, ?_, ?_, ?_⟩
  · rw [hclose.1, hclose.2]
    exact h.close
  · rw [hup.1, hup.2]
    exact h.up
  · rw [hdown.1, hdown.2]
    exact h.down
  · rw [hfirst.1, hfirst.2]
    exact h.half
  · rw [hfirst.1]
    exact h.within

theorem completes (h : HalfSim T c d) (hd : d.completes l t) : c.completes l t := by
  obtain ⟨hup, hdown, -⟩ := halfClosed_flags c l t
  obtain ⟨hup', hdown', -⟩ := halfClosed_flags d l t
  have hu := h.up
  have hd' := h.down
  unfold Conn.completes at hd ⊢
  rw [hup', hdown'] at hd
  rw [hup, hdown]
  revert hd
  cases l.direction <;> simp <;> tauto

theorem firstHalf {f g : Time} (hT : T ≤ t) (hhalf : g ≠ 0 → f ≠ 0 ∧ f ≤ g)
    (hwithin : f ≠ 0 → f ≤ T) :
    ((if g.isZero then t else g) ≠ 0 →
      (if f.isZero then t else f) ≠ 0 ∧
        (if f.isZero then t else f) ≤ if g.isZero then t else g) ∧
    ((if f.isZero then t else f) ≠ 0 → (if f.isZero then t else f) ≤ t) := by
  have hzero (u : Time) : u.isZero = decide (u = 0) := rfl
  rw [hzero, hzero]
  by_cases hf : f = 0
  · by_cases hg : g = 0
    · simp [hf, hg]
    · exact absurd hf (hhalf hg).1
  · have hft := (hwithin hf).trans hT
    by_cases hg : g = 0
    · simp [hf, hg, hft]
    · simp [hf, hg, hft, (hhalf hg).2]

theorem fed_half (h : HalfSim T c d) (hT : T ≤ t) (hhalf : l.event.half)
    (hl : l.traceOnly = false) :
    HalfSim t (c.fed sdk l t) (d.fed sdk l t) ∧ rankEOF ≤ (c.fed sdk l t).close.rank := by
  obtain ⟨hclose, hup, hdown, hfirst, -⟩ := Conn.fed_half_fields sdk c hhalf t
  obtain ⟨hclose', hup', hdown', hfirst', -⟩ := Conn.fed_half_fields sdk d hhalf t
  obtain ⟨hcup, hcdown, hcfirst⟩ := halfClosed_flags c l t
  obtain ⟨hdup, hddown, hdfirst⟩ := halfClosed_flags d l t
  obtain ⟨hrank, hsame⟩ := h.close.offer (l.halfCandidate sdk) (rank_of_half hhalf hl)
  rw [← offer_close, ← offer_close, ← hclose, ← hclose'] at hsame
  rw [← offer_close, ← hclose] at hrank
  obtain ⟨hfirsts, hwithin⟩ := firstHalf hT h.half h.within
  have hu := h.up
  have hd := h.down
  refine ⟨⟨?_, ?_, ?_, ?_, ?_⟩, hrank⟩
  · rw [hsame]
    exact .same hrank
  · rw [hup, hup', hcup, hdup]
    cases l.direction <;> simp
    exact hu
  · rw [hdown, hdown', hcdown, hddown]
    cases l.direction <;> simp <;> tauto
  · rw [hfirst, hfirst', hcfirst, hdfirst]
    exact hfirsts
  · rw [hfirst, hcfirst]
    exact hwithin

theorem fed_traceOnly (h : HalfSim T c d) (hT : T ≤ t) (hl : l.traceOnly) :
    HalfSim t (c.fed sdk l t) d := by
  obtain ⟨hhalf, -, hrank⟩ := Line.half_of_traceOnly hl
  obtain ⟨hclose, hup, hdown, hfirst, -⟩ := Conn.fed_half_fields sdk c hhalf t
  obtain ⟨hcup, hcdown, hcfirst⟩ := halfClosed_flags c l t
  have hsim := h.close.offer_soft (l.halfCandidate sdk) hrank
  rw [← offer_close, ← hclose] at hsim
  refine ⟨hsim, fun hd => ?_, fun hd => ?_, fun hd => ?_, fun _ => ?_⟩
  · rw [hup, hcup, h.up hd]
    rfl
  · rw [hdown, hcdown, h.down hd]
    rfl
  · have hzero : c.firstHalfAt.isZero = false := by simpa [Time.isZero] using (h.half hd).1
    rw [hfirst, hcfirst, hzero]
    exact h.half hd
  · rw [hfirst, hcfirst]
    have hwithin := h.within
    simp only [Time.isZero, beq_iff_eq]
    split
    · exact le_rfl
    · exact (hwithin ‹_›).trans hT

end HalfSim

namespace Sim

variable {sdk : Sdk} {T t : Time} {owned : Bool} {c d : Conn} {l : Line}

theorem mono (h : Sim T owned c d) (hT : T ≤ t) : Sim t owned c d :=
  { h with toHalfSim := h.toHalfSim.mono hT }

theorem unowned (h : Sim T owned c d) {owned' : Bool} (ho : owned' → owned) : Sim T owned' c d :=
  { h with started := fun hne => h.started (ho hne) }

/-- A connection as its first line finds it is like one of which nothing was said. -/
theorem fresh (h : Sim T false c {}) (nodeID : String) (l : Line) (at_ : Time) :
    Sim T false c (.fresh nodeID l at_) :=
  ⟨⟨h.close, h.up, h.down, h.half, h.within⟩, h.key, nofun, h.sampled, h.seq⟩

theorem blank (T : Time) (nodeID : String) (l : Line) (at_ : Time) :
    Sim T false (.fresh nodeID l at_) {} :=
  ⟨⟨.none, nofun, nofun, fun h => absurd rfl h, fun h => absurd rfl h⟩, rfl, nofun, rfl, rfl⟩

theorem fresh_self (T : Time) (owned : Bool) (nodeID : String) (l : Line) (at_ : Time) :
    Sim T owned (.fresh nodeID l at_) (.fresh nodeID l at_) :=
  ⟨⟨.none, id, id, fun h => absurd rfl h, fun h => absurd rfl h⟩, rfl, fun _ => rfl, rfl, rfl⟩

section

variable (h : Sim T owned c d)

include h

theorem fed (hT : T ≤ t) (hl : l.traceOnly = false) :
    Sim t owned (c.fed sdk l t) (d.fed sdk l t) := by
  have hhalves : HalfSim t (c.fed sdk l t) (d.fed sdk l t) := by
    cases hhalf : l.event.half with
    | true => exact (h.toHalfSim.fed_half hT hhalf hl).1
    | false =>
      obtain ⟨hclose, hup, hdown, hfirst⟩ := fed_other_fields sdk c hhalf t
      obtain ⟨hclose', hup', hdown', hfirst'⟩ := fed_other_fields sdk d hhalf t
      exact (h.toHalfSim.mono hT).congr ⟨hclose, hclose'⟩ ⟨hup, hup'⟩ ⟨hdown, hdown'⟩
        ⟨hfirst, hfirst'⟩
  refine ⟨hhalves, ?_, fun ho => ?_, ?_, ?_⟩
  · rw [Conn.fed_eq, Conn.fed_eq sdk c, h.key]
  · rw [Conn.fed_eq, Conn.fed_eq sdk c, h.started ho]
  · rw [Conn.fed_eq, Conn.fed_eq sdk c, h.sampled]
  · rw [Conn.fed_eq, Conn.fed_eq sdk c, h.seq]

theorem fed_traceOnly (hT : T ≤ t) (hl : l.traceOnly) : Sim t owned (c.fed sdk l t) d := by
  have hindexes : ¬ l.indexes := by simp [indexes_of_traceOnly hl]
  refine ⟨h.toHalfSim.fed_traceOnly hT hl, ?_, fun ho => ?_, ?_, ?_⟩
  · rw [Conn.fed_eq, if_neg hindexes, h.key]
  · rw [Conn.fed_eq, h.started ho]
  · rw [Conn.fed_eq, h.sampled]
  · rw [Conn.fed_eq, h.seq]

theorem ticked (opts : Options) :
    Sim T owned (c.ticked opts t) (d.ticked opts t) ∧ Sim T owned (c.ticked opts t) d := by
  rw [ticked_eq c, ticked_eq d]
  exact ⟨⟨h.toHalfSim.congr ⟨rfl, rfl⟩ ⟨rfl, rfl⟩ ⟨rfl, rfl⟩ ⟨rfl, rfl⟩, h.key, h.started,
    h.sampled, h.seq⟩, ⟨h.toHalfSim.congr ⟨rfl, rfl⟩ ⟨rfl, rfl⟩ ⟨rfl, rfl⟩ ⟨rfl, rfl⟩, h.key,
    h.started, h.sampled, h.seq⟩⟩

theorem settled {opts : Options} {snapSeq : UInt64} (hd : d.settled opts snapSeq t) :
    c.settled opts snapSeq t := by
  have hzero (u : Time) : u.isZero = decide (u = 0) := rfl
  simp only [Conn.settled, h.sampled, h.seq, hzero, and_eq_true, not_eq_true',
    decide_eq_false_iff_not, decide_eq_true_iff] at hd ⊢
  obtain ⟨⟨hfirst, hgrace⟩, hlisted⟩ := hd
  obtain ⟨hne, hle⟩ := h.half hfirst
  exact ⟨⟨hne, hgrace.trans (Time.sub_le_sub hle t)⟩, hlisted⟩

theorem entries (items : List SnapshotItem) : d.entries owned items = c.entries owned items := by
  cases ho : owned with
  | false => simp [Conn.entries]
  | true =>
    unfold Conn.entries Assembler.early
    rw [h.key, h.started ho]

theorem join (item : SnapshotItem) (at_ : Time) (seq : UInt64) (floor quiet : Duration) :
    Sim T owned (c.join sdk item at_ seq floor quiet) (d.join sdk item at_ seq floor quiet) := by
  rw [join_eq, join_eq sdk d]
  exact ⟨h.toHalfSim.congr ⟨rfl, rfl⟩ ⟨rfl, rfl⟩ ⟨rfl, rfl⟩ ⟨rfl, rfl⟩, h.key, h.started, rfl, rfl⟩

end

end Sim

/-! ### The lives in the two runs -/

/-- How a connection closes on this evidence. -/
def CloseCandidate.closing (cand : CloseCandidate) : Closing :=
  ⟨some (cand.reason.getD .unknown), cand.err⟩

/-- The lives under one log id at trace level and without the cancels, up to the time `T`. -/
inductive Related (T : Time) : Life → Life → Prop
  | absent : Related T .absent .absent
  /-- Only cancels were logged of it. -/
  | ahead {c : Conn} (h : Sim T false c {}) (hanon : c.anonymous = true)
      (hrecent : c.lastSeenAt ≤ T) : Related T (.live c false) .absent
  | both {c d : Conn} {owned : Bool} (h : Sim T owned c d) (hseen : d.lastSeenAt ≤ c.lastSeenAt)
      (hrecent : c.lastSeenAt ≤ T) : Related T (.live c owned) (.live d owned)
  /-- It has ended at trace level, and will end so in the other run. -/
  | pending {closings : List Closing} {d : Conn} {owned : Bool} (hrank : rankEOF ≤ d.close.rank)
      (hall : ∀ k ∈ closings, k = d.close.closing) : Related T (.gone closings) (.live d owned)
  | ended {closings closings' : List Closing} (h : ∀ k ∈ closings, ∀ k' ∈ closings', k = k') :
      Related T (.gone closings) (.gone closings')
  /-- It has left without a record: evicted, or nothing was known of it. -/
  | lone {life : Life} : Related T (.gone []) life
  | lost {life : Life} : Related T life (.gone [])

theorem Conn.closings_of_anonymous {c : Conn} (h : c.anonymous) (e : Ending) :
    c.closings e = [] := by
  rw [Conn.closings, if_pos]
  simpa [anonymous] using h

theorem Conn.eq_of_mem_closings {c : Conn} {e : Ending} {k : Closing} (h : k ∈ c.closings e) :
    k = e.cand.closing := by
  unfold closings at h
  split at h
  · cases h
  · exact mem_singleton.mp h

/-- The line says no more of a connection than the evidence there is. -/
def Line.repeats (sdk : Sdk) (l : Line) (close : CloseCandidate) : Prop :=
  match l.event with
  | .finished | .closed => l.rank ≤ close.rank
  | .connectionClosed =>
    close.reason = some (closeReasonFor sdk l.error .eof) ∧ close.err = l.error
  | .dialFailed | .authFailed | .handshakeFailed => False
  | _ => True

/-- The open connection, and whether its source address leads to it. -/
def Life.open? : Life → Option (Conn × Bool)
  | .live c owned => some (c, owned)
  | _ => none

/-- What is fed does not end the connection at trace level on cancels alone. -/
def Conn.Backed (opts : Options) (snapSeq : UInt64) (x : UInt32) (c : Conn) (owned : Bool)
    (f : Feed) : Prop :=
  c.anonymous = false →
    match f with
    | .line l clock =>
      l.of x = true → l.traceOnly = true → c.completes l (orClock l.at_ clock) = true →
        rankEOF ≤ c.close.rank
    | .tick now clock =>
      (c.settled opts snapSeq (orClock now clock) = true → rankEOF ≤ c.close.rank) ∧
      (c.orphaned opts snapSeq (orClock now clock) = true → c.close.rank = rankSoft →
        c.close.err = "")
    | .snapshot s _ =>
      c.sampled = true → c.lastSnapSeq < snapSeq + 1 → c.entries owned s.items = [] →
        c.close.rank ≠ rankSoft

/-- A connection that is open without the cancels only is told nothing new, and is given up only
together with the one at trace level. -/
def KeepsUp (sdk : Sdk) (opts : Options) (snapSeq : UInt64) (x : UInt32)
    (trace info : Option (Conn × Bool)) : Feed → Prop
  | .line l _ =>
    l.of x = true → l.traceOnly = false → trace.isNone = true →
      ∀ d ∈ info, l.repeats sdk d.1.close
  | .tick now clock =>
    ∀ d ∈ info, d.1.orphaned opts snapSeq (orClock now clock) = true →
      ∃ c ∈ trace, c.1.orphaned opts snapSeq (orClock now clock) = true
  | .snapshot .. => True

theorem Line.of_iff {x : UInt32} : l.of x ↔ l.hasLogID ∧ l.logID = x := by
  simp [of]

theorem Life.fed_own {x : UInt32} (h : l.of x) (sdk : Sdk) (nodeID : String) (c : Conn)
    (owned : Bool) (t : Time) :
    (Life.live c owned).fed sdk nodeID x l t =
      .left (c.fed sdk l t) owned (c.lineEnding sdk l t) := by
  obtain ⟨hlog, hx⟩ := of_iff.mp h
  dsimp only [Life.fed]
  rw [if_pos hlog, if_pos hx]

theorem Life.fed_other {x : UInt32} (h : ¬ l.of x) (sdk : Sdk) (nodeID : String) (c : Conn)
    (owned : Bool) (t : Time) :
    (Life.live c owned).fed sdk nodeID x l t =
      .live c (owned && !(l.hasLogID && l.indexes && l.key == c.srcKey)) := by
  dsimp only [Life.fed]
  by_cases hlog : l.hasLogID = true
  · rw [if_pos hlog, if_neg fun hx => h (of_iff.mpr ⟨hlog, hx⟩), hlog, Bool.true_and]
  · rw [if_neg hlog, eq_false_of_not_eq_true hlog]
    simp

namespace Related

variable {sdk : Sdk} {T t : Time} {owned : Bool} {c d : Conn} {l : Line}

theorem of_same_ending {e e' : Ending} (h : e.cand.closing = e'.cand.closing) :
    Related T (.gone (c.closings e)) (.gone (d.closings e')) :=
  .ended fun _ hk _ hk' => (eq_of_mem_closings hk).trans
    (h.trans (eq_of_mem_closings hk').symm)

theorem line_both (h : Sim T owned c d) (hT : T ≤ t) (hl : l.traceOnly = false) :
    Related t (.left (c.fed sdk l t) owned (c.lineEnding sdk l t))
      (.left (d.fed sdk l t) owned (d.lineEnding sdk l t)) := by
  have hsim : Sim t owned (c.fed sdk l t) (d.fed sdk l t) := h.fed hT hl
  have hopen : Related t (.live (c.fed sdk l t) owned) (.live (d.fed sdk l t) owned) :=
    .both hsim (by simp) (fed_lastSeenAt sdk c l t).le
  cases hhalf : l.event.half with
  | false =>
    rw [lineEnding_other sdk d c hhalf]
    cases c.lineEnding sdk l t with
    | none => exact hopen
    | some e => exact of_same_ending rfl
  | true =>
    have hrank : rankEOF ≤ (c.fed sdk l t).close.rank := (h.toHalfSim.fed_half hT hhalf hl).2
    have hclose := hsim.close.eq hrank
    rw [lineEnding_half sdk c hhalf, lineEnding_half sdk d hhalf]
    cases hd : d.completes l t with
    | true =>
      rw [h.toHalfSim.completes hd]
      exact of_same_ending (congrArg CloseCandidate.closing hclose.symm)
    | false =>
      cases c.completes l t with
      | false => exact hopen
      | true =>
        refine .pending (hclose ▸ hrank) fun k hk => ?_
        rw [eq_of_mem_closings hk, hclose]

theorem anonymous_fed (c : Conn) (hhalf : l.event.half) :
    (c.fed sdk l t).anonymous = c.anonymous := by
  obtain ⟨-, -, -, -, hip, hhost⟩ := Conn.fed_half_fields sdk c hhalf t
  unfold Conn.anonymous
  rw [hip, hhost]

theorem traceOnly_ahead (h : Sim T false c {}) (hanon : c.anonymous) (hT : T ≤ t)
    (hl : l.traceOnly) :
    Related t (.left (c.fed sdk l t) false (c.lineEnding sdk l t)) .absent := by
  have hhalf := (Line.half_of_traceOnly hl).1
  have hanon' : (c.fed sdk l t).anonymous := (anonymous_fed c hhalf).trans hanon
  rw [lineEnding_half sdk c hhalf]
  cases c.completes l t with
  | false => exact .ahead (h.fed_traceOnly hT hl) hanon' (fed_lastSeenAt sdk c l t).le
  | true =>
    change Related t (.gone _) .absent
    rw [closings_of_anonymous hanon']
    exact .lone

/-- A cancel of a connection that is open in both runs, which it does not end at trace level without
better evidence. -/
theorem traceOnly_both (h : Sim T owned c d) (hseen : d.lastSeenAt ≤ t) (hT : T ≤ t)
    (hl : l.traceOnly) (hbacked : c.anonymous = false → c.completes l t → rankEOF ≤ c.close.rank) :
    Related t (.left (c.fed sdk l t) owned (c.lineEnding sdk l t)) (.live d owned) := by
  obtain ⟨hhalf, -, hsoft⟩ := Line.half_of_traceOnly hl
  rw [lineEnding_half sdk c hhalf]
  cases hc : c.completes l t with
  | false =>
    have hnow := fed_lastSeenAt sdk c l t
    exact .both (h.fed_traceOnly hT hl) (hseen.trans hnow.ge) hnow.le
  | true =>
    change Related t (.gone _) _
    cases hknown : c.anonymous with
    | true =>
      rw [closings_of_anonymous ((anonymous_fed c hhalf).trans hknown)]
      exact .lone
    | false =>
      have hrank := hbacked hknown hc
      -- A cancel does not outrank the evidence there is.
      have hkeep : (c.fed sdk l t).close = c.close := by
        rw [(Conn.fed_half_fields sdk c hhalf t).1, offer_close, if_neg]
        change ¬ c.close.rank < l.rank
        rw [hsoft]
        exact Nat.not_lt.mpr (le_trans (by decide) hrank)
      have hsame := h.close.eq hrank
      refine .pending (hsame ▸ hrank) fun k hk => ?_
      rw [eq_of_mem_closings hk, hsame, ← hkeep]

/-- A line that says nothing new of a connection that has ended at trace level. -/
theorem line_pending (hrank : rankEOF ≤ d.close.rank) {closings : List Closing}
    (hall : ∀ k ∈ closings, k = d.close.closing) (hl : l.repeats sdk d.close) :
    Related t (.gone closings) (.left (d.fed sdk l t) owned (d.lineEnding sdk l t)) := by
  cases hhalf : l.event.half with
  | true =>
    have hle : l.rank ≤ d.close.rank := by
      unfold repeats at hl
      cases hev : l.event <;> simp_all [Event.half]
    have hkeep : (d.fed sdk l t).close = d.close := by
      rw [(Conn.fed_half_fields sdk d hhalf t).1, offer_close, if_neg]
      exact Nat.not_lt.mpr hle
    rw [lineEnding_half sdk d hhalf]
    cases d.completes l t with
    | false =>
      rw [← hkeep] at hrank hall
      exact .pending hrank hall
    | true =>
      refine .ended fun k hk k' hk' => ?_
      rw [hall k hk, eq_of_mem_closings hk', ← hkeep]
  | false =>
    have hkeep := (fed_other_fields sdk d hhalf t).1
    cases he : d.lineEnding sdk l t with
    | none =>
      rw [← hkeep] at hrank hall
      exact .pending hrank hall
    | some e =>
      -- Only the close of the inbound may repeat what was said.
      refine .ended fun k hk k' hk' => ?_
      rw [hall k hk, eq_of_mem_closings hk']
      unfold repeats at hl
      unfold Conn.lineEnding at he
      cases hev : l.event <;> simp_all [Event.half]
      rw [← he]
      simp [CloseCandidate.closing, Assembler.lineCandidate, hl]

/-- **A line.** -/
theorem line {f g : Life} (h : Related T f g) {clock : Time} (hT : T ≤ orClock l.at_ clock)
    (nodeID : String) (opts : Options) (snapSeq : UInt64) (x : UInt32)
    (hreuse : l.of x → f ≠ .absent → l.indexes = false)
    (hbacked : ∀ p ∈ f.open?, p.1.Backed opts snapSeq x p.2 (.line l clock))
    (hkeeps : KeepsUp sdk opts snapSeq x f.open? g.open? (.line l clock)) :
    Related (orClock l.at_ clock) (f.fed sdk nodeID x l (orClock l.at_ clock))
      (if l.traceOnly then g else g.fed sdk nodeID x l (orClock l.at_ clock)) := by
  cases h with
  | absent =>
    by_cases hof : l.of x = true
    · have hx := of_iff.mp hof
      dsimp only [Life.fed]
      rw [if_pos hx]
      cases hl : l.traceOnly with
      | true =>
        rw [if_pos rfl, indexes_of_traceOnly hl]
        exact traceOnly_ahead (.blank T nodeID l _) rfl hT hl
      | false =>
        rw [if_neg Bool.false_ne_true]
        exact line_both (.fresh_self T _ nodeID l _) hT hl
    · have hx : ¬ (l.hasLogID = true ∧ l.logID = x) := fun hx => hof (of_iff.mpr hx)
      dsimp only [Life.fed]
      rw [if_neg hx, ite_self]
      exact .absent
  | @ahead c hsim hanon hrecent =>
    by_cases hof : l.of x = true
    · rw [fed_own hof]
      cases hl : l.traceOnly with
      | true =>
        rw [if_pos rfl]
        exact traceOnly_ahead hsim hanon hT hl
      | false =>
        -- The other run opens the connection now.
        have hindexes := hreuse hof nofun
        dsimp only [Life.fed]
        rw [if_neg Bool.false_ne_true, if_pos (of_iff.mp hof), hindexes]
        exact line_both (hsim.fresh nodeID l _) hT hl
    · have hx : ¬ (l.hasLogID = true ∧ l.logID = x) := fun hx => hof (of_iff.mpr hx)
      rw [fed_other hof, Bool.false_and]
      dsimp only [Life.fed]
      rw [if_neg hx, ite_self]
      exact .ahead (hsim.mono hT) hanon (hrecent.trans hT)
  | @both c d owned hsim hseen hrecent =>
    by_cases hof : l.of x = true
    · rw [fed_own hof, fed_own hof]
      cases hl : l.traceOnly with
      | true =>
        rw [if_pos rfl]
        exact traceOnly_both hsim ((hseen.trans hrecent).trans hT) hT hl fun hknown hc =>
          hbacked (c, owned) rfl hknown hof hl hc
      | false =>
        rw [if_neg Bool.false_ne_true]
        exact line_both hsim hT hl
    · rw [fed_other hof, fed_other hof, hsim.key]
      cases hl : l.traceOnly with
      | true =>
        rw [if_pos rfl, indexes_of_traceOnly hl]
        simpa using Related.both (hsim.mono hT) hseen (hrecent.trans hT)
      | false =>
        rw [if_neg Bool.false_ne_true]
        refine .both ((hsim.mono hT).unowned fun ho => ?_) hseen (hrecent.trans hT)
        rw [and_eq_true] at ho
        exact ho.1
  | @pending closings d owned hrank hall =>
    cases hl : l.traceOnly with
    | true =>
      rw [if_pos rfl]
      exact .pending hrank hall
    | false =>
      rw [if_neg Bool.false_ne_true]
      by_cases hof : l.of x = true
      · rw [fed_own hof]
        exact line_pending hrank hall (hkeeps hof hl rfl (d, owned) rfl)
      · rw [fed_other hof]
        exact .pending hrank hall
  | ended h =>
    split <;> exact .ended h
  | lone => exact .lone
  | lost =>
    split <;> exact .lost

theorem tick_both (h : Sim T owned c d) (hseen : d.lastSeenAt ≤ c.lastSeenAt)
    (hrecent : c.lastSeenAt ≤ T) (hT : T ≤ t) {opts : Options} {snapSeq : UInt64}
    (hbacked : c.anonymous = false →
      (c.settled opts snapSeq t → rankEOF ≤ c.close.rank) ∧
      (c.orphaned opts snapSeq t → c.close.rank = rankSoft → c.close.err = ""))
    (hkeeps : d.orphaned opts snapSeq t → c.orphaned opts snapSeq t) :
    Related t ((Life.live c owned).ticked opts snapSeq t)
      ((Life.live d owned).ticked opts snapSeq t) := by
  dsimp only [Life.ticked]
  rw [tickEnding_eq c, tickEnding_eq d]
  cases hc : c.settled opts snapSeq t with
  | true =>
    cases hanon : c.anonymous with
    | true =>
      change Related t (.gone _) _
      rw [closings_of_anonymous hanon]
      exact .lone
    | false =>
      have hrank := (hbacked hanon).1 hc
      have hsame := h.close.eq hrank
      have hkept : d.orphaned opts snapSeq t = false := by
        by_contra ho
        have := hkeeps (eq_true_of_not_eq_false ho)
        simp [Conn.orphaned, hc] at this
      cases d.settled opts snapSeq t with
      | true => exact of_same_ending (congrArg CloseCandidate.closing hsame.symm)
      | false =>
        rw [hkept]
        refine .pending ?_ fun k hk => ?_
        · rw [ticked_eq]
          exact hsame ▸ hrank
        · rw [ticked_eq, eq_of_mem_closings hk, hsame]
  | false =>
    have hd : d.settled opts snapSeq t = false := by
      by_contra hd
      rw [h.settled (eq_true_of_not_eq_false hd)] at hc
      cases hc
    rw [hd]
    cases ho : c.orphaned opts snapSeq t with
    | false =>
      have hkept : d.orphaned opts snapSeq t = false := by
        by_contra hdo
        rw [hkeeps (eq_true_of_not_eq_false hdo)] at ho
        cases ho
      rw [hkept]
      refine .both ((h.mono hT).ticked opts).1 ?_ ?_
      · rw [ticked_eq c, ticked_eq d]
        exact hseen
      · rw [ticked_eq]
        exact hrecent.trans hT
    | true =>
      -- What was not heard of with the cancels was not heard of without them.
      have hdo : d.orphaned opts snapSeq t := by
        simp only [Conn.orphaned, hc, hd, Bool.not_false, Bool.true_and,
          decide_eq_true_iff] at ho ⊢
        exact ho.trans (Time.sub_le_sub hseen t)
      rw [hdo]
      cases hanon : c.anonymous with
      | true =>
        change Related t (.gone _) _
        rw [closings_of_anonymous hanon]
        exact .lone
      | false =>
        refine of_same_ending ?_
        have herr := (hbacked hanon).2 ho
        have hclose := h.close
        unfold Assembler.orphan
        generalize c.close = a at hclose herr
        generalize d.close = b at hclose
        cases hclose with
        | same | none => rfl
        | soft hsoft => rw [herr hsoft]

/-- **A tick.** -/
theorem tick {f g : Life} (h : Related T f g) {now clock : Time} (hT : T ≤ orClock now clock)
    (opts : Options) (snapSeq : UInt64) (x : UInt32)
    (hbacked : ∀ p ∈ f.open?, p.1.Backed opts snapSeq x p.2 (.tick now clock))
    (hkeeps : KeepsUp sdk opts snapSeq x f.open? g.open? (.tick now clock)) :
    Related (orClock now clock) (f.ticked opts snapSeq (orClock now clock))
      (g.ticked opts snapSeq (orClock now clock)) := by
  cases h with
  | absent => exact .absent
  | @ahead c hsim hanon hrecent =>
    dsimp only [Life.ticked]
    cases c.tickEnding opts snapSeq (orClock now clock) with
    | none =>
      refine .ahead ((hsim.mono hT).ticked opts).2 ?_ ?_
      · rw [ticked_eq]
        exact hanon
      · rw [ticked_eq]
        exact hrecent.trans hT
    | some e =>
      change Related _ (.gone _) _
      rw [closings_of_anonymous hanon]
      exact .lone
  | @both c d owned hsim hseen hrecent =>
    refine tick_both hsim hseen hrecent hT (hbacked (c, owned) rfl) fun hd => ?_
    obtain ⟨p, hp, hc⟩ := hkeeps (d, owned) rfl hd
    cases hp
    exact hc
  | @pending closings d owned hrank hall =>
    dsimp only [Life.ticked]
    rw [tickEnding_eq]
    cases hd : d.settled opts snapSeq (orClock now clock) with
    | true =>
      refine .ended fun k hk k' hk' => ?_
      rw [hall k hk, eq_of_mem_closings hk']
    | false =>
      have hkept : d.orphaned opts snapSeq (orClock now clock) = false := by
        by_contra hc
        obtain ⟨p, hp, -⟩ := hkeeps (d, owned) rfl (eq_true_of_not_eq_false hc)
        cases hp
      rw [hkept]
      refine .pending ?_ ?_ <;> rw [ticked_eq]
      · exact hrank
      · exact hall
  | ended h => exact .ended h
  | lone => exact .lone
  | lost => exact .lost

theorem foldl_join (sdk : Sdk) (h : Sim T owned c d) (items : List SnapshotItem) (seq : UInt64)
    (floor quiet : Duration) (hseen : d.lastSeenAt ≤ c.lastSeenAt) (hrecent : c.lastSeenAt ≤ t) :
    let c' := items.foldl (fun c item => c.join sdk item t seq floor quiet) c
    let d' := items.foldl (fun c item => c.join sdk item t seq floor quiet) d
    Sim T owned c' d' ∧ d'.lastSeenAt ≤ c'.lastSeenAt ∧ c'.lastSeenAt ≤ t ∧
      (items ≠ [] → c'.lastSnapSeq = seq) := by
  induction items generalizing c d with
  | nil => exact ⟨h, hseen, hrecent, fun hc => absurd rfl hc⟩
  | cons item items ih =>
    have hnow (c : Conn) : (c.join sdk item t seq floor quiet).lastSeenAt = t := by
      rw [join_eq]
    obtain ⟨hsim, hle, hwithin, hlast⟩ :=
      ih (h.join item t seq floor quiet) ((hnow d).trans (hnow c).symm).le (hnow c).le
    refine ⟨hsim, hle, hwithin, fun _ => ?_⟩
    cases items with
    | nil => exact congrArg lastSnapSeq (join_eq sdk c item t seq floor quiet)
    | cons _ _ => exact hlast (cons_ne_nil _ _)

theorem foldl_join_close (sdk : Sdk) (c : Conn) (items : List SnapshotItem) (seq : UInt64)
    (floor quiet : Duration) :
    (items.foldl (fun c item => c.join sdk item t seq floor quiet) c).close = c.close := by
  induction items generalizing c with
  | nil => rfl
  | cons item items ih =>
    rw [foldl_cons, ih, join_eq]

theorem sweep_both (h : Sim T owned c d) (hseen : d.lastSeenAt ≤ c.lastSeenAt)
    (hrecent : c.lastSeenAt ≤ T) (seq : UInt64)
    (hbacked : c.anonymous = false → c.sampled → c.lastSnapSeq < seq →
      c.close.rank ≠ rankSoft) :
    Related T (.left c owned (c.sweepEnding seq t)) (.left d owned (d.sweepEnding seq t)) := by
  unfold sweepEnding
  rw [h.sampled, h.seq]
  cases hleft : c.sampled && decide (c.lastSnapSeq < seq) with
  | false => exact .both h hseen hrecent
  | true =>
    rw [and_eq_true, decide_eq_true_iff] at hleft
    have hclose := h.close
    cases hanon : c.anonymous with
    | true =>
      have hnone (e : Ending) : left c owned (some e) = .gone [] :=
        congrArg Life.gone (closings_of_anonymous hanon e)
      rw [if_pos rfl]
      split <;> rw [hnone] <;> exact .lone
    | false =>
      have hback := hbacked hanon hleft.1 hleft.2
      rw [if_pos rfl, if_pos rfl]
      generalize c.close = a at hclose hback
      generalize d.close = b at hclose
      cases hclose with
      | same hrank =>
        have hsome : ¬ a.rank = rankNone := fun hc => absurd (hc ▸ hrank) (by decide)
        rw [if_neg hsome]
        exact of_same_ending rfl
      | soft hsoft => exact absurd hsoft hback
      | none => exact of_same_ending rfl

theorem snapshot_both (h : Sim T owned c d) (hseen : d.lastSeenAt ≤ c.lastSeenAt)
    (hrecent : c.lastSeenAt ≤ T) (hT : T ≤ t) (opts : Options) (snapSeq : UInt64)
    (items : List SnapshotItem)
    (hbacked : c.anonymous = false → c.sampled → c.lastSnapSeq < snapSeq + 1 →
      c.entries owned items = [] → c.close.rank ≠ rankSoft) :
    Related t ((Life.live c owned).polled sdk opts snapSeq items t)
      ((Life.live d owned).polled sdk opts snapSeq items t) := by
  dsimp only [Life.polled]
  rw [h.entries]
  obtain ⟨hsim, hle, hwithin, hlast⟩ := foldl_join sdk (h.mono hT) (c.entries owned items)
    (snapSeq + 1) opts.stallFloor opts.stallQuiet hseen (hrecent.trans hT)
  refine sweep_both hsim hle hwithin (snapSeq + 1) fun hanon hsampled hlt => ?_
  by_cases hnone : c.entries owned items = []
  · rw [hnone] at hanon hsampled hlt ⊢
    exact hbacked hanon hsampled hlt hnone
  · -- A connection that is in the table is in this poll.
    rw [hlast hnone] at hlt
    exact absurd hlt (UInt64.lt_irrefl _)

/-- **A poll.** -/
theorem snapshot (sdk : Sdk) {f g : Life} (h : Related T f g) {s : Snapshot} {clock : Time}
    (hT : T ≤ orClock s.at_ clock) (opts : Options) (snapSeq : UInt64) (x : UInt32)
    (hbacked : ∀ p ∈ f.open?, p.1.Backed opts snapSeq x p.2 (.snapshot s clock)) :
    Related (orClock s.at_ clock) (f.polled sdk opts snapSeq s.items (orClock s.at_ clock))
      (g.polled sdk opts snapSeq s.items (orClock s.at_ clock)) := by
  cases h with
  | absent => exact .absent
  | @ahead c hsim hanon hrecent =>
    have hnone : c.entries false s.items = [] := by simp [Conn.entries]
    have hkept : c.sweepEnding (snapSeq + 1) (orClock s.at_ clock) = none := by
      have hsampled : c.sampled = false := hsim.sampled.symm
      simp [sweepEnding, hsampled]
    dsimp only [Life.polled]
    rw [hnone, foldl_nil, hkept]
    exact .ahead (hsim.mono hT) hanon (hrecent.trans hT)
  | @both c d owned hsim hseen hrecent =>
    exact snapshot_both hsim hseen hrecent hT opts snapSeq s.items (hbacked (c, owned) rfl)
  | @pending closings d owned hrank hall =>
    dsimp only [Life.polled]
    have hclose := foldl_join_close (t := orClock s.at_ clock) sdk d (d.entries owned s.items)
      (snapSeq + 1) opts.stallFloor opts.stallQuiet
    rw [← hclose] at hrank hall
    unfold sweepEnding
    split
    · split
      · rename_i hc
        rw [hc] at hrank
        exact absurd hrank (by decide)
      · refine .ended fun k hk k' hk' => ?_
        rw [hall k hk, eq_of_mem_closings hk']
    · exact .pending hrank hall
  | ended h => exact .ended h
  | lone => exact .lone
  | lost => exact .lost

end Related

/-! ### The two runs -/

namespace Assembler

variable {a : Assembler} {x : UInt32}

/-- The open connection under a log id, and whether its source address leads to it. -/
def openAs (a : Assembler) (x : UInt32) : Option (Conn × Bool) :=
  (a.open_.lookup x).map fun r =>
    (a.conn r, decide (a.bySrc.lookup (a.conn r).srcKey = some r))

theorem HasLife.openAs {life : Life} (h : a.HasLife x life) (hc : a.Consistent) :
    a.openAs x = life.open? := by
  have hnone (hleft : ∀ r ∈ a.order, (a.conn r).record.logID ≠ x) : a.openAs x = none := by
    rcases hr : a.open_.lookup x with - | r
    · rw [Assembler.openAs, hr]
      rfl
    · exact absurd (hc.opened x r hr).2 (hleft r (hc.opened x r hr).1)
  cases h with
  | absent hnew =>
    exact hnone fun r hr hid => hnew (mem_logIDs.mpr ⟨r, hc.allocated r hr, hid⟩)
  | live hr hid =>
    have hopen := hc.found _ hr
    rw [hid] at hopen
    rw [Assembler.openAs, hopen]
    rfl
  | gone _ hleft _ => exact hnone hleft

theorem HasLife.used {life : Life} (h : a.HasLife x life) (hc : a.Consistent)
    (hne : life ≠ .absent) : x ∈ a.logIDs := by
  cases h with
  | absent _ => exact absurd rfl hne
  | live hr hid => exact mem_logIDs.mpr ⟨_, hc.allocated _ hr, hid⟩
  | gone hused _ _ => exact hused

end Assembler

/-- An assembler with the lines of trace level, and one without. -/
structure Levels where
  trace : AsmRun
  info : AsmRun

namespace Levels

variable {sdk : Sdk} {x : UInt32} {T : Time} {p : Levels}

def new (opts : Options) : Levels := ⟨⟨.new opts, []⟩, ⟨.new opts, []⟩⟩

def step (sdk : Sdk) (p : Levels) (f : Feed) : Levels where
  trace := p.trace.step sdk f.call
  info := if f.traceOnly then p.info else p.info.step sdk f.call

/-- What is fed ends no connection under the log id at trace level on cancels alone, and says
nothing new of one that has ended there only. -/
def Steady (sdk : Sdk) (x : UInt32) (p : Levels) (f : Feed) : Prop :=
  (∀ c ∈ p.trace.asm.openAs x, c.1.Backed p.trace.asm.opts p.trace.asm.snapSeq x c.2 f) ∧
    KeepsUp sdk p.trace.asm.opts p.trace.asm.snapSeq x (p.trace.asm.openAs x)
      (p.info.asm.openAs x) f

/-- What holds of the two runs up to the time `T`. -/
structure Inv (x : UInt32) (T : Time) (p : Levels) : Prop where
  trace : p.trace.Traced
  info : p.info.Traced
  opts : p.info.asm.opts = p.trace.asm.opts
  seq : p.info.asm.snapSeq = p.trace.asm.snapSeq
  lives : ∃ f g, p.trace.asm.HasLife x f ∧ p.info.asm.HasLife x g ∧ Related T f g

theorem Inv.new (opts : Options) (x : UInt32) (T : Time) : Inv x T (.new opts) :=
  ⟨.new opts, .new opts, rfl, rfl,
    .absent, .absent, .absent List.not_mem_nil, .absent List.not_mem_nil, .absent⟩

variable {clock : Time} {s : AsmRun}

theorem indexes_of_once (h : s.Traced) {life : Life} (hlife : s.asm.HasLife x life)
    (honce : (s.step sdk (.line l clock)).asm.logIDs.count x ≤ 1) (hof : l.of x)
    (hne : life ≠ .absent) : l.indexes = false := by
  obtain ⟨hlog, rfl⟩ := of_iff.mp hof
  by_contra hi
  have hev := (event_of_indexes (eq_true_of_not_eq_false hi)).1
  rw [show (s.step sdk (.line l clock)).asm.logIDs = _ from
    Assembler.line_logIDs sdk h.consistent l clock, if_pos (Assembler.target_accept hlog hev),
    count_append, count_singleton_self] at honce
  have := count_pos_iff.mpr (hlife.used h.consistent hne)
  omega

/-- A life that is what it should be, or a connection that was evicted. -/
theorem lives_of {f' g' : Life} {a b : Assembler} (hf : a.HasLife x f' ∨ a.HasLife x (.gone []))
    (hg : b.HasLife x g' ∨ b.HasLife x (.gone [])) (h : Related T f' g') :
    ∃ f g, a.HasLife x f ∧ b.HasLife x g ∧ Related T f g := by
  obtain hf | hf := hf
  · obtain hg | hg := hg
    · exact ⟨f', g', hf, hg, h⟩
    · exact ⟨f', .gone [], hf, hg, .lost⟩
  · obtain hg | hg := hg
    · exact ⟨.gone [], g', hf, hg, .lone⟩
    · exact ⟨.gone [], .gone [], hf, hg, .lone⟩

theorem Inv.line (h : Inv x T p) (hT : T ≤ orClock l.at_ clock)
    (hsteady : p.Steady sdk x (.line l clock))
    (htrace : (p.step sdk (.line l clock)).trace.asm.logIDs.count x ≤ 1)
    (hinfo : (p.step sdk (.line l clock)).info.asm.logIDs.count x ≤ 1) :
    Inv x (orClock l.at_ clock) (p.step sdk (.line l clock)) := by
  obtain ⟨f, g, hf, hg, hrel⟩ := h.lives
  obtain ⟨hbacked, hkeeps⟩ := hsteady
  rw [hf.openAs h.trace.consistent] at hbacked hkeeps
  rw [hg.openAs h.info.consistent] at hkeeps
  have hnext := hrel.line hT p.trace.asm.opts.nodeID p.trace.asm.opts p.trace.asm.snapSeq x
    (indexes_of_once h.trace hf htrace) hbacked hkeeps
  have hf' := line_life h.trace hf l clock htrace
  obtain ⟨hopts, hseq⟩ := Assembler.line_settings sdk h.trace.consistent l clock
  have htraced : (p.trace.step sdk (.line l clock)).Traced := h.trace.step _
  by_cases hl : l.traceOnly = true
  · have hsame : (p.step sdk (.line l clock)).info = p.info := if_pos hl
    rw [if_pos hl] at hnext
    refine ⟨htraced, ?_, ?_, ?_, ?_⟩ <;> rw [hsame]
    · exact h.info
    · exact h.opts.trans hopts.symm
    · exact h.seq.trans hseq.symm
    · exact lives_of hf' (.inl hg) hnext
  · have hstep : (p.step sdk (.line l clock)).info = p.info.step sdk (.line l clock) := if_neg hl
    rw [if_neg hl] at hnext
    rw [hstep] at hinfo
    have hg' := line_life h.info hg l clock hinfo
    rw [h.opts] at hg'
    obtain ⟨hopts', hseq'⟩ := Assembler.line_settings sdk h.info.consistent l clock
    refine ⟨htraced, ?_, ?_, ?_, ?_⟩ <;> rw [hstep]
    · exact h.info.step _
    · exact hopts'.trans (h.opts.trans hopts.symm)
    · exact hseq'.trans (h.seq.trans hseq.symm)
    · exact lives_of hf' hg' hnext

theorem Inv.tick (h : Inv x T p) {now clock : Time} (hT : T ≤ orClock now clock)
    (hsteady : p.Steady sdk x (.tick now clock))
    (htrace : (p.step sdk (.tick now clock)).trace.asm.logIDs.count x ≤ 1)
    (hinfo : (p.step sdk (.tick now clock)).info.asm.logIDs.count x ≤ 1) :
    Inv x (orClock now clock) (p.step sdk (.tick now clock)) := by
  obtain ⟨f, g, hf, hg, hrel⟩ := h.lives
  obtain ⟨hbacked, hkeeps⟩ := hsteady
  rw [hf.openAs h.trace.consistent] at hbacked hkeeps
  rw [hg.openAs h.info.consistent] at hkeeps
  have hnext := hrel.tick hT p.trace.asm.opts p.trace.asm.snapSeq x hbacked hkeeps
  have hf' : (p.trace.step sdk (.tick now clock)).asm.HasLife x _ :=
    tick_life h.trace hf now clock htrace
  have hg' : (p.info.step sdk (.tick now clock)).asm.HasLife x _ :=
    tick_life h.info hg now clock hinfo
  rw [h.opts, h.seq] at hg'
  have hswept := Assembler.swept_tick h.trace.consistent now clock
  have hswept' := Assembler.swept_tick h.info.consistent now clock
  have htraced : (p.trace.step sdk (.tick now clock)).Traced := h.trace.step _
  have htraced' : (p.info.step sdk (.tick now clock)).Traced := h.info.step _
  exact ⟨htraced, htraced', hswept'.opts.trans (h.opts.trans hswept.opts.symm),
    hswept'.snapSeq.trans (h.seq.trans hswept.snapSeq.symm), _, _, hf', hg', hnext⟩

theorem Inv.snapshot (h : Inv x T p) {s : Snapshot} (hT : T ≤ orClock s.at_ clock)
    (hsteady : p.Steady sdk x (.snapshot s clock))
    (htrace : (p.step sdk (.snapshot s clock)).trace.asm.logIDs.count x ≤ 1)
    (hinfo : (p.step sdk (.snapshot s clock)).info.asm.logIDs.count x ≤ 1) :
    Inv x (orClock s.at_ clock) (p.step sdk (.snapshot s clock)) := by
  obtain ⟨f, g, hf, hg, hrel⟩ := h.lives
  obtain ⟨hbacked, -⟩ := hsteady
  rw [hf.openAs h.trace.consistent] at hbacked
  have hnext := hrel.snapshot sdk hT p.trace.asm.opts p.trace.asm.snapSeq x hbacked
  have hf' : (p.trace.step sdk (.snapshot s clock)).asm.HasLife x _ :=
    snapshot_life h.trace hf s clock htrace
  have hg' : (p.info.step sdk (.snapshot s clock)).asm.HasLife x _ :=
    snapshot_life h.info hg s clock hinfo
  rw [h.opts, h.seq] at hg'
  obtain ⟨hopts, hseq⟩ := Assembler.snapshot_settings sdk h.trace.consistent s clock
  obtain ⟨hopts', hseq'⟩ := Assembler.snapshot_settings sdk h.info.consistent s clock
  have htraced : (p.trace.step sdk (.snapshot s clock)).Traced := h.trace.step _
  have htraced' : (p.info.step sdk (.snapshot s clock)).Traced := h.info.step _
  refine ⟨htraced, htraced', hopts'.trans (h.opts.trans hopts.symm), ?_, _, _, hf', hg', hnext⟩
  exact hseq'.trans ((congrArg (· + 1) h.seq).trans hseq.symm)

/-- **One step of both runs.** -/
theorem Inv.step (h : Inv x T p) {f : Feed} (hT : T ≤ f.time) (hsteady : p.Steady sdk x f)
    (htrace : (p.step sdk f).trace.asm.logIDs.count x ≤ 1)
    (hinfo : (p.step sdk f).info.asm.logIDs.count x ≤ 1) : Inv x f.time (p.step sdk f) := by
  cases f with
  | line l clock => exact h.line hT hsteady htrace hinfo
  | tick now clock => exact h.tick hT hsteady htrace hinfo
  | snapshot s clock => exact h.snapshot hT hsteady htrace hinfo

theorem run_eq (sdk : Sdk) (p : Levels) (feeds : List Feed) :
    Runs.run (step sdk) p feeds =
      ⟨p.trace.run sdk (feeds.map Feed.call),
        p.info.run sdk ((feeds.filter fun f => !f.traceOnly).map Feed.call)⟩ := by
  induction feeds generalizing p with
  | nil => rfl
  | cons f feeds ih =>
    change Runs.run (step sdk) (p.step sdk f) feeds = _
    rw [ih, filter_cons]
    unfold step
    cases f.traceOnly <;> rfl

theorem count_run_le (h : s.Traced) (calls : List AsmCall) :
    s.asm.logIDs.count x ≤ (s.run sdk calls).asm.logIDs.count x := by
  induction calls generalizing s with
  | nil => exact le_rfl
  | cons call calls ih =>
    obtain ⟨new, hnew⟩ := step_logIDs sdk h.consistent call
    refine le_trans ?_ (ih (h.step call))
    rw [hnew, count_append]
    exact Nat.le_add_right _ _

/-- **A whole run.**  What is fed comes in time, and the log id is used once in each run. -/
theorem Inv.run (h : Inv x T p) {feeds : List Feed} (hT : ∀ f ∈ feeds, T ≤ f.time)
    (hmono : (feeds.map Feed.time).Pairwise (· ≤ ·))
    (hsteady : Runs.Along (Levels.step sdk) (Steady sdk x) p feeds)
    (htrace : (Runs.run (Levels.step sdk) p feeds).trace.asm.logIDs.count x ≤ 1)
    (hinfo : (Runs.run (Levels.step sdk) p feeds).info.asm.logIDs.count x ≤ 1) :
    ∃ T', Inv x T' (Runs.run (Levels.step sdk) p feeds) := by
  induction feeds generalizing p T with
  | nil => exact ⟨T, h⟩
  | cons f feeds ih =>
    have hsplit : Runs.run (Levels.step sdk) p (f :: feeds) =
        Runs.run (Levels.step sdk) (p.step sdk f) feeds := rfl
    rw [map_cons, pairwise_cons] at hmono
    rw [hsplit] at htrace hinfo ⊢
    have htraced' : (p.step sdk f).info.Traced := by
      unfold Levels.step
      dsimp only
      split
      · exact h.info
      · exact h.info.step f.call
    have hnext : Inv x f.time (p.step sdk f) := by
      refine h.step (hT f mem_cons_self) hsteady.1 ?_ ?_
      · refine le_trans ?_ htrace
        rw [run_eq]
        exact count_run_le (h.trace.step f.call) _
      · refine le_trans ?_ hinfo
        rw [run_eq]
        exact count_run_le htraced' _
    exact ih hnext (fun f' hf' => hmono.1 _ (mem_map_of_mem hf')) hmono.2 hsteady.2 htrace
      hinfo

theorem closing_mem (h : s.Traced) {life : Life} (hlife : s.asm.HasLife x life)
    (honce : s.asm.logIDs.count x ≤ 1) {y : Nat × ConnRecord} (hy : y ∈ s.asm.finals)
    (hx : y.2.logID = x) : ∃ closings, life = .gone closings ∧ y.2.closing ∈ closings := by
  cases hlife with
  | absent hnew => exact absurd hx (h.no_finals_of_new hnew y hy)
  | live hr hid => exact absurd hx (h.no_finals_of_open honce hr hid y hy)
  | gone _ _ hall => exact ⟨_, rfl, hall y hy hx⟩

/-- **Records do not depend on the subscription level**, where the run at trace level ends no
connection on cancels alone and nothing new is said of one that it has ended and the other run
has not. Times do not decrease and a log id is used for one connection; whether connections are
evicted does not matter. -/
theorem close_level_independent (sdk : Sdk) (opts : Options) (feeds : List Feed) (x : UInt32)
    (hmono : (feeds.map Feed.time).Pairwise (· ≤ ·))
    (hsteady : Runs.Along (step sdk) (Steady sdk x) (.new opts) feeds) :
    let trace := run sdk ⟨.new opts, []⟩ (feeds.map Feed.call)
    let info := run sdk ⟨.new opts, []⟩
      ((feeds.filter fun f => !f.traceOnly).map Feed.call)
    trace.asm.logIDs.count x ≤ 1 → info.asm.logIDs.count x ≤ 1 →
      ∀ rec ∈ trace.finalRecords, ∀ rec' ∈ info.finalRecords, rec.logID = x → rec'.logID = x →
        rec.closeReason = rec'.closeReason ∧ rec.closeError = rec'.closeError := by
  intro trace info htrace hinfo rec hrec rec' hrec' hx hx'
  have hrun : Runs.run (step sdk) (.new opts) feeds = ⟨trace, info⟩ := run_eq sdk (.new opts) feeds
  have hinv : ∃ T, Inv x T ⟨trace, info⟩ := by
    rw [← hrun]
    refine (Inv.new opts x ((feeds.map Feed.time).headD 0)).run (fun f hf => ?_) hmono hsteady
      (hrun ▸ htrace) (hrun ▸ hinfo)
    cases feeds with
    | nil => cases hf
    | cons f' feeds =>
      obtain rfl | hf := mem_cons.mp hf
      · exact le_rfl
      · exact (pairwise_cons.mp hmono).1 _ (mem_map_of_mem hf)
  obtain ⟨T, h⟩ := hinv
  obtain ⟨f, g, hf, hg, hrel⟩ := h.lives
  rw [(told sdk opts _).records, mem_map] at hrec hrec'
  obtain ⟨y, hy, rfl⟩ := hrec
  obtain ⟨y', hy', rfl⟩ := hrec'
  obtain ⟨closings, rfl, hmem⟩ := closing_mem h.trace hf htrace hy hx
  obtain ⟨closings', rfl, hmem'⟩ := closing_mem h.info hg hinfo hy' hx'
  have hsame : y.2.closing = y'.2.closing := by
    cases hrel with
    | ended hall => exact hall _ hmem _ hmem'
    | lone => cases hmem
    | lost => cases hmem'
  exact ⟨congrArg Closing.reason hsame, congrArg Closing.err hsame⟩

instance (sdk : Sdk) (l : Line) (close : CloseCandidate) : Decidable (l.repeats sdk close) := by
  unfold Line.repeats
  split <;> infer_instance

instance (opts : Options) (snapSeq : UInt64) (x : UInt32) (c : Conn) (owned : Bool) (f : Feed) :
    Decidable (c.Backed opts snapSeq x owned f) := by
  cases f <;> unfold Conn.Backed <;> infer_instance

instance (sdk : Sdk) (opts : Options) (snapSeq : UInt64) (x : UInt32)
    (trace info : Option (Conn × Bool)) (f : Feed) :
    Decidable (KeepsUp sdk opts snapSeq x trace info f) := by
  cases f <;> unfold KeepsUp <;> infer_instance

instance (sdk : Sdk) (x : UInt32) : ∀ p f, Decidable (Steady sdk x p f) :=
  fun _ _ => inferInstanceAs (Decidable (_ ∧ _))

/-- A line of the connection 1, so many seconds after the zero time. -/
def logged (event : Event) (direction : Direction) (seconds : Int) : Feed :=
  .line { logID := 1, hasLogID := true, event, direction, srcIP := "192.0.2.1" } (seconds * second)

/-- Accepted, cancelled in one direction and finished in the other within the grace. -/
def finishedInTime : List Feed :=
  [logged .inboundFrom .none 1, logged .closed .upload 2, logged .finished .download 3,
    .tick 0 (6 * second)]

/-- The final records of a run with all of it, and with the cancels left out. -/
def recorded (feeds : List Feed) : List Closing × List Closing :=
  ((AsmRun.run asciiSdk ⟨.new {}, []⟩ (feeds.map Feed.call)).finalRecords.map ConnRecord.closing,
    (AsmRun.run asciiSdk ⟨.new {}, []⟩
      ((feeds.filter fun f => !f.traceOnly).map Feed.call)).finalRecords.map ConnRecord.closing)

theorem close_level_independent_inTime :
    recorded finishedInTime = ([⟨some .eof, ""⟩], [⟨some .eof, ""⟩]) ∧
      ∀ rec ∈ (run asciiSdk ⟨.new {}, []⟩ (finishedInTime.map Feed.call)).finalRecords,
        ∀ rec' ∈ (run asciiSdk ⟨.new {}, []⟩
          ((finishedInTime.filter fun f => !f.traceOnly).map Feed.call)).finalRecords,
          rec.logID = 1 → rec'.logID = 1 →
            rec.closeReason = rec'.closeReason ∧ rec.closeError = rec'.closeError :=
  ⟨by decide +kernel, close_level_independent asciiSdk {} finishedInTime 1 (by decide)
    (by decide +kernel) (by decide +kernel) (by decide +kernel)⟩

/-- The same connection, where the other direction finishes after the grace. -/
def finishedLate : List Feed :=
  [logged .inboundFrom .none 1, logged .closed .upload 2, .tick 0 (5 * second),
    logged .finished .download 6, .tick 0 (9 * second)]

/-- The cancel settles the connection at trace level before it finishes: it reads as canceled there
and as eof without the cancel. Nothing is evicted, and the log id is used once. -/
theorem canceled_at_trace :
    (finishedLate.map Feed.time).Pairwise (· ≤ ·) ∧
      (run asciiSdk ⟨.new {}, []⟩ (finishedLate.map Feed.call)).asm.logIDs = [1] ∧
      (run asciiSdk ⟨.new {}, []⟩ (finishedLate.map Feed.call)).asm.stats.dropped = 0 ∧
      recorded finishedLate = ([⟨some .canceled, ""⟩], [⟨some .eof, ""⟩]) := by
  refine ⟨by decide, by decide +kernel, by decide +kernel, by decide +kernel⟩

end Levels

end LatticeAgent.Trace
