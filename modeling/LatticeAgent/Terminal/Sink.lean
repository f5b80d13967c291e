import LatticeAgent.Go
import LatticeAgent.Lib.Runs

/-! # The terminal's replay ring and output sink

The output of a terminal session is one stream of bytes. `outputRing` keeps its end,
`streamSink` forwards it to the connection that is attached and, when a connection resumes,
replays to it what the ring still has beyond the browser's offset.

A connection is anything that can be told from another (`κ`). What becomes of a write to one is the
environment's answer: `none` if it succeeds, `some k` if it fails after `k` bytes. A `Session`
runs the sink and remembers, for each resume, what was delivered to its connection until it was
detached or a write failed (`Episode`).

Offsets are natural numbers: the 63 bits of the source hold more output than a session can
produce. -/

namespace LatticeAgent.Terminal

open List

/-! ### The ring -/

/-- `outputRing`: `headOff` is the absolute offset of the first byte of `buf`, `totalOff` the one
just past the last. -/
structure OutputRing where
  buf : Bytes := []
  capBytes : Nat
  headOff : Nat := 0
  totalOff : Nat := 0
deriving DecidableEq, Repr

namespace OutputRing

def append (r : OutputRing) (p : Bytes) : OutputRing :=
  let buf := r.buf ++ p
  let drop := buf.length - r.capBytes
  { r with totalOff := r.totalOff + p.length, buf := buf.drop drop, headOff := r.headOff + drop }

/-- The buffered output at or after an offset, and whether output before it is gone. -/
def tailFrom (r : OutputRing) (off : Nat) : Bytes × Bool :=
  if r.totalOff ≤ off then ([], false)
  else if off < r.headOff then (r.buf, true)
  else (r.buf.drop (off - r.headOff), false)

/-- The ring holds the end of a stream, as much as it has room for. -/
structure Holds (r : OutputRing) (out : Bytes) : Prop where
  total : r.totalOff = out.length
  head : r.headOff = out.length - r.capBytes
  buf : r.buf = out.drop r.headOff

variable {r : OutputRing} {out : Bytes}

theorem Holds.new (cap : Nat) : Holds { capBytes := cap } [] := by
  refine ⟨rfl, ?_, rfl⟩
  rw [length_nil, Nat.zero_sub]

theorem Holds.length (h : Holds r out) : r.buf.length = min out.length r.capBytes := by
  rw [h.buf, length_drop, h.head]
  omega

theorem Holds.append (h : Holds r out) (p : Bytes) : Holds (r.append p) (out ++ p) := by
  have hlength := h.length
  have hhead := h.head
  refine ⟨?_, ?_, ?_⟩
  · simp [OutputRing.append, h.total]
  · simp only [OutputRing.append, length_append]
    omega
  · have hsplit : r.buf ++ p = (out ++ p).drop r.headOff := by
      rw [drop_append_of_le_length (by omega), h.buf]
    simp only [OutputRing.append]
    rw [hsplit, drop_drop]

/-- A replay is the stream from the offset or from the head of the ring, whichever is later; there
is a gap exactly if the offset lies before the head. -/
theorem Holds.tailFrom (h : Holds r out) {off : Nat} (hoff : off ≤ out.length) :
    (r.tailFrom off).1 = out.drop (max off r.headOff) ∧
      ((r.tailFrom off).2 ↔ off < r.headOff) := by
  have hhead := h.head
  have htotal := h.total
  unfold OutputRing.tailFrom
  split
  · -- nothing lies beyond the offset, so it is the end of the stream
    refine ⟨(drop_of_length_le (by omega)).symm, ?_⟩
    simp only [Bool.false_eq_true, false_iff]
    omega
  · split
    · rename_i hlt
      rw [max_eq_right hlt.le]
      exact ⟨h.buf, iff_of_true rfl hlt⟩
    · rename_i hge
      refine ⟨?_, iff_of_false Bool.false_ne_true hge⟩
      rw [h.buf, drop_drop, max_eq_left (not_lt.mp hge),
        Nat.add_sub_cancel' (not_lt.mp hge)]

end OutputRing

/-! ### The sink -/

section sink
variable {κ : Type}

structure StreamSink (κ : Type) where
  ring : OutputRing
  conn : Option κ := none
deriving DecidableEq, Repr

/-- The bytes of one write that reach the other side. -/
def delivered (p : Bytes) : Option Nat → Bytes
  | none => p
  | some k => p.take k

theorem delivered_isPrefix (p : Bytes) (fail : Option Nat) : delivered p fail <+: p := by
  cases fail with
  | none => exact prefix_rfl
  | some k => exact take_prefix k p

/-- What a browser is sent that missed more output than the ring has. -/
def gapNotice : String :=
  "\r\n\x1b[33m[lattice] reconnected — earlier output was dropped\x1b[0m\r\n"

/-- What a `resumeOnce` did. -/
structure Resume (κ : Type) where
  sink : StreamSink κ
  /-- The value it returns. -/
  performed : Bool
  /-- `gapNotice` was written. -/
  notice : Bool := false
  /-- What was delivered of the replay. -/
  sent : Bytes := []
deriving DecidableEq, Repr

namespace StreamSink

variable [DecidableEq κ] (s : StreamSink κ)

/-- Output goes to the ring and to the attached connection, which a failure detaches. -/
def write (p : Bytes) (fail : Option Nat) : StreamSink κ :=
  { ring := s.ring.append p, conn := if fail.isSome then none else s.conn }

/-- `fail` is what becomes of the write of the replay; none is made if there is nothing to
replay. -/
def resumeOnce (c : κ) (off : Nat) (fail : Option Nat) : Resume κ :=
  if s.conn = some c then { sink := s, performed := false }
  else
    let tail := (s.ring.tailFrom off).1
    { sink := if tail ≠ [] ∧ fail.isSome then s else { s with conn := some c }
      performed := true
      notice := (s.ring.tailFrom off).2
      sent := delivered tail fail }

def detach (c : κ) : StreamSink κ := if s.conn = some c then { s with conn := none } else s

end StreamSink

/-! ### Sessions -/

/-- One resume of a connection: the offset it asked for and the head of the ring at that moment,
whether it was sent the gap notice, and what was delivered to it since. `until_` is the length of
the stream when it was detached or a write failed. -/
structure Episode (κ : Type) where
  conn : κ
  offset : Nat
  head : Nat
  noticed : Bool
  sent : Bytes
  failed : Bool := false
  until_ : Nat := 0
deriving DecidableEq, Repr

/-- Where the stream of an episode starts. -/
def Episode.start (ep : Episode κ) : Nat := max ep.offset ep.head

/-- A sink, everything written to it, the episode of the attached connection, and those that are
over. -/
structure Session (κ : Type) where
  sink : StreamSink κ
  out : Bytes := []
  live : Option (Episode κ) := none
  past : List (Episode κ) := []
deriving DecidableEq, Repr

inductive Move (κ : Type) where
  | write (p : Bytes) (fail : Option Nat)
  | resume (c : κ) (off : Nat) (fail : Option Nat)
  | detach (c : κ)
deriving DecidableEq, Repr

namespace Session

variable [DecidableEq κ] (s : Session κ)

/-- A session whose ring has room for so many bytes. -/
def new (cap : Nat) : Session κ := { sink := { ring := { capBytes := cap } } }

/-- The episode of the attached connection is over. -/
def ended : List (Episode κ) :=
  s.past ++ (s.live.map fun ep => { ep with until_ := s.out.length }).toList

/-- The attached connection has got the bytes of a write. -/
def forwarded (p : Bytes) : Option (Episode κ) :=
  s.live.map fun ep => { ep with sent := ep.sent ++ p }

/-- What a resume at this moment begins. -/
def episode (c : κ) (off : Nat) (fail : Option Nat) : Episode κ :=
  { conn := c, offset := off, head := s.sink.ring.headOff
    noticed := (s.sink.resumeOnce c off fail).notice
    sent := (s.sink.resumeOnce c off fail).sent }

def step (s : Session κ) : Move κ → Session κ
  | .write p none =>
    { s with sink := s.sink.write p none, out := s.out ++ p, live := s.forwarded p }
  | .write p (some k) =>
    { sink := s.sink.write p (some k), out := s.out ++ p, live := none
      past := s.past ++ ((s.forwarded (p.take k)).map fun ep =>
        { ep with failed := true, until_ := s.out.length + p.length }).toList }
  | .resume c off fail =>
    let r := s.sink.resumeOnce c off fail
    if r.performed = false then s
    else if r.sink.conn = some c then
      { s with sink := r.sink, live := some (s.episode c off fail), past := s.ended }
    else
      { s with past := s.past ++
          [{ s.episode c off fail with failed := true, until_ := s.out.length }] }
  | .detach c =>
    if s.sink.conn = some c then { s with sink := s.sink.detach c, live := none, past := s.ended }
    else s

/-- A whole run of a new session. -/
def run (cap : Nat) (moves : List (Move κ)) : Session κ := Runs.run step (new cap) moves

/-- A resume asks for an offset within the output so far. -/
def InRange (s : Session κ) : Move κ → Prop
  | .resume _ off _ => off ≤ s.out.length
  | _ => True

instance decidableInRange (s : Session κ) : ∀ m, Decidable (InRange s m)
  | .resume _ off _ => inferInstanceAs (Decidable (off ≤ s.out.length))
  | .write .. => .isTrue trivial
  | .detach _ => .isTrue trivial

end Session

/-! ### Exactness -/

/-- An episode that goes on: everything from its start to the end of the stream was delivered. -/
structure Episode.Whole (ep : Episode κ) (out : Bytes) : Prop where
  failed : ep.failed = false
  start_le : ep.start ≤ out.length
  sent : ep.sent = out.drop ep.start
  noticed : ep.noticed = true ↔ ep.offset < ep.head

/-- An episode that is over: what was delivered is the beginning of the stream from its start to
where it ended, and all of it if no write failed. -/
structure Episode.Exact (ep : Episode κ) (out : Bytes) : Prop where
  until_le : ep.until_ ≤ out.length
  sent : ep.sent <+: (out.take ep.until_).drop ep.start
  whole : ep.failed = false → ep.sent = (out.take ep.until_).drop ep.start
  noticed : ep.noticed = true ↔ ep.offset < ep.head

namespace Episode

variable {ep : Episode κ} {out : Bytes}

theorem Whole.forwarded (h : ep.Whole out) (p : Bytes) :
    Whole { ep with sent := ep.sent ++ p } (out ++ p) where
  failed := h.failed
  start_le := h.start_le.trans (by simp)
  sent := by
    change ep.sent ++ p = (out ++ p).drop ep.start
    rw [drop_append_of_le_length h.start_le, h.sent]
  noticed := h.noticed

/-- A write of which only the beginning is delivered ends the episode. -/
theorem Whole.failing (h : ep.Whole out) (p : Bytes) (k : Nat) :
    Exact { ep with sent := ep.sent ++ p.take k, failed := true, until_ := out.length + p.length }
      (out ++ p) where
  until_le := by simp
  sent := by
    change ep.sent ++ p.take k <+: ((out ++ p).take (out.length + p.length)).drop ep.start
    rw [← length_append, take_length, drop_append_of_le_length h.start_le, h.sent]
    exact (prefix_append_right_inj _).mpr ( take_prefix k p)
  whole hf := nomatch hf
  noticed := h.noticed

theorem Whole.ended (h : ep.Whole out) : Exact { ep with until_ := out.length } out where
  until_le := le_rfl
  sent := by
    rw [take_length]
    exact h.sent ▸ prefix_rfl
  whole _ := by
    rw [take_length]
    exact h.sent
  noticed := h.noticed

theorem Exact.append (h : ep.Exact out) (p : Bytes) : ep.Exact (out ++ p) := by
  have htake : (out ++ p).take ep.until_ = out.take ep.until_ :=
    take_append_of_le_length h.until_le
  refine ⟨h.until_le.trans (by simp), ?_, ?_, h.noticed⟩
  · rw [htake]
    exact h.sent
  · rw [htake]
    exact h.whole

theorem Exact.sent_le (h : ep.Exact out) : ep.sent <+: out.drop ep.start := by
  refine h.sent.trans ?_
  exact ( take_prefix ep.until_ out).drop ep.start

end Episode

namespace Session

variable {s : Session κ}

/-- What holds of a session: its ring holds the end of the stream, the live episode is that of the
attached connection and has delivered the stream, and the others delivered a part of it. -/
structure Inv (cap : Nat) (s : Session κ) : Prop where
  cap_eq : s.sink.ring.capBytes = cap
  ring : s.sink.ring.Holds s.out
  conn : s.live.map Episode.conn = s.sink.conn
  live : ∀ ep, s.live = some ep → ep.Whole s.out
  past : ∀ ep ∈ s.past, ep.Exact s.out

variable {cap : Nat}

theorem Inv.new (cap : Nat) : Inv cap (Session.new cap : Session κ) where
  cap_eq := rfl
  ring := OutputRing.Holds.new cap
  conn := rfl
  live _ h := by cases h
  past _ h := absurd h List.not_mem_nil

theorem Inv.ended (hs : Inv cap s) : ∀ ep ∈ s.ended, ep.Exact s.out := by
  intro ep hep
  rcases mem_append.mp hep with hep | hep
  · exact hs.past ep hep
  · obtain ⟨ep₀, hlive, rfl⟩ := Option.map_eq_some_iff.mp (Option.mem_toList.mp hep)
    exact (hs.live ep₀ hlive).ended

variable [DecidableEq κ]

theorem Inv.episode (hs : Inv cap s) {c : κ} (hc : s.sink.conn ≠ some c) {off : Nat}
    (hoff : off ≤ s.out.length) (fail : Option Nat) :
    (s.episode c off fail).start ≤ s.out.length ∧
      (s.episode c off fail).sent = delivered (s.out.drop (s.episode c off fail).start) fail ∧
      ((s.episode c off fail).noticed ↔
        (s.episode c off fail).offset < (s.episode c off fail).head) := by
  obtain ⟨htail, hgap⟩ := hs.ring.tailFrom hoff
  have hhead := hs.ring.head
  refine ⟨?_, ?_, ?_⟩
  · simp only [Session.episode, Episode.start]
    omega
  · simp only [Session.episode, StreamSink.resumeOnce, if_neg hc, htail]
    rfl
  · simp only [Session.episode, StreamSink.resumeOnce, if_neg hc]
    exact hgap

theorem Inv.step (hs : Inv cap s) (m : Move κ) (hm : InRange s m) : Inv cap (s.step m) := by
  cases m with
  | write p fail =>
    have hring := hs.ring.append p
    have hpast : ∀ ep ∈ s.past, ep.Exact (s.out ++ p) := fun ep hep => (hs.past ep hep).append p
    cases fail with
    | none =>
      refine ⟨hs.cap_eq, hring, ?_, fun ep hep => ?_, hpast⟩
      · refine Eq.trans ?_ hs.conn
        simp only [Session.step, forwarded, Option.map_map]
        rfl
      · obtain ⟨ep₀, hlive, rfl⟩ := Option.map_eq_some_iff.mp hep
        exact (hs.live ep₀ hlive).forwarded p
    | some k =>
      refine ⟨hs.cap_eq, hring, rfl, fun ep hep => (by cases hep), fun ep hep => ?_⟩
      rcases mem_append.mp hep with hep | hep
      · exact hpast ep hep
      · obtain ⟨ep₁, hforwarded, rfl⟩ := Option.map_eq_some_iff.mp (Option.mem_toList.mp hep)
        obtain ⟨ep₀, hlive, rfl⟩ := Option.map_eq_some_iff.mp hforwarded
        exact (hs.live ep₀ hlive).failing p k
  | resume c off fail =>
    by_cases hc : s.sink.conn = some c
    · simp only [Session.step, StreamSink.resumeOnce, if_pos hc]
      exact hs
    · obtain ⟨hstart, hsent, hnoticed⟩ := hs.episode hc hm fail
      simp only [Session.step, StreamSink.resumeOnce, if_neg hc, Bool.true_eq_false, if_false]
      by_cases hfail : (s.sink.ring.tailFrom off).1 ≠ [] ∧ fail.isSome = true
      · -- the replay failed, and nothing is attached or detached
        simp only [if_pos hfail, if_neg hc]
        refine ⟨hs.cap_eq, hs.ring, hs.conn, hs.live, fun ep hep => ?_⟩
        rcases mem_append.mp hep with hep | hep
        · exact hs.past ep hep
        · obtain rfl := mem_singleton.mp hep
          refine ⟨le_rfl, ?_, fun h => (by cases h), hnoticed⟩
          rw [take_length]
          exact hsent ▸ delivered_isPrefix _ fail
      · simp only [if_neg hfail, if_true]
        refine ⟨hs.cap_eq, hs.ring, rfl, fun ep hep => ?_, hs.ended⟩
        obtain rfl := Option.some.inj hep
        refine ⟨rfl, hstart, ?_, hnoticed⟩
        -- either nothing is to be replayed or the write succeeded
        rw [hsent]
        cases fail with
        | none => rfl
        | some k =>
          have htail : (s.sink.ring.tailFrom off).1 = [] := by
            by_contra h
            exact hfail ⟨h, rfl⟩
          rw [(hs.ring.tailFrom hm).1] at htail
          rw [show (s.episode c off (some k)).start = max off s.sink.ring.headOff from rfl, htail]
          exact take_nil
  | detach c =>
    simp only [Session.step]
    split
    · rename_i hc
      refine ⟨?_, ?_, ?_, fun ep hep => (by cases hep), hs.ended⟩
      · simp only [StreamSink.detach, if_pos hc]
        exact hs.cap_eq
      · simp only [StreamSink.detach, if_pos hc]
        exact hs.ring
      · simp only [StreamSink.detach, if_pos hc]
        rfl
    · exact hs

/-- **Replay is exact.**  However writes of any sizes, failures, resumes within the output and
detachments follow each other: the ring holds the last `min total cap` bytes between its two
offsets; what was delivered in any episode is a beginning of the stream from `max offset head` on,
and the notice was written exactly if the offset lay before the head; an episode without a failure
delivered all of the stream up to its end, and the attached connection all of it up to now. -/
theorem replay_exact (cap : Nat) (moves : List (Move κ))
    (hmoves : Runs.Along step InRange (new cap) moves) :
    (run cap moves).sink.ring.totalOff = (run cap moves).out.length ∧
    (run cap moves).sink.ring.headOff + min (run cap moves).out.length cap =
      (run cap moves).out.length ∧
    (run cap moves).sink.ring.buf =
      (run cap moves).out.rtake (min (run cap moves).out.length cap) ∧
    (∀ ep ∈ (run cap moves).past ++ (run cap moves).live.toList,
      ep.sent <+: (run cap moves).out.drop (max ep.offset ep.head) ∧
      (ep.noticed = true ↔ ep.offset < ep.head)) ∧
    (∀ ep ∈ (run cap moves).past, ep.failed = false →
      ep.sent = ((run cap moves).out.take ep.until_).drop (max ep.offset ep.head)) ∧
    (run cap moves).live.map Episode.conn = (run cap moves).sink.conn ∧
    ∀ ep ∈ (run cap moves).live, ep.sent = (run cap moves).out.drop (max ep.offset ep.head) := by
  have hs : Inv cap (run cap moves) :=
    Runs.invariant (Inv cap) (fun _ m h hm => h.step m hm) (Inv.new cap) hmoves
  have hhead : (run cap moves).sink.ring.headOff =
      (run cap moves).out.length - min (run cap moves).out.length cap := by
    rw [hs.ring.head, hs.cap_eq]
    omega
  refine ⟨hs.ring.total, by omega, ?_, fun ep hep => ?_, fun ep hep => (hs.past ep hep).whole, hs.conn,
    fun ep hep => (hs.live ep hep).sent⟩
  · rw [hs.ring.buf, hhead]
    rfl
  · rcases mem_append.mp hep with hep | hep
    · exact ⟨(hs.past ep hep).sent_le, (hs.past ep hep).noticed⟩
    · have hlive := hs.live ep (Option.mem_toList.mp hep)
      exact ⟨hlive.sent ▸ prefix_rfl, hlive.noticed⟩

/-- Two connections of a session with a ring of four bytes: the second one asks for output that is
gone, and its last write fails after one byte. -/
def sampleMoves : List (Move Bool) :=
  [.write [1, 2, 3] none, .resume false 0 none, .write [4, 5] none, .detach false,
    .resume true 0 none, .write [6, 7] (some 1)]

theorem replay_exact_gap :
    Runs.Along step InRange (new 4) sampleMoves ∧
    (run 4 sampleMoves).past.map (fun ep => (ep.noticed, ep.sent)) =
      [(false, [1, 2, 3, 4, 5]), (true, [2, 3, 4, 5, 6])] ∧
    ∀ ep ∈ (run 4 sampleMoves).past,
      ep.sent <+: (run 4 sampleMoves).out.drop (max ep.offset ep.head) := by
  have hmoves : Runs.Along step InRange (new 4) sampleMoves := by decide
  obtain ⟨-, -, -, hsent, -⟩ := replay_exact 4 sampleMoves hmoves
  refine ⟨hmoves, by decide, fun ep hep => (hsent ep (mem_append_left _ hep)).1⟩

end Session
end sink
end LatticeAgent.Terminal
