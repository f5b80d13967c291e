import LatticeAgent.Terminal.Sink

/-! # What a reconnecting browser renders

The two ends of a terminal session: the sink of the agent, and a browser that reports as its resume
offset how many bytes it has received on all connections so far. Connections follow each other;
each may break after any byte, and nothing more comes through it then. On each one the browser's
resume frame and the agent's two-second fallback may come in either order.

A byte of the output is known by its offset in the stream. `rendered` are the offsets of the bytes
the browser has rendered, in order; when it renders a byte beyond the next one, the connection that
carried it has skipped those between (`Skip`). -/

namespace LatticeAgent.Terminal

open List

/-- Bytes that a connection went past, and whether it had sent the gap notice. -/
structure Skip where
  conn : Nat
  first : Nat
  next : Nat
  noticed : Bool
deriving DecidableEq, Repr

/-- The sink with everything written to it, the current connection (`dead` once it broke), and the
browser. -/
structure Link where
  sink : StreamSink Nat
  out : Bytes := []
  conn : Nat := 0
  connected : Bool := false
  dead : Bool := false
  noticed : Bool := false
  received : Nat := 0
  rendered : List Nat := []
  skips : List Skip := []
deriving DecidableEq, Repr

/-- `die` is after how many bytes of what a move sends the connection breaks, if it does. -/
inductive LinkMove where
  | write (p : Bytes) (die : Option Nat)
  | connect
  /-- The browser's resume frame arrives. -/
  | frame (die : Option Nat)
  /-- The fallback fires. -/
  | fallback (die : Option Nat)
  | disconnect
deriving DecidableEq, Repr

namespace Link

def new (cap : Nat) : Link := { sink := { ring := { capBytes := cap } } }

/-- Just past the last byte of the stream that was rendered. -/
def position (w : Link) : Nat := w.rendered.foldr (fun i m => max (i + 1) m) 0

/-- After how many bytes a move that sends `n` of them fails, if it does. -/
def breaks (w : Link) (die : Option Nat) (n : Nat) : Option Nat :=
  (if w.dead then some 0 else die).filter (· < n)

/-- The browser gets `n` bytes of the stream from offset `a` on. -/
def deliver (w : Link) (a n : Nat) : Link :=
  if n = 0 then w
  else
    { w with
      received := w.received + n
      rendered := w.rendered ++ List.range' a n
      skips := if w.position < a then w.skips ++ [⟨w.conn, w.position, a, w.noticed⟩] else w.skips }

/-- The length of the notice that a resume from `off` writes first. -/
def noticeLength (w : Link) (off : Nat) : Nat :=
  if (w.sink.ring.tailFrom off).2 then (utf8 gapNotice).length else 0

/-- After how many bytes the notice and the replay of a resume from `off` fail, if they do. -/
def resumeBreaks (w : Link) (off : Nat) (die : Option Nat) : Option Nat :=
  w.breaks die (w.noticeLength off + (w.sink.ring.tailFrom off).1.length)

/-- What `resumeOnce` does for the current connection; its replay fails after the bytes that are
left when the notice is through. -/
def replay (w : Link) (off : Nat) (broken : Option Nat) : Resume Nat :=
  w.sink.resumeOnce w.conn off (broken.map (· - w.noticeLength off))

/-- A resume up to the delivery of the replay. -/
def resumed (w : Link) (off : Nat) (broken : Option Nat) : Link :=
  { w with
    sink := (w.replay off broken).sink
    dead := w.dead || broken.isSome
    noticed := w.noticed || (w.replay off broken).notice
    received := w.received + broken.elim (w.noticeLength off) (min (w.noticeLength off)) }

/-- `resumeOnce` for the current connection, and what the browser gets. -/
def resume (w : Link) (off : Nat) (die : Option Nat) : Link :=
  if w.sink.conn = some w.conn then w
  else
    (w.resumed off (w.resumeBreaks off die)).deliver (max off w.sink.ring.headOff)
      (w.replay off (w.resumeBreaks off die)).sent.length

/-- Output up to its delivery to the attached connection. -/
def wrote (w : Link) (p : Bytes) (broken : Option Nat) : Link :=
  { w with
    sink := w.sink.write p broken
    out := w.out ++ p
    dead := w.dead || broken.isSome }

/-- Output of the shell. -/
def write (w : Link) (p : Bytes) (die : Option Nat) : Link :=
  if w.sink.conn = some w.conn then
    (w.wrote p (w.breaks die p.length)).deliver w.out.length
      (delivered p (w.breaks die p.length)).length
  else w.wrote p none

def step (w : Link) : LinkMove → Link
  | .write p die => w.write p die
  | .connect =>
    if w.connected then w
    else { w with conn := w.conn + 1, connected := true, dead := false, noticed := false }
  | .frame die => if w.connected then w.resume w.received die else w
  | .fallback die => if w.connected then w.resume 0 die else w
  | .disconnect =>
    if w.connected then { w with sink := w.sink.detach w.conn, connected := false, dead := true }
    else w

/-- A whole run. -/
def run (cap : Nat) (moves : List LinkMove) : Link := Runs.run step (new cap) moves

/-- A replay from `off` goes on where the browser is, or both are before the head of the ring. -/
def GoesOn (w : Link) (off : Nat) : Prop :=
  off = w.position ∨ off < w.sink.ring.headOff ∧ w.position ≤ w.sink.ring.headOff

instance (w : Link) (off : Nat) : Decidable (w.GoesOn off) := inferInstanceAs (Decidable (_ ∨ _))

/-- A resume on a connection that works and is not attached yet goes on where the browser is. -/
def OnCourse (w : Link) : LinkMove → Prop
  | .frame _ => w.sink.conn ≠ some w.conn → w.dead = false → w.GoesOn w.received
  | .fallback _ => w.sink.conn ≠ some w.conn → w.dead = false → w.GoesOn 0
  | _ => True

instance decidableOnCourse (w : Link) : ∀ m, Decidable (w.OnCourse m)
  | .frame _ => inferInstanceAs (Decidable (_ → _))
  | .fallback _ => inferInstanceAs (Decidable (_ → _))
  | .write .. => .isTrue trivial
  | .connect => .isTrue trivial
  | .disconnect => .isTrue trivial

variable {w : Link}

theorem lt_position {i : Nat} (hi : i ∈ w.rendered) : i < w.position := by
  unfold position
  generalize w.rendered = l at hi ⊢
  induction l with
  | nil => exact absurd hi List.not_mem_nil
  | cons j l ih =>
    rw [foldr_cons]
    rcases mem_cons.mp hi with rfl | hi
    · omega
    · have := ih hi
      omega

theorem position_le {b : Nat} (h : ∀ i ∈ w.rendered, i < b) : w.position ≤ b := by
  unfold position
  generalize w.rendered = l at h ⊢
  induction l with
  | nil => exact Nat.zero_le b
  | cons j l ih =>
    rw [foldr_cons]
    have hj := h j mem_cons_self
    have := ih fun i hi => h i (mem_cons_of_mem j hi)
    omega

/-- The bytes are rendered in order, and those before the position that are not were skipped by a
connection that had sent the notice. -/
structure InOrder (w : Link) : Prop where
  sorted : w.rendered.Pairwise (· < ·)
  bound : w.position ≤ w.out.length
  covered : ∀ i < w.position, i ∈ w.rendered ∨ ∃ sk ∈ w.skips, sk.first ≤ i ∧ i < sk.next
  noticed : ∀ sk ∈ w.skips, sk.noticed = true

theorem InOrder.congr (hw : InOrder w) {v : Link} (hrendered : v.rendered = w.rendered)
    (hskips : v.skips = w.skips) (hout : w.out.length ≤ v.out.length) : InOrder v := by
  have hposition : v.position = w.position := by rw [position, hrendered, position]
  refine ⟨hrendered ▸ hw.sorted, hposition.le.trans (hw.bound.trans hout), ?_, hskips ▸ hw.noticed⟩
  rw [hposition, hrendered, hskips]
  exact hw.covered

theorem deliver_position {a n : Nat} (ha : w.position ≤ a) (hn : n ≠ 0) :
    (w.deliver a n).position = a + n := by
  have hrendered : (w.deliver a n).rendered = w.rendered ++ range' a n := by
    rw [deliver, if_neg hn]
  refine le_antisymm (position_le fun i hi => ?_) ?_
  · rw [hrendered] at hi
    rcases mem_append.mp hi with hi | hi
    · have := lt_position hi
      omega
    · have := mem_range'_1.mp hi
      omega
  · have : a + n - 1 < (w.deliver a n).position := by
      refine lt_position ?_
      rw [hrendered]
      exact mem_append_right _ (mem_range'_1.mpr (by omega))
    omega

/-- Bytes at or beyond the position, with no gap before them or under a notice. -/
theorem InOrder.deliver (hw : InOrder w) {a n : Nat} (ha : w.position ≤ a)
    (hend : a + n ≤ w.out.length) (hgap : n ≠ 0 → w.position = a ∨ w.noticed) :
    InOrder (w.deliver a n) := by
  by_cases hn : n = 0
  · rw [Link.deliver, if_pos hn]
    exact hw
  · have hposition := deliver_position ha hn
    have hrendered : (w.deliver a n).rendered = w.rendered ++ range' a n := by
      rw [Link.deliver, if_neg hn]
    have hskips : (w.deliver a n).skips =
        if w.position < a then w.skips ++ [⟨w.conn, w.position, a, w.noticed⟩] else w.skips := by
      rw [Link.deliver, if_neg hn]
    have hout : (w.deliver a n).out = w.out := by rw [Link.deliver, if_neg hn]
    refine ⟨?_, ?_, fun i hi => ?_, fun sk hsk => ?_⟩
    · rw [hrendered, pairwise_append]
      refine ⟨hw.sorted, pairwise_lt_range', fun i hi j hj => ?_⟩
      have := lt_position hi
      have := mem_range'_1.mp hj
      omega
    · rw [hposition, hout]
      exact hend
    · rw [hposition] at hi
      rw [hrendered, hskips]
      by_cases hlt : i < w.position
      · refine (hw.covered i hlt).imp (mem_append_left _) ?_
        rintro ⟨sk, hsk, h⟩
        refine ⟨sk, ?_, h⟩
        split
        · exact mem_append_left _ hsk
        · exact hsk
      · by_cases hia : a ≤ i
        · exact .inl (mem_append_right _ (mem_range'_1.mpr ⟨hia, hi⟩))
        · -- skipped now
          refine .inr ⟨⟨w.conn, w.position, a, w.noticed⟩, ?_, not_lt.mp hlt, not_le.mp hia⟩
          rw [if_pos (by omega)]
          exact mem_append_right _ (mem_singleton.mpr rfl)
    · rw [hskips] at hsk
      split at hsk
      · rename_i hlt
        rcases mem_append.mp hsk with hsk | hsk
        · exact hw.noticed sk hsk
        · obtain rfl := mem_singleton.mp hsk
          exact (hgap hn).resolve_left (by omega)
      · exact hw.noticed sk hsk

/-! ### The two ends together -/

/-- The ring holds the end of the stream, only the current connection can be attached, and an
attached one that works has brought the browser to the end of the stream, or has told it of the
gap. -/
structure Inv (w : Link) : Prop where
  ring : w.sink.ring.Holds w.out
  order : InOrder w
  conn : ∀ c, w.sink.conn = some c → c = w.conn ∧ w.connected = true
  attached : w.sink.conn = some w.conn → w.dead = false →
    w.position = w.out.length ∨ w.noticed = true

theorem Inv.new (cap : Nat) : Inv (Link.new cap) where
  ring := OutputRing.Holds.new cap
  order := ⟨List.Pairwise.nil, le_rfl, fun i h => absurd h (Nat.not_lt_zero i),
    fun sk h => absurd h List.not_mem_nil⟩
  conn c h := by cases h
  attached h := by cases h

theorem deliver_frame (a n : Nat) : (w.deliver a n).sink = w.sink ∧ (w.deliver a n).out = w.out ∧
    (w.deliver a n).conn = w.conn ∧ (w.deliver a n).connected = w.connected ∧
    (w.deliver a n).dead = w.dead ∧ (w.deliver a n).noticed = w.noticed := by
  unfold deliver
  split <;> exact ⟨rfl, rfl, rfl, rfl, rfl, rfl⟩

theorem Inv.deliver {a n : Nat} (hring : w.sink.ring.Holds w.out) (horder : InOrder w)
    (hconn : ∀ c, w.sink.conn = some c → c = w.conn ∧ w.connected) (ha : w.position ≤ a)
    (hend : a + n ≤ w.out.length) (hgap : n ≠ 0 → w.position = a ∨ w.noticed)
    (hwhole : w.dead = false → a + n = w.out.length ∧ (w.position = a ∨ w.noticed)) :
    Inv (w.deliver a n) := by
  obtain ⟨h₁, h₂, h₃, h₄, h₅, h₆⟩ := deliver_frame (w := w) a n
  refine ⟨h₁ ▸ h₂ ▸ hring, horder.deliver ha hend hgap, ?_, fun _ hdead => ?_⟩
  · rw [h₁, h₃, h₄]
    exact hconn
  · rw [h₅] at hdead
    obtain ⟨hall, hgap'⟩ := hwhole hdead
    rw [h₂, h₆]
    by_cases hn : n = 0
    · rw [Link.deliver, if_pos hn, ← hall, hn]
      exact hgap'
    · exact .inl ((deliver_position ha hn).trans hall)

theorem delivered_dead (hdead : w.dead) (die : Option Nat) (p : Bytes) (m k : Nat) :
    delivered p ((w.breaks die (m + p.length)).map (· - k)) = [] := by
  cases p with
  | nil => exact prefix_nil.mp (delivered_isPrefix [] _)
  | cons b p =>
    have hbreaks : w.breaks die (m + (b :: p).length) = some 0 := by
      simp only [breaks, hdead, if_true]
      exact Option.filter_some_pos (decide_eq_true (by rw [length_cons]; omega))
    rw [hbreaks]
    simp [delivered]

theorem Inv.write (hw : Inv w) (p : Bytes) (die : Option Nat) : Inv (w.write p die) := by
  have hlength (broken : Option Nat) : (w.wrote p broken).out.length = w.out.length + p.length :=
    length_append
  unfold Link.write
  split
  · rename_i hconn
    have hsent := (delivered_isPrefix p (w.breaks die p.length)).length_le
    refine Inv.deliver (hw.ring.append p) (hw.order.congr rfl rfl (by rw [hlength]; omega)) ?_
      hw.order.bound (by rw [hlength]; omega) (fun hn => ?_) fun hdead => ?_
    · intro c hc
      refine hw.conn c ?_
      simp only [wrote, StreamSink.write] at hc
      split at hc
      · cases hc
      · exact hc
    · -- a connection that carries a byte works
      refine hw.attached hconn ?_
      by_contra h
      have := delivered_dead (by simpa using h) die p 0 0
      simp only [Nat.zero_add, Nat.sub_zero, Option.map_id'] at this
      rw [this] at hn
      exact hn rfl
    · obtain ⟨hdead, hok⟩ := Bool.or_eq_false_iff.mp hdead
      have hnone : w.breaks die p.length = none := by simpa using hok
      rw [hlength, hnone]
      exact ⟨rfl, hw.attached hconn hdead⟩
  · rename_i hconn
    exact ⟨hw.ring.append p, hw.order.congr rfl rfl (by rw [hlength]; omega), hw.conn,
      fun hc => absurd hc hconn⟩

theorem Inv.resume (hw : Inv w) (hconnected : w.connected) (off : Nat) (die : Option Nat)
    (hgoes : w.sink.conn ≠ some w.conn → w.dead = false → w.GoesOn off) : Inv (w.resume off die) := by
  unfold Link.resume
  split
  · exact hw
  · rename_i hconn
    set broken := w.resumeBreaks off die with hbroken
    have hsink : (w.replay off broken).sink.ring = w.sink.ring := by
      simp only [replay, StreamSink.resumeOnce, if_neg hconn]
      split <;> rfl
    have hsent : (w.replay off broken).sent =
        delivered (w.sink.ring.tailFrom off).1 (broken.map (· - w.noticeLength off)) := by
      simp only [replay, StreamSink.resumeOnce, if_neg hconn]
    have hnotice : (w.replay off broken).notice = (w.sink.ring.tailFrom off).2 := by
      simp only [replay, StreamSink.resumeOnce, if_neg hconn]
    have hring : (w.resumed off broken).sink.ring.Holds (w.resumed off broken).out :=
      hsink.symm ▸ hw.ring
    have horder : InOrder (w.resumed off broken) := hw.order.congr rfl rfl le_rfl
    have hconn' : ∀ c, (w.resumed off broken).sink.conn = some c →
        c = (w.resumed off broken).conn ∧ (w.resumed off broken).connected = true := by
      intro c hc
      simp only [resumed, replay, StreamSink.resumeOnce, if_neg hconn] at hc
      split at hc
      · exact hw.conn c hc
      · exact ⟨(Option.some.inj hc).symm, hconnected⟩
    by_cases hdead : w.dead = true
    · -- nothing gets through
      have hnil : (w.replay off broken).sent = [] := by
        rw [hsent]
        exact delivered_dead hdead die _ _ _
      rw [hnil, length_nil, Link.deliver, if_pos rfl]
      refine ⟨hring, horder, hconn', fun _ h => ?_⟩
      simp [resumed, hdead] at h
    · have hgoes := hgoes hconn (by simpa using hdead)
      have hhead := hw.ring.head
      have hbound := hw.order.bound
      have hoff : off ≤ w.out.length := by
        rcases hgoes with h | h <;> omega
      obtain ⟨htail, hgap⟩ := hw.ring.tailFrom hoff
      have hstart : w.position ≤ max off w.sink.ring.headOff := by
        rcases hgoes with h | h <;> omega
      have htold : w.position = max off w.sink.ring.headOff ∨
          (w.resumed off broken).noticed = true := by
        by_cases hlt : off < w.sink.ring.headOff
        · right
          simp [resumed, hnotice, hgap.mpr hlt]
        · left
          rcases hgoes with h | h <;> omega
      have hlength : (w.sink.ring.tailFrom off).1.length =
          w.out.length - max off w.sink.ring.headOff := by
        rw [htail, length_drop]
      have hle := (delivered_isPrefix (w.sink.ring.tailFrom off).1
        (broken.map (· - w.noticeLength off))).length_le
      have hmax : max off w.sink.ring.headOff ≤ w.out.length := by
        rcases hgoes with h | h <;> omega
      refine Inv.deliver hring horder hconn' hstart ?_ (fun _ => htold) fun hok => ⟨?_, htold⟩
      · rw [hsent]
        change _ ≤ w.out.length
        omega
      · obtain ⟨-, hok⟩ := Bool.or_eq_false_iff.mp hok
        have hnone : broken = none := by simpa using hok
        rw [hsent, hnone]
        change _ + (w.sink.ring.tailFrom off).1.length = w.out.length
        omega

theorem Inv.step (hw : Inv w) (m : LinkMove) (hm : w.OnCourse m) : Inv (w.step m) := by
  cases m with
  | write p die => exact hw.write p die
  | connect =>
    simp only [Link.step]
    split
    · exact hw
    · rename_i hidle
      have hnone (c : Nat) : w.sink.conn ≠ some c := fun hc => hidle (hw.conn c hc).2
      exact ⟨hw.ring, hw.order.congr rfl rfl le_rfl, fun c hc => absurd hc (hnone c),
        fun hc => absurd hc (hnone _)⟩
  | frame die =>
    simp only [Link.step]
    split
    · exact hw.resume ‹_› w.received die hm
    · exact hw
  | fallback die =>
    simp only [Link.step]
    split
    · exact hw.resume ‹_› 0 die hm
    · exact hw
  | disconnect =>
    simp only [Link.step]
    split
    · have hnone (c : Nat) : (w.sink.detach w.conn).conn ≠ some c := by
        unfold StreamSink.detach
        split
        · nofun
        · rename_i hne
          exact fun hc => hne ((hw.conn c hc).1 ▸ hc)
      have hring : (w.sink.detach w.conn).ring = w.sink.ring := by
        unfold StreamSink.detach
        split <;> rfl
      exact ⟨hring.symm ▸ hw.ring, hw.order.congr rfl rfl le_rfl, fun c hc => absurd hc (hnone c),
        fun hc => absurd hc (hnone _)⟩
    · exact hw

/-- **Reconnecting neither repeats nor silently skips output**, in every run in which each replay
that can reach the browser goes on where the browser is, or begins at a head of the ring that both
lie before: every byte is rendered at most once, and each one that is missing was skipped by a
connection that had sent the gap notice. -/
theorem rendered_once (cap : Nat) (moves : List LinkMove)
    (hmoves : Runs.Along step OnCourse (new cap) moves) :
    (run cap moves).rendered.Nodup ∧
    ∀ i < (run cap moves).position, i ∉ (run cap moves).rendered →
      ∃ sk ∈ (run cap moves).skips, sk.first ≤ i ∧ i < sk.next ∧ sk.noticed = true := by
  have hw : Inv (run cap moves) :=
    Runs.invariant Inv (fun _ m h hm => h.step m hm) (Inv.new cap) hmoves
  refine ⟨hw.order.sorted.imp fun h => h.ne, fun i hi hmissing => ?_⟩
  obtain ⟨sk, hsk, h₁, h₂⟩ := (hw.order.covered i hi).resolve_left hmissing
  exact ⟨sk, hsk, h₁, h₂, hw.order.noticed sk hsk⟩

/-- The browser is away while more is written than the ring of two bytes has room for. -/
def gapMoves : List LinkMove :=
  [.connect, .frame none, .write [1] none, .disconnect, .write [2, 3, 4] none, .connect, .frame none]

theorem rendered_once_gap :
    Runs.Along step OnCourse (new 2) gapMoves ∧
    (run 2 gapMoves).rendered = [0, 2, 3] ∧ (run 2 gapMoves).rendered.Nodup ∧
    ∃ sk ∈ (run 2 gapMoves).skips, sk.first ≤ 1 ∧ 1 < sk.next ∧ sk.noticed = true := by
  have hmoves : Runs.Along step OnCourse (new 2) gapMoves := by decide +kernel
  have hrendered : (run 2 gapMoves).rendered = [0, 2, 3] := by decide +kernel
  obtain ⟨honce, hmissing⟩ := rendered_once 2 gapMoves hmoves
  refine ⟨hmoves, hrendered, honce, hmissing 1 ?_ ?_⟩
  · decide +kernel
  · rw [hrendered]
    decide

/-- A browser that has all the output reconnects, and its resume frame comes after the fallback:
it renders everything twice. And after a gap the browser has counted the notice as output, so the
next replay starts beyond the end of the stream and a byte is skipped without a word. -/
theorem replayed_from_zero :
    (run 8 [.write [1, 2] none, .connect, .frame none, .disconnect, .connect, .fallback none,
      .frame none]).rendered = [0, 1, 0, 1] ∧
    (run 2 (gapMoves ++ [.disconnect, .write [5] none, .connect, .frame none,
      .write [6] none])).rendered = [0, 2, 3, 5] ∧
    (run 2 (gapMoves ++ [.disconnect, .write [5] none, .connect, .frame none,
      .write [6] none])).skips = [⟨2, 1, 2, true⟩, ⟨3, 4, 5, false⟩] := by
  decide +kernel

end Link
end LatticeAgent.Terminal
