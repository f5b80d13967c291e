import LatticeAgent.Lib.Recent
import LatticeAgent.Trace.Verdicts

/-! # Lines that trail their connection

The assembler remembers the log ids of the connections that left, so that a line that comes after
the end of its connection does not bring it back. The memory is a ring of as many slots as there
may be open connections, and adding a log id that it holds changes nothing: an id that is used
again keeps the slot of its first use.

`departures` is what left in a run, and the done set is the memory of it (`run_remembers`). A
connection is not brought back until as many others have left as the memory has room for, if its
log id was not remembered from an earlier use (`trailing_lines_ignored`); without that it may be
(`reused_id_resurrected`). -/

namespace LatticeAgent.Trace

open List Recent

/-! ### The done set as a queue -/

namespace DoneSet

/-- The ids, the oldest first. -/
def queue (d : DoneSet) : List UInt32 := d.ring.rotate d.pos

/-- The slots are used one after the other and hold each id once. -/
structure Ordered (d : DoneSet) : Prop where
  pos : d.pos < d.cap
  length : d.ring.length ≤ d.cap
  early : d.ring.length < d.cap → d.pos = 0
  ids : ∀ id, id ∈ d.ids ↔ id ∈ d.ring
  nodup : d.ring.Nodup

variable {d : DoneSet}

theorem mem_queue {id : UInt32} : id ∈ d.queue ↔ id ∈ d.ring := mem_rotate

theorem length_queue : d.queue.length = d.ring.length := length_rotate ..

theorem Ordered.has (h : d.Ordered) (id : UInt32) : d.has id ↔ id ∈ d.queue := by
  rw [DoneSet.has, decide_eq_true_eq, h.ids, mem_queue]

theorem ordered_new (capacity : Int) : (new capacity).Ordered := by
  refine ⟨?_, Nat.zero_le _, fun _ => rfl, fun id => ?_, nodup_nil⟩
  · change 0 < if capacity < 1 then 1 else capacity.toNat
    split
    · exact Nat.one_pos
    · omega
  · simp [new]

theorem Ordered.reset (h : d.Ordered) : d.reset.Ordered := by
  refine ⟨lt_of_le_of_lt (Nat.zero_le _) h.pos, Nat.zero_le _, fun _ => rfl, fun id => ?_,
    nodup_nil⟩
  simp [DoneSet.reset]

theorem Ordered.queue_cons (h : d.Ordered) (hfull : d.cap ≤ d.ring.length) :
    d.queue = d.ring.getD d.pos 0 :: d.queue.tail := by
  have hlt : d.pos < d.ring.length := lt_of_lt_of_le h.pos hfull
  have hhead : d.queue.head? = some (d.ring.getD d.pos 0) := by
    rw [queue, head?_rotate hlt, getD_eq_getElem?_getD, getElem?_eq_getElem hlt]
    rfl
  exact (cons_head?_tail (Option.mem_def.mpr hhead)).symm

/-- **The done set is a memory of the ids added last.** -/
theorem Ordered.add (h : d.Ordered) (id : UInt32) :
    (d.add id).Ordered ∧ (d.add id).queue = Recent.add d.cap d.queue id := by
  by_cases hmem : id ∈ d.queue
  · have heq : d.add id = d := if_pos ((h.has id).mpr hmem)
    rw [heq, add_of_mem hmem]
    exact ⟨h, rfl⟩
  · have hnot : ¬ d.has id := fun hc => hmem ((h.has id).mp hc)
    by_cases hroom : d.ring.length < d.cap
    · have heq : d.add id = { d with ring := d.ring ++ [id], ids := insert id d.ids } := by
        rw [DoneSet.add, if_neg hnot, if_pos hroom]
      have hpos := h.early hroom
      rw [heq, add_of_lt hmem (length_queue ▸ hroom)]
      refine ⟨⟨h.pos, ?_, fun _ => hpos, fun x => ?_, ?_⟩, ?_⟩
      · rw [length_append, length_singleton]
        exact hroom
      · simp [h.ids, or_comm]
      · exact h.nodup.append (nodup_singleton id) (by simpa [mem_queue] using hmem)
      · simp [queue, hpos]
    · have hfull : d.cap ≤ d.ring.length := Nat.le_of_not_lt hroom
      have hlt : d.pos < d.ring.length := lt_of_lt_of_le h.pos hfull
      have hlen : d.ring.length = d.cap := le_antisymm h.length hfull
      have heq : d.add id =
          { d with
            ids := insert id (d.ids.erase (d.ring.getD d.pos 0))
            ring := d.ring.set d.pos id
            pos := (d.pos + 1) % d.cap } := by
        rw [DoneSet.add, if_neg hnot, if_neg hroom]
      have hqueue : (d.add id).queue = d.queue.tail ++ [id] := by
        rw [heq, queue, ← hlen]
        exact rotate_set hlt id
      have hcons := h.queue_cons hfull
      have hnodup : d.queue.Nodup := nodup_rotate.mpr h.nodup
      refine ⟨⟨?_, ?_, fun hc => ?_, fun x => ?_, ?_⟩, ?_⟩
      · rw [heq]
        exact Nat.mod_lt _ (lt_of_le_of_lt (Nat.zero_le _) h.pos)
      · rw [heq]
        exact (length_set ..).le.trans h.length
      · rw [heq] at hc
        simp only [length_set] at hc
        omega
      · -- What is overwritten is the oldest, and nothing else goes.
        rw [← mem_queue, hqueue, heq]
        rw [hcons] at hnodup
        have hmem' : x ∈ d.ring ↔ x = d.ring.getD d.pos 0 ∨ x ∈ d.queue.tail := by
          rw [← mem_queue, hcons, mem_cons, tail_cons]
        have hold := (nodup_cons.mp hnodup).1
        simp only [Finset.mem_insert, Finset.mem_erase, h.ids, hmem', mem_append,
          mem_singleton]
        constructor
        · rintro (rfl | ⟨hne, hx⟩)
          · exact .inr rfl
          · exact .inl (hx.resolve_left hne)
        · rintro (hx | rfl)
          · exact .inr ⟨fun hc => hold (hc ▸ hx), .inr hx⟩
          · exact .inl rfl
      · rw [← nodup_rotate (n := (d.add id).pos)]
        change (d.add id).queue.Nodup
        rw [hqueue]
        exact (hnodup.sublist (tail_sublist _)).append (nodup_singleton id)
          (by simpa using fun hc => hmem (mem_of_mem_tail hc))
      · rw [hqueue, add_of_full hmem (length_queue.trans hlen)
          (lt_of_le_of_lt (Nat.zero_le _) h.pos)]

theorem add_cap (d : DoneSet) (id : UInt32) : (d.add id).cap = d.cap := by
  unfold DoneSet.add
  split
  · rfl
  · split <;> rfl

end DoneSet

/-! ### Departures -/

/-- What a run shows of the connections that leave. -/
inductive Departure where
  /-- A connection with this log id is finished or evicted. -/
  | left (logID : UInt32)
  /-- The core has restarted. -/
  | restarted
deriving DecidableEq, Repr

/-- The log id of the connection that left. -/
def Departure.logID? : Departure → Option UInt32
  | .left id => some id
  | .restarted => none

/-- What is remembered of departures. -/
def remember (cap : Nat) (q : List UInt32) : Departure → List UInt32
  | .left id => Recent.add cap q id
  | .restarted => []

/-- What is remembered of a history. -/
def remembered (cap : Nat) (history : List Departure) : List UInt32 :=
  history.foldl (remember cap) []

namespace AsmRun

/-- The departures of a call; the connections keep their log ids. -/
def departs (sdk : Sdk) (s : AsmRun) (call : AsmCall) : List Departure :=
  ((s.asm.leaving sdk call).map fun r => .left ((s.step sdk call).asm.conn r).record.logID) ++
    match call with
    | .coreRestart .. => [.restarted]
    | _ => []

/-- The departures of a run. -/
def departures (sdk : Sdk) : AsmRun → List AsmCall → List Departure
  | _, [] => []
  | s, call :: calls => s.departs sdk call ++ departures sdk (s.step sdk call) calls

open Assembler

variable {sdk : Sdk} {s : AsmRun}

theorem foldl_add {d : DoneSet} (h : d.Ordered) (ids : List UInt32) :
    (ids.foldl DoneSet.add d).Ordered ∧ (ids.foldl DoneSet.add d).cap = d.cap ∧
      (ids.foldl DoneSet.add d).queue = ids.foldl (Recent.add d.cap) d.queue := by
  induction ids generalizing d with
  | nil => exact ⟨h, rfl, rfl⟩
  | cons id ids ih =>
    obtain ⟨hord, hqueue⟩ := h.add id
    obtain ⟨hord', hcap', hqueue'⟩ := ih hord
    refine ⟨hord', hcap'.trans (d.add_cap id), ?_⟩
    rw [foldl_cons, foldl_cons, hqueue', d.add_cap, hqueue]

/-- The done set is the memory of the departures. -/
structure Remembers (cap : Nat) (history : List Departure) (d : DoneSet) : Prop where
  ordered : d.Ordered
  room : d.cap = cap
  queue : d.queue = remembered cap history

variable {history : List Departure}

theorem Remembers.step {cap : Nat} (h : s.asm.Books s.drained)
    (hd : Remembers cap history s.asm.done) (call : AsmCall) :
    Remembers cap (history ++ s.departs sdk call) (s.step sdk call).asm.done := by
  obtain ⟨done, hleaves, hdone⟩ := step_leaves sdk h.consistent call
  have hids : done = ((s.asm.leaving sdk call).map fun r =>
      ((s.step sdk call).asm.conn r).record.logID).foldl DoneSet.add s.asm.done := by
    rw [foldl_map]
    exact hleaves.done
  obtain ⟨hord, hcap, hqueue⟩ := foldl_add hd.ordered
    ((s.asm.leaving sdk call).map fun r => ((s.step sdk call).asm.conn r).record.logID)
  rw [← hids] at hord hcap hqueue
  have hleft : remembered cap (history ++ (s.asm.leaving sdk call).map fun r =>
      .left ((s.step sdk call).asm.conn r).record.logID) = done.queue := by
    rw [hqueue, hd.room, hd.queue, remembered, foldl_append, foldl_map, foldl_map]
    rfl
  unfold departs
  rw [hdone]
  cases call with
  | coreRestart generation at_ clock =>
    refine ⟨hord.reset, hcap.trans hd.room, ?_⟩
    rw [← append_assoc, remembered, foldl_append]
    rfl
  | _ =>
    rw [append_nil]
    exact ⟨hord, hcap.trans hd.room, hleft.symm⟩

theorem run_remembers (sdk : Sdk) {cap : Nat} (h : s.asm.Books s.drained)
    (hd : Remembers cap history s.asm.done) (calls : List AsmCall) :
    Remembers cap (history ++ departures sdk s calls) (s.run sdk calls).asm.done := by
  induction calls generalizing s history with
  | nil =>
    rw [departures, append_nil]
    exact hd
  | cons call calls ih =>
    rw [departures, ← append_assoc]
    exact ih (step_books sdk h call) (hd.step h call)

theorem new_remembers (opts : Options) :
    Remembers (Assembler.new opts).opts.maxOpen.toNat [] (Assembler.new opts).done := by
  have hpos : 0 < (Assembler.new opts).opts.maxOpen := (Books.new opts).consistent.positive
  refine ⟨DoneSet.ordered_new _, ?_, rfl⟩
  change (if (Assembler.new opts).opts.maxOpen < 1 then 1 else _) = _
  rw [if_neg (by omega)]
  rfl

/-- Only a restart empties the memory; without one, what is remembered is added to. -/
theorem foldl_remember {cap : Nat} (h : .restarted ∉ history) (q : List UInt32) :
    history.foldl (remember cap) q =
      (history.filterMap Departure.logID?).foldl (Recent.add cap) q := by
  induction history generalizing q with
  | nil => rfl
  | cons d history ih =>
    have hrest := ih fun hc => h (mem_cons_of_mem _ hc)
    cases d with
    | left id => exact hrest _
    | restarted => exact absurd mem_cons_self h

theorem length_remembered (cap : Nat) (history : List Departure) :
    (remembered cap history).length ≤ cap := by
  induction history using reverseRecOn with
  | nil => exact Nat.zero_le _
  | append_singleton history d ih =>
    rw [remembered, foldl_append]
    cases d with
    | left id => exact length_add_le ih id
    | restarted => exact Nat.zero_le _

/-- A line of a log id that is remembered opens no connection, unless it is an accept line. -/
theorem line_of_remembered {a : Assembler} {drained : List ConnRecord} (h : Books drained a)
    {l : Line} (hdone : a.done.has l.logID) (hev : l.event ≠ .inboundFrom) (clock : Time) :
    (a.line sdk l clock).conns.length = a.conns.length := by
  rw [(line_conn sdk h.consistent l clock).1, if_neg, Nat.add_zero]
  intro htarget
  unfold target at htarget
  split at htarget
  · cases htarget
  · split at htarget
    · rename_i r hr
      have hlt := h.consistent.allocated r (h.consistent.opened _ r hr).1
      exact Nat.ne_of_lt hlt (Option.some.inj htarget)
    · rw [if_pos ⟨hev, hdone⟩] at htarget
      cases htarget

/-- **Trailing lines never resurrect a connection.**  After a connection has left, no line of its
log id but an accept line creates one until as many connections with other ids have left as may
be open, or the core has restarted; if the id was not remembered from before when the connection
left, or was the last one remembered. -/
theorem trailing_lines_ignored (sdk : Sdk) (opts : Options) (calls : List AsmCall)
    (pre post : List Departure) (x : UInt32)
    (hsplit : departures sdk ⟨.new opts, []⟩ calls = pre ++ .left x :: post)
    (hsince : .restarted ∉ post)
    (hfew : (post.filterMap Departure.logID?).countP (· ≠ x) <
      (Assembler.new opts).opts.maxOpen)
    (hfresh : x ∉ remembered (Assembler.new opts).opts.maxOpen.toNat pre ∨
      (remembered (Assembler.new opts).opts.maxOpen.toNat pre).getLast? = some x)
    {l : Line} (hid : l.logID = x) (hev : l.event ≠ .inboundFrom) (clock : Time) :
    let a := (run sdk ⟨.new opts, []⟩ calls).asm
    (a.line sdk l clock).conns.length = a.conns.length := by
  intro a
  have hb : a.Books _ := run_books sdk (s := ⟨.new opts, []⟩) (.new opts) calls
  have hpos : 0 < (Assembler.new opts).opts.maxOpen := (Books.new opts).consistent.positive
  have hmem := run_remembers sdk (s := ⟨.new opts, []⟩) (.new opts) (new_remembers opts) calls
  generalize hcap : (Assembler.new opts).opts.maxOpen.toNat = cap at hmem hfresh
  -- When the connection leaves, its id becomes or is the newest.
  have hnewest : Recent.Behind 0 x (Recent.add cap (remembered cap pre) x) := by
    obtain hnot | hlast := hfresh
    · exact behind_add_self hnot (by omega)
    · rw [add_of_mem (mem_of_getLast? hlast)]
      exact behind_of_getLast? hlast
  have hqueue : a.done.queue = (post.filterMap Departure.logID?).foldl (Recent.add cap)
      (Recent.add cap (remembered cap pre) x) := by
    rw [hmem.queue, nil_append, hsplit, remembered, foldl_append, foldl_cons,
      foldl_remember hsince]
    rfl
  have hstays := hnewest.foldl (length_add_le (length_remembered cap pre) x)
    (post.filterMap Departure.logID?) (by omega)
  rw [← hqueue] at hstays
  refine line_of_remembered hb ?_ hev clock
  rw [hid]
  exact (hmem.ordered.has x).mpr hstays.mem

/-- A whole connection: accepted and closed. -/
def oneShot (logID : UInt32) : List AsmCall :=
  [.line { logID, hasLogID := true, event := .inboundFrom, srcIP := "192.0.2.1" } second,
    .line { logID, hasLogID := true, event := .connectionClosed } second]

/-- A routing line, as it may trail a connection. -/
def trailingLine (logID : UInt32) : Line where
  logID := logID
  hasLogID := true
  event := .ruleMatch

theorem trailing_lines_ignored_once :
    ((run asciiSdk ⟨.new { maxOpen := 2 }, []⟩ (oneShot 1 ++ oneShot 2)).asm.line asciiSdk
      (trailingLine 1) second).conns.length =
        (run asciiSdk ⟨.new { maxOpen := 2 }, []⟩ (oneShot 1 ++ oneShot 2)).asm.conns.length :=
  trailing_lines_ignored asciiSdk { maxOpen := 2 } (oneShot 1 ++ oneShot 2) [] [.left 2] 1
    (by decide +kernel) (by decide) (by decide) (.inl (by decide)) rfl
    (by decide) second

/-- With room for two ids: the id is used again while it is the oldest one remembered, so that one
other connection is enough to forget it, and a routing line brings the connection back. -/
theorem reused_id_resurrected :
    let calls := oneShot 1 ++ oneShot 2 ++ oneShot 1 ++ oneShot 3
    let a := (run asciiSdk ⟨.new { maxOpen := 2 }, []⟩ calls).asm
    departures asciiSdk ⟨.new { maxOpen := 2 }, []⟩ calls =
        [.left 1, .left 2, .left 1, .left 3] ∧
      (a.line asciiSdk (trailingLine 1) second).conns.length = a.conns.length + 1 := by
  decide +kernel

end AsmRun

end LatticeAgent.Trace
