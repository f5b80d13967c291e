import LatticeAgent.Beacon.Responder

/-! # The beacon's socket and its reported state agree

The invariant of a `Node` has two halves: what the current socket says about all that were opened
(`Sockets`), and what the reported state says about the current socket (`Reports`). Closing the
current socket keeps the first half and breaks the second until the state is set, so each section
is read as closing or opening followed by one `set`.

The clock plays no part: everything holds for any readings, not only non-decreasing ones. -/

namespace LatticeAgent.Beacon

open List
namespace Node

variable {wire : Wire} {n : Node}

/-- The current socket is the only open one, and its `quit` channel is still open. -/
structure Sockets (n : Node) : Prop where
  cur_open : ∀ i, n.resp.cur = some i →
    ∃ s, n.sockets[i]? = some s ∧ s.isOpen = true ∧ s.quits = 0
  count : n.sockets.countP Socket.isOpen = if n.resp.cur.isSome then 1 else 0
  quits : ∀ s ∈ n.sockets, s.quits ≤ 1

/-- Only a listening responder reports an epoch and sources. -/
def Blank (n : Node) : Prop := n.resp.state ≠ .listening → n.resp.epoch = 0 ∧ n.resp.sources = 0

/-- The responder reports a socket exactly if it has one. -/
structure Reports (n : Node) : Prop where
  listening : n.resp.state = .listening ↔ n.resp.cur.isSome = true
  blank : Blank n

/-! ### Sockets -/

theorem Sockets.congr (hs : Sockets n) {m : Node} (hcur : m.resp.cur = n.resp.cur)
    (hsockets : m.sockets = n.sockets) : Sockets m := by
  obtain ⟨h₁, h₂, h₃⟩ := hs
  exact ⟨by rwa [hcur, hsockets], by rwa [hcur, hsockets], by rwa [hsockets]⟩

theorem modify_eq_set {sockets : List Socket} {i : Nat} {s : Socket} (hi : sockets[i]? = some s)
    (f : Socket → Socket) : sockets.modify i f = sockets.set i (f s) := by
  refine ext_getElem? fun j => ?_
  rw [getElem?_modify, getElem?_set]
  split
  · rename_i h
    subst h
    rw [hi, if_pos (List.getElem?_eq_some_iff.mp hi).1]
    rfl
  · simp

@[simp] theorem closeLocked_cur (e : Answers) : (n.closeLocked e).resp.cur = none := by
  unfold closeLocked
  cases h : n.resp.cur
  · exact h
  · rfl

theorem closeLocked_of_none (h : n.resp.cur = none) (e : Answers) : n.closeLocked e = n := by
  unfold closeLocked
  rw [h]

theorem closeLocked_frame (e : Answers) :
    (n.closeLocked e).resp.state = n.resp.state ∧ (n.closeLocked e).resp.epoch = n.resp.epoch ∧
      (n.closeLocked e).resp.sources = n.resp.sources ∧
      (n.closeLocked e).resp.noBeacon = n.resp.noBeacon ∧
      (n.closeLocked e).resp.closed = n.resp.closed ∧
      (n.closeLocked e).resp.circuitUntil = n.resp.circuitUntil ∧
      (n.closeLocked e).listens = n.listens := by
  unfold closeLocked
  cases n.resp.cur <;> exact ⟨rfl, rfl, rfl, rfl, rfl, rfl, rfl⟩

theorem Blank.closeLocked (hb : Blank n) (e : Answers) : Blank (n.closeLocked e) := by
  obtain ⟨hstate, hepoch, hsources, -⟩ := closeLocked_frame (n := n) e
  unfold Blank
  rwa [hstate, hepoch, hsources]

theorem Sockets.closeLocked (hs : Sockets n) (e : Answers) : Sockets (n.closeLocked e) := by
  unfold Node.closeLocked
  cases hcur : n.resp.cur with
  | none => exact hs
  | some sk =>
    obtain ⟨s, hi, hopen, hquits⟩ := hs.cur_open sk hcur
    obtain ⟨hlt, hget⟩ := List.getElem?_eq_some_iff.mp hi
    have hcount := hs.count
    simp only [hcur, Option.isSome_some, if_true] at hcount
    refine ⟨fun i h => (by cases h), ?_, ?_⟩
    · -- the one open socket is the one that is closed
      simp only [modify_eq_set hi, countP_set hlt, hget, hopen, hcount, Socket.shut]
      rfl
    · simp only [modify_eq_set hi]
      intro t ht
      rcases mem_or_eq_of_mem_set ht with ht | rfl
      · exact hs.quits t ht
      · rw [Socket.shut, hquits]

theorem modify_last (sockets : List Socket) (s : Socket) (f : Socket → Socket) :
    (sockets ++ [s]).modify sockets.length f = sockets ++ [f s] := by
  rw [modify_eq_set (getElem?_concat_length ..)]
  simp

section

variable (hs : Sockets n) (hcur : n.resp.cur = none)

include hs hcur

theorem Sockets.append {m : Node} {s : Socket} (hsockets : m.sockets = n.sockets ++ [s])
    (hquits : s.quits = 0) (hnew : m.resp.cur = if s.isOpen then some n.sockets.length else none) :
    Sockets m := by
  have hcount := hs.count
  rw [hcur] at hcount
  refine ⟨fun i hi => ?_, ?_, ?_⟩
  · rw [hnew] at hi
    split at hi
    · obtain rfl := Option.some.inj hi
      rw [hsockets, getElem?_concat_length]
      exact ⟨s, rfl, ‹_›, hquits⟩
    · cases hi
  · rw [hsockets, hnew, countP_append, hcount, countP_singleton]
    cases s.isOpen <;> rfl
  · rw [hsockets]
    intro t ht
    rcases mem_append.mp ht with ht | ht
    · exact hs.quits t ht
    · rw [mem_singleton.mp ht, hquits]
      exact Nat.zero_le 1

theorem Sockets.closeNew (addr : AddrPort) (e : Answers) (hlisten : e.listen = none) :
    Sockets (n.listenAt addr e).closeNew := by
  refine hs.append hcur (s := { addr := addr, isOpen := false }) ?_ rfl hcur
  simp [Node.closeNew, listenAt, hlisten, modify_last]

theorem Sockets.serveNew (addr : AddrPort) (e : Answers) (hlisten : e.listen = none) :
    Sockets (n.listenAt addr e).serveNew := by
  refine hs.append hcur (s := { addr := addr, serves := true }) ?_ rfl ?_
  · simp [Node.serveNew, listenAt, hlisten, modify_last]
  · simp [Node.serveNew, listenAt, hlisten]

end

variable {state : AgentState}

theorem set_reports (hcur : n.resp.cur = none) (hstate : state ≠ .listening)
    (addr : Option AddrPort) (text : String) : Reports (n.set state addr text) := by
  refine ⟨?_, fun _ => ?_⟩
  · simp [Node.set, Responder.setLocked, hstate, hcur]
  · simp [Node.set, Responder.setLocked, hstate]

theorem listening_reports (hcur : n.resp.cur.isSome) (addr : AddrPort) (table : Nat × Nat) :
    Reports (n.listening addr table) :=
  ⟨⟨fun _ => hcur, fun _ => rfl⟩, fun h => absurd rfl h⟩

theorem Blank.reports (hb : Blank n) (hcur : n.resp.cur = none)
    (hstate : n.resp.state ≠ .listening) : Reports n :=
  ⟨⟨fun h => absurd h hstate, fun h => by simp [hcur] at h⟩, hb⟩

/-! ### The sections -/

/-- The socket and the reported state agree, and a responder that may not bind has no socket. -/
structure Inv (n : Node) : Prop where
  sockets : Sockets n
  reports : Reports n
  frozen : n.resp.noBeacon = true ∨ n.resp.closed = true → n.resp.cur = none

/-- What a section that may bind does: it keeps the veto and the end of the responder, leaves
socket and state in agreement, and calls `listen` at most once, with `addr`, not before the
breaker's cooldown is over. -/
structure Binds (n m : Node) (addr : AddrPort) (now : Time) : Prop where
  sockets : Sockets m
  reports : Reports m
  noBeacon : m.resp.noBeacon = n.resp.noBeacon
  closed : m.resp.closed = n.resp.closed
  listens : m.listens = n.listens ∨ m.listens = n.listens ++ [addr] ∧ n.resp.circuitUntil ≤ now

section

variable (hs : Sockets n)

include hs

theorem openLocked_binds (hb : Blank n) (hcur : n.resp.cur = none) (addr : AddrPort)
    (table : Nat × Nat) (e : Answers) : Binds n (n.openLocked addr table e) addr e.now := by
  unfold openLocked
  split
  · split
    · exact ⟨hs.congr rfl rfl, set_reports hcur (by decide) _ _, rfl, rfl, .inl rfl⟩
    · rename_i hstate
      refine ⟨hs, hb.reports hcur ?_, rfl, rfl, .inl rfl⟩
      rw [not_not.mp hstate]
      decide
  · rename_i hcircuit
    have hlistens : n.listens ++ [addr] = n.listens ∨
        n.listens ++ [addr] = n.listens ++ [addr] ∧ n.resp.circuitUntil ≤ e.now :=
      .inr ⟨rfl, not_lt.mp hcircuit⟩
    split
    · rename_i hretry
      refine ⟨hs, hb.reports hcur ?_, rfl, rfl, .inl rfl⟩
      rw [hretry.1]
      decide
    · split
      · rename_i err hlisten
        refine ⟨hs.congr rfl ?_, set_reports (n := n.listenAt addr e) hcur (by decide) _ _, rfl,
          rfl, hlistens⟩
        simp [Node.set, listenAt, hlisten]
      · rename_i hlisten
        split
        · exact ⟨(hs.closeNew hcur addr e hlisten).congr rfl rfl,
            set_reports (n := (n.listenAt addr e).closeNew) hcur (by decide) _ _, rfl, rfl, hlistens⟩
        · exact ⟨(hs.serveNew hcur addr e hlisten).congr rfl rfl, listening_reports rfl _ _, rfl,
            rfl, hlistens⟩

theorem serveTable_binds (hb : Blank n) (addr : AddrPort) (table : Nat × Nat) (e : Answers) :
    Binds n (n.serveTable addr table e) addr e.now := by
  obtain ⟨-, -, -, hveto, hclosed, -, hlistens⟩ := closeLocked_frame (n := n) e
  unfold serveTable
  cases hcur : n.resp.cur with
  | none => exact openLocked_binds hs hb hcur addr table e
  | some sk =>
    cases e.setTable with
    | some err =>
      exact ⟨(hs.closeLocked e).congr rfl rfl,
        set_reports (closeLocked_cur e) (by decide) _ _, hveto, hclosed, .inl hlistens⟩
    | none =>
      exact ⟨hs.congr rfl rfl, listening_reports (by rw [hcur]; rfl) _ _, rfl, rfl, .inl rfl⟩

theorem applyTable_binds (hb : Blank n) (addr : AddrPort) (table : Nat × Nat) (e : Answers) :
    Binds n (n.applyTable addr table e) addr e.now := by
  unfold applyTable
  split
  · obtain ⟨-, -, -, hveto, hclosed, hcircuit, hlistens⟩ := closeLocked_frame (n := n) e
    obtain ⟨h₁, h₂, h₃, h₄, h₅⟩ := serveTable_binds (hs.closeLocked e) (hb.closeLocked e) addr table e
    rw [hlistens, hcircuit] at h₅
    exact ⟨h₁, h₂, h₃.trans hveto, h₄.trans hclosed, h₅⟩
  · exact serveTable_binds hs hb addr table e

theorem set_inv (hcur : n.resp.cur = none) (hstate : state ≠ .listening) (addr : Option AddrPort)
    (text : String) : Inv (n.set state addr text) where
  sockets := hs.congr rfl rfl
  reports := set_reports hcur hstate addr text
  frozen _ := hcur

theorem close_set_inv (e : Answers) (hstate : state ≠ .listening) (addr : Option AddrPort)
    (text : String) : Inv ((n.closeLocked e).set state addr text) :=
  set_inv (hs.closeLocked e) (closeLocked_cur e) hstate addr text

end

/-- What a section can do with `listen`: nothing, or, in an `Apply` of a responder that may bind,
call it once with the address of the configuration, after the breaker's cooldown. -/
def Listens (wire : Wire) (n m : Node) (move : Move) : Prop :=
  m.listens = n.listens ∨
    ∃ cfg e addr, move = .apply (some cfg) e ∧ bindAddr wire cfg = .ok addr ∧
      m.listens = n.listens ++ [addr] ∧ n.resp.noBeacon = false ∧ n.resp.closed = false ∧
      n.resp.circuitUntil ≤ e.now

theorem apply_inv (hn : Inv n) (cfg : Option BeaconResponderConfig) (e : Answers) :
    Inv (n.apply wire cfg e) ∧ Listens wire n (n.apply wire cfg e) (.apply cfg e) := by
  have hlistens : (n.closeLocked e).listens = n.listens := (closeLocked_frame e).2.2.2.2.2.2
  unfold apply
  split
  · exact ⟨hn, .inl rfl⟩
  · rename_i hfree
    obtain ⟨hveto, hclosed⟩ := not_or.mp hfree
    unfold applyLocked
    cases cfg with
    | none => exact ⟨close_set_inv hn.sockets e (by decide) _ _, .inl hlistens⟩
    | some cfg =>
      dsimp only
      cases hbind : bindAddr wire cfg with
      | error err => exact ⟨close_set_inv hn.sockets e (by decide) _ _, .inl hlistens⟩
      | ok addr =>
        cases tableEntries wire cfg.table with
        | error err => exact ⟨close_set_inv hn.sockets e (by decide) _ _, .inl hlistens⟩
        | ok table =>
          obtain ⟨h₁, h₂, h₃, h₄, h₅⟩ :=
            applyTable_binds hn.sockets hn.reports.blank addr table e
          refine ⟨⟨h₁, h₂, fun h => ?_⟩, h₅.imp id fun h => ?_⟩
          · rw [h₃, h₄] at h
            exact absurd h hfree
          · exact ⟨cfg, e, addr, rfl, hbind, h.1, by simpa using hveto, by simpa using hclosed,
              h.2⟩

theorem close_inv (hn : Inv n) (e : Answers) : Inv (n.close e) ∧ (n.close e).listens = n.listens := by
  have hs : Sockets n.stopped := hn.sockets.congr rfl rfl
  have hlistens : (n.stopped.closeLocked e).listens = n.listens := (closeLocked_frame e).2.2.2.2.2.2
  unfold close
  split
  · -- under the veto there is nothing to close
    rename_i hveto
    have hcur : n.stopped.resp.cur = none := hn.frozen (.inl hveto)
    refine ⟨?_, hlistens⟩
    rw [closeLocked_of_none hcur]
    exact ⟨hs, ⟨hn.reports.listening, hn.reports.blank⟩, fun _ => hcur⟩
  · exact ⟨close_set_inv hs e (by decide) _ _, hlistens⟩

theorem loopEnded_inv (hn : Inv n) (sk : Nat) (stop : StopReason) (err : Option String)
    (e : Answers) :
    Inv (n.loopEnded sk stop err e) ∧ (n.loopEnded sk stop err e).listens = n.listens := by
  obtain ⟨m, hm, hnoted, hlistens⟩ : ∃ m : Node, Inv m ∧ (m = if stop = .breaker then
      { n with resp := { n.resp with circuitUntil := e.now + breakerCooldown } } else n) ∧
      m.listens = n.listens := by
    refine ⟨_, ?_, rfl, ?_⟩
    · split
      · exact ⟨hn.sockets.congr rfl rfl, ⟨hn.reports.listening, hn.reports.blank⟩, hn.frozen⟩
      · exact hn
    · split <;> rfl
  have hlistens' : (m.closeLocked e).listens = n.listens :=
    (closeLocked_frame e).2.2.2.2.2.2.trans hlistens
  unfold loopEnded
  rw [← hnoted]
  dsimp only
  split
  · split
    · exact ⟨close_set_inv hm.sockets e (by decide) _ _, hlistens'⟩
    · have hs : Sockets { m.closeLocked e with
          resp := { (m.closeLocked e).resp with lastBind := e.now } } :=
        (hm.sockets.closeLocked e).congr rfl rfl
      exact ⟨set_inv hs (closeLocked_cur e) (by decide) _ _, hlistens'⟩
  · exact ⟨hm, hlistens⟩

theorem step_inv (hn : Inv n) (move : Move) :
    Inv (n.step wire move) ∧ Listens wire n (n.step wire move) move := by
  cases move with
  | apply cfg e => exact apply_inv hn cfg e
  | loopEnded sk stop err e =>
    unfold step
    dsimp only
    split
    · obtain ⟨h, hlistens⟩ := loopEnded_inv hn sk stop err e
      exact ⟨h, .inl hlistens⟩
    · exact ⟨hn, .inl rfl⟩
  | close e =>
    obtain ⟨h, hlistens⟩ := close_inv hn e
    exact ⟨h, .inl hlistens⟩

theorem start_inv (noBeacon : Bool) : Inv { resp := { noBeacon := noBeacon } } where
  sockets := ⟨fun i h => (by cases h), rfl, fun s h => absurd h List.not_mem_nil⟩
  reports := ⟨⟨fun h => (by cases h), fun h => (by cases h)⟩, fun _ => ⟨rfl, rfl⟩⟩
  frozen _ := rfl

/-- **Socket and reported state agree**, in whatever order the sections of `Apply`, `Close` and of
the ends of receive loops come: one socket is open if there is a current one and none otherwise,
the state is listening exactly in the first case, epoch and sources are zero in every other state,
no `quit` channel is closed twice, and the next section, whichever it is, calls `listen` at most
with the address of the configuration it applies, never under the veto, after `Close` or before
`circuitUntil`. -/
theorem socket_agrees (wire : Wire) (noBeacon : Bool) (moves : List Move) :
    (run wire noBeacon moves).sockets.countP Socket.isOpen =
      (if (run wire noBeacon moves).resp.cur.isSome then 1 else 0) ∧
    ((run wire noBeacon moves).resp.state = .listening ↔
      (run wire noBeacon moves).resp.cur.isSome = true) ∧
    ((run wire noBeacon moves).resp.state ≠ .listening →
      (run wire noBeacon moves).resp.epoch = 0 ∧ (run wire noBeacon moves).resp.sources = 0) ∧
    (∀ s ∈ (run wire noBeacon moves).sockets, s.quits ≤ 1) ∧
    ∀ move, Listens wire (run wire noBeacon moves) ((run wire noBeacon moves).step wire move) move := by
  have hn : Inv (run wire noBeacon moves) :=
    Runs.invariant_always Inv (fun _ move h => (step_inv h move).1) (start_inv noBeacon) moves
  exact ⟨hn.sockets.count, hn.reports.listening, hn.reports.blank, hn.sockets.quits,
    fun move => (step_inv hn move).2⟩

/-- A wire format that takes one address and one-byte keys. -/
def sampleWire : Wire where
  parseIPv4 _ := .ok [10, 0, 0, 1]
  validListenPort port := decide (1024 ≤ port ∧ port ≤ 65535)
  errPort := "port outside 1024..65535"
  keyLen := 1

/-- A plan for one source. -/
def sampleConfig : BeaconResponderConfig :=
  { bind := "10.0.0.1", port := 4000, table := [{ sourceID := 7, epoch := 3, key := [1] }] }

/-- The breaker opens on a bound socket, and the plan is applied again within the cooldown. -/
theorem socket_agrees_breaker :
    (run sampleWire false [.apply (some sampleConfig) {}]).resp.epoch = 3 ∧
    (run sampleWire false [.apply (some sampleConfig) {}, .loopEnded 0 .breaker none {},
      .apply (some sampleConfig) {}]).resp.state = .circuitOpen ∧
    (run sampleWire false [.apply (some sampleConfig) {}, .loopEnded 0 .breaker none {},
      .apply (some sampleConfig) {}]).resp.epoch = 0 := by
  have hstate : (run sampleWire false [.apply (some sampleConfig) {}, .loopEnded 0 .breaker none {},
      .apply (some sampleConfig) {}]).resp.state = .circuitOpen := by decide +kernel
  obtain ⟨-, -, hblank, -⟩ := socket_agrees sampleWire false [.apply (some sampleConfig) {},
    .loopEnded 0 .breaker none {}, .apply (some sampleConfig) {}]
  refine ⟨by decide +kernel, hstate, (hblank ?_).1⟩
  rw [hstate]
  decide

end Node
end LatticeAgent.Beacon
