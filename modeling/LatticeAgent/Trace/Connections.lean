import LatticeAgent.Trace.Calls
import Mathlib.Data.Set.Insert

/-! # How the assembler's connections evolve

Whatever is fed to an assembler, a connection once created keeps its log id and its sessions,
is reached through its log id only until it is finished or evicted, and is finished with the
sessions it has then. `Evolves` says this of two states of an assembler. Its parameter is the
set of log ids under which a new connection may be opened. -/

namespace LatticeAgent.Trace

/-- The log ids under which a call may open a connection. -/
def AsmCall.opens : AsmCall → Set UInt32
  | .line l _ => { l.logID }
  | _ => ∅

namespace Assembler

/-- The books are in order, and no connection with a final record is open. -/
structure Linked (a : Assembler) : Prop where
  books : ∃ drained, Books drained a
  finals : ∀ x ∈ a.finals, x.1 < a.conns.length ∧ x.1 ∉ a.order

variable {a : Assembler}

theorem Linked.consistent (h : a.Linked) : a.Consistent := h.books.choose_spec.consistent

theorem Linked.opened (h : a.Linked) (id : UInt32) (r : Nat) (hr : a.open_.lookup id = some r) :
    r < a.conns.length ∧ (a.conn r).record.logID = id :=
  (h.consistent.opened id r hr).imp_left (h.consistent.allocated r)

theorem linked_new (opts : Options) : (new opts).Linked := ⟨⟨[], .new opts⟩, List.forall_mem_nil _⟩

theorem Linked.drain (h : a.Linked) : a.drain.2.Linked :=
  ⟨h.books.elim fun _ hb => ⟨_, hb.drain⟩, h.finals⟩

/-- What an operation leaves of the connections it found. `opened`: the map leads where it
led, or to a new connection; `ended`: a log id with a new final record leads, if anywhere, to
a new connection; `finals`: a connection is finished with the sessions it has. -/
structure Step (F : Set UInt32) (a a' : Assembler) : Prop where
  grows : a.conns.length ≤ a'.conns.length
  sessions : ∀ r < a.conns.length, ∀ s ∈ (a.conn r).sessions, s ∈ (a'.conn r).sessions
  opened : ∀ id r, a'.open_.lookup id = some r →
    a.open_.lookup id = some r ∨ (a.conns.length ≤ r ∧ id ∈ F)
  ended : ∃ new, a'.out = a.out ++ new ∧ ∀ rec ∈ new, rec.open_ = false →
    ∀ r, a'.open_.lookup rec.logID = some r → a.conns.length ≤ r
  finals : ∃ new, a'.finals = a.finals ++ new ∧ ∀ x ∈ new, x.1 < a.conns.length →
    ∀ s ∈ (a.conn x.1).sessions, s ∈ x.2.sessionIDs

/-- An operation from `a` to `a'` keeps the links and the connections. -/
def Evolves (F : Set UInt32) (a a' : Assembler) : Prop := a.Linked → a'.Linked ∧ Step F a a'

variable {F : Set UInt32}

theorem Step.trans {a a' a'' : Assembler} (h : Step F a a') (h' : Step F a' a'') :
    Step F a a'' where
  grows := h.grows.trans h'.grows
  sessions r hr s hs := h'.sessions r (lt_of_lt_of_le hr h.grows) s (h.sessions r hr s hs)
  opened id r hr := by
    rcases h'.opened id r hr with hr | hr
    · exact h.opened id r hr
    · exact .inr ⟨h.grows.trans hr.1, hr.2⟩
  ended := by
    obtain ⟨new, hout, hnew⟩ := h.ended
    obtain ⟨new', hout', hnew'⟩ := h'.ended
    refine ⟨new ++ new', by rw [hout', hout, List.append_assoc], fun rec hrec hfin r hr => ?_⟩
    rcases List.mem_append.mp hrec with hrec | hrec
    · rcases h'.opened _ r hr with hr | hr
      · exact hnew rec hrec hfin r hr
      · exact h.grows.trans hr.1
    · exact h.grows.trans (hnew' rec hrec hfin r hr)
  finals := by
    obtain ⟨new, hfin, hnew⟩ := h.finals
    obtain ⟨new', hfin', hnew'⟩ := h'.finals
    refine ⟨new ++ new', by rw [hfin', hfin, List.append_assoc], fun x hx hlt s hs => ?_⟩
    rcases List.mem_append.mp hx with hx | hx
    · exact hnew x hx hlt s hs
    · exact hnew' x hx (lt_of_lt_of_le hlt h.grows) s (h.sessions _ hlt s hs)

theorem Evolves.refl (a : Assembler) : Evolves F a a := fun hl =>
  ⟨hl, le_rfl, fun _ _ _ h => h, fun _ _ h => .inl h, ⟨[], by simp⟩, ⟨[], by simp⟩⟩

theorem Evolves.trans {a a' a'' : Assembler} (h : Evolves F a a') (h' : Evolves F a' a'') :
    Evolves F a a'' := by
  intro hl
  obtain ⟨hl', hs⟩ := h hl
  obtain ⟨hl'', hs'⟩ := h' hl'
  exact ⟨hl'', hs.trans hs'⟩

/-! ### The calls -/

theorem Ends.leaves {sdk : Sdk} {r : Nat} {call : AsmCall} {e : Ending} (h : Ends sdk a r call e) :
    r ∈ a.leaving sdk call := by
  cases h with
  | line htarget he => simp [leaving, htarget, he]
  | collision hopen hev htarget => simp [leaving, htarget, hopen]
  | tick hr he => simp [leaving, hr, he]
  | sweep hr he => simp [leaving, hr, he]
  | restart hr => exact hr

theorem Ends.mem {sdk : Sdk} {r : Nat} {call : AsmCall} {e : Ending} (hc : a.Consistent)
    (h : Ends sdk a r call e) : r ∈ a.order ∨
      r = a.conns.length ∧ ∃ l clock, call = .line l clock ∧ a.target l = some r := by
  cases h with
  | line htarget => exact (target_mem hc htarget).imp_right fun hr => ⟨hr, _, _, rfl, htarget⟩
  | collision hopen => exact .inl (hc.opened _ r hopen).1
  | tick hr => exact .inl hr
  | sweep hr => exact .inl hr
  | restart hr => exact .inl hr

end Assembler

namespace AsmRun

open Assembler

variable {sdk : Sdk} {s : AsmRun}

theorem step_sessions (h : s.asm.Consistent) (call : AsmCall) {r : Nat}
    (hr : r < s.asm.conns.length) :
    ∀ id ∈ (s.asm.conn r).sessions, id ∈ ((s.step sdk call).asm.conn r).sessions := by
  intro id hid
  have hbecomes : Becomes sdk s r call _ :=
    step_becomes h call (lt_of_lt_of_le hr (step_length h call))
  generalize (s.step sdk call).asm.conn r = c at hbecomes
  cases hbecomes with
  | fed => rwa [found, if_pos hr, Conn.fed_eq]
  | polled => rwa [(joined_keeps ..).2.1]
  | ticked => rwa [Conn.ticked_eq]
  | tagged _ hs => exact hs id hid
  | _ => exact hid

theorem step_new (h : s.asm.Consistent) (call : AsmCall) {r : Nat} (hr : s.asm.conns.length ≤ r)
    (hlt : r < (s.step sdk call).asm.conns.length) :
    ((s.step sdk call).asm.conn r).record.logID ∈ call.opens := by
  have hbecomes := step_becomes h call hlt
  generalize (s.step sdk call).asm.conn r = c at hbecomes
  cases hbecomes with
  | fed =>
    rw [found, if_neg (Nat.not_lt.mpr hr), Conn.fed_eq]
    exact rfl
  | unfed _ hr' | polled hr' | ticked hr' | unticked hr' | restarted hr' | tagged hr' | drained hr' =>
    exact absurd hr' (Nat.not_lt.mpr hr)

/-- **Every call evolves the connections.** -/
theorem step_evolves (sdk : Sdk) (s : AsmRun) (call : AsmCall) (hcall : call ≠ .drain) :
    Evolves call.opens s.asm (s.step sdk call).asm := by
  rintro ⟨⟨drained, hb⟩, hfinals⟩
  have hc := hb.consistent
  obtain ⟨drained', hb'⟩ : ∃ drained', (s.step sdk call).asm.Books drained' := by
    have h := step_books sdk (s := ⟨s.asm, drained⟩) hb call
    cases call <;> exact ⟨_, h⟩
  have hc' := hb'.consistent
  obtain ⟨done, hleaves, -⟩ := step_leaves sdk hc call
  obtain ⟨new, hpush⟩ := step_pushes sdk hc call hcall
  have horder (r : Nat) := step_order sdk hc call (r := r)
  have hids (r : Nat) := step_logID sdk hc call (r := r)
  have hleft {r : Nat} (hr : r ∈ s.asm.leaving sdk call) : r ∉ (s.step sdk call).asm.order :=
    ((hleaves.mem r).mp hr).2
  refine ⟨⟨⟨_, hb'⟩, fun x hx => ?_⟩, hleaves.grows, fun r hr => step_sessions hc call hr,
    fun id r hr => ?_, ?_, ⟨new, hpush.finals, fun x hx hlt id hid => ?_⟩⟩
  · rw [hpush.finals] at hx
    obtain hx | hx := List.mem_append.mp hx
    · obtain ⟨hlt, hnot⟩ := hfinals x hx
      refine ⟨lt_of_lt_of_le hlt hleaves.grows, fun hc => ?_⟩
      obtain hc | hc := horder _ hc
      · exact hnot hc
      · omega
    · obtain ⟨e, -, hends, -⟩ := hpush.ends x hx
      refine ⟨?_, hleft hends.leaves⟩
      obtain hr | ⟨-, l, clock, rfl, ht⟩ := hends.mem hc
      · exact lt_of_lt_of_le (hc.allocated _ hr) hleaves.grows
      · exact target_lt hc ht clock
  · obtain ⟨hmem, hid⟩ := hc'.opened id r hr
    obtain hr | hr := horder r hmem
    · refine .inl ?_
      rw [← hid, hids r (hc.allocated r hr)]
      exact hc.found r hr
    · exact .inr ⟨hr, hid ▸ step_new hc call hr (hc'.allocated r hmem)⟩
  · obtain ⟨recs, hout, hrecs⟩ := hpush.records
    refine ⟨recs, hout, fun rec hrec hclosed r hr => ?_⟩
    obtain ⟨x, hx, rfl⟩ | ⟨_, _, _, _, rfl⟩ := hrecs rec hrec
    swap
    · cases hclosed
    obtain ⟨e, gen, hends, heq⟩ := hpush.ends x hx
    obtain ⟨hmem, hid⟩ := hc'.opened _ r hr
    have hid : ((s.step sdk call).asm.conn r).record.logID =
        ((s.step sdk call).asm.conn x.1).record.logID := hid.trans (by rw [heq]; rfl)
    by_contra hlt
    have hin := (horder r hmem).resolve_right hlt
    rw [hids r (hc.allocated r hin)] at hid
    obtain hx | ⟨hx, l, clock, rfl, ht⟩ := hends.mem hc
    · rw [hids _ (hc.allocated _ hx)] at hid
      exact hleft hends.leaves (hc.logID_inj hx hin hid ▸ hmem)
    · -- The line has taken the log id over from the connection that had it.
      rw [conn_of_target hc ht, hx, found_new, Conn.fed_eq] at hid
      have hopen : s.asm.open_.lookup l.logID = some r := by
        rw [← show (s.asm.conn r).record.logID = l.logID from hid]
        exact hc.found r hin
      exact hleft (by simp [leaving, hx ▸ ht, hopen]) hmem
  · obtain ⟨e, gen, -, heq⟩ := hpush.ends x hx
    rw [heq]
    exact step_sessions hc call hlt id hid

theorem step_linked (sdk : Sdk) (h : s.asm.Linked) (call : AsmCall) :
    (s.step sdk call).asm.Linked := by
  by_cases hcall : call = .drain
  · subst hcall
    exact h.drain
  · exact (step_evolves sdk s call hcall h).1

end AsmRun

namespace Assembler

theorem evolves_line (sdk : Sdk) (a : Assembler) (l : Line) (clock : Time) :
    Evolves { l.logID } a (a.line sdk l clock) := AsmRun.step_evolves sdk ⟨a, []⟩ (.line l clock) nofun

theorem evolves_snapshot (sdk : Sdk) (a : Assembler) (s : Snapshot) (clock : Time) :
    Evolves ∅ a (a.snapshot sdk s clock) := AsmRun.step_evolves sdk ⟨a, []⟩ (.snapshot s clock) nofun

theorem evolves_tick (a : Assembler) (now clock : Time) : Evolves ∅ a (a.tick now clock) :=
  AsmRun.step_evolves asciiSdk ⟨a, []⟩ (.tick now clock) nofun

theorem evolves_coreRestart (a : Assembler) (generation : UInt64) (at_ clock : Time) :
    Evolves ∅ a (a.coreRestart generation at_ clock) :=
  AsmRun.step_evolves asciiSdk ⟨a, []⟩ (.coreRestart generation at_ clock) nofun

theorem evolves_tag (a : Assembler) (logID : UInt32) (ids : List String) :
    Evolves ∅ a (a.tag logID ids) :=
  AsmRun.step_evolves asciiSdk ⟨a, []⟩ (.tag logID ids) nofun

theorem tag_sessions {a : Assembler} (hl : a.Linked) {logID : UInt32} {ids : List String} {r : Nat}
    (hr : a.open_.lookup logID = some r) {s : String} (hs : s ∈ ids) (hne : s ≠ "") :
    s ∈ ((a.tag logID ids).conn r).sessions := by
  have hids : ids.isEmpty = false := by
    cases ids with
    | nil => simp at hs
    | cons _ _ => rfl
  simp only [tag, hids, hr, Bool.false_eq_true, if_false]
  rw [conn_modify, if_pos ⟨rfl, hl.consistent.allocated r (hl.consistent.opened _ r hr).1⟩]
  exact (List.mem_insertionSort _).mpr (mem_unionSessions.mpr (.inr ⟨hs, hne⟩))

@[simp] theorem tag_open (a : Assembler) (logID : UInt32) (ids : List String) :
    (a.tag logID ids).open_ = a.open_ ∧ (a.tag logID ids).out = a.out ∧
      (a.tag logID ids).finals = a.finals := by
  rw [tag_eq]
  exact ⟨rfl, rfl, rfl⟩

end Assembler

end LatticeAgent.Trace
