import LatticeAgent.Trace.Verdicts

/-! # What a stall rests on

`evalStall` flags a connection from two times that joins and ticks move in any order. A `Sight` is
what an evaluation sees of a connection, a sample of the connection table or a tick, and
`sightings` all that a run shows of one.

`Bracketed` says that two samples bracket the quiet stretch, with no movement since the first;
`stalls_bracketed` has it for every record of every run that says it stalled. -/

namespace LatticeAgent.Trace

open List

/-- An evaluation of the stall signal: a sample is joined, or a tick passes. -/
inductive Sight where
  | sample (at_ : Time) (item : SnapshotItem)
  | tick (now : Time)

namespace Sight

def time : Sight → Time
  | .sample at_ _ => at_
  | .tick now => now

/-- A sample with other counts has not been seen. -/
def Still (rec : ConnRecord) : Sight → Prop
  | .sample _ item => item.upload = rec.upload ∧ item.download = rec.download
  | .tick _ => True

end Sight

/-- Two samples bracket the quiet window, the first at the time of the stall; from it on no sample
shows other counts than the record; and at an evaluation after the second the connection is older
than the floor. -/
def Bracketed (floor quiet : Duration) (h : List Sight) (rec : ConnRecord) : Prop :=
  ∃ before first between at₂ second after,
    h = before ++ .sample rec.stalledAt first :: (between ++ .sample at₂ second :: after) ∧
    rec.stalledAt + quiet ≤ at₂ ∧
    (∀ s ∈ .sample rec.stalledAt first :: (between ++ .sample at₂ second :: after), s.Still rec) ∧
    ∃ s ∈ .sample at₂ second :: after, rec.startedAt + floor < s.time

namespace Bracketed

variable {floor quiet : Duration} {h : List Sight} {rec rec' : ConnRecord}

theorem append (hb : Bracketed floor quiet h rec) {later : List Sight}
    (hlater : ∀ s ∈ later, s.Still rec) : Bracketed floor quiet (h ++ later) rec := by
  obtain ⟨before, first, between, at₂, second, after, rfl, hquiet, hstill, s, hs, hfloor⟩ := hb
  refine ⟨before, first, between, at₂, second, after ++ later, by simp, hquiet, ?_, s, ?_, hfloor⟩
  · intro s hs
    have hsplit : s ∈ Sight.sample rec.stalledAt first :: (between ++ .sample at₂ second :: after) ∨
        s ∈ later := by
      simp only [mem_cons, mem_append] at hs ⊢
      tauto
    rcases hsplit with hs | hs
    · exact hstill s hs
    · exact hlater s hs
  · simp only [mem_cons, mem_append] at hs ⊢
    tauto

theorem congr (hb : Bracketed floor quiet h rec) (hstalled : rec'.stalledAt = rec.stalledAt)
    (hstarted : rec'.startedAt = rec.startedAt) (hup : rec'.upload = rec.upload)
    (hdown : rec'.download = rec.download) : Bracketed floor quiet h rec' := by
  have hsame (s : Sight) : s.Still rec' ↔ s.Still rec := by
    cases s with
    | sample at_ item => simp only [Sight.Still, hup, hdown]
    | tick now => exact Iff.rfl
  simpa only [Bracketed, hstalled, hstarted, hsame] using hb

end Bracketed

/-- What a connection keeps of its samples: since `lastByteChangeAt` the counts are those it has,
and the last sample is the one of that time or a later one. -/
structure Sighted (floor quiet : Duration) (h : List Sight) (c : Conn) : Prop where
  sampled : c.sampled = true → ∃ before first after,
    h = before ++ .sample c.lastByteChangeAt first :: after ∧
    (∀ s ∈ .sample c.lastByteChangeAt first :: after, s.Still c.record) ∧
    (c.lastSnapAt = c.lastByteChangeAt ∨
      ∃ between item rest, after = between ++ .sample c.lastSnapAt item :: rest)
  unsampled : c.sampled = false → c.record.stalledAt = 0
  stalled : c.record.stalledAt ≠ 0 → Bracketed floor quiet h c.record

namespace Sighted

variable {floor quiet : Duration} {h : List Sight} {c c' : Conn}

theorem congr (hs : Sighted floor quiet h c) (hsampled : c'.sampled = c.sampled)
    (hsnap : c'.lastSnapAt = c.lastSnapAt) (hchange : c'.lastByteChangeAt = c.lastByteChangeAt)
    (hstalled : c'.record.stalledAt = c.record.stalledAt)
    (hstarted : c'.record.startedAt = c.record.startedAt) (hup : c'.record.upload = c.record.upload)
    (hdown : c'.record.download = c.record.download) : Sighted floor quiet h c' := by
  have hsame (s : Sight) : s.Still c'.record ↔ s.Still c.record := by
    cases s with
    | sample at_ item => simp only [Sight.Still, hup, hdown]
    | tick now => exact Iff.rfl
  refine ⟨?_, ?_, ?_⟩
  · simpa only [hsampled, hsnap, hchange, hsame] using hs.sampled
  · simpa only [hsampled, hstalled] using hs.unsampled
  · intro hne
    rw [hstalled] at hne
    exact (hs.stalled hne).congr hstalled hstarted hup hdown

theorem append (hs : Sighted floor quiet h c) {later : List Sight}
    (hlater : ∀ s ∈ later, s.Still c.record) : Sighted floor quiet (h ++ later) c := by
  refine ⟨fun hsampled => ?_, hs.unsampled, fun hne => (hs.stalled hne).append hlater⟩
  obtain ⟨before, first, after, rfl, hstill, hlast⟩ := hs.sampled hsampled
  refine ⟨before, first, after ++ later, by simp, ?_, ?_⟩
  · intro s hmem
    rw [← cons_append, mem_append] at hmem
    rcases hmem with hmem | hmem
    · exact hstill s hmem
    · exact hlater s hmem
  · rcases hlast with hlast | ⟨between, item, rest, rfl⟩
    · exact .inl hlast
    · exact .inr ⟨between, item, rest ++ later, by simp⟩

/-- **An evaluation flags only what two samples bracket.** -/
theorem evalStall {now : Time} {s : Sight} (hs : Sighted floor quiet (h ++ [s]) c)
    (hfloor : 0 ≤ floor) (hquiet : 0 < quiet) (hnow : s.time = now) :
    Sighted floor quiet (h ++ [s]) (c.evalStall now floor quiet) := by
  unfold Conn.evalStall
  split
  · exact hs
  · rename_i hsampled
    have hsampled : c.sampled := by simpa using hsampled
    split
    · exact hs
    · split
      · exact hs
      · rename_i hold
        split
        · exact hs
        · -- the last sample is not the one at which the counts last changed
          rename_i hlong
          obtain ⟨before, first, after, hh, hstill, hlast⟩ := hs.sampled hsampled
          have hsub : quiet ≤ c.lastSnapAt.sub c.lastByteChangeAt := Int.not_lt.mp hlong
          have hreal := Time.sub_le (le_trans hquiet.le hsub)
          have hage : floor < now.sub c.record.startedAt := Int.not_le.mp hold
          have hagereal := Time.sub_le (le_trans hfloor hage.le)
          have hne : c.lastSnapAt ≠ c.lastByteChangeAt := by
            intro heq
            rw [heq] at hsub hreal
            have : c.lastByteChangeAt - c.lastByteChangeAt = 0 := sub_self _
            lia
          obtain ⟨between, item, rest, rfl⟩ := hlast.resolve_left hne
          refine ⟨fun _ => ⟨before, first, _, hh, hstill, hlast⟩, fun hfalse => ?_, fun _ => ?_⟩
          · rw [hsampled] at hfalse
            cases hfalse
          · refine ⟨before, first, between, c.lastSnapAt, item, rest, hh, ?_, hstill, s, ?_, ?_⟩
            · dsimp only
              lia
            · -- the evaluation is the last sight
              have hend : h ++ [s] = (before ++ .sample c.lastByteChangeAt first :: between) ++
                  (.sample c.lastSnapAt item :: rest) := by
                rw [hh]
                simp
              have hgot := congrArg getLast? hend
              rw [getLast?_append_cons, getLast?_append_cons,
                getLast?_singleton] at hgot
              exact mem_of_getLast? hgot.symm
            · dsimp only
              lia

theorem fresh (nodeID : String) (l : Line) (at_ : Time) :
    Sighted floor quiet [] (Conn.fresh nodeID l at_) :=
  ⟨fun hsampled => (by cases hsampled), fun _ => rfl, fun hne => absurd rfl hne⟩

theorem join (hs : Sighted floor quiet h c) (hfloor : 0 ≤ floor) (hquiet : 0 < quiet) (sdk : Sdk)
    (item : SnapshotItem) (at_ : Time) (seq : UInt64) :
    Sighted floor quiet (h ++ [.sample at_ item]) (c.join sdk item at_ seq floor quiet) := by
  unfold Conn.join
  refine Sighted.evalStall ?_ hfloor hquiet rfl
  by_cases hmoved : (!c.sampled || item.upload != c.record.upload ||
      item.download != c.record.download) = true
  · -- the quiet stretch begins here
    simp only [hmoved, if_true]
    refine ⟨fun _ => ⟨h, item, [], rfl, ?_, .inl rfl⟩, fun hfalse => (by cases hfalse),
      fun hne => absurd rfl hne⟩
    intro s hmem
    rw [mem_singleton.mp hmem]
    exact ⟨rfl, rfl⟩
  · have hsame : c.sampled = true ∧ item.upload = c.record.upload ∧
        item.download = c.record.download := by
      simpa [and_assoc] using hmoved
    simp only [if_neg hmoved]
    have hstill : ∀ s ∈ [Sight.sample at_ item], s.Still c.record := by
      intro s hmem
      rw [mem_singleton.mp hmem]
      exact hsame.2
    obtain ⟨hsampled, -, hstalled⟩ := hs.append hstill
    refine ⟨fun _ => ?_, fun hfalse => (by cases hfalse), fun hne => ?_⟩
    · obtain ⟨before, first, after, hh, hall, -⟩ := hs.sampled hsame.1
      refine ⟨before, first, after ++ [.sample at_ item], by rw [hh]; simp, ?_,
        .inr ⟨after, item, [], rfl⟩⟩
      intro s hmem
      rw [← cons_append, mem_append] at hmem
      have hold : s.Still c.record := hmem.elim (hall s) (hstill s)
      cases s with
      | sample at' item' => exact ⟨hold.1.trans hsame.2.1.symm, hold.2.trans hsame.2.2.symm⟩
      | tick now => trivial
    · exact (hstalled hne).congr rfl rfl hsame.2.1 hsame.2.2

theorem joins (hs : Sighted floor quiet h c) (hfloor : 0 ≤ floor) (hquiet : 0 < quiet) (sdk : Sdk)
    (items : List SnapshotItem) (at_ : Time) (seq : UInt64) :
    Sighted floor quiet (h ++ items.map (.sample at_))
      (items.foldl (fun c item => c.join sdk item at_ seq floor quiet) c) := by
  induction items generalizing h c with
  | nil =>
    rw [map_nil, append_nil]
    exact hs
  | cons item items ih =>
    have hnext := ih (hs.join hfloor hquiet sdk item at_ seq)
    rwa [append_assoc] at hnext

theorem ticked {opts : Options} (hs : Sighted opts.stallFloor opts.stallQuiet h c)
    (hfloor : 0 ≤ opts.stallFloor) (hquiet : 0 < opts.stallQuiet) (now : Time) :
    Sighted opts.stallFloor opts.stallQuiet (h ++ [.tick now]) (c.ticked opts now) := by
  have hstill : ∀ s ∈ [Sight.tick now], s.Still c.record := by
    intro s hmem
    rw [mem_singleton.mp hmem]
    trivial
  have hnow : (Sight.tick now).time = now := rfl
  have heval := (hs.append hstill).evalStall hfloor hquiet hnow
  unfold Conn.ticked
  dsimp only
  split
  · exact heval.congr rfl rfl rfl rfl rfl rfl rfl
  · exact heval

theorem fed (hs : Sighted floor quiet h c) (sdk : Sdk) (l : Line) (at_ : Time) :
    Sighted floor quiet h (c.fed sdk l at_) := by
  rw [Conn.fed_eq]
  exact hs.congr rfl rfl rfl rfl rfl rfl rfl

end Sighted

/-! ### Runs -/

/-- What a call shows of a connection. -/
def Assembler.sights (a : Assembler) (r : Nat) : AsmCall → List Sight
  | .snapshot s clock => (a.joins r s.items).map (.sample (orClock s.at_ clock))
  | .tick now clock =>
    if r ∈ a.order ∧ (a.conn r).tickEnding a.opts a.snapSeq (orClock now clock) = none then
      [.tick (orClock now clock)]
    else []
  | _ => []

/-- What a run shows of a connection. -/
def AsmRun.sightings (sdk : Sdk) (r : Nat) : AsmRun → List AsmCall → List Sight
  | _, [] => []
  | s, call :: calls => s.asm.sights r call ++ sightings sdk r (s.step sdk call) calls

/-- The record is one of the connection as it is. -/
structure Mirrors (rec : ConnRecord) (c : Conn) : Prop where
  logID : rec.logID = c.record.logID
  startedAt : rec.startedAt = c.record.startedAt
  stalledAt : rec.stalledAt = c.record.stalledAt
  upload : rec.upload = c.record.upload
  download : rec.download = c.record.download

namespace AsmRun

open Assembler

variable {sdk : Sdk} {s : AsmRun}

theorem sightings_concat (sdk : Sdk) (r : Nat) (s : AsmRun) (calls : List AsmCall)
    (call : AsmCall) :
    sightings sdk r s (calls ++ [call]) =
      sightings sdk r s calls ++ (s.run sdk calls).asm.sights r call := by
  induction calls generalizing s with
  | nil => exact append_nil _
  | cons first calls ih =>
    change s.asm.sights r first ++ sightings sdk r (s.step sdk first) (calls ++ [call]) = _
    rw [ih, ← append_assoc]
    rfl

theorem sights_left (h : s.asm.Consistent) {r : Nat} (hr : r ∉ s.asm.order) (call : AsmCall) :
    s.asm.sights r call = [] := by
  cases call with
  | snapshot snap clock => exact congrArg (List.map _) (joins_of_not_mem h hr snap.items)
  | tick now clock => exact if_neg fun hc => hr hc.1
  | _ => rfl

theorem step_sighted (h : s.asm.Consistent) (hfloor : 0 ≤ s.asm.opts.stallFloor)
    (hquiet : 0 < s.asm.opts.stallQuiet) {hist : Nat → List Sight}
    (hs : ∀ r < s.asm.conns.length,
      Sighted s.asm.opts.stallFloor s.asm.opts.stallQuiet (hist r) (s.asm.conn r))
    (hnew : ∀ r, s.asm.conns.length ≤ r → hist r = []) (call : AsmCall) {r : Nat}
    (hr : r < (s.step sdk call).asm.conns.length) :
    Sighted s.asm.opts.stallFloor s.asm.opts.stallQuiet (hist r ++ s.asm.sights r call)
      ((s.step sdk call).asm.conn r) := by
  have hbecomes := step_becomes h call hr
  generalize (s.step sdk call).asm.conn r = c at hbecomes
  cases hbecomes with
  | @fed l clock ht =>
    change Sighted _ _ (hist r ++ []) _
    rw [append_nil]
    refine Sighted.fed ?_ sdk l _
    unfold found
    split
    · exact hs r ‹_›
    · rw [hnew r (by omega)]
      exact .fresh _ _ _
  | polled hlt => exact (hs r hlt).joins hfloor hquiet sdk _ _ _
  | @ticked now clock hlt hkept =>
    rw [show s.asm.sights r (.tick now clock) = [.tick (orClock now clock)] from if_pos hkept]
    exact (hs r hlt).ticked hfloor hquiet _
  | @unticked now clock hlt hgone =>
    rw [show s.asm.sights r (.tick now clock) = [] from if_neg hgone, append_nil]
    exact hs r hlt
  | tagged hlt sessions =>
    change Sighted _ _ (hist r ++ []) _
    rw [append_nil]
    exact (hs r hlt).congr rfl rfl rfl rfl rfl rfl rfl
  | unfed _ hlt | restarted hlt | drained hlt =>
    change Sighted _ _ (hist r ++ []) _
    rw [append_nil]
    exact hs r hlt

theorem step_opts (sdk : Sdk) (h : s.asm.Consistent) (call : AsmCall) :
    (s.step sdk call).asm.opts = s.asm.opts := by
  cases call with
  | line l clock => exact (line_settings sdk h l clock).1
  | snapshot snap clock => exact (snapshot_settings sdk h snap clock).1
  | tick now clock => exact (swept_tick h now clock).opts
  | coreRestart generation at_ clock => exact (swept_restarted h (orClock at_ clock)).opts
  | tag logID ids =>
    rw [step, tag_eq]
  | drain => rfl

/-! ### What is emitted -/

/-- All records that a run has emitted. -/
def emitted (s : AsmRun) : List ConnRecord := s.drained ++ s.asm.out

variable {rec : ConnRecord}

theorem step_emits (hl : s.asm.Linked) (call : AsmCall) (hrec : rec ∈ (s.step sdk call).emitted) :
    rec ∈ s.emitted ∨ ∃ r < (s.step sdk call).asm.conns.length,
      Mirrors rec ((s.step sdk call).asm.conn r) ∧
        (rec.open_ = false → (r, rec) ∈ (s.step sdk call).asm.finals) := by
  by_cases hcall : call = .drain
  · subst hcall
    exact .inl (by simpa [emitted, step, drain] using hrec)
  · have hdrained : (s.step sdk call).drained = s.drained := by
      cases call with
      | drain => exact absurd rfl hcall
      | _ => rfl
    obtain ⟨new, hpush⟩ := step_pushes sdk hl.consistent call hcall
    obtain ⟨recs, hout, hrecs⟩ := hpush.records
    rw [emitted, hdrained, hout, ← append_assoc] at hrec
    obtain hold | hnew := mem_append.mp hrec
    · exact .inl hold
    · obtain ⟨x, hx, rfl⟩ | ⟨r, hr, gen, now, rfl⟩ := hrecs rec hnew
      · have hmem : x ∈ (s.step sdk call).asm.finals := hpush.finals ▸ mem_append_right _ hx
        obtain ⟨e, gen, -, heq⟩ := hpush.ends x hx
        refine .inr ⟨x.1, ((step_linked sdk hl call).finals x hmem).1, ?_, fun _ => hmem⟩
        rw [heq]
        exact ⟨rfl, rfl, rfl, rfl, rfl⟩
      · exact .inr ⟨r, hr, ⟨rfl, rfl, rfl, rfl, rfl⟩, by simp [Conn.openRecord]⟩

/-- What every run shows of its connections. -/
structure Watched (sdk : Sdk) (opts : Options) (calls : List AsmCall) : Prop where
  settings : (run sdk ⟨.new opts, []⟩ calls).asm.opts = (new opts).opts
  sighted : ∀ r < (run sdk ⟨.new opts, []⟩ calls).asm.conns.length,
    Sighted (new opts).opts.stallFloor (new opts).opts.stallQuiet
      (sightings sdk r ⟨.new opts, []⟩ calls) ((run sdk ⟨.new opts, []⟩ calls).asm.conn r)
  unborn : ∀ r, (run sdk ⟨.new opts, []⟩ calls).asm.conns.length ≤ r →
    sightings sdk r ⟨.new opts, []⟩ calls = []

theorem stall_limits (opts : Options) :
    0 ≤ (new opts).opts.stallFloor ∧ 0 < (new opts).opts.stallQuiet := by
  unfold new second
  dsimp only
  constructor <;> split <;> lia

theorem watched (sdk : Sdk) (opts : Options) (calls : List AsmCall) : Watched sdk opts calls := by
  induction calls using reverseRecOn with
  | nil => exact ⟨rfl, fun r hr => absurd hr (Nat.not_lt_zero r), fun _ _ => rfl⟩
  | append_singleton calls call ih =>
    have hb := (told sdk opts calls).linked.consistent
    obtain ⟨hfloor, hquiet⟩ := stall_limits opts
    rw [← ih.settings] at hfloor hquiet
    have hsighted := ih.sighted
    rw [← ih.settings] at hsighted
    refine ⟨?_, ?_, ?_⟩
    · rw [run_concat, step_opts sdk hb, ih.settings]
    · intro r hr
      rw [run_concat] at hr ⊢
      rw [sightings_concat, ← ih.settings]
      exact step_sighted hb hfloor hquiet hsighted ih.unborn call hr
    · intro r hr
      rw [run_concat] at hr
      have hle := @step_length sdk _ hb call
      have hnot : r ∉ (run sdk ⟨.new opts, []⟩ calls).asm.order := fun hmem => by
        have := hb.allocated r hmem
        omega
      rw [sightings_concat, ih.unborn r (by omega), sights_left hb hnot]
      rfl

/-- The samples that a run has seen until some point, and the record it then emitted, bracket a
stall; if the record is final, nothing more is seen. -/
def Asserted (sdk : Sdk) (opts : Options) (calls : List AsmCall) (rec : ConnRecord) : Prop :=
  ∃ pre post r, calls = pre ++ post ∧ rec ∈ (run sdk ⟨.new opts, []⟩ pre).emitted ∧
    Mirrors rec ((run sdk ⟨.new opts, []⟩ pre).asm.conn r) ∧
    Bracketed (new opts).opts.stallFloor (new opts).opts.stallQuiet
      (sightings sdk r ⟨.new opts, []⟩ pre) rec ∧
    (rec.open_ = false → (r, rec) ∈ (run sdk ⟨.new opts, []⟩ calls).asm.finals ∧
      sightings sdk r ⟨.new opts, []⟩ calls = sightings sdk r ⟨.new opts, []⟩ pre)

theorem Asserted.later {opts : Options} {calls : List AsmCall} (h : Asserted sdk opts calls rec)
    (call : AsmCall) : Asserted sdk opts (calls ++ [call]) rec := by
  obtain ⟨pre, post, r, rfl, hemitted, hmirrors, hbracketed, hfinal⟩ := h
  refine ⟨pre, post ++ [call], r, by simp, hemitted, hmirrors, hbracketed, fun hclosed => ?_⟩
  obtain ⟨hmem, hsame⟩ := hfinal hclosed
  have htold := told sdk opts (pre ++ post)
  obtain ⟨new, hfinals, -⟩ := @step_records sdk _ htold.linked.consistent call
  refine ⟨?_, ?_⟩
  · rw [run_concat, hfinals]
    exact mem_append_left _ hmem
  · rw [sightings_concat, hsame,
      sights_left htold.linked.consistent (htold.linked.finals _ hmem).2, append_nil]

theorem asserted (sdk : Sdk) (opts : Options) (calls : List AsmCall)
    (hrec : rec ∈ (run sdk ⟨.new opts, []⟩ calls).emitted) (hstalled : rec.stalledAt ≠ 0) :
    Asserted sdk opts calls rec := by
  induction calls using reverseRecOn with
  | nil => cases hrec
  | append_singleton calls call ih =>
    have htold := told sdk opts calls
    have hemitted := hrec
    rw [run_concat] at hrec
    rcases step_emits htold.linked call hrec with hold | ⟨r, hr, hmirrors, hfinal⟩
    · exact (ih hold).later call
    · rw [← run_concat] at hr hmirrors hfinal
      have hsighted := (watched sdk opts (calls ++ [call])).sighted r hr
      have hbracketed := hsighted.stalled (hmirrors.stalledAt ▸ hstalled)
      exact ⟨calls ++ [call], [], r, by simp, hemitted, hmirrors,
        hbracketed.congr hmirrors.stalledAt hmirrors.startedAt hmirrors.upload hmirrors.download,
        fun hclosed => ⟨hfinal hclosed, rfl⟩⟩

/-- **A stall is asserted only from samples that bracket it.**  In every run a record that says it
stalled was emitted for a connection whose samples until then bracket the stall; nothing is seen
any more of a connection with a final record. -/
theorem stalls_bracketed (sdk : Sdk) (opts : Options) (calls : List AsmCall) :
    ∀ rec ∈ (run sdk ⟨.new opts, []⟩ calls).emitted, rec.stalledAt ≠ 0 →
      ∃ pre post r, calls = pre ++ post ∧ rec ∈ (run sdk ⟨.new opts, []⟩ pre).emitted ∧
        Mirrors rec ((run sdk ⟨.new opts, []⟩ pre).asm.conn r) ∧
        Bracketed (new opts).opts.stallFloor (new opts).opts.stallQuiet
          (sightings sdk r ⟨.new opts, []⟩ pre) rec ∧
        (rec.open_ = false →
          sightings sdk r ⟨.new opts, []⟩ calls = sightings sdk r ⟨.new opts, []⟩ pre) := by
  intro rec hrec hstalled
  obtain ⟨pre, post, r, hcalls, hemitted, hmirrors, hbracketed, hfinal⟩ :=
    asserted sdk opts calls hrec hstalled
  exact ⟨pre, post, r, hcalls, hemitted, hmirrors, hbracketed, fun hclosed => (hfinal hclosed).2⟩

/-- A poll of the table at so many seconds, which shows one connection with the same counts. -/
def stuckPoll (seconds : Int) : AsmCall :=
  .snapshot
    { at_ := seconds * second
      items := [{ srcIP := "192.0.2.1", srcPort := "5000", upload := 7, download := 9 }] } 1

/-- A connection is accepted, sampled twice, and a tick passes. -/
def stuck : List AsmCall :=
  [.line { logID := 7, hasLogID := true, event := .inboundFrom, at_ := second, srcIP := "192.0.2.1",
           srcPort := 5000 } 1,
    stuckPoll 10, stuckPoll 100, .tick (130 * second) 1]

/-- The open record that the tick emits. -/
def stuckRecord : ConnRecord := (run asciiSdk ⟨.new {}, []⟩ stuck).emitted.headD {}

theorem stalls_bracketed_stuck :
    stuckRecord.stalledAt = 10 * second ∧
      ∃ pre post r, stuck = pre ++ post ∧ stuckRecord ∈ (run asciiSdk ⟨.new {}, []⟩ pre).emitted ∧
        Mirrors stuckRecord ((run asciiSdk ⟨.new {}, []⟩ pre).asm.conn r) ∧
        Bracketed (new {}).opts.stallFloor (new {}).opts.stallQuiet
          (sightings asciiSdk r ⟨.new {}, []⟩ pre) stuckRecord ∧
        (stuckRecord.open_ = false →
          sightings asciiSdk r ⟨.new {}, []⟩ stuck = sightings asciiSdk r ⟨.new {}, []⟩ pre) :=
  ⟨by decide +kernel, stalls_bracketed asciiSdk {} stuck stuckRecord (by decide +kernel)
    (by decide +kernel)⟩

end AsmRun
end LatticeAgent.Trace
