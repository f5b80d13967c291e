import LatticeAgent.Trace.Connections
import Mathlib.Data.List.MinMax

/-! # What a close verdict rests on

A final record says why its connection closed. The reason is built up from the lines and the
entries of the connection table that reached the connection, in any order, and the record is
settled in one of several ways.

`history` is all that a run showed of one connection, and `Verdict` says which parts of a record
follow from it; `verdicts_observed` has it for every final record of every run. -/

namespace LatticeAgent.Trace

open List Conn

/-- What is observed of a connection. -/
inductive Evidence where
  /-- A line that is applied to it. -/
  | line (l : Line)
  /-- An entry of the connection table that is joined to it. -/
  | sample (item : SnapshotItem)

namespace Evidence

def halfClose? : Evidence → Option Line
  | .line l => if l.event.half then some l else none
  | .sample _ => none

def sample? : Evidence → Option SnapshotItem
  | .line _ => none
  | .sample item => some item

end Evidence

/-- The half closes among what was observed, in order. -/
def halfCloses (h : List Evidence) : List Line := h.filterMap Evidence.halfClose?

/-- The entries of the table among what was observed, in order. -/
def samples (h : List Evidence) : List SnapshotItem := h.filterMap Evidence.sample?

/-- The rank of a half close. -/
def Line.rank (l : Line) : Nat := evidenceRank l.error l.whenEmpty

/-- What a call shows of a connection. -/
def Assembler.observes (a : Assembler) (r : Nat) : AsmCall → List Evidence
  | .line l _ => if a.target l = some r then [.line l] else []
  | .snapshot s _ => (a.joins r s.items).map .sample
  | _ => []

/-- What a run shows of a connection. -/
def AsmRun.history (sdk : Sdk) (r : Nat) : AsmRun → List AsmCall → List Evidence
  | _, [] => []
  | s, call :: calls => s.asm.observes r call ++ history sdk r (s.step sdk call) calls

/-- The line is one from which an end of the stream can be read: a direction that finished or a
closed connection without an error text, or an error text that says so. -/
def Line.saysEOF (sdk : Sdk) (l : Line) : Prop :=
  ((l.event = .finished ∨ l.event = .connectionClosed) ∧ trimSpace l.error = "") ∨
    ((l.event.half = true ∨ l.event = .connectionClosed) ∧
      contains (sdk.toLower l.error) "eof" = true)

/-- What a final record may say after a history, and whether the half closes settled it. -/
structure Verdict (sdk : Sdk) (h : List Evidence) (settled : Prop) (rec : ConnRecord) : Prop where
  /-- The earliest half close of the highest rank is the one that counts. -/
  strongest : settled → ∃ l ∈ (halfCloses h).argmax Line.rank,
    rec.closeReason = some (closeReasonFor sdk l.error l.whenEmpty) ∧ rec.closeError = l.error
  eof : rec.closeReason = some .eof → ∃ l, .line l ∈ h ∧ l.saysEOF sdk
  stated : rec.closeReason ≠ none
  known : rec.bytesKnown = true ↔ ∃ item, .sample item ∈ h
  last : ∀ item ∈ (samples h).getLast?, rec.upload = item.upload ∧ rec.download = item.download

/-- A call settles a connection by its half closes: both are seen, the grace is over, or it left
the table after one of them. -/
def AsmRun.Settles (s : AsmRun) (h : List Evidence) (r : Nat) : AsmCall → Prop
  | .line l _ => l.event.half = true ∧ s.asm.target l = some r
  | .tick now clock => (s.asm.conn r).settled s.asm.opts s.asm.snapSeq (orClock now clock) = true
  | .snapshot _ _ => halfCloses h ≠ []
  | _ => False

/-! ### What a connection knows of its history -/

/-- The state of a connection is what its history showed. -/
structure Shown (sdk : Sdk) (h : List Evidence) (c : Conn) : Prop where
  close : c.close = ((halfCloses h).argmax Line.rank).elim {} (Line.halfCandidate sdk)
  halves : c.closedUp = true ∨ c.closedDown = true ∨ c.firstHalfAt.isZero = false → halfCloses h ≠ []
  known : c.record.bytesKnown = true ↔ samples h ≠ []
  last : ∀ item ∈ (samples h).getLast?,
    c.record.upload = item.upload ∧ c.record.download = item.download

theorem halfCloses_append (h h' : List Evidence) :
    halfCloses (h ++ h') = halfCloses h ++ halfCloses h' := filterMap_append

theorem samples_append (h h' : List Evidence) : samples (h ++ h') = samples h ++ samples h' :=
  filterMap_append

theorem Line.rank_pos (l : Line) : 0 < l.rank := by
  unfold rank evidenceRank rankError rankEOF rankSoft
  split
  · decide
  · split <;> decide

namespace Shown

variable {sdk : Sdk} {h : List Evidence} {c c' : Conn}

theorem fresh (nodeID : String) (l : Line) (at_ : Time) : Shown sdk [] (Conn.fresh nodeID l at_) :=
  ⟨rfl, by simp [Conn.fresh, Time.isZero], by simp [Conn.fresh, samples], by simp [samples]⟩

section

variable (hs : Shown sdk h c)

include hs

theorem congr (hclose : c'.close = c.close) (hup : c'.closedUp = c.closedUp)
    (hdown : c'.closedDown = c.closedDown) (hfirst : c'.firstHalfAt = c.firstHalfAt)
    (hknown : c'.record.bytesKnown = c.record.bytesKnown)
    (hupload : c'.record.upload = c.record.upload)
    (hdownload : c'.record.download = c.record.download) : Shown sdk h c' := by
  refine ⟨by rw [hclose, hs.close], ?_, by rw [hknown, hs.known], ?_⟩
  · rw [hup, hdown, hfirst]
    exact hs.halves
  · rw [hupload, hdownload]
    exact hs.last

/-- The strongest half close is the one kept, and the earlier one of two equals. -/
theorem offer (l : Line) (hhalf : l.event.half) :
    (c.offer (l.halfCandidate sdk)).close =
      ((halfCloses (h ++ [.line l])).argmax Line.rank).elim {} (Line.halfCandidate sdk) := by
  have hlast : halfCloses [.line l] = [l] := by simp [halfCloses, Evidence.halfClose?, hhalf]
  have hclose := hs.close
  rw [halfCloses_append, hlast, argmax_concat]
  unfold Conn.offer
  generalize (halfCloses h).argmax Line.rank = strongest at hclose ⊢
  rcases strongest with - | best
  · have hlt : c.close.rank < (l.halfCandidate sdk).rank := hclose ▸ l.rank_pos
    rw [if_pos hlt]
    rfl
  · have hrank : c.close.rank = best.rank := congrArg (·.rank) hclose
    dsimp only
    by_cases hlt : best.rank < l.rank
    · rw [if_pos (show c.close.rank < (l.halfCandidate sdk).rank from hrank ▸ hlt), if_pos hlt]
      rfl
    · rw [if_neg (show ¬ c.close.rank < (l.halfCandidate sdk).rank from hrank ▸ hlt), if_neg hlt,
        hclose]

theorem fed (l : Line) (at_ : Time) : Shown sdk (h ++ [.line l]) (c.fed sdk l at_) := by
  have hsame : samples (h ++ [.line l]) = samples h := by
    simp [samples, Evidence.sample?]
  rw [fed_eq]
  cases hhalf : l.event.half with
  | true =>
    refine ⟨hs.offer l hhalf, fun _ => ?_, by rw [hsame]; exact hs.known,
      by rw [hsame]; exact hs.last⟩
    simp [halfCloses, Evidence.halfClose?, hhalf]
  | false =>
    have hnone : halfCloses (h ++ [.line l]) = halfCloses h := by
      simp [halfCloses, Evidence.halfClose?, hhalf]
    exact ⟨by rw [hnone]; exact hs.close, by rw [hnone]; exact hs.halves,
      by rw [hsame]; exact hs.known, by rw [hsame]; exact hs.last⟩

theorem join (item : SnapshotItem) (at_ : Time) (seq : UInt64) (floor quiet : Duration) :
    Shown sdk (h ++ [.sample item]) (c.join sdk item at_ seq floor quiet) := by
  have hnone : halfCloses (h ++ [.sample item]) = halfCloses h := by
    simp [halfCloses, Evidence.halfClose?]
  have hlast : samples (h ++ [.sample item]) = samples h ++ [item] := samples_append h _
  rw [join_eq]
  refine ⟨by rw [hnone]; exact hs.close, by rw [hnone]; exact hs.halves, ?_, fun item' hitem => ?_⟩
  · rw [hlast]
    exact iff_of_true rfl (by simp)
  · rw [hlast, getLast?_append_cons, getLast?_singleton] at hitem
    cases hitem
    exact ⟨rfl, rfl⟩

theorem joins (items : List SnapshotItem) (at_ : Time) (seq : UInt64) (floor quiet : Duration) :
    Shown sdk (h ++ items.map .sample)
      (items.foldl (fun c item => c.join sdk item at_ seq floor quiet) c) := by
  induction items generalizing h c with
  | nil =>
    rw [map_nil, append_nil]
    exact hs
  | cons item items ih =>
    have := ih (hs.join item at_ seq floor quiet)
    rwa [append_assoc] at this

theorem ticked (opts : Options) (now : Time) : Shown sdk h (c.ticked opts now) := by
  rw [ticked_eq]
  exact hs.congr rfl rfl rfl rfl rfl rfl rfl

end

end Shown

/-! ### What an ending rests on -/

variable {sdk : Sdk}

/-- The reason is the end of the stream only where the text says so, or where there is none and
the line means it. -/
theorem eof_of_closeReasonFor {err : String} {whenEmpty : CloseReason}
    (h : closeReasonFor sdk err whenEmpty = .eof) :
    (trimSpace err = "" ∧ whenEmpty = .eof) ∨ contains (sdk.toLower err) "eof" := by
  unfold closeReasonFor at h
  split at h
  · rename_i hblank
    exact .inl ⟨hblank, h⟩
  · right
    dsimp only at h
    split at h
    · cases h
    · split at h
      · cases h
      · split at h
        · cases h
        · split at h
          · assumption
          · cases h

theorem saysEOF_of_half {l : Line} (hhalf : l.event.half)
    (h : closeReasonFor sdk l.error l.whenEmpty = .eof) : l.saysEOF sdk := by
  obtain ⟨hblank, hmeans⟩ | htext := eof_of_closeReasonFor h
  · refine .inl ⟨.inl ?_, hblank⟩
    unfold Line.whenEmpty at hmeans
    split at hmeans
    · assumption
    · split at hmeans <;> cases hmeans
  · exact .inr ⟨.inl hhalf, htext⟩

theorem saysEOF_of_closed {l : Line} (hev : l.event = .connectionClosed)
    (h : closeReasonFor sdk l.error .eof = .eof) : l.saysEOF sdk := by
  obtain ⟨hblank, -⟩ | htext := eof_of_closeReasonFor h
  · exact .inl ⟨.inr hev, hblank⟩
  · exact .inr ⟨.inr hev, htext⟩

variable {h : List Evidence}

theorem mem_halfCloses {l : Line} (hl : l ∈ halfCloses h) : .line l ∈ h ∧ l.event.half := by
  obtain ⟨e, he, hsome⟩ := mem_filterMap.mp hl
  cases e with
  | line l' =>
    by_cases hhalf : l'.event.half = true
    · rw [Evidence.halfClose?, if_pos hhalf] at hsome
      cases hsome
      exact ⟨he, hhalf⟩
    · rw [Evidence.halfClose?, if_neg hhalf] at hsome
      cases hsome
  | sample item => cases hsome

theorem mem_samples {item : SnapshotItem} : item ∈ samples h ↔ .sample item ∈ h := by
  constructor
  · intro hi
    obtain ⟨e, he, hsome⟩ := mem_filterMap.mp hi
    cases e with
    | line l => cases hsome
    | sample item' =>
      cases hsome
      exact he
  · exact fun hi => mem_filterMap.mpr ⟨_, hi, rfl⟩

/-- What an ending must rest on for the record to be a verdict on the history. -/
structure Rests (sdk : Sdk) (h : List Evidence) (settled : Prop) (c : Conn) (e : Ending) : Prop where
  settled : settled → e.cand = c.close ∧ halfCloses h ≠ []
  eof : e.cand.reason = some .eof → e.cand = c.close ∨ ∃ l, .line l ∈ h ∧ l.saysEOF sdk

theorem Rests.verdict {settled : Prop} {c : Conn} {e : Ending} (hr : Rests sdk h settled c e)
    (hs : Shown sdk h c) (gen : UInt64) : Verdict sdk h settled (c.final gen e) := by
  refine ⟨fun hsettled => ?_, fun heof => ?_, Option.some_ne_none _, ?_, hs.last⟩
  · obtain ⟨hcand, hne⟩ := hr.settled hsettled
    have hclose := hs.close
    rcases hbest : (halfCloses h).argmax Line.rank with - | l
    · exact absurd (argmax_eq_none.mp hbest) hne
    · rw [hbest] at hclose
      refine ⟨l, rfl, ?_, ?_⟩
      · change some (e.cand.reason.getD .unknown) = _
        rw [hcand, hclose]
        rfl
      · change e.cand.err = _
        rw [hcand, hclose]
        rfl
  · have hreason : e.cand.reason = some .eof := by
      have heof : some (e.cand.reason.getD .unknown) = some CloseReason.eof := heof
      cases hcand : e.cand.reason with
      | none =>
        rw [hcand] at heof
        cases heof
      | some reason =>
        rw [hcand] at heof
        exact heof
    obtain hcand | htold := hr.eof hreason
    · -- The strongest half close is among those observed.
      have hclose := hs.close
      rcases hbest : (halfCloses h).argmax Line.rank with - | l
      · rw [hcand, hclose, hbest] at hreason
        cases hreason
      · obtain ⟨hmem, hhalf⟩ := mem_halfCloses (argmax_mem (Option.mem_def.mpr hbest))
        rw [hcand, hclose, hbest] at hreason
        exact ⟨l, hmem, saysEOF_of_half hhalf (Option.some.inj hreason)⟩
    · exact htold
  · have hmem : samples h ≠ [] ↔ ∃ item, item ∈ samples h :=
      ⟨exists_mem_of_ne_nil _, fun ⟨_, hi⟩ => ne_nil_of_mem hi⟩
    exact (hs.known.trans hmem).trans (exists_congr fun _ => mem_samples)

/-! ### Runs -/

namespace AsmRun

open Assembler

variable (sdk : Sdk)

theorem history_concat (r : Nat) (s : AsmRun) (calls : List AsmCall) (call : AsmCall) :
    history sdk r s (calls ++ [call]) =
      history sdk r s calls ++ (s.run sdk calls).asm.observes r call := by
  induction calls generalizing s with
  | nil => exact append_nil _
  | cons first calls ih =>
    change s.asm.observes r first ++ history sdk r (s.step sdk first) (calls ++ [call]) = _
    rw [ih, ← append_assoc]
    rfl

theorem run_concat (s : AsmRun) (calls : List AsmCall) (call : AsmCall) :
    s.run sdk (calls ++ [call]) = (s.run sdk calls).step sdk call := foldl_concat ..

variable {sdk} {s : AsmRun}

variable {r : Nat}

theorem observes_left (h : s.asm.Consistent) (hr : r ∉ s.asm.order) (hlt : r < s.asm.conns.length)
    (call : AsmCall) : s.asm.observes r call = [] := by
  cases call with
  | line l clock =>
    refine if_neg fun ht => ?_
    obtain hmem | heq := target_mem h ht
    · exact hr hmem
    · exact Nat.ne_of_lt hlt heq
  | snapshot snap clock => exact congrArg (List.map _) (joins_of_not_mem h hr snap.items)
  | _ => rfl

theorem step_shown (h : s.asm.Consistent) {hist : Nat → List Evidence}
    (hs : ∀ r < s.asm.conns.length, Shown sdk (hist r) (s.asm.conn r))
    (hnew : ∀ r, s.asm.conns.length ≤ r → hist r = []) (call : AsmCall)
    (hr : r < (s.step sdk call).asm.conns.length) :
    Shown sdk (hist r ++ s.asm.observes r call) ((s.step sdk call).asm.conn r) := by
  have hbecomes := step_becomes h call hr
  generalize (s.step sdk call).asm.conn r = c at hbecomes
  cases hbecomes with
  | @fed l clock ht =>
    rw [show s.asm.observes r (.line l clock) = [.line l] from if_pos ht]
    refine Shown.fed ?_ l _
    unfold found
    split
    · exact hs r ‹_›
    · rw [hnew r (by omega)]
      exact .fresh _ _ _
  | @unfed l clock ht hlt =>
    rw [show s.asm.observes r (.line l clock) = [] from if_neg ht, append_nil]
    exact hs r hlt
  | polled hlt => exact (hs r hlt).joins _ _ _ _ _
  | ticked hlt _ =>
    change Shown sdk (hist r ++ []) _
    rw [append_nil]
    exact (hs r hlt).ticked _ _
  | tagged hlt sessions =>
    change Shown sdk (hist r ++ []) _
    rw [append_nil]
    exact (hs r hlt).congr rfl rfl rfl rfl rfl rfl rfl
  | unticked hlt _ | restarted hlt | drained hlt =>
    change Shown sdk (hist r ++ []) _
    rw [append_nil]
    exact hs r hlt

theorem conn_of_tickEnding (hb : s.asm.Consistent) {now clock : Time} {e : Ending}
    (he : (s.asm.conn r).tickEnding s.asm.opts s.asm.snapSeq (orClock now clock) = some e) :
    (s.step sdk (.tick now clock)).asm.conn r = s.asm.conn r := by
  refine (tick_conn hb now clock r).trans (if_neg fun hc => ?_)
  rw [he] at hc
  cases hc.2

theorem rests_of_ends {call : AsmCall} {e : Ending} (hb : s.asm.Consistent)
    (hends : Ends sdk s.asm r call e)
    (hs : Shown sdk (h ++ s.asm.observes r call) ((s.step sdk call).asm.conn r)) :
    Rests sdk (h ++ s.asm.observes r call) (s.Settles h r call) ((s.step sdk call).asm.conn r) e := by
  cases hends with
  | @line l clock e htarget he =>
    have hobs : s.asm.observes r (.line l clock) = [.line l] := if_pos htarget
    have hmem : .line l ∈ h ++ s.asm.observes r (.line l clock) := by simp [hobs]
    rw [conn_of_target hb htarget] at hs ⊢
    obtain ⟨hhalf, hcand, -⟩ | ⟨hhalf, reason, hcand, hreason⟩ := lineEnding_cases he
    · refine ⟨fun _ => ⟨hcand, ?_⟩, fun _ => .inl hcand⟩
      rw [hobs]
      simp [halfCloses, Evidence.halfClose?, hhalf]
    · -- A line that says how the connection ended is no half close.
      refine ⟨fun hset => absurd hset.1 (by rw [hhalf]; exact Bool.false_ne_true),
        fun heof => .inr ⟨l, hmem, ?_⟩⟩
      have heof : reason = .eof := Option.some.inj ((congrArg (·.reason) hcand).symm.trans heof)
      obtain ⟨hev, rfl⟩ | rfl | rfl | rfl := hreason
      · exact saysEOF_of_closed hev heof
      all_goals cases heof
  | @collision l clock hopen hev htarget =>
    refine ⟨fun hset => ?_, fun heof => ?_⟩
    · have hhalf : l.event.half := hset.1
      rw [hev] at hhalf
      cases hhalf
    · cases heof
  | @tick now clock e hr he =>
    rw [conn_of_tickEnding hb he] at hs ⊢
    unfold tickEnding at he
    split at he
    · rename_i hset
      cases he
      refine ⟨fun _ => ⟨rfl, hs.halves (.inr (.inr ?_))⟩, fun _ => .inl rfl⟩
      unfold Conn.settled at hset
      simp only [Bool.and_eq_true, Bool.not_eq_true'] at hset
      exact hset.1.1
    · rename_i hset
      split at he
      · cases he
        exact ⟨fun hc => absurd hc hset, nofun⟩
      · cases he
  | @sweep snap clock e hr he =>
    have hconn : (s.step sdk (.snapshot snap clock)).asm.conn r = _ :=
      snapshot_conn sdk hb snap clock r
    rw [hconn] at hs ⊢
    have hsame : halfCloses (h ++ s.asm.observes r (.snapshot snap clock)) = halfCloses h := by
      rw [halfCloses_append]
      refine (congrArg _ (filterMap_eq_nil_iff.mpr fun ev hev => ?_)).trans (append_nil _)
      obtain ⟨item, -, rfl⟩ := mem_map.mp hev
      rfl
    unfold sweepEnding at he
    split at he
    · split at he
      · -- Without a half close nothing was said.
        rename_i hrank
        cases he
        refine ⟨fun hset => absurd ?_ hset, nofun⟩
        have hclose := hs.close
        rw [hsame] at hclose
        rcases hbest : (halfCloses h).argmax Line.rank with - | l
        · exact argmax_eq_none.mp hbest
        · rw [hclose, hbest] at hrank
          exact absurd hrank (Nat.ne_of_gt l.rank_pos)
      · cases he
        exact ⟨fun hset => ⟨rfl, hsame.symm ▸ hset⟩, fun _ => .inl rfl⟩
    · cases he
  | restart hr => exact ⟨False.elim, nofun⟩

/-- All final records of a run, drained or not. -/
def finalRecords (s : AsmRun) : List ConnRecord :=
  (s.drained ++ s.asm.out).filter fun rec => !rec.open_

/-- The record is pushed by a call of the run, and is a verdict on all that the run showed. -/
def Judged (sdk : Sdk) (s₀ : AsmRun) (calls : List AsmCall) (x : Nat × ConnRecord) : Prop :=
  ∃ pre call post, calls = pre ++ call :: post ∧
    x ∉ (s₀.run sdk pre).asm.finals ∧ x ∈ (s₀.run sdk (pre ++ [call])).asm.finals ∧
    Verdict sdk (history sdk x.1 s₀ calls)
      ((s₀.run sdk pre).Settles (history sdk x.1 s₀ pre) x.1 call) x.2

/-- What holds after every run. -/
structure Told (sdk : Sdk) (s₀ : AsmRun) (calls : List AsmCall) : Prop where
  linked : (s₀.run sdk calls).asm.Linked
  shown : ∀ r < (s₀.run sdk calls).asm.conns.length,
    Shown sdk (history sdk r s₀ calls) ((s₀.run sdk calls).asm.conn r)
  unborn : ∀ r, (s₀.run sdk calls).asm.conns.length ≤ r → history sdk r s₀ calls = []
  records : (s₀.run sdk calls).finalRecords = (s₀.run sdk calls).asm.finals.map (·.2)
  judged : ∀ x ∈ (s₀.run sdk calls).asm.finals, Judged sdk s₀ calls x

theorem observes_unborn (h : s.asm.Consistent) (call : AsmCall)
    (hr : (s.step sdk call).asm.conns.length ≤ r) : s.asm.observes r call = [] := by
  have hle : s.asm.conns.length ≤ (s.step sdk call).asm.conns.length := step_length h call
  have hnot : r ∉ s.asm.order := fun hmem => by
    have := h.allocated r hmem
    omega
  cases call with
  | line l clock =>
    refine if_neg fun ht => ?_
    have hlen : (s.step sdk (.line l clock)).asm.conns.length = _ := (line_conn sdk h l clock).1
    obtain hmem | rfl := target_mem h ht
    · exact hnot hmem
    · rw [hlen, if_pos ht] at hr
      omega
  | snapshot snap clock => exact congrArg (List.map _) (joins_of_not_mem h hnot snap.items)
  | _ => rfl

theorem step_records (h : s.asm.Consistent) (call : AsmCall) :
    ∃ new, (s.step sdk call).asm.finals = s.asm.finals ++ new ∧
      (s.step sdk call).finalRecords = s.finalRecords ++ new.map (·.2) ∧
      ∀ x ∈ new, ∃ e gen, Ends sdk s.asm x.1 call e ∧
        x.2 = ((s.step sdk call).asm.conn x.1).final gen e := by
  by_cases hcall : call = .drain
  · subst hcall
    refine ⟨[], (append_nil _).symm, ?_, forall_mem_nil _⟩
    simp [finalRecords, step, drain]
  · obtain ⟨new, hnew⟩ := step_pushes sdk h call hcall
    have hdrained : (s.step sdk call).drained = s.drained := by
      cases call with
      | drain => exact absurd rfl hcall
      | _ => rfl
    refine ⟨new, hnew.finals, ?_, hnew.ends⟩
    rw [finalRecords, finalRecords, filter_append, filter_append, hdrained,
      append_assoc]
    exact congrArg _ hnew.closed

theorem Told.step {s₀ : AsmRun} {calls : List AsmCall} (h : Told sdk s₀ calls) (call : AsmCall) :
    Told sdk s₀ (calls ++ [call]) := by
  obtain ⟨hl, hshown, hunborn, hrecords, hjudged⟩ := h
  have hc := hl.consistent
  have hrun := run_concat sdk s₀ calls call
  have hhist (r : Nat) := history_concat sdk r s₀ calls call
  have hnewborn {r : Nat} (hr : r < ((s₀.run sdk calls).step sdk call).asm.conns.length) :=
    step_shown hc hshown hunborn call hr
  obtain ⟨new, hfinals, hfinal, hends⟩ :
      ∃ new, ((s₀.run sdk calls).step sdk call).asm.finals = _ ++ new ∧ _ := step_records hc call
  refine ⟨hrun ▸ step_linked sdk hl call, ?_, ?_, ?_, ?_⟩
  · rw [hrun]
    intro r hr
    rw [hhist]
    exact hnewborn hr
  · rw [hrun]
    intro r hr
    have hle : _ ≤ ((s₀.run sdk calls).step sdk call).asm.conns.length := step_length hc call
    rw [hhist, hunborn r (by omega), nil_append]
    exact observes_unborn hc call hr
  · rw [hrun, hfinal, hfinals, hrecords, map_append]
  · rw [hrun, hfinals]
    intro x hx
    obtain hx | hx := mem_append.mp hx
    · -- A connection that has left shows nothing more.
      obtain ⟨hlt, hleft⟩ := hl.finals x hx
      obtain ⟨pre, call', post, rfl, hbefore, hafter, hverdict⟩ := hjudged x hx
      refine ⟨pre, call', post ++ [call], by simp, hbefore, hafter, ?_⟩
      rwa [hhist, observes_left hc hleft hlt, append_nil]
    · obtain ⟨e, gen, he, hrec⟩ := hends x hx
      have hmem : x ∈ ((s₀.run sdk calls).step sdk call).asm.finals :=
        hfinals ▸ mem_append_right _ hx
      have hlt := ((step_linked sdk hl call).finals x hmem).1
      refine ⟨calls, call, [], rfl, fun hold => ?_, by rw [hrun]; exact hmem, ?_⟩
      · obtain ⟨hlt, hleft⟩ := hl.finals x hold
        obtain hmem | ⟨heq, -⟩ := he.mem hc
        · exact hleft hmem
        · exact Nat.ne_of_lt hlt heq
      · rw [hhist, hrec]
        exact (rests_of_ends hc he (hnewborn hlt)).verdict (hnewborn hlt) gen

theorem told (sdk : Sdk) (opts : Options) (calls : List AsmCall) :
    Told sdk ⟨.new opts, []⟩ calls := by
  induction calls using reverseRecOn with
  | nil =>
    exact ⟨linked_new opts, fun r hr => absurd hr (Nat.not_lt_zero r), fun _ _ => rfl,
      rfl, forall_mem_nil _⟩
  | append_singleton calls call ih => exact ih.step call

/-- **Close verdicts state only what was observed.**  In every run each final record is pushed by
one of the calls and is a verdict on the whole history of its connection. -/
theorem verdicts_observed (sdk : Sdk) (opts : Options) (calls : List AsmCall) :
    let s := run sdk ⟨.new opts, []⟩ calls
    s.finalRecords = s.asm.finals.map (·.2) ∧
      ∀ x ∈ s.asm.finals, Judged sdk ⟨.new opts, []⟩ calls x :=
  ⟨(told sdk opts calls).records, (told sdk opts calls).judged⟩

end AsmRun

end LatticeAgent.Trace
