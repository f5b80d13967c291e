import LatticeAgent.Singboxlog.RoundTrip
import LatticeAgent.Trace.Verdicts

/-! # UDP connections that idle out

sing-box ends a packet connection that has been silent with the half closes of a cancelled
direction. The assembler tells it from a cancelled stream by the packet flag of the line, and the
parser sets that flag on other lines only.

The first half close of such a connection decides: the record says `udp_idle` exactly if that line
carries the flag, and `canceled` whenever the lines come from the parser (`idle_reported_iff`). -/

namespace LatticeAgent

open List Option

namespace Singboxlog

open Trace (Line)

/-! ### The parser and the packet flag -/

variable {std : Std} {l l' : Line} {rest body : Str}

theorem sniffedParts_event (l : Line) (tail : Str) : (sniffedParts l tail).event = l.event := by
  have hset (l : Line) (part : Str) : (sniffedParts.setDomain l part).event = l.event := by
    unfold sniffedParts.setDomain
    split <;> rfl
  induction l, tail using sniffedParts.induct with
  | case1 l =>
    rw [sniffedParts, if_pos rfl]
  | case2 l tail hne hcut =>
    rw [sniffedParts, if_neg hne]
    split
    · exact hset l tail
    · rename_i hsome
      rw [hcut] at hsome
      cases hsome
  | case3 l tail hne part rest hcut ih =>
    rw [sniffedParts, if_neg hne]
    split
    · rename_i hnone
      rw [hcut] at hnone
      cases hnone
    · rename_i part' rest' hsome
      rw [hcut] at hsome
      cases hsome
      exact ih.trans (hset l part)

theorem classifyInbound_event (h : classifyInbound l rest = some l') : l'.event ≠ .closed := by
  unfold classifyInbound at h
  split at h
  · cases h
    exact Trace.Event.noConfusion
  · split at h
    · cases h
      exact Trace.Event.noConfusion
    · obtain ⟨q, -, rfl⟩ := map_eq_some_iff.mp h
      exact Trace.Event.noConfusion

theorem classifyOutbound_event (h : classifyOutbound l rest = some l') : l'.event ≠ .closed := by
  unfold classifyOutbound at h
  split at h
  · cases h
    exact Trace.Event.noConfusion
  · obtain ⟨q, -, rfl⟩ := map_eq_some_iff.mp h
    exact Trace.Event.noConfusion

theorem setAction_event (l : Line) (action : Str) : (setAction l action).event = l.event := by
  unfold setAction
  split
  · rfl
  · split <;> rfl

theorem classifyRuleMatch_event (h : classifyRuleMatch l body = some l') : l'.event ≠ .closed := by
  simp only [classifyRuleMatch, bind_eq_bind, Option.pure_def, bind_eq_some_iff,
    Option.some.injEq] at h
  obtain ⟨_, -, _, -, _, -, rfl⟩ := h
  rw [setAction_event]
  exact Trace.Event.noConfusion

theorem classifyDialFailure_event (h : classifyDialFailure l body = some l') :
    l'.event ≠ .closed := by
  unfold classifyDialFailure at h
  split at h
  · cases h
    exact Trace.Event.noConfusion
  · obtain ⟨_, -, rfl⟩ := map_eq_some_iff.mp h
    exact Trace.Event.noConfusion

theorem classifyAuthFailure_event (std : Std) (l : Line) (rest : Str) :
    (classifyAuthFailure std l rest).event ≠ .closed := by
  unfold classifyAuthFailure
  dsimp only
  split <;> exact Trace.Event.noConfusion

theorem classifyLookup_event (h : classifyLookup l rest = some l') : l'.event ≠ .closed := by
  unfold classifyLookup at h
  split at h
  · cases h
    exact Trace.Event.noConfusion
  · split at h
    · cases h
      exact Trace.Event.noConfusion
    · obtain ⟨_, -, rfl⟩ := map_eq_some_iff.mp h
      exact Trace.Event.noConfusion

theorem classifyConnection_packet (h : classifyConnection l rest = some l') :
    l'.packet = l.packet := by
  have hhalf (direction : Trace.Direction) (rest : Str)
      (h : classifyConnection.half l direction rest = some l') : l'.packet = l.packet := by
    unfold classifyConnection.half at h
    split at h
    · cases h
      rfl
    · split at h
      · cases h
        rfl
      · obtain ⟨_, -, rfl⟩ := map_eq_some_iff.mp h
        rfl
  unfold classifyConnection at h
  split at h
  · exact hhalf _ _ h
  · split at h
    · exact hhalf _ _ h
    · obtain ⟨_, -, rfl⟩ := map_eq_some_iff.mp h
      rfl

theorem classifyBody_packet (h : classifyBody std l body = some l') (hev : l'.event = .closed) :
    l'.packet = l.packet := by
  unfold classifyBody at h
  split at h
  · exact absurd hev (classifyInbound_event h)
  · split at h
    · exact absurd hev (classifyOutbound_event h)
    · split at h
      · exact absurd hev (classifyRuleMatch_event h)
      · split at h
        · cases h
          rw [classifySniffed, sniffedParts_event] at hev
          cases hev
        · split at h
          · exact absurd hev (classifyDialFailure_event h)
          · split at h
            · cases h
              exact absurd hev (classifyAuthFailure_event std l _)
            · split at h
              · exact classifyConnection_packet h
              · split at h
                · exact absurd hev (classifyLookup_event h)
                · cases h

theorem classify_packet (message : Str) (hev : (classify std l message).event = .closed) :
    (classify std l message).packet = l.packet := by
  have huser : (takeUser l message).1.packet = l.packet := by
    unfold takeUser
    split
    · split <;> rfl
    · rfl
  unfold classify at hev ⊢
  dsimp only at hev ⊢
  split at hev
  · rename_i l' hbody
    exact (classifyBody_packet hbody hev).trans huser
  · exfalso
    dsimp only at hev
    split at hev <;> cases hev

/-- **No half close of the log carries the packet flag.** -/
theorem parsePayload_packet (std : Std) (raw level : String) (at_ : Time)
    (hev : (parsePayload std raw level at_).event = .closed) :
    (parsePayload std raw level at_).packet = false := by
  unfold parsePayload parseBody at hev ⊢
  dsimp only at hev ⊢
  rw [classify_packet _ hev]
  split <;> rfl

end Singboxlog

namespace Trace

/-! ### The first half close decides -/

/-- An inbound packet connection line. -/
def Evidence.opensPacket : Evidence → Bool
  | .line l => (l.event == .inboundFrom || l.event == .inboundTo) && l.packet
  | .sample _ => false

/-- The half closes were cancels without an error, of a connection that an inbound packet line
opened. -/
structure Idled (h : List Evidence) : Prop where
  opened : h.head?.any Evidence.opensPacket = true
  cancels : ∀ l ∈ halfCloses h, l.event = .closed ∧ l.error = ""

theorem argmax_eq_head? {α : Type} {f : α → Nat} {n : Nat} {l : List α} (h : ∀ x ∈ l, f x = n) :
    l.argmax f = l.head? := by
  induction l using reverseRecOn with
  | nil => rfl
  | append_singleton l x ih =>
    have hl := ih fun y hy => h y (mem_append_left _ hy)
    rw [argmax_concat, hl]
    cases l with
    | nil => rfl
    | cons y l =>
      have hy : f y = n := h y mem_cons_self
      have hx : f x = n := h x (by simp)
      simp [hx, hy]

theorem Idled.rank {h : List Evidence} (hi : Idled h) {l : Line} (hl : l ∈ halfCloses h) :
    l.rank = rankSoft := by
  obtain ⟨hev, herr⟩ := hi.cancels l hl
  have hempty : l.whenEmpty ≠ .eof := by
    unfold Line.whenEmpty
    rw [hev, if_neg Event.noConfusion]
    split <;> exact CloseReason.noConfusion
  have hblank : ¬ trimSpace l.error ≠ "" := by
    rw [herr]
    decide
  rw [Line.rank, evidenceRank, if_neg hblank, if_neg hempty]

theorem Idled.closeReason {sdk : Sdk} {h : List Evidence} {settled : Prop} {rec : ConnRecord}
    (hi : Idled h) (hv : Verdict sdk h settled rec) (hsettled : settled) :
    ∃ l ∈ (halfCloses h).head?,
      rec.closeReason = some (if l.packet then .udpIdle else .canceled) := by
  obtain ⟨l, hl, hreason, -⟩ := hv.strongest hsettled
  rw [argmax_eq_head? fun l hl => hi.rank hl] at hl
  obtain ⟨hev, herr⟩ := hi.cancels l (mem_of_mem_head? hl)
  refine ⟨l, hl, ?_⟩
  rw [hreason, closeReasonFor, herr, if_pos (by decide), Line.whenEmpty, hev,
    if_neg Event.noConfusion]

/-- The lines that are fed come from the parser. -/
def FromLog (std : Singboxlog.Std) (calls : List AsmCall) : Prop :=
  ∀ l clock, .line l clock ∈ calls → ∃ raw level at_, l = Singboxlog.parsePayload std raw level at_

namespace AsmRun

variable {sdk : Sdk} {opts : Options}

theorem fed_of_mem_history {r : Nat} {s : AsmRun} {calls : List AsmCall} {l : Line}
    (h : .line l ∈ history sdk r s calls) : ∃ clock, .line l clock ∈ calls := by
  induction calls generalizing s with
  | nil => cases h
  | cons call calls ih =>
    rcases mem_append.mp h with h | h
    · cases call with
      | line l' clock =>
        simp only [Assembler.observes] at h
        split at h
        · cases mem_singleton.mp h
          exact ⟨clock, mem_cons_self⟩
        · cases h
      | snapshot snap clock =>
        obtain ⟨item, -, hitem⟩ := mem_map.mp h
        cases hitem
      | _ => cases h
    · obtain ⟨clock, hmem⟩ := ih h
      exact ⟨clock, mem_cons_of_mem _ hmem⟩

variable {pre : List AsmCall} {x : Nat × ConnRecord}

theorem finals_stay (hx : x ∈ (run sdk ⟨.new opts, []⟩ pre).asm.finals) (post : List AsmCall) :
    x ∈ (run sdk ⟨.new opts, []⟩ (pre ++ post)).asm.finals := by
  induction post using reverseRecOn with
  | nil => rwa [append_nil]
  | append_singleton post call ih =>
    obtain ⟨new, hnew, -⟩ := step_records (told sdk opts (pre ++ post)).linked.consistent call
    rw [← append_assoc, run_concat, hnew]
    exact mem_append_left _ ih

/-- The call after which a record is there is the one that pushed it. -/
theorem verdict_of_entered {call : AsmCall} (hbefore : x ∉ (run sdk ⟨.new opts, []⟩ pre).asm.finals)
    (hafter : x ∈ (run sdk ⟨.new opts, []⟩ (pre ++ [call])).asm.finals) :
    Verdict sdk (history sdk x.1 ⟨.new opts, []⟩ (pre ++ [call]))
      ((run sdk ⟨.new opts, []⟩ pre).Settles (history sdk x.1 ⟨.new opts, []⟩ pre) x.1 call) x.2 := by
  obtain ⟨pre', call', post', heq, -, hin, hverdict⟩ := (told sdk opts (pre ++ [call])).judged x hafter
  rcases eq_nil_or_concat post' with rfl | ⟨post, last, rfl⟩
  · obtain ⟨rfl, hcall⟩ := append_inj' heq rfl
    cases hcall
    exact hverdict
  · -- otherwise the record was there before the last call
    have hpre : pre = (pre' ++ [call']) ++ post := by
      have hlast : pre ++ [call] = ((pre' ++ [call']) ++ post) ++ [last] := by
        rw [heq]
        simp
      exact (append_inj' hlast rfl).1
    refine absurd ?_ hbefore
    rw [hpre]
    exact finals_stay hin post

/-- **A packet connection that ends on cancels alone** is recorded as idle exactly if its first half
close carries the packet flag, and is recorded as cancelled if the lines come from the parser. -/
theorem idle_reported_iff (sdk : Sdk) (opts : Options) (std : Singboxlog.Std)
    {pre : List AsmCall} {call : AsmCall} {x : Nat × ConnRecord}
    (hbefore : x ∉ (run sdk ⟨.new opts, []⟩ pre).asm.finals)
    (hafter : x ∈ (run sdk ⟨.new opts, []⟩ (pre ++ [call])).asm.finals)
    (hsettles : (run sdk ⟨.new opts, []⟩ pre).Settles
      (history sdk x.1 ⟨.new opts, []⟩ pre) x.1 call)
    (hidled : Idled (history sdk x.1 ⟨.new opts, []⟩ (pre ++ [call]))) :
    (x.2.closeReason = some .udpIdle ↔
        ∃ l ∈ (halfCloses (history sdk x.1 ⟨.new opts, []⟩ (pre ++ [call]))).head?,
          l.packet = true) ∧
      (FromLog std (pre ++ [call]) → x.2.closeReason = some .canceled) := by
  obtain ⟨l, hl, hreason⟩ := hidled.closeReason (verdict_of_entered hbefore hafter) hsettles
  refine ⟨⟨fun hidle => ⟨l, hl, ?_⟩, ?_⟩, fun hlog => ?_⟩
  · by_contra hflag
    rw [hreason, if_neg hflag] at hidle
    cases hidle
  · rintro ⟨l', hl', hflag⟩
    cases mem_unique hl hl'
    rw [hreason, if_pos hflag]
  · have hmem := mem_of_mem_head? hl
    obtain ⟨hev, -⟩ := hidled.cancels l hmem
    obtain ⟨clock, hfed⟩ := fed_of_mem_history (mem_halfCloses hmem).1
    obtain ⟨raw, level, at_, rfl⟩ := hlog l clock hfed
    rw [hreason, Singboxlog.parsePayload_packet std raw level at_ hev, if_neg Bool.false_ne_true]

/-- A line of the packet connection with log id 7. -/
def packetLine (event : Event) (direction : Direction) (at_ : Time) : AsmCall :=
  .line { logID := 7, hasLogID := true, event, direction, packet := true, at_,
          dstHost := "192.0.2.1" } 1

/-- A packet connection that is opened and cancelled in one direction, with the flag on its
lines. -/
def idling : List AsmCall := [packetLine .inboundTo .none 1, packetLine .closed .upload 2]

/-- It is cancelled in the other direction too. -/
def idled : List AsmCall := idling ++ [packetLine .closed .download 3]

def idleRecord : Nat × ConnRecord :=
  (run asciiSdk ⟨.new {}, []⟩ idled).asm.finals.headD (0, {})

theorem idle_reported_flagged :
    idleRecord ∈ (run asciiSdk ⟨.new {}, []⟩ idled).asm.finals ∧
      idleRecord.2.closeReason = some .udpIdle := by
  have hflag : (halfCloses (history asciiSdk idleRecord.1 ⟨.new {}, []⟩ idled)).head?.map Line.packet =
      some true := by
    decide +kernel
  have hafter : idleRecord ∈ (run asciiSdk ⟨.new {}, []⟩ idled).asm.finals := by decide +kernel
  have hbefore : idleRecord ∉ (run asciiSdk ⟨.new {}, []⟩ idling).asm.finals := by decide +kernel
  have hsettles : (run asciiSdk ⟨.new {}, []⟩ idling).Settles
      (history asciiSdk idleRecord.1 ⟨.new {}, []⟩ idling) idleRecord.1
      (packetLine .closed .download 3) := ⟨by decide +kernel, by decide +kernel⟩
  have hidled : Idled (history asciiSdk idleRecord.1 ⟨.new {}, []⟩ idled) :=
    ⟨by decide +kernel, by decide +kernel⟩
  obtain ⟨l, hl, hpacket⟩ := map_eq_some_iff.mp hflag
  have hiff := idle_reported_iff asciiSdk {} Singboxlog.minutesStd hbefore hafter hsettles hidled
  exact ⟨hafter, hiff.1.mpr ⟨l, hl, hpacket⟩⟩

/-- A payload of the log, as the parser reads it. -/
def payload (raw : String) (at_ : Time) : AsmCall :=
  .line (Singboxlog.parsePayload Singboxlog.minutesStd raw "trace" at_) 1

/-- The log of a packet connection that is opened and cancelled in both directions. -/
def idleLog : List AsmCall :=
  [payload "[7 0ms] inbound/tuic[in]: inbound packet connection to 192.0.2.1:53" 1,
    payload "[7 30.0s] connection: connection upload closed" 2,
    payload "[7 30.0s] connection: connection download closed" 3]

/-- The log of an idle packet connection, end to end: the record says that it was cancelled. -/
theorem idle_reads_canceled :
    (run asciiSdk ⟨.new {}, []⟩ idleLog).finalRecords.map
        (fun rec => (rec.network, rec.closeReason, rec.closeError)) =
      [("udp", some .canceled, "")] := by
  decide +kernel

end AsmRun

end Trace
end LatticeAgent
