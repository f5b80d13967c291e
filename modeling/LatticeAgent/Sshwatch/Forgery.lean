import LatticeAgent.Sshwatch.Header

/-! # A peer cannot forge sshd's events

Every record of a rejected attempt prints the user before the address. Whatever text the
user is, `parse` sees no login in the record and `parseFailure` sees one failure, of the
address sshd wrote (`rejection_sound`). -/

namespace LatticeAgent.Sshwatch

open Option

open Text (lit)
open Regex

variable {net : Net}

/-- The words a record begins with. -/
inductive Opens : Str → Prop where
  | failed (s : Str) : Opens (lit "Failed " ++ s)
  | invalidUser (s : Str) : Opens (lit "Invalid user " ++ s)
  | connection (s : Str) : Opens (lit "Connection " ++ s)
  | disconnected (s : Str) : Opens (lit "Disconnected from" ++ s)
  | exceeded (s : Str) :
      Opens (lit "error: maximum authentication attempts exceeded for " ++ s)

theorem opens_text (r : Rejection) : Opens r.text := by
  cases r with
  | failed method invalid user addr port key => exact .failed _
  | invalidUser user addr port => exact .invalidUser _
  | dropped how invalid user addr port preauth =>
    cases how with
    | closed | reset =>
      simp only [Rejection.text, Departure.text, List.append_assoc]
      exact .connection _
    | disconnected => exact .disconnected _
  | exceeded invalid user addr port preauth => exact .exceeded _

variable {s : Str}

theorem find_bare (h : Opens s) : syslogHeaderRe.find s = none := by
  cases h <;>
    simp +decide [find, syslogHeaderRe, bsdRe, isoRe, cat, run, List.isPrefixOf?]

theorem splitSyslogMessage_framed (frame : Option Header) (r : Rejection) :
    splitSyslogMessage (framed frame r.text) = ((frame.map Header.program).getD [], r.text) := by
  cases frame with
  | none =>
    simp only [framed, splitSyslogMessage, find_bare (opens_text r)]
    rfl
  | some h =>
    simp only [framed, splitSyslogMessage, find_header]
    rfl

theorem program_accepted (frame : Option Header) :
    ((frame.map Header.program).getD [] ≠ [] && !isSSHDProgram ((frame.map Header.program).getD []))
      = false := by
  cases frame with
  | none => rfl
  | some h => simp [h.program_sshd]

/-! ### The events -/

theorem find_acceptedRe (h : Opens s) : acceptedRe.find s = none := by
  cases h <;> exact run_seq_text_none _ (by simp)

theorem find_failedRe_none (h : ¬ lit "Failed " <+: s) : failedRe.find s = none :=
  run_seq_text_none _ h

theorem find_invalidRe_none (h : ¬ lit "Invalid user " <+: s) : invalidRe.find s = none :=
  run_seq_text_none _ h

theorem find_droppedRe_none (hc : ¬ lit "Connection " <+: s) (hd : ¬ lit "Disconnected from" <+: s) :
    droppedRe.find s = none := by
  simp only [find, droppedRe, departureRe, cat, run_seq, run_alt, run_text_none hc, run_text_none hd,
    or_none]

/-- The first pattern that matches a record is its own, and captures its address. -/
theorem pattern_found {r : Rejection} (h : r.Written net) :
    ∃ p g, (failurePatterns.findSome? fun p => (p.re.find r.text).map fun m => (p, m.1))
      = some (p, (.addr, r.addr) :: g) := by
  cases r with
  | failed method invalid user addr port key =>
    obtain ⟨g, hg⟩ := find_failedRe h
    refine ⟨⟨failedRe, false, false⟩, g, ?_⟩
    simp only [failurePatterns, List.findSome?_cons, hg, map_some, Rejection.addr]
  | invalidUser user addr port =>
    have hfailed := find_failedRe_none (s := (Rejection.invalidUser user addr port).text)
      (by simp [Rejection.text])
    refine ⟨⟨invalidRe, true, false⟩, [(.user, user)], ?_⟩
    simp only [failurePatterns, List.findSome?_cons, hfailed, find_invalidRe h, map_none,
      map_some, Rejection.addr]
  | dropped how invalid user addr port preauth =>
    obtain ⟨g, hg⟩ := find_droppedRe h
    have hfront : ∀ s, ¬ lit "Failed " <+: how.text ++ s ∧ ¬ lit "Invalid user " <+: how.text ++ s := by
      intro s
      cases how <;> simp [Departure.text]
    have hfailed : failedRe.find (Rejection.dropped how invalid user addr port preauth).text = none :=
      find_failedRe_none (hfront _).1
    have hinvalid : invalidRe.find (Rejection.dropped how invalid user addr port preauth).text = none :=
      find_invalidRe_none (hfront _).2
    refine ⟨⟨droppedRe, false, true⟩, g, ?_⟩
    simp only [failurePatterns, List.findSome?_cons, hfailed, hinvalid, hg, map_none,
      map_some, Rejection.addr]
  | exceeded invalid user addr port preauth =>
    obtain ⟨g, hg⟩ := find_exceededRe h
    have hfailed := find_failedRe_none (s := (Rejection.exceeded invalid user addr port preauth).text)
      (by simp [Rejection.text])
    have hinvalid := find_invalidRe_none
      (s := (Rejection.exceeded invalid user addr port preauth).text) (by simp [Rejection.text])
    have hdropped := find_droppedRe_none
      (s := (Rejection.exceeded invalid user addr port preauth).text)
      (by simp [Rejection.text]) (by simp [Rejection.text])
    refine ⟨⟨exceededRe, false, false⟩, g, ?_⟩
    simp only [failurePatterns, List.findSome?_cons, hfailed, hinvalid, hdropped, hg,
      map_none, map_some, Rejection.addr]

/-- Whatever a peer gives as its user, a record of its rejection is no login, and is one
failure of the address that sshd wrote, behind a header of syslog or without one. -/
theorem rejection_sound (net : Net) {r : Rejection} (h : r.Written net) (frame : Option Header) :
    parse (framed frame r.text) = none ∧
      ∃ ev, parseFailure net (framed frame r.text) = some ev ∧
        net.parseIP r.addr = some ev.address := by
  have haddr : (net.parseIP r.addr).isSome := by
    cases r <;> first | exact h.2.1 | exact h.2
  obtain ⟨a, ha⟩ := isSome_iff_exists.mp haddr
  obtain ⟨p, g, hfound⟩ := pattern_found h
  have hcaptured : captured ((.addr, r.addr) :: g) .addr = r.addr := by simp [captured]
  simp only [parse, parseFailure, splitSyslogMessage_framed, program_accepted,
    find_acceptedRe (opens_text r), hfound, Bool.false_eq_true, if_false, map_none,
    bind_some, FailurePattern.event, hcaptured, ha, map_some]
  exact ⟨trivial, _, rfl, rfl⟩

/-- A network with two addresses. -/
def twoNet : Net where
  parseIP a := if a ∈ [lit "203.0.113.5", lit "9.9.9.9"] then some (String.ofList a) else none
  parseIP_text := by
    intro a ha
    have hin : a ∈ [lit "203.0.113.5", lit "9.9.9.9"] := by
      by_contra hno
      rw [if_neg hno] at ha
      cases ha
    have hall : ([lit "203.0.113.5", lit "9.9.9.9"].all fun a => decide (a ≠ []) &&
        a.all fun c => decide (c.isDigit = true ∨ c ∈ "abcdefABCDEF:.".toList)) = true := by
      decide +kernel
    have ha := List.all_eq_true.mp hall a hin
    rw [Bool.and_eq_true, decide_eq_true_eq] at ha
    exact ⟨ha.1, fun c hc => of_decide_eq_true (List.all_eq_true.mp ha.2 c hc)⟩

/-- `Jun 11 04:00:01 web sshd[123]: `. -/
def sshdHeader : Header where
  stamp := .bsd (⟨'J', by decide⟩, ⟨'u', by decide⟩, ⟨'n', by decide⟩) (some ⟨'1', by decide⟩)
    ⟨'1', by decide⟩ ⟨⟨'0', by decide⟩, ⟨'4', by decide⟩, ⟨'0', by decide⟩, ⟨'0', by decide⟩,
      ⟨'0', by decide⟩, ⟨'1', by decide⟩⟩
  host := ['w', 'e', 'b']
  program := ['s', 's', 'h', 'd']
  pid := some 123
  host_word := ⟨by decide, List.all_eq_true.mp (by decide)⟩
  program_word c hc := by
    have hall : (['s', 's', 'h', 'd'].all fun c => decide (nonSpace c = true ∧ c ≠ '[')) = true := by
      decide
    exact of_decide_eq_true (List.all_eq_true.mp hall c hc)
  program_sshd := by decide +kernel

/-- A user that is a record of its own. -/
def decoy : Rejection :=
  .failed (lit "password") true (lit "root from 9.9.9.9 port 22 ssh2") (lit "203.0.113.5") 51514 none

theorem rejection_sound_decoy :
    String.ofList (framed (some sshdHeader) decoy.text)
        = "Jun 11 04:00:01 web sshd[123]: Failed password for invalid user root from 9.9.9.9 " ++
          "port 22 ssh2 from 203.0.113.5 port 51514 ssh2" ∧
      parse (framed (some sshdHeader) decoy.text) = none ∧
      ∃ ev, parseFailure twoNet (framed (some sshdHeader) decoy.text) = some ev ∧
        twoNet.parseIP decoy.addr = some ev.address := by
  refine ⟨by decide +kernel, rejection_sound twoNet ?_ (some sshdHeader)⟩
  exact ⟨by decide +kernel, by decide +kernel,
    ⟨by decide +kernel, List.all_eq_true.mp (by decide +kernel)⟩, by simp⟩

/-- A key that begins with the word of a source. -/
def namedKey : Rejection :=
  .failed (lit "publickey") false (lit "bob") (lit "203.0.113.5") 22
    (some (lit "from 9.9.9.9 port 1 ssh2"))

theorem key_frames :
    (¬ lit " from " <:+: lit "from 9.9.9.9 port 1 ssh2") ∧
      String.ofList namedKey.text
        = "Failed publickey for bob from 203.0.113.5 port 22 ssh2: from 9.9.9.9 port 1 ssh2" ∧
      (parseFailure twoNet namedKey.text).map FailureEvent.address = some "9.9.9.9" := by
  decide +kernel

end LatticeAgent.Sshwatch
