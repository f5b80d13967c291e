import LatticeAgent.Sshwatch.Expressions

/-! # The expression on syslog's header

A header is split off where syslog wrote it, whatever the message behind it is
(`find_header`). -/

namespace LatticeAgent.Sshwatch

open List
open Text (lit)
open Regex

variable {g : List (Field × Str)}

section
variable {k : List (Field × Str) → Str → Option (List (Field × Str) × Str)} {s : Str}

theorem run_clock (clock : Clock) : clockRe.run g (clock.text ++ s) k = k g s := by
  simp [clockRe, Clock.text, cat, run, isPrefixOf?, clock.h₁.2, clock.h₂.2, clock.m₁.2,
    clock.m₂.2, clock.s₁.2, clock.s₂.2]

theorem Digit.ne_blank (d : Digit) : ' ' ≠ d.1 := by
  intro heq
  have hd := d.2
  rw [← heq] at hd
  cases hd

theorem Digit.not_upper (d : Digit) : d.1.isUpper = false := by
  have hd := d.2
  simp only [Char.isDigit, Bool.and_eq_true, decide_eq_true_eq] at hd
  refine decide_eq_false ?_
  exact fun hupper => absurd (UInt32.le_trans hupper.1 hd.2) (by decide)

theorem run_bsd (month : Of Char.isUpper × Of Char.isLower × Of Char.isLower) (tens : Option Digit)
    (day : Digit) (clock : Clock) :
    bsdRe.run g ((Stamp.bsd month tens day clock).text ++ s) k = k g s := by
  have hclock := run_clock (g := g) (s := s) (k := k) clock
  cases tens with
  | none =>
    simp [bsdRe, Stamp.text, cat, run, isPrefixOf?, month.1.2, month.2.1.2, month.2.2.2,
      day.2, hclock]
  | some d =>
    simp [bsdRe, Stamp.text, cat, run, isPrefixOf?, month.1.2, month.2.1.2, month.2.2.2,
      day.2, d.2, day.ne_blank, d.ne_blank, hclock]

theorem run_stamp {x : List (Field × Str) × Str} (hx : k g s = some x)
    (hs : ∀ c r, s = c :: r → nonSpace c = false) (hk : ∀ c r, nonSpace c → k g (c :: r) = none)
    (stamp : Stamp) : (alt bsdRe isoRe).run g (stamp.text ++ s) k = some x := by
  rw [run_alt]
  cases stamp with
  | bsd month tens day clock => rw [run_bsd, hx, Option.some_or]
  | iso year month day separated clock zone =>
    have hbsd : bsdRe.run g ((Stamp.iso year month day separated clock zone).text ++ s) k = none := by
      simp [bsdRe, Stamp.text, cat, run, year.1.not_upper]
    have hzone : greedy nonSpace (zone.map Subtype.val ++ s) (k g) = k g s := by
      refine greedy_token (fun c hc => ?_) hs hk
      obtain ⟨d, -, rfl⟩ := mem_map.mp hc
      exact d.2
    have hclock := run_clock (g := g) (s := zone.map Subtype.val ++ s)
      (k := fun g s => greedy nonSpace s (k g)) clock
    rw [hbsd, Option.none_or, ← hx, ← hzone, ← hclock]
    cases separated <;>
      simp [isoRe, Stamp.text, cat, run, isPrefixOf?, year.1.2, year.2.1.2, year.2.2.1.2,
        year.2.2.2.2, month.1.2, month.2.2, day.1.2, day.2.2]

end

theorem run_tagEnd (pid : Option Nat) (message : Str) :
    tagEnd.run g (pidText pid ++ ([':', ' '] ++ message)) found = some (g, message) := by
  cases pid with
  | none => simp [pidText, tagEnd, cat, run, isPrefixOf?, found]
  | some n =>
    have hclose : Breaks Char.isDigit [']'] := ⟨']', [], rfl, by decide⟩
    have hdigits := fun (v : Str) (k : List (Field × Str) → Str → Option (List (Field × Str) × Str)) =>
      run_plus (g := g) (v := [']'] ++ v) (k := fun g s => (text [']'] : Regex Field).run g s k)
      (Nat.toDigits_ne_nil (n := n)) (fun c hc => Decimal.isDigit_toDigits hc) (fun c s => hclose.head)
        fun c s hc => hclose.run_text hc
    simp only [tagEnd, cat, run_seq, run_opt, pidText, append_assoc, run_text_append, hdigits]
    simp [run, isPrefixOf?, found]

theorem not_blank {c : Char} (h : nonSpace c) : (c == ' ' || c == '\t') = false := by
  simp only [nonSpace, space, Bool.not_eq_true', decide_eq_false_iff_not, mem_cons,
    not_or] at h
  simp [h]

/-- The tag does not end inside the program: no colon in it is followed by a blank. -/
theorem run_tagEnd_none {c : Char} {r : Str} (hc : c ≠ '[') (hr : ∀ d ∈ r, nonSpace d)
    (pid : Option Nat) (message : Str) :
    tagEnd.run g (c :: r ++ (pidText pid ++ ([':', ' '] ++ message))) found = none := by
  obtain ⟨d, t, hd, hnext⟩ : ∃ d t, r ++ (pidText pid ++ ([':', ' '] ++ message)) = d :: t ∧
      (d == ' ' || d == '\t') = false := by
    cases r with
    | cons d r => exact ⟨d, _, rfl, not_blank (hr d mem_cons_self)⟩
    | nil =>
      cases pid with
      | none => exact ⟨':', _, rfl, by decide⟩
      | some n => exact ⟨'[', _, rfl, by decide⟩
  rw [cons_append, hd]
  simp [tagEnd, cat, run, isPrefixOf?, Ne.symm hc]
  simp_all

theorem program_ne_nil (h : Header) : h.program ≠ [] := by
  intro heq
  have hsshd := h.program_sshd
  rw [heq] at hsshd
  simp [isSSHDProgram, pathBase, Text.trim, isPrefixOf] at hsshd

theorem run_program (h : Header) (message : Str) :
    (seq (group .program (plusLazy nonSpace)) tagEnd).run g
      (h.program ++ (pidText h.pid ++ ([':', ' '] ++ message))) found
      = some ((.program, h.program) :: g, message) := by
  rw [run_seq]
  refine run_group_plusLazy Field.program (program_ne_nil h) (fun c hc => (h.program_word c hc).1)
    (run_tagEnd h.pid message) fun g r hr hne => ?_
  have hword := fun c hc => h.program_word c (hr.subset hc)
  obtain ⟨c, r, rfl⟩ := exists_cons_of_ne_nil hne
  exact run_tagEnd_none (hword c mem_cons_self).2
    (fun d hd => (hword d (mem_cons_of_mem c hd)).1) h.pid message

theorem run_plus_cons_none {p : Char → Bool} {r : Regex Field} {c : Char} {s : Str} (hc : p c = false) :
    (seq (plus p) r).run g (c :: s) found = none := by
  simp [plus, run, hc]

theorem run_hostAndTag (h : Header) (message : Str) :
    hostAndTag.run g ([' '] ++ (h.host ++ ([' '] ++ (h.program ++
      (pidText h.pid ++ ([':', ' '] ++ message)))))) found
      = some ((.program, h.program) :: g, message) := by
  have hspace : ∀ c, space c = true → nonSpace c = false := fun c hc => by rw [nonSpace, hc]; rfl
  have hword : ∀ c, nonSpace c = true → space c = false := fun c hc => by simpa [nonSpace] using hc
  have hhead : ∀ (w v : Str) (c : Char) (r : Str), w ≠ [] → (∀ d ∈ w, nonSpace d = true) →
      w ++ v = c :: r → space c = false := by
    intro w v c r hne hw heq
    obtain ⟨d, w, rfl⟩ := exists_cons_of_ne_nil hne
    rw [← (List.cons.inj heq).1]
    exact hword d (hw d mem_cons_self)
  have hhost := h.host_word
  have hblank : ∀ c ∈ [' '], space c = true := all_eq_true.mp (by decide)
  change (seq (plus space) (seq (plus nonSpace) (seq (plus space)
    (seq (group .program (plusLazy nonSpace)) tagEnd)))).run g _ found = _
  rw [run_seq, run_plus (cons_ne_nil _ _) hblank
      (fun c r => hhead h.host _ c r hhost.1 hhost.2) fun c r hc => run_plus_cons_none (hspace c hc),
    run_seq, run_plus hhost.1 hhost.2 (by simp; decide) fun c r hc => run_plus_cons_none (hword c hc),
    run_seq, run_plus (cons_ne_nil _ _) hblank
      (fun c r => hhead h.program _ c r (program_ne_nil h) fun d hd => (h.program_word d hd).1)
      fun c r hc => by simp [plusLazy, run, hspace c hc],
    run_program]

theorem find_header (h : Header) (message : Str) :
    syslogHeaderRe.find (h.text ++ message) = some ([(.program, h.program)], message) := by
  have htext : h.text ++ message = h.stamp.text ++ ([' '] ++ (h.host ++ ([' '] ++ (h.program ++
      (pidText h.pid ++ ([':', ' '] ++ message)))))) := by simp [Header.text]
  rw [htext]
  refine run_stamp (run_hostAndTag h message) (fun c r heq => ?_) (fun c r hc => ?_) h.stamp
  · rw [← (List.cons.inj heq).1]
    decide
  · refine run_plus_cons_none ?_
    simpa [nonSpace] using hc

end LatticeAgent.Sshwatch
