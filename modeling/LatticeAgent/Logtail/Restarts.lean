import LatticeAgent.Logtail.Manager

/-! # Tailed lines and restarts

Over any run of a source's loop whose restarts find a checkpoint, every byte of the file since the
first successful poll is still to be read, or is part of a line that is pending, dropped and
counted, or reported (`lines_survive`). A restart before the first checkpoint begins at the end of
the file and passes over what was appended before it (`passed_over`). -/

namespace LatticeAgent.Logtail

open List Tailer Decimal Framing
open Framing (cut Frame)

/-! ### The checkpoint is read back -/

section Checkpoint

variable {sha256 : String → Bytes} {offset : Nat} {incarnation : Int}

theorem hexEncode_plain (b : Bytes) {c : Char} (h : c ∈ hexEncode b) :
    c ≠ ':' ∧ isSpace c = false := by
  have hdigit : ∀ n, n < 16 → Nat.digitChar n ≠ ':' ∧ isSpace (Nat.digitChar n) = false := by
    decide
  obtain ⟨x, -, hc⟩ := mem_flatMap.mp h
  have hx := x.toNat_lt
  rcases mem_pair.mp hc with rfl | rfl
  · exact hdigit _ (by omega)
  · exact hdigit _ (by omega)

theorem checkpointText_plain {path : String} {c : Char}
    (h : c ∈ checkpointText sha256 path offset incarnation) : isSpace c = false := by
  have hnat : ∀ n, c ∈ Nat.toDigits 10 n → isSpace c = false := fun n hc =>
    isSpace_digit (isDigit_toDigits hc)
  have hint : c ∈ itoa incarnation → isSpace c = false := by
    cases incarnation with
    | ofNat n => exact hnat n
    | negSucc n =>
      intro hc
      rcases mem_cons.mp hc with rfl | hc
      · rfl
      · exact hnat (n + 1) hc
  simp only [checkpointText, checkpointString, mem_append, mem_cons] at h
  rcases h with (h | rfl | h) | rfl | h
  · exact hnat _ h
  · rfl
  · exact hint h
  · rfl
  · exact (hexEncode_plain _ h).2

theorem parseCheckpoint_checkpointString (hoffset : offset < 2 ^ 64)
    (hlow : -2 ^ 63 ≤ incarnation) (hhigh : incarnation < 2 ^ 63) :
    parseCheckpoint (checkpointString offset incarnation) = some (offset, incarnation) := by
  have hoff : scanNat (checkpointString offset incarnation) =
      some (offset, ':' :: itoa incarnation) :=
    scanNat_toDigits offset fun c hc => by cases hc; rfl
  have hend : Decimal.Stops [] := fun c hc => by cases hc
  have hinc := scanInt_itoa incarnation hend
  rw [append_nil] at hinc
  have hrange : ¬ (incarnation < -2 ^ 63 ∨ 2 ^ 63 ≤ incarnation) := by omega
  simp only [parseCheckpoint, hoff, hinc, if_neg (Nat.not_le.mpr hoffset), if_neg hrange]

theorem parseCheckpoint_range {s : List Char} (h : parseCheckpoint s = some (offset, incarnation)) :
    -2 ^ 63 ≤ incarnation ∧ incarnation < 2 ^ 63 := by
  unfold parseCheckpoint at h
  split at h
  · split at h
    · cases h
    · split at h
      · split at h
        · cases h
        · simp only [Option.some.injEq, Prod.mk.injEq] at h
          omega
      · cases h
  · cases h

theorem load_range {file : Option (List Char)} {path : String}
    (h : loadLogCheckpoint sha256 file path = some (offset, incarnation)) :
    -2 ^ 63 ≤ incarnation ∧ incarnation < 2 ^ 63 := by
  cases file with
  | none => cases h
  | some text =>
    simp only [loadLogCheckpoint, Option.bind_eq_bind, Option.bind_some] at h
    split at h
    · split at h
      · exact parseCheckpoint_range h
      · cases h
    · cases h

theorem load_checkpointText (path : String) (hoffset : offset < 2 ^ 64)
    (hlow : -2 ^ 63 ≤ incarnation) (hhigh : incarnation < 2 ^ 63) :
    loadLogCheckpoint sha256 (some (checkpointText sha256 path offset incarnation)) path =
      some (offset, incarnation) := by
  have htrim : Text.trim isSpace (checkpointText sha256 path offset incarnation) =
      checkpointText sha256 path offset incarnation :=
    Text.trim_eq_self (fun c hc => checkpointText_plain (mem_of_head? hc))
      (fun c hc => checkpointText_plain (mem_of_getLast? hc))
  have hbinding : ':' ∉ checkpointBinding sha256 path := fun h => (hexEncode_plain _ h).1 rfl
  have hsplit : (checkpointText sha256 path offset incarnation).splitOn ':' =
      [Nat.toDigits 10 offset, itoa incarnation, checkpointBinding sha256 path] := by
    unfold checkpointText checkpointString
    rw [append_assoc, cons_append,
      splitOn_append_cons_self_of_not_mem (not_mem_toDigits rfl),
      splitOn_append_cons_self_of_not_mem (not_mem_itoa rfl (by decide)),
      splitOn_eq_singleton hbinding]
  unfold loadLogCheckpoint
  simp only [Option.bind_eq_bind, Option.bind_some, htrim, hsplit, if_true]
  exact parseCheckpoint_checkpointString hoffset hlow hhigh

end Checkpoint

/-- The line is what the tailer makes of the bytes at its place: a line of the file, or a piece of
one. -/
def Entry.Exact (e : Entry) (t : Tailer) (content : Bytes) : Prop :=
  ∃ fr : Frame UInt8, newline ∉ fr.body ∧ fr.raw newline <+: content.drop e.start ∧
    e.size = fr.size ∧ e.line = t.text fr

variable {content : Bytes} {r : Tailer × List Bytes} {t : Tailer}

theorem Entry.Exact.append {e : Entry} (h : e.Exact t content) (late : Bytes) :
    e.Exact t (content ++ late) := by
  obtain ⟨fr, hbody, hraw, hsize, hline⟩ := h
  exact ⟨fr, hbody, hraw.trans ((prefix_append content late).drop e.start), hsize, hline⟩

theorem entriesOf_eq {start stop : Nat} {fs : List (Frame UInt8)}
    (h : cut newline t.maxReadBytes ((content.drop start).take (stop - start)) = (fs, [])) :
    entriesOf t.maxReadBytes content start stop (fs.map t.text) =
      (locate start fs).map fun p => ⟨p.1, p.2.size, t.text p.2⟩ := by
  have htexts : fs.map t.text = (locate start fs).map fun p => t.text p.2 := by
    conv_lhs => rw [← locate_snd start fs, map_map]
    rfl
  rw [entriesOf, h, htexts, zipWith_map_right, zipWith_self]

theorem entriesOf_exact (h : t.Reads content r) {e : Entry}
    (he : e ∈ entriesOf t.maxReadBytes content t.offset r.1.offset r.2) : e.Exact t content := by
  obtain ⟨fs, hcut, hlines⟩ := h.lines
  rw [hlines, entriesOf_eq hcut] at he
  obtain ⟨p, hp, rfl⟩ := mem_map.mp he
  have hflat := cut_flatten newline t.maxReadBytes
    ((content.drop t.offset).take (r.1.offset - t.offset))
  have hbody := (sep_not_mem_cut newline t.maxReadBytes
    ((content.drop t.offset).take (r.1.offset - t.offset))).1
  rw [hcut] at hflat hbody
  rw [append_nil] at hflat
  refine ⟨p.2, hbody p.2 ?_, raw_of_mem_locate ?_ hp, rfl, rfl⟩
  · show p.2 ∈ fs
    rw [← locate_snd t.offset fs]
    exact mem_map_of_mem hp
  · rw [hflat]
    exact take_prefix _ _

theorem entriesOf_covers (h : t.Reads content r) {x : Nat} (hx : t.offset ≤ x)
    (hx' : x < r.1.offset) :
    ∃ e ∈ entriesOf t.maxReadBytes content t.offset r.1.offset r.2, e.Covers x := by
  obtain ⟨fs, hcut, hlines⟩ := h.lines
  have hsize := size_of_cut hcut
  have hbound := h.ready.offset_le
  rw [length_take, length_drop] at hsize
  obtain ⟨p, hp, hcover⟩ := exists_mem_locate hx (show x < t.offset + _ by rw [hsize]; omega)
  rw [hlines, entriesOf_eq hcut]
  exact ⟨_, mem_map_of_mem hp, hcover⟩

namespace Tailing

/-- A line of the file with its newline, from the place on. -/
structure LineAt (content : Bytes) (place : Nat) (body : Bytes) : Prop where
  plain : newline ∉ body
  stands : body ++ [newline] <+: content.drop place
  begins : place = 0 ∨ content[place - 1]? = some newline

/-- Every complete line that was appended after the first successful poll is still to be read, or
it is pending, dropped and counted, or reported. An over-long line is cut into pieces, so the
statement is about each of its bytes. -/
structure Kept (w : Tailing) : Prop where
  owed : w.dropped = w.owed.length
  counted : ∀ b ∈ w.accepted, b.dropped = b.counted.length
  exact : ∀ e ∈ w.accounted, e.Exact (Tailer.new w.src.maxLineBytes) w.content
  lines : ∀ base, w.base = some base → ∀ place body, LineAt w.content place body → base ≤ place →
    ∀ x, place ≤ x → x ≤ place + body.length →
      w.readsFrom ≤ x ∨ ∃ e ∈ w.accounted, e.Covers x

/-- The tailer of a restart begins before every line that no accepted batch carries or counts. -/
def BeginsBefore (w : Tailing) : Prop :=
  ∀ base, w.base = some base → ∀ place body, LineAt w.content place body → base ≤ place →
    ∀ x, place ≤ x → x ≤ place + body.length →
      w.readsFrom ≤ x ∨ ∃ e ∈ w.reported, e.Covers x

variable {sha256 : String → Bytes} {w : Tailing}

/-- The condition on a restart: since the first successful poll there is a checkpoint. -/
def Resumable (sha256 : String → Bytes) (w : Tailing) : Happens → Prop
  | .restart => w.base.isSome → (loadLogCheckpoint sha256 w.checkpoint w.src.path).isSome
  | _ => True

instance : ∀ m, Decidable (Resumable sha256 w m)
  | .restart => inferInstanceAs (Decidable (_ → _))
  | .append _ | .tick .. | .ship _ | .save => inferInstanceAs (Decidable True)

/-! ### The invariant -/

/-- Every byte since the first successful poll and before an offset is covered. -/
def Covered (base : Option Nat) (entries : List Entry) (offset : Nat) : Prop :=
  ∀ b, base = some b → ∀ x, b ≤ x → x < offset → ∃ e ∈ entries, e.Covers x

structure Inv (sha256 : String → Bytes) (w : Tailing) : Prop where
  limits : w.tailer.maxReadBytes = (Tailer.new w.src.maxLineBytes).maxReadBytes ∧
    w.tailer.maxLineBytes = (Tailer.new w.src.maxLineBytes).maxLineBytes
  incarnation : -2 ^ 63 ≤ w.tailer.incarnation ∧ w.tailer.incarnation < 2 ^ 63
  started : w.tailer.started = true → w.tailer.Ready w.content
  /-- A tailer that has not started is a new one, and there was no successful poll. -/
  unstarted : w.tailer.started = false → w.tailer = Tailer.new w.src.maxLineBytes ∧ w.base = none
  base_le : ∀ b, w.base = some b → b ≤ w.content.length
  owed : w.dropped = w.owed.length
  counted : ∀ b ∈ w.accepted, b.dropped = b.counted.length
  exact : ∀ e ∈ w.accounted, e.Exact (Tailer.new w.src.maxLineBytes) w.content
  covered : Covered w.base w.accounted w.tailer.offset
  /-- What lies before the checkpoint is reported. -/
  saved : ∀ offset incarnation,
    loadLogCheckpoint sha256 w.checkpoint w.src.path = some (offset, incarnation) →
      offset ≤ w.content.length ∧ Covered w.base w.reported offset
  /-- Lines are dropped only while there are others. -/
  drained : w.pending = [] → w.owed = []
  saving : w.stage = .saving → w.pending = []

theorem Inv.kept (h : Inv sha256 w) : w.Kept := by
  refine ⟨h.owed, h.counted, h.exact, fun base hbase place body _ hplace x hx _ => ?_⟩
  by_cases hread : w.readsFrom ≤ x
  · exact .inl hread
  · right
    have hstarted : w.tailer.started := by
      by_contra hne
      rw [(h.unstarted (Bool.eq_false_of_not_eq_true hne)).2] at hbase
      cases hbase
    rw [readsFrom, if_pos hstarted] at hread
    exact h.covered base hbase x (hplace.trans hx) (Nat.not_le.mp hread)

theorem Covered.mono {base : Option Nat} {es es' : List Entry} {offset : Nat}
    (h : Covered base es offset) (hsub : ∀ e ∈ es, e ∈ es') : Covered base es' offset := by
  intro b hb x hbx hx
  obtain ⟨e, he, hcover⟩ := h b hb x hbx hx
  exact ⟨e, hsub e he, hcover⟩

theorem Inv.append (h : Inv sha256 w) (bytes : Bytes) :
    Inv sha256 { w with content := w.content ++ bytes } := by
  have hlength : w.content.length ≤ (w.content ++ bytes).length := by simp
  refine { h with
    started := fun hs => ?_
    base_le := fun b hb => (h.base_le b hb).trans hlength
    exact := fun e he => (h.exact e he).append bytes
    saved := fun off inc hload => ?_ }
  · obtain ⟨hstarted, hfile, hoffset, hwindow⟩ := h.started hs
    exact ⟨hstarted, hfile, hoffset.trans hlength, hwindow⟩
  · exact ⟨(h.saved off inc hload).1.trans hlength, (h.saved off inc hload).2⟩

theorem Inv.restart (h : Inv sha256 w) (hok : Resumable sha256 w .restart)
    (hsize : w.content.length < 2 ^ 63) : Inv sha256 (w.restart sha256) := by
  have hsub : ∀ e ∈ (w.restart sha256).accounted, e ∈ w.reported := by
    simp [Tailing.restart, accounted, reported]
  have hexact : ∀ e ∈ (w.restart sha256).accounted, e.Exact (new w.src.maxLineBytes) w.content :=
    fun e he => h.exact e (mem_append_left _ (mem_append_left _ (hsub e he)))
  cases hload : loadLogCheckpoint sha256 w.checkpoint w.src.path with
  | none =>
    have htailer : (w.restart sha256).tailer = new w.src.maxLineBytes := by
      simp only [Tailing.restart, newSourceTailer, hload]
    have hbase : w.base = none := by
      by_contra hne
      have hsome := hok (Option.isSome_iff_ne_none.mpr hne)
      rw [hload] at hsome
      cases hsome
    refine ⟨?_, ?_, ?_, ?_, h.base_le, rfl, h.counted, hexact, ?_, h.saved, fun _ => rfl,
      fun hs => by cases hs⟩
    · rw [htailer]
      exact ⟨rfl, rfl⟩
    · rw [htailer]
      exact ⟨by simp [new], by simp [new]⟩
    · rw [htailer]
      exact fun hs => by cases hs
    · exact fun _ => ⟨htailer, hbase⟩
    · intro b hb
      rw [show (w.restart sha256).base = w.base from rfl, hbase] at hb
      cases hb
  | some p =>
    obtain ⟨off, inc⟩ := p
    obtain ⟨hoff, hcovered⟩ := h.saved off inc hload
    have htailer : (w.restart sha256).tailer =
        { new w.src.maxLineBytes with
          offset := off, incarnation := inc, started := true } := by
      simp only [Tailing.restart, newSourceTailer, hload, resume,
        if_neg (show ¬ 2 ^ 63 ≤ off by omega)]
    refine ⟨?_, ?_, ?_, ?_, h.base_le, rfl, h.counted, hexact, ?_, h.saved, fun _ => rfl,
      fun hs => by cases hs⟩
    · rw [htailer]
      exact ⟨rfl, rfl⟩
    · rw [htailer]
      exact load_range hload
    · rw [htailer]
      exact fun _ => ⟨rfl, .inl rfl, hoff, Nat.two_pow_pos 20⟩
    · rw [htailer]
      exact fun hs => by cases hs
    · rw [htailer]
      exact hcovered.mono fun e he => mem_append_left _ (mem_append_left _ he)

theorem Inv.save (h : Inv sha256 w) (hstage : w.stage = .saving)
    (hsize : w.content.length < 2 ^ 63) : Inv sha256 (w.save sha256) := by
  have hoffset : w.tailer.offset ≤ w.content.length := by
    cases hs : w.tailer.started with
    | true => exact (h.started hs).offset_le
    | false =>
      rw [(h.unstarted hs).1]
      exact Nat.zero_le _
  refine { h with saved := fun off inc hload => ?_, saving := fun hs => by cases hs }
  have hback : loadLogCheckpoint sha256 (w.save sha256).checkpoint w.src.path =
      some (w.tailer.offset, w.tailer.incarnation) :=
    load_checkpointText w.src.path (by omega) h.incarnation.1 h.incarnation.2
  have hload := hback.symm.trans hload
  rw [Option.some.injEq, Prod.mk.injEq] at hload
  obtain ⟨rfl, rfl⟩ := hload
  -- everything that was read is shipped, so what covers the bytes before the offset is reported
  have hpending := h.saving hstage
  have hall : w.accounted = w.reported := by
    rw [accounted, hpending, h.drained hpending, append_nil, append_nil]
  exact ⟨hoffset, hall ▸ h.covered⟩

theorem Inv.ship (h : Inv sha256 w) (accepted : Bool) : Inv sha256 (w.ship accepted) := by
  cases accepted with
  | false => exact { h with saving := fun hs => by cases hs }
  | true =>
    have hreported : ∀ e ∈ w.reported, e ∈ (w.ship true).reported := by
      intro e he
      simp only [Tailing.ship, reported, if_true, flatMap_append, mem_append]
      exact .inl he
    have haccounted : ∀ e, e ∈ (w.ship true).accounted ↔ e ∈ w.accounted := by
      intro e
      have hsplit : e ∈ w.pending ↔ e ∈ w.pending.take w.src.batchLines ∨
          e ∈ w.pending.drop w.src.batchLines := by
        rw [← mem_append, take_append_drop]
      simp only [Tailing.ship, accounted, reported, batch, if_true, flatMap_append, flatMap_cons,
        flatMap_nil, append_nil, mem_append, hsplit]
      tauto
    refine { h with
      owed := rfl
      counted := fun b hb => ?_
      exact := fun e he => h.exact e ((haccounted e).mp he)
      covered := h.covered.mono fun e he => (haccounted e).mpr he
      saved := fun off inc hload => ?_
      drained := fun _ => rfl
      saving := fun hs => ?_ }
    · rcases mem_append.mp hb with hb | hb
      · exact h.counted b hb
      · rw [mem_singleton.mp hb]
        exact h.owed
    · obtain ⟨hoff, hcovered⟩ := h.saved off inc hload
      exact ⟨hoff, hcovered.mono hreported⟩
    · by_contra hne
      simp only [Tailing.ship, if_true] at hne hs
      rw [if_neg hne] at hs
      cases hs

theorem offset_eq_of_reads {t t' : Tailer} (h : t.Reads content (t', [])) :
    t'.offset = t.offset := by
  obtain ⟨fs, hcut, hlines⟩ := h.lines
  have hle : t.offset ≤ t'.offset := h.offset_le
  have hbound : t'.offset ≤ content.length := h.ready.offset_le
  have hsize : 0 = ((content.drop t.offset).take (t'.offset - t.offset)).length := by
    rw [← size_of_cut hcut, map_eq_nil_iff.mp hlines.symm]
    rfl
  rw [length_take, length_drop] at hsize
  omega

section Tick

variable (limit : Nat) (w : Tailing) (entries : List Entry)

theorem mem_buffer (e : Entry) :
    e ∈ (w.buffer limit entries).accounted ↔ e ∈ w.accounted ∨ e ∈ entries := by
  have hsplit : ∀ n, (e ∈ (w.pending ++ entries).take n ∨ e ∈ (w.pending ++ entries).drop n) ↔
      e ∈ w.pending ∨ e ∈ entries := by
    intro n
    rw [← mem_append, take_append_drop, mem_append]
  have hn := hsplit ((w.pending ++ entries).length - limit)
  simp only [buffer, accounted, reported, mem_append, or_assoc, hn]

theorem buffer_owed (h : w.dropped = w.owed.length) :
    (w.buffer limit entries).dropped = (w.buffer limit entries).owed.length := by
  simp only [buffer, length_append, length_take, h]
  omega

variable {limit w entries}

theorem buffer_drained (hlimit : 0 < limit) (h : w.pending = [] → w.owed = [])
    (hnone : (w.buffer limit entries).pending = []) : (w.buffer limit entries).owed = [] := by
  have hlength := drop_eq_nil_iff.mp hnone
  have hall : w.pending ++ entries = [] := length_eq_zero_iff.mp (by omega)
  have hpending := (append_eq_nil_iff.mp hall).1
  simp only [buffer, hall, take_nil, append_nil, h hpending]

section

variable (h : Inv sha256 w) (hlimit : 0 < limit)

include h hlimit

theorem Inv.polled (hstarted : w.tailer.started) {lines : List Bytes}
    (hreads : w.tailer.Reads w.content (t, lines)) {stage : Stage} (hstage : stage ≠ .saving) :
    Inv sha256
      { w.buffer limit (entriesOf t.maxReadBytes w.content w.readsFrom t.offset lines) with
        tailer := t
        base := w.base.or (some w.content.length)
        stage := stage } := by
  obtain ⟨hread, hline, hinc⟩ : t.maxReadBytes = w.tailer.maxReadBytes ∧
      t.maxLineBytes = w.tailer.maxLineBytes ∧ t.incarnation = w.tailer.incarnation := hreads.same
  have hready : t.Ready w.content := hreads.ready
  have hfrom : w.readsFrom = w.tailer.offset := if_pos hstarted
  have hentries : entriesOf t.maxReadBytes w.content w.readsFrom t.offset lines =
      entriesOf w.tailer.maxReadBytes w.content w.tailer.offset t.offset lines := by
    rw [hread, hfrom]
  rw [hentries]
  set entries := entriesOf w.tailer.maxReadBytes w.content w.tailer.offset t.offset lines
  have hmem := mem_buffer limit w entries
  refine
    { limits := ⟨hread.trans h.limits.1, hline.trans h.limits.2⟩
      incarnation := ?_
      started := fun _ => hready
      unstarted := fun hs => ?_
      base_le := fun b hb => ?_
      owed := buffer_owed limit w entries h.owed
      counted := h.counted
      exact := fun e he => ?_
      covered := fun b hb x hbx hx => ?_
      saved := fun off inc hload => ⟨(h.saved off inc hload).1, fun b hb x hbx hx => ?_⟩
      drained := buffer_drained hlimit h.drained
      saving := fun hs => absurd hs hstage }
  · dsimp only
    rw [hinc]
    exact h.incarnation
  · exact absurd hready.started (Bool.not_eq_true _ ▸ hs)
  · cases hbase : w.base with
    | none =>
      rw [hbase, Option.none_or, Option.some.injEq] at hb
      exact hb.symm.le
    | some b' =>
      rw [hbase, Option.some_or, Option.some.injEq] at hb
      exact hb ▸ h.base_le b' hbase
  · rcases (hmem e).mp he with he | he
    · exact h.exact e he
    · obtain ⟨fr, hbody, hraw, hsize, hline⟩ := entriesOf_exact hreads he
      exact ⟨fr, hbody, hraw, hsize, hline.trans (congrFun (text_congr h.limits.2) fr)⟩
  · by_cases hold : x < w.tailer.offset
    · cases hbase : w.base with
      | none =>
        rw [hbase, Option.none_or, Option.some.injEq] at hb
        have hoffset := (h.started hstarted).offset_le
        omega
      | some b' =>
        rw [hbase, Option.some_or, Option.some.injEq] at hb
        obtain ⟨e, he, hcover⟩ := h.covered b' hbase x (by omega) hold
        exact ⟨e, (hmem e).mpr (.inl he), hcover⟩
    · obtain ⟨e, he, hcover⟩ := entriesOf_covers hreads (Nat.not_lt.mp hold) hx
      exact ⟨e, (hmem e).mpr (.inr he), hcover⟩
  · cases hbase : w.base with
    | none =>
      rw [hbase, Option.none_or, Option.some.injEq] at hb
      have hoff := (h.saved off inc hload).1
      omega
    | some b' =>
      rw [hbase, Option.some_or, Option.some.injEq] at hb
      exact (h.saved off inc hload).2 b' hbase x (by omega) hx

theorem Inv.tickUpTo_started (hstarted : w.tailer.started) (faults : Faults) (late : Bytes) :
    Inv sha256 (w.tickUpTo limit faults late) := by
  obtain ⟨hreads, -⟩ := poll_reads (h.started hstarted) faults late
  unfold Tailing.tickUpTo
  cases hpoll : w.tailer.poll (faults.probe w.content late) with
  | mk t result =>
    rw [hpoll] at hreads
    cases result with
    | error e =>
      have hreads : w.tailer.Reads w.content (t, []) := hreads
      obtain ⟨hread, hline, hinc⟩ := hreads.same
      have hready : t.Ready w.content := hreads.ready
      refine Inv.append (w := { w with tailer := t }) { h with
        limits := ⟨hread.trans h.limits.1, hline.trans h.limits.2⟩
        incarnation := by rw [hinc]; exact h.incarnation
        started := fun _ => hready
        unstarted := fun hs => ?_
        covered := ?_ } late
      · exact absurd hready.started (Bool.eq_false_iff.mp hs)
      · rw [offset_eq_of_reads hreads]
        exact h.covered
    | ok lines =>
      have hstage : ∀ pending : List Entry,
          (if pending = [] then Stage.idle else .shipping) ≠ .saving := by
        intro pending
        split <;> exact fun hs => by cases hs
      exact (h.polled hlimit hstarted hreads (hstage _)).append late

theorem Inv.tickUpTo (faults : Faults) (late : Bytes) :
    Inv sha256 (w.tickUpTo limit faults late) := by
  cases hs : w.tailer.started with
  | true => exact h.tickUpTo_started hlimit hs faults late
  | false =>
    obtain ⟨hnew, hbase⟩ := h.unstarted hs
    rcases poll_unstarted hs (by rw [hnew]; rfl) faults late with hpoll | ⟨e, hpoll⟩
    · -- as if the tailer had been at the end of the file
      set t := ({ w.tailer with offset := w.content.length, started := true } : Tailer) with ht
      have hend : Inv sha256 { w with tailer := t } := { h with
        limits := h.limits
        incarnation := h.incarnation
        started := fun _ => ⟨rfl, .inl (by rw [ht, hnew]; rfl), le_rfl, by
          rw [ht, hnew]; exact Nat.two_pow_pos 20⟩
        unstarted := fun hs => by cases hs
        covered := fun b hb => by rw [show w.base = none from hbase] at hb; cases hb }
      have hsame : w.tickUpTo limit faults late =
          Tailing.tickUpTo limit { w with tailer := t } faults late := by
        have hfrom : w.readsFrom = Tailing.readsFrom { w with tailer := t } := by
          simp [readsFrom, hs, ht]
        unfold Tailing.tickUpTo
        rw [hpoll, hfrom]
        rfl
      rw [hsame]
      exact hend.tickUpTo_started hlimit rfl faults late
    · unfold Tailing.tickUpTo
      rw [hpoll]
      exact h.append late

end

end Tick

/-! ### Whole runs -/

theorem Inv.step (h : Inv sha256 w) {m : Happens} (hok : Resumable sha256 w m)
    (hsize : w.content.length < 2 ^ 63) : Inv sha256 (w.step sha256 m) := by
  cases m with
  | append bytes => exact h.append bytes
  | tick faults late =>
    simp only [Tailing.step]
    split
    · exact h.tickUpTo (Nat.succ_pos 49999) faults late
    · exact h
  | ship accepted =>
    simp only [Tailing.step]
    split
    · exact h.ship accepted
    · exact h
  | save =>
    simp only [Tailing.step]
    split
    · rename_i hstage
      exact h.save hstage hsize
    · exact h
  | restart => exact h.restart hok hsize

theorem content_tickUpTo (limit : Nat) (w : Tailing) (faults : Faults) (late : Bytes) :
    (w.tickUpTo limit faults late).content = w.content ++ late := by
  unfold tickUpTo
  split <;> rfl

theorem length_le_step (w : Tailing) (m : Happens) :
    w.content.length ≤ (w.step sha256 m).content.length := by
  cases m with
  | append bytes => simp [Tailing.step]
  | tick faults late =>
    simp only [Tailing.step]
    split
    · rw [tick, content_tickUpTo, length_append]
      exact Nat.le_add_right _ _
    · exact le_rfl
  | ship accepted =>
    simp only [Tailing.step]
    split
    · cases accepted <;> exact le_rfl
    · exact le_rfl
  | save =>
    simp only [Tailing.step]
    split <;> exact le_rfl
  | restart => exact le_rfl

theorem length_le_run (sha256 : String → Bytes) (w : Tailing) (moves : List Happens) :
    w.content.length ≤ (w.run sha256 moves).content.length :=
  Runs.invariant_always (fun w' : Tailing => w.content.length ≤ w'.content.length)
    (fun w' m hle => hle.trans (length_le_step w' m)) le_rfl moves

theorem Inv.run {moves : List Happens} (h : Inv sha256 w)
    (hok : Runs.Along (Tailing.step sha256) (Resumable sha256) w moves)
    (hsize : (w.run sha256 moves).content.length < 2 ^ 63) : Inv sha256 (w.run sha256 moves) := by
  induction moves generalizing w with
  | nil => exact h
  | cons m moves ih =>
    have hnow := (length_le_run sha256 w (m :: moves)).trans_lt hsize
    exact ih (h.step hok.1 hnow) hok.2 hsize

theorem Inv.begin {src : LogSource} {checkpoint : Option (List Char)}
    (hcheckpoint : ∀ offset incarnation,
      loadLogCheckpoint sha256 checkpoint src.path = some (offset, incarnation) →
        offset ≤ content.length)
    (hsize : content.length < 2 ^ 63) :
    Inv sha256 (Tailing.begin sha256 src content checkpoint) := by
  have hidle : Inv sha256
      { src := src, content := content, checkpoint := checkpoint
        tailer := new src.maxLineBytes } :=
    { limits := ⟨rfl, rfl⟩
      incarnation := ⟨by simp [new], by simp [new]⟩
      started := fun hs => by cases hs
      unstarted := fun _ => ⟨rfl, rfl⟩
      base_le := fun b hb => by cases hb
      owed := rfl
      counted := fun b hb => absurd hb List.not_mem_nil
      exact := fun e he => absurd he List.not_mem_nil
      covered := fun b hb => by cases hb
      saved := fun offset incarnation hload =>
        ⟨hcheckpoint offset incarnation hload, fun b hb => by cases hb⟩
      drained := fun _ => rfl
      saving := fun hs => by cases hs }
  exact hidle.restart (fun hs => by cases hs) hsize

/-- **Tailed lines survive restarts that find a checkpoint.**  In every run of a source's loop
from a file it has no checkpoint beyond, with any ship failures and any faults of its polls, if
each restart since the first successful poll finds a checkpoint, then every complete line appended
since is accounted for or still to be read, and so it is after one restart more. -/
theorem lines_survive (src : LogSource) (content : Bytes) (checkpoint : Option (List Char))
    (hcheckpoint : ∀ offset incarnation,
      loadLogCheckpoint sha256 checkpoint src.path = some (offset, incarnation) →
        offset ≤ content.length)
    (moves : List Happens)
    (hsize : ((begin sha256 src content checkpoint).run sha256 moves).content.length < 2 ^ 63)
    (hok : Runs.Along (step sha256) (Resumable sha256) (begin sha256 src content checkpoint) moves) :
    ((begin sha256 src content checkpoint).run sha256 moves).Kept ∧
      (Resumable sha256 ((begin sha256 src content checkpoint).run sha256 moves) .restart →
        (((begin sha256 src content checkpoint).run sha256 moves).restart sha256).BeginsBefore) := by
  have hbegin := (length_le_run sha256 (begin sha256 src content checkpoint) moves).trans_lt hsize
  have hrun := (Inv.begin hcheckpoint hbegin).run hok hsize
  refine ⟨hrun.kept, fun hres => ?_⟩
  have hnext := (hrun.restart hres hsize).kept.lines
  intro base hbase place body hline hplace x hx hx'
  rcases hnext base hbase place body hline hplace x hx hx' with hread | ⟨e, he, hcover⟩
  · exact .inl hread
  · refine .inr ⟨e, ?_, hcover⟩
    simpa [accounted, restart] using he

def sampleSource : LogSource where
  id := "logsrc_a"
  path := "/var/log/a.log"
  maxLineBytes := 0
  maxBatchLines := 1

/-- Two lines after the first poll, the first shipped and the second not; the restart reads from
the checkpoint. -/
def sampleRun : List Happens :=
  [.tick {} [], .append [97, 10], .tick {} [], .ship true, .save, .append [98, 10], .tick {} [],
    .ship false, .restart, .tick {} []]

theorem lines_survive_sample :
    ((begin (fun _ => []) sampleSource [120, 10] none).run (fun _ => []) sampleRun).Kept ∧
      ((begin (fun _ => []) sampleSource [120, 10] none).run (fun _ => []) sampleRun).pending =
        [⟨4, 2, [98]⟩] :=
  ⟨(lines_survive sampleSource [120, 10] none (fun _ _ h => by cases h) sampleRun (by decide)
    (by decide)).1, by decide⟩

/-- The source is idle until a line is appended, and the agent restarts before it is read. -/
def idleRun : List Happens := [.tick {} [], .append [97, 10], .restart, .tick {} []]

/-- The new tailer begins at the end of the file, after a line that nobody has read. -/
theorem passed_over :
    ¬ ((begin (fun _ => []) sampleSource [] none).run (fun _ => []) idleRun).Kept := by
  intro h
  have hnone : ((begin (fun _ => []) sampleSource [] none).run (fun _ => []) idleRun).accounted =
      [] := by decide
  have hline : LineAt [97, 10] 0 [97] := ⟨by decide, by decide, .inl rfl⟩
  rcases h.lines 0 (by decide) 0 [97] hline le_rfl 0 le_rfl (Nat.zero_le _) with hread | ⟨e, he, -⟩
  · exact absurd hread (by decide)
  · rw [hnone] at he
    exact absurd he List.not_mem_nil

end Tailing
end LatticeAgent.Logtail
