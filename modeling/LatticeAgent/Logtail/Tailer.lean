import LatticeAgent.Go
import LatticeAgent.Lib.Framing
import LatticeAgent.Lib.Runs

/-! # Following a log file

The `Tailer` reads what was appended to a file since its offset, in windows of at most
`maxReadBytes`, and gives out the complete lines. What a poll learns from the host is its argument
`Probe`: a file is known by a number, its contents are bytes.

`poll_reads` is what one poll does on a file that only grows: it gives out the frames, in the sense
of `Framing.cut`, between the offset before and the offset after. -/

namespace LatticeAgent.Logtail

open List Framing
open Framing (cut Frame)

def defaultMaxLineBytes : Nat := 16384
def defaultMaxReadBytes : Nat := 2 ^ 20

def newline : UInt8 := 10
def carriageReturn : UInt8 := 13

/-- `Tailer`. `file` is the open file; `started` is false until the first open or a
checkpoint. -/
structure Tailer where
  maxLineBytes : Nat
  maxReadBytes : Nat := defaultMaxReadBytes
  file : Option Nat := none
  offset : Nat := 0
  incarnation : Int := 0
  started : Bool := false
deriving DecidableEq, Repr

/-- What the calls of one poll answer. -/
structure Probe where
  /-- The file that an open of the path gives, and its size. -/
  opened : Except String (Nat × Nat)
  /-- The error of the seek after an open. -/
  seek : Option String := none
  /-- The size of the open file. -/
  stat : Except String Nat
  /-- The error of the seek to the start of a truncated file. -/
  rewind : Option String := none
  /-- The contents of the open file when it is read. -/
  read : Except String Bytes
  /-- The file that the path names after the read. -/
  live : Option Nat := none

/-- `bytes.TrimSuffix(line, "\r")`. -/
def trimCR (line : Bytes) : Bytes :=
  if line.getLast? = some carriageReturn then line.dropLast else line

namespace Tailer

def new (maxLineBytes : Int) : Tailer :=
  { maxLineBytes := if maxLineBytes ≤ 0 then defaultMaxLineBytes else maxLineBytes.toNat }

/-- Restores a checkpoint. -/
def resume (t : Tailer) (offset : Nat) (incarnation : Int) : Tailer :=
  { t with
    offset := if 2 ^ 63 ≤ offset then 0 else offset
    incarnation := incarnation, started := true }

def truncate (t : Tailer) (b : Bytes) : Bytes := b.take t.maxLineBytes

/-- The error, if the file cannot be opened at the offset. -/
def ensureOpen (t : Tailer) (p : Probe) : Tailer × Option String :=
  if t.file.isSome then (t, none)
  else
    match p.opened with
    | .error e => (t, some e)
    | .ok (file, size) =>
      -- a first start with no checkpoint collects only new lines
      let off := if t.started then t.offset else size
      let t := { t with offset := if size < off then 0 else off, started := true }
      match p.seek with
      | some e => (t, some e)
      | none => ({ t with file := some file }, none)

/-- The complete lines of the window at the offset; a window without a newline that is full is
given out as it is. -/
def readLines (t : Tailer) (size : Nat) (content : Bytes) : Tailer × List Bytes :=
  let buf := (content.drop t.offset).take (min (size - t.offset) t.maxReadBytes)
  let consumed := buf.rdropWhile (· ≠ newline)
  if buf = [] then (t, [])
  else if consumed = [] then
    if t.maxReadBytes ≤ buf.length then
      ({ t with offset := t.offset + buf.length }, [t.truncate buf])
    else (t, [])
  else
    ({ t with offset := t.offset + consumed.length },
      (consumed.dropLast.splitOn newline).map fun line => t.truncate (trimCR line))

/-- The path names another file than the open one: that is opened from its start next time. -/
def rotate (t : Tailer) (live : Option Nat) : Tailer :=
  if live.isSome ∧ live ≠ t.file then
    { t with file := none, offset := 0, incarnation := t.incarnation + 1 }
  else t

/-- A poll once the file is open and its size known not to be below the offset. -/
def pollOpen (t : Tailer) (size : Nat) (p : Probe) : Tailer × Except String (List Bytes) :=
  if size ≤ t.offset then (t.rotate p.live, .ok [])
  else
    match p.read with
    | .error e => (t, .error e)
    | .ok content => ((t.readLines size content).1.rotate p.live, .ok (t.readLines size content).2)

def poll (t : Tailer) (p : Probe) : Tailer × Except String (List Bytes) :=
  match t.ensureOpen p with
  | (t, some e) => (t, .error e)
  | (t, none) =>
    match p.stat with
    | .error e => (t, .error e)
    | .ok size =>
      if size < t.offset then
        let t := { t with offset := 0, incarnation := t.incarnation + 1 }
        match p.rewind with
        | some e => (t, .error e)
        | none => t.pollOpen size p
      else t.pollOpen size p

/-- How a frame of the file is given out. -/
def text (t : Tailer) : Frame UInt8 → Bytes
  | .line body => t.truncate (trimCR body)
  | .chunk body => t.truncate body

theorem text_congr {t t' : Tailer} (h : t'.maxLineBytes = t.maxLineBytes) : t'.text = t.text := by
  funext fr
  cases fr <;> simp only [text, truncate, h]

/-- The lines that a tailer makes of some bytes that begin where it reads. -/
def linesOf (t : Tailer) (s : Bytes) : List Bytes := (cut newline t.maxReadBytes s).1.map t.text

/-- A tailer that has started and has the file with number zero open, or none. -/
structure Ready (t : Tailer) (content : Bytes) : Prop where
  started : t.started = true
  file : t.file = none ∨ t.file = some 0
  offset_le : t.offset ≤ content.length
  window : 0 < t.maxReadBytes

/-- Nothing complete is left to give out. -/
def CaughtUp (t : Tailer) (content : Bytes) : Prop :=
  (cut newline t.maxReadBytes (content.drop t.offset)).1 = []

/-- The tailer has read on and given out the frames between the two offsets. -/
structure Reads (t : Tailer) (content : Bytes) (r : Tailer × List Bytes) : Prop where
  frame : r.1 = { t with file := r.1.file, offset := r.1.offset }
  ready : r.1.Ready content
  offset_le : t.offset ≤ r.1.offset
  lines : ∃ fs, cut newline t.maxReadBytes ((content.drop t.offset).take (r.1.offset - t.offset)) =
    (fs, []) ∧ r.2 = fs.map t.text

variable {t : Tailer} {content : Bytes}

theorem Reads.same {r : Tailer × List Bytes} (h : t.Reads content r) :
    r.1.maxReadBytes = t.maxReadBytes ∧ r.1.maxLineBytes = t.maxLineBytes ∧
      r.1.incarnation = t.incarnation := by
  rw [h.frame]
  exact ⟨rfl, rfl, rfl⟩

theorem Reads.caughtUp {r : Tailer × List Bytes} (h : t.Reads content r)
    (hc : t.CaughtUp content) : r.1.CaughtUp content := by
  obtain ⟨gs, hmore, -⟩ := h.lines
  have hrest := take_append_drop (r.1.offset - t.offset) (content.drop t.offset)
  rw [drop_drop, Nat.add_sub_cancel' h.offset_le] at hrest
  unfold CaughtUp at hc ⊢
  rw [← hrest, cut_append hmore] at hc
  rw [h.same.1]
  exact (append_eq_nil_iff.mp hc).2

theorem Ready.reads_nothing (h : t.Ready content) : t.Reads content (t, []) :=
  ⟨rfl, h, le_rfl, [], by simp [cut], rfl⟩

theorem window_eq (hoffset : t.offset ≤ content.length) (late : Bytes) :
    ((content ++ late).drop t.offset).take (min (content.length - t.offset) t.maxReadBytes) =
      (content.drop t.offset).take t.maxReadBytes := by
  rw [drop_append_of_le_length hoffset, take_append_of_le_length, Nat.min_comm,
    ← take_take]
  · congr 1
    exact take_of_length_le (by rw [length_drop])
  · rw [length_drop]
    omega

theorem Ready.reads_frames (h : t.Ready content) {s : Bytes} {fs : List (Frame UInt8)}
    (hs : s <+: content.drop t.offset) (hcut : cut newline t.maxReadBytes s = (fs, [])) :
    t.Reads content ({ t with offset := t.offset + s.length }, fs.map t.text) := by
  have hlength := hs.length_le
  rw [length_drop] at hlength
  have hoffset := h.offset_le
  refine ⟨rfl, ⟨h.started, h.file, ?_, h.window⟩, Nat.le_add_right _ _, fs, ?_, rfl⟩
  · dsimp only
    omega
  · rw [Nat.add_sub_cancel_left, ← prefix_iff_eq_take.mp hs]
    exact hcut

@[simp] theorem readLines_file (t : Tailer) (size : Nat) (content : Bytes) :
    (t.readLines size content).1.file = t.file := by
  unfold readLines
  dsimp only
  split
  · rfl
  · split
    · split <;> rfl
    · rfl

theorem readLines_reads (h : t.Ready content) (late : Bytes) :
    t.Reads content (t.readLines content.length (content ++ late)) ∧
      ((t.readLines content.length (content ++ late)).1.offset = t.offset →
        t.CaughtUp content) := by
  set rest := content.drop t.offset with hrest
  set buf := rest.take t.maxReadBytes with hbuf
  have hlength : buf.length = min t.maxReadBytes rest.length := length_take
  have hwindow := h.window
  unfold readLines CaughtUp
  rw [window_eq h.offset_le late, ← hrest, ← hbuf]
  dsimp only
  split
  · -- the offset is at the end of the file
    rename_i hnil
    have hempty : rest = [] := by
      rw [hnil, length_nil] at hlength
      exact length_eq_zero_iff.mp (by omega)
    exact ⟨h.reads_nothing, fun _ => by rw [hempty]; rfl⟩
  · by_cases hmem : newline ∈ buf
    · obtain ⟨s, tail, hsplit, -, hconsumed⟩ := rdropWhile_of_mem hmem
      rw [hconsumed, if_neg (by simp)]
      have hs : s.length + 1 ≤ buf.length := by
        rw [hsplit, length_append, length_cons]
        omega
      have hpre : s ++ [newline] <+: rest :=
        (show s ++ [newline] <+: buf from ⟨tail, by rw [hsplit, append_assoc]; rfl⟩).trans
          ( take_prefix _ rest)
      have hreads := h.reads_frames hpre (cut_lines s (by omega))
      rw [map_map] at hreads
      rw [dropLast_concat]
      refine ⟨hreads, fun hsame => ?_⟩
      simp at hsame
    · rw [rdropWhile_of_not_mem hmem, if_pos rfl]
      split
      · -- a full window without a newline
        rename_i hfull
        have hlimit : buf.length = t.maxReadBytes := by omega
        refine ⟨h.reads_frames ( take_prefix _ rest) (cut_chunk hmem hlimit hwindow),
          fun hsame => ?_⟩
        dsimp only at hsame
        omega
      · rename_i hshort
        have hwhole : buf = rest := take_of_length_le (by omega)
        refine ⟨h.reads_nothing, fun _ => ?_⟩
        rw [← hwhole, cut_short hmem (by omega)]

end Tailer

/-! ### A file that only grows -/

/-- What goes wrong in one poll, and whether the path could be looked at in the end. -/
structure Faults where
  opened : Option String := none
  seek : Option String := none
  stat : Option String := none
  read : Option String := none
  live : Bool := true
deriving DecidableEq, Repr

/-- What a poll learns about a file with the number zero that only grows; `late` is appended
between the look at its size and the read. -/
def Faults.probe (faults : Faults) (content late : Bytes) : Probe where
  opened := faults.opened.elim (.ok (0, content.length)) .error
  seek := faults.seek
  stat := faults.stat.elim (.ok content.length) .error
  read := faults.read.elim (.ok (content ++ late)) .error
  live := if faults.live then some 0 else none

namespace Tailer

variable {t : Tailer} {content : Bytes}

/-- The lines of a poll, none if it failed. -/
def polled (r : Tailer × Except String (List Bytes)) : Tailer × List Bytes :=
  (r.1, r.2.toOption.getD [])

theorem ensureOpen_ready (h : t.Ready content) (faults : Faults) (late : Bytes) :
    t.ensureOpen (faults.probe content late) = ({ t with file := some 0 }, none) ∨
      faults ≠ {} ∧ ∃ e, t.ensureOpen (faults.probe content late) = (t, some e) := by
  obtain ⟨hstarted, hfile, hoffset, -⟩ := h
  have hsize : ¬ content.length < t.offset := by omega
  unfold ensureOpen Faults.probe
  rcases hfile with hfile | hfile
  · rw [hfile, Option.isSome_none, if_neg Bool.false_ne_true]
    cases hopen : faults.opened with
    | some e =>
      have hfault : faults ≠ {} := by
        rintro rfl
        cases hopen
      exact .inr ⟨hfault, e, rfl⟩
    | none =>
      cases hseek : faults.seek with
      | some e =>
        have hfault : faults ≠ {} := by
          rintro rfl
          cases hseek
        refine .inr ⟨hfault, e, ?_⟩
        simp only [Option.elim_none, hstarted, if_true, if_neg hsize]
        rw [← hstarted, ← hfile]
      | none =>
        left
        simp only [Option.elim_none, hstarted, if_true, if_neg hsize]
  · left
    rw [hfile, Option.isSome_some, if_pos rfl, ← hfile]

/-- A tailer that has no place yet begins at the end of the file, once it can be opened. -/
theorem poll_unstarted (hstarted : t.started = false) (hfile : t.file = none) (faults : Faults)
    (late : Bytes) :
    t.poll (faults.probe content late) =
        ({ t with offset := content.length, started := true } : Tailer).poll
          (faults.probe content late) ∨
      ∃ e, t.poll (faults.probe content late) = (t, .error e) := by
  cases hopen : faults.opened with
  | some e =>
    right
    refine ⟨e, ?_⟩
    simp only [poll, ensureOpen, hfile, Faults.probe, hopen, Option.isSome_none, Option.elim_some,
      Bool.false_eq_true, if_false]
  | none =>
    left
    simp only [poll, ensureOpen, hfile, hstarted, Faults.probe, hopen, Option.isSome_none,
      Option.elim_none, Bool.false_eq_true, if_false, if_true]

theorem rotate_same (h : t.file = some 0) (live : Bool) :
    t.rotate (if live then some 0 else none) = t := by
  unfold rotate
  rw [if_neg]
  cases live <;> simp [h]

theorem pollOpen_reads (h : t.Ready content) (hopen : t.file = some 0) (faults : Faults)
    (late : Bytes) :
    t.Reads content (polled (t.pollOpen content.length (faults.probe content late))) ∧
      (faults = {} → (t.pollOpen content.length (faults.probe content late)).1.offset = t.offset →
        t.CaughtUp content) := by
  unfold pollOpen Faults.probe
  split
  · rename_i hend
    rw [rotate_same hopen]
    refine ⟨h.reads_nothing, fun _ _ => ?_⟩
    unfold CaughtUp
    rw [drop_of_length_le hend]
    rfl
  · cases hread : faults.read with
    | some e =>
      have hfault : faults ≠ {} := by
        rintro rfl
        cases hread
      exact ⟨h.reads_nothing, fun h => absurd h hfault⟩
    | none =>
      obtain ⟨hreads, hstuck⟩ := readLines_reads h late
      have hfile : (t.readLines content.length (content ++ late)).1.file = some 0 := by
        rw [readLines_file]
        exact hopen
      simp only [Option.elim_none, rotate_same hfile]
      exact ⟨hreads, fun _ => hstuck⟩

/-- **A poll of a file that only grows.** -/
theorem poll_reads (h : t.Ready content) (faults : Faults) (late : Bytes) :
    t.Reads content (polled (t.poll (faults.probe content late))) ∧
      (faults = {} → (t.poll (faults.probe content late)).1.offset = t.offset →
        t.CaughtUp content) := by
  unfold poll
  rcases ensureOpen_ready h faults late with hopen | ⟨hfault, e, hopen⟩
  · have hready : Ready { t with file := some 0 } content := ⟨h.started, .inr rfl, h.offset_le, h.window⟩
    have hsize : ¬ content.length < t.offset := Nat.not_lt.mpr h.offset_le
    rw [hopen]
    cases hstat : faults.stat with
    | some e =>
      have hfault : faults ≠ {} := by
        rintro rfl
        cases hstat
      simp only [Faults.probe, hstat]
      exact ⟨⟨rfl, hready, le_rfl, [], by simp [cut, polled], rfl⟩, fun h => absurd h hfault⟩
    | none =>
      obtain ⟨hreads, hstuck⟩ := pollOpen_reads hready rfl faults late
      have hok : (faults.probe content late).stat = .ok content.length := by
        simp only [Faults.probe, hstat, Option.elim_none]
      simp only [hok, if_neg hsize]
      exact ⟨⟨hreads.frame, hreads.ready, hreads.offset_le, hreads.lines⟩, hstuck⟩
  · rw [hopen]
    exact ⟨h.reads_nothing, fun h => absurd h hfault⟩

end Tailer
end LatticeAgent.Logtail
