import LatticeAgent.Logtail.Tailer
import LatticeAgent.Lib.Decimal

/-! # The tailed path over a disk that changes

The path may name one file after the other, files grow and shrink, and the agent may be started
again, at any time and also between two calls of one poll.

The position that a tailer reports does not go back as long as every open finds the file at least
as long as the offset (`position_run`); a checkpoint past the end of the file is given up without a
new incarnation (`position_goes_back`). A poll that finds another file at the path closes the old
one after one window: it has given out all its complete lines exactly if none ends beyond that
window (`rotation_drains_iff`). -/

namespace LatticeAgent.Logtail

open List Tailer Framing
open Framing (cut Frame)

/-! ### The disk -/

/-- Files by number, and the one that the path names. -/
structure Disk where
  contents : Nat → Bytes
  path : Option Nat

inductive Change where
  | append (file : Nat) (bytes : Bytes)
  | truncate (file : Nat) (size : Nat)
  /-- The path names another file from now on. -/
  | replace (file : Nat) (content : Bytes)
  | remove
deriving DecidableEq, Repr

namespace Disk

def write (d : Disk) (file : Nat) (content : Bytes) : Disk :=
  { d with contents := fun n => if n = file then content else d.contents n }

def change (d : Disk) : Change → Disk
  | .append file bytes => d.write file (d.contents file ++ bytes)
  | .truncate file size => d.write file ((d.contents file).take size)
  | .replace file content => { d.write file content with path := some file }
  | .remove => { d with path := none }

def changes (d : Disk) (cs : List Change) : Disk := cs.foldl change d

def size (d : Disk) (file : Nat) : Nat := (d.contents file).length

end Disk

/-- What goes wrong in one poll, and what happens to the disk before its look at the size, before
its read and before its look at the path. -/
structure Pass where
  faults : Faults := {}
  rewind : Option String := none
  beforeStat : List Change := []
  beforeRead : List Change := []
  beforeLive : List Change := []

namespace Pass

/-- The disk that the look at the size finds, and so on. -/
def statDisk (pass : Pass) (d : Disk) : Disk := d.changes pass.beforeStat
def readDisk (pass : Pass) (d : Disk) : Disk := (pass.statDisk d).changes pass.beforeRead
def liveDisk (pass : Pass) (d : Disk) : Disk := (pass.readDisk d).changes pass.beforeLive

/-- The answers to a tailer that holds a file open, or opens what the path names. -/
def probe (pass : Pass) (d : Disk) (held : Option Nat) : Probe :=
  let file := (held.or d.path).getD 0
  { opened :=
      match pass.faults.opened, d.path with
      | some e, _ => .error e
      | none, none => .error "no such file or directory"
      | none, some file => .ok (file, d.size file)
    seek := pass.faults.seek
    stat := pass.faults.stat.elim (.ok ((pass.statDisk d).size file)) .error
    rewind := pass.rewind
    read := pass.faults.read.elim (.ok ((pass.readDisk d).contents file)) .error
    live := if pass.faults.live then (pass.liveDisk d).path else none }

end Pass

/-! ### Tailers that follow each other -/

structure Host where
  disk : Disk
  tailer : Tailer

inductive Event where
  | change (c : Change)
  | poll (pass : Pass)
  /-- The handle is released. -/
  | close
  /-- The next process resumes where this one said it was. -/
  | restart (maxLineBytes : Int)

namespace Tailer

def close (t : Tailer) : Tailer := { t with file := none }

def rotID (t : Tailer) : List Char := Decimal.itoa t.incarnation

/-- What a tailer reports of its place. -/
def position (t : Tailer) : Int × Nat := (t.incarnation, t.offset)

/-- In the order of reading, the incarnation first, a place does not come after another. -/
def NotAfter (t t' : Tailer) : Prop := Prod.Lex (· < ·) (· ≤ ·) t.position t'.position

end Tailer

namespace Host

def start (maxLineBytes : Int) (d : Disk) : Host := ⟨d, Tailer.new maxLineBytes⟩

def step (h : Host) : Event → Host
  | .change c => { h with disk := h.disk.change c }
  | .poll pass =>
    ⟨pass.liveDisk h.disk, (h.tailer.poll (pass.probe h.disk h.tailer.file)).1⟩
  | .close => { h with tailer := h.tailer.close }
  | .restart maxLineBytes =>
    { h with tailer := (Tailer.new maxLineBytes).resume h.tailer.offset h.tailer.incarnation }

/-- An open at a place that has been reached finds the file no shorter than that, and a checkpoint
is the size of a file. -/
def Reaches (h : Host) : Event → Prop
  | .poll _ => h.tailer.file = none → h.tailer.started = true →
      ∀ file ∈ h.disk.path, h.tailer.offset ≤ h.disk.size file
  | .restart _ => h.tailer.offset < 2 ^ 63
  | _ => True

instance (h : Host) : (e : Event) → Decidable (h.Reaches e)
  | .poll _ => inferInstanceAs (Decidable (_ → _ → ∀ file ∈ h.disk.path, _))
  | .restart _ => inferInstanceAs (Decidable (_ < _))
  | .change _ => .isTrue trivial
  | .close => .isTrue trivial

end Host

namespace Tailer

variable {t t' : Tailer}

theorem notAfter_iff :
    t.NotAfter t' ↔
      t.incarnation < t'.incarnation ∨ t.incarnation = t'.incarnation ∧ t.offset ≤ t'.offset :=
  Prod.lex_def

theorem NotAfter.refl (t : Tailer) : t.NotAfter t := notAfter_iff.mpr (.inr ⟨rfl, Nat.le_refl _⟩)

theorem NotAfter.trans {u : Tailer} (h : t.NotAfter t') (h' : t'.NotAfter u) : t.NotAfter u := by
  rw [notAfter_iff] at h h' ⊢
  omega

theorem notAfter_of_offset (hinc : t'.incarnation = t.incarnation) (hoff : t.offset ≤ t'.offset) :
    t.NotAfter t' :=
  notAfter_iff.mpr (.inr ⟨hinc.symm, hoff⟩)

theorem notAfter_of_next (hinc : t'.incarnation = t.incarnation + 1) : t.NotAfter t' :=
  notAfter_iff.mpr (.inl (by omega))

theorem notAfter_readLines (t : Tailer) (size : Nat) (content : Bytes) :
    t.NotAfter (t.readLines size content).1 := by
  unfold readLines
  dsimp only
  split
  · exact .refl _
  · split
    · split
      · exact notAfter_of_offset rfl (Nat.le_add_right _ _)
      · exact .refl _
    · exact notAfter_of_offset rfl (Nat.le_add_right _ _)

theorem notAfter_rotate (t : Tailer) (live : Option Nat) : t.NotAfter (t.rotate live) := by
  unfold rotate
  split
  · exact notAfter_of_next rfl
  · exact .refl _

theorem notAfter_pollOpen (t : Tailer) (size : Nat) (p : Probe) :
    t.NotAfter (t.pollOpen size p).1 := by
  unfold pollOpen
  split
  · exact notAfter_rotate t p.live
  · split
    · exact .refl _
    · exact (notAfter_readLines t size _).trans (notAfter_rotate _ p.live)

theorem notAfter_ensureOpen {p : Probe} (hzero : t.started = false → t.offset = 0)
    (hlong : t.file = none → t.started → ∀ file size, p.opened = .ok (file, size) →
      t.offset ≤ size) :
    t.NotAfter (t.ensureOpen p).1 := by
  unfold ensureOpen
  split
  · exact .refl _
  · rename_i hfile
    have hfile : t.file = none := by simpa using hfile
    split
    · exact .refl _
    · rename_i file size hopened
      have hoff : t.offset ≤ (if size < (if t.started then t.offset else size) then 0
          else if t.started then t.offset else size) := by
        cases hstarted : t.started with
        | true =>
          have hsize := hlong hfile hstarted file size hopened
          simp only [if_true]
          rw [if_neg (by omega)]
        | false =>
          rw [hzero hstarted]
          exact Nat.zero_le _
      dsimp only
      cases p.seek with
      | some | none => exact notAfter_of_offset rfl hoff

/-- Whatever the calls of a poll answer, the tailer goes back only where it opens the file. -/
theorem notAfter_poll {p : Probe} (hzero : t.started = false → t.offset = 0)
    (hlong : t.file = none → t.started → ∀ file size, p.opened = .ok (file, size) →
      t.offset ≤ size) :
    t.NotAfter (t.poll p).1 := by
  have hopen := notAfter_ensureOpen hzero hlong
  unfold poll
  split
  · rename_i heq
    rwa [heq] at hopen
  · rename_i u heq
    rw [heq] at hopen
    refine hopen.trans ?_
    split
    · exact .refl _
    · split
      · -- the file was truncated under the handle
        have hnext : u.NotAfter { u with offset := 0, incarnation := u.incarnation + 1 } :=
          notAfter_of_next rfl
        dsimp only
        split
        · exact hnext
        · exact hnext.trans (notAfter_pollOpen _ _ p)
      · exact notAfter_pollOpen u _ p

/-! ### A tailer without a place -/

/-- Before the first open there is neither a handle nor an offset. -/
def Fresh (t : Tailer) : Prop := t.started = false → t.file = none ∧ t.offset = 0

theorem readLines_frame (t : Tailer) (size : Nat) (content : Bytes) :
    (t.readLines size content).1 = { t with offset := (t.readLines size content).1.offset } := by
  unfold readLines
  dsimp only
  split
  · rfl
  · split
    · split <;> rfl
    · rfl

/-- A poll sets the handle, the offset, the incarnation and that there is a place. -/
def Moves (t t' : Tailer) : Prop :=
  t' = { t with file := t'.file, offset := t'.offset, incarnation := t'.incarnation }

theorem Moves.started (h : t.Moves t') : t'.started = t.started := by rw [h]

theorem Moves.window (h : t.Moves t') : t'.maxReadBytes = t.maxReadBytes := by rw [h]

theorem moves_rotate (h : t.Moves t') (live : Option Nat) : t.Moves (t'.rotate live) := by
  unfold rotate Moves
  split
  · rw [h]
  · exact h

theorem moves_pollOpen (h : t.Moves t') (size : Nat) (p : Probe) :
    t.Moves (t'.pollOpen size p).1 := by
  unfold pollOpen
  split
  · exact moves_rotate h p.live
  · split
    · exact h
    · refine moves_rotate ?_ p.live
      unfold Moves
      rw [readLines_frame, h]

theorem moves_poll (t : Tailer) (p : Probe) : (t.ensureOpen p).1.Moves (t.poll p).1 := by
  unfold poll
  split
  · rename_i heq
    rw [heq]
    rfl
  · rename_i u heq
    rw [heq]
    split
    · rfl
    · split
      · have hcut : u.Moves { u with offset := 0, incarnation := u.incarnation + 1 } := rfl
        dsimp only
        split
        · rfl
        · exact moves_pollOpen hcut _ p
      · exact moves_pollOpen (show u.Moves u from rfl) _ p

theorem ensureOpen_window (t : Tailer) (p : Probe) :
    (t.ensureOpen p).1.maxReadBytes = t.maxReadBytes := by
  unfold ensureOpen
  split
  · rfl
  · split
    · rfl
    · dsimp only
      cases p.seek <;> rfl

theorem Fresh.poll (h : t.Fresh) (p : Probe) : (t.poll p).1.Fresh := by
  intro hstarted
  rw [(moves_poll t p).started] at hstarted
  unfold ensureOpen at hstarted
  split at hstarted
  · rename_i hfile
    rw [(h hstarted).1] at hfile
    cases hfile
  · rename_i hfile
    cases hopened : p.opened with
    | error e =>
      rw [hopened] at hstarted
      simp only [Tailer.poll, ensureOpen, if_neg hfile, hopened]
      exact h hstarted
    | ok opened =>
      rw [hopened] at hstarted
      dsimp only at hstarted
      cases hseek : p.seek <;> rw [hseek] at hstarted <;> cases hstarted

end Tailer

/-! ### The position over whole runs -/

namespace Host

theorem fresh_step (h : Host) (e : Event) (hf : h.tailer.Fresh) : (h.step e).tailer.Fresh := by
  cases e with
  | change c => exact hf
  | poll pass => exact hf.poll _
  | close => exact fun hstarted => ⟨rfl, (hf hstarted).2⟩
  | restart maxLineBytes => exact fun hstarted => by cases hstarted

theorem opened_probe {pass : Pass} {d : Disk} {held : Option Nat} {file size : Nat}
    (h : (pass.probe d held).opened = .ok (file, size)) : file ∈ d.path ∧ size = d.size file := by
  unfold Pass.probe at h
  dsimp only at h
  split at h
  · cases h
  · cases h
  · rename_i hpath
    cases h
    exact ⟨hpath, rfl⟩

theorem position_step {h : Host} {e : Event} (hf : h.tailer.Fresh) (hr : h.Reaches e) :
    h.tailer.NotAfter (h.step e).tailer := by
  cases e with
  | change | close => exact .refl _
  | poll pass =>
    refine notAfter_poll (fun hstarted => (hf hstarted).2) ?_
    intro hfile hstarted file size hopened
    obtain ⟨hpath, rfl⟩ := opened_probe hopened
    exact hr hfile hstarted file hpath
  | restart maxLineBytes =>
    refine Tailer.notAfter_of_offset rfl ?_
    simp only [step, resume, if_neg (Nat.not_le.mpr hr), le_refl]

/-- The tailer after so many events of a run. -/
def tailerAt (h : Host) (events : List Event) (k : Nat) : Tailer :=
  (Runs.run step h (events.take k)).tailer

/-- **The position only moves forward**, over any changes of the disk and any restarts, as long as
every open reaches the offset; a smaller offset comes with another `RotID`. -/
theorem position_run (maxLineBytes : Int) (d : Disk) (events : List Event)
    (hr : Runs.Along step Reaches (start maxLineBytes d) events) {i j : Nat} (hij : i ≤ j) :
    let h := start maxLineBytes d
    (h.tailerAt events i).NotAfter (h.tailerAt events j) ∧
      ((h.tailerAt events j).offset < (h.tailerAt events i).offset →
        (h.tailerAt events j).rotID ≠ (h.tailerAt events i).rotID) := by
  intro h
  have hle : (h.tailerAt events i).NotAfter (h.tailerAt events j) :=
    Runs.progress (fun h : Host => h.tailer.Fresh) (r := fun h h' => h.tailer.NotAfter h'.tailer)
      (fun _ => .refl _) .trans fresh_step (fun _ _ => position_step) (fun _ => ⟨rfl, rfl⟩) hr hij
  refine ⟨hle, fun hoff hrot => ?_⟩
  have hinc := Decimal.itoa_injective hrot
  rw [Tailer.notAfter_iff] at hle
  omega

/-- A file of three bytes, whose tailer starts at its end. -/
def threeBytes : Disk := ⟨fun _ => [97, 98, 10], some 0⟩

/-- The path is rotated, and the next process resumes in the new file. -/
theorem position_run_rotated :
    let events := [Event.poll {}, .change (.replace 1 [99, 10]), .poll {}, .poll {}, .restart 0,
      .poll {}]
    ((start 0 threeBytes).tailerAt events 1).NotAfter ((start 0 threeBytes).tailerAt events 6) :=
  (position_run 0 threeBytes
    [.poll {}, .change (.replace 1 [99, 10]), .poll {}, .poll {}, .restart 0, .poll {}] (by decide)
    (by decide)).1

/-- The file shrinks while no process follows it: the offset is reset, the `RotID` is not. -/
theorem position_goes_back :
    ∃ (events : List Event) (i j : Nat), i ≤ j ∧
      ¬ ((start 0 threeBytes).tailerAt events i).NotAfter
        ((start 0 threeBytes).tailerAt events j) ∧
      ((start 0 threeBytes).tailerAt events j).rotID =
        ((start 0 threeBytes).tailerAt events i).rotID := by
  refine ⟨[.poll {}, .restart 0, .change (.truncate 0 1), .poll {}], 3, 4, by decide, ?_, ?_⟩
  · rw [Tailer.notAfter_iff]
    decide
  · decide

end Host

/-! ### The old file is closed after one window -/

namespace Tailer

variable {t : Tailer} {content : Bytes}

/-- What one read gives out are the frames of a part `s` of the window: of its lines if it has
any. -/
theorem readLines_window (hoffset : t.offset ≤ content.length) (hwindow : 0 < t.maxReadBytes)
    (late : Bytes) :
    ∃ s fs, s <+: (content.drop t.offset).take t.maxReadBytes ∧
      cut newline t.maxReadBytes s = (fs, []) ∧
      (t.readLines content.length (content ++ late)).2 = fs.map t.text ∧
      (((content.drop t.offset).take t.maxReadBytes).rdropWhile (· ≠ newline) = s ∨
        ((content.drop t.offset).take t.maxReadBytes).rdropWhile (· ≠ newline) = []) := by
  set buf := (content.drop t.offset).take t.maxReadBytes with hbuf
  have hlength : buf.length ≤ t.maxReadBytes := by
    rw [hbuf, length_take]
    omega
  unfold readLines
  rw [window_eq hoffset late, ← hbuf]
  dsimp only
  split
  · rename_i hnil
    exact ⟨[], [], nil_prefix, rfl, rfl, .inl (by rw [hnil]; rfl)⟩
  · by_cases hmem : newline ∈ buf
    · obtain ⟨s, tail, hsplit, -, hconsumed⟩ := rdropWhile_of_mem hmem
      have hs : s.length < t.maxReadBytes := by
        rw [hsplit, length_append, length_cons] at hlength
        omega
      have hcut : cut newline t.maxReadBytes (s ++ [newline]) = _ := cut_lines s hs
      rw [hconsumed, if_neg (by simp)]
      refine ⟨s ++ [newline], _, ⟨tail, ?_⟩, hcut, ?_, .inl rfl⟩
      · rw [hsplit, append_assoc]
        rfl
      · rw [dropLast_concat, map_map]
        rfl
    · rw [rdropWhile_of_not_mem hmem, if_pos rfl]
      split
      · -- a full window without a newline
        rename_i hfull
        exact ⟨buf, _, prefix_rfl, cut_chunk hmem (by omega) hwindow, rfl, .inr rfl⟩
      · exact ⟨[], [], nil_prefix, rfl, rfl, .inl rfl⟩

theorem pollOpen_rotates {u : Tailer} {p : Probe} {size file other : Nat} (hfile : u.file = some file)
    (hother : other ≠ file) (hlive : p.live = some other) (hread : p.read = .ok content) :
    u.pollOpen size p =
      ({ u with file := none, offset := 0, incarnation := u.incarnation + 1 },
        .ok (u.readLines size content).2) := by
  have hnot : p.live.isSome ∧ p.live ≠ u.file := by
    rw [hlive, hfile]
    exact ⟨rfl, fun h => hother (Option.some.inj h)⟩
  unfold pollOpen
  split
  · rename_i hend
    have hnone : (u.readLines size content).2 = [] := by
      rw [readLines, Nat.sub_eq_zero_of_le hend, Nat.zero_min, take_zero, if_pos rfl]
    rw [hnone, rotate, if_pos hnot]
  · rw [hread]
    dsimp only
    rw [rotate, readLines_file, if_pos hnot, readLines_frame]

theorem readLines_drains_iff (hoffset : t.offset ≤ content.length) (hwindow : 0 < t.maxReadBytes)
    (late : Bytes) :
    t.linesOf ((content.drop t.offset).rdropWhile (· ≠ newline)) <+:
        (t.readLines content.length (content ++ late)).2 ↔
      newline ∉ (content.drop t.offset).drop t.maxReadBytes := by
  obtain ⟨s, fs, hs, hcut, hlines, hconsumed⟩ := readLines_window hoffset hwindow late
  set rest := content.drop t.offset
  have hrest := take_append_drop t.maxReadBytes rest
  rw [hlines]
  constructor
  · intro hprefix hmem
    obtain ⟨a, b, hab, hb, hcomplete⟩ :=
      rdropWhile_of_mem (mem_of_mem_drop hmem)
    -- the last newline lies beyond the window, and the frames of the read before it
    have hlong : t.maxReadBytes ≤ a.length := by
      by_contra hshort
      rw [hab, drop_append, drop_of_length_le (by omega), nil_append] at hmem
      obtain ⟨n, hn⟩ := Nat.exists_eq_add_of_lt (show a.length < t.maxReadBytes by omega)
      rw [hn, show a.length + n + 1 - a.length = n + 1 by omega, drop_succ_cons] at hmem
      exact hb (mem_of_mem_drop hmem)
    have hsa : s <+: a := by
      refine prefix_of_prefix_length_le (hs.trans ( take_prefix _ _))
        (show a <+: rest from ⟨_, hab.symm⟩) ?_
      have hlength := hs.length_le
      rw [length_take] at hlength
      omega
    obtain ⟨u, rfl⟩ := hsa
    have hmore := length_cut_lt (u := u) hcut
    have hless := hprefix.length_le
    rw [hcomplete, linesOf, length_map, length_map, append_assoc] at hless
    omega
  · intro hnone
    have hcomplete := rdropWhile_append_of_not_mem (rest.take t.maxReadBytes) hnone
    rw [hrest] at hcomplete
    rw [hcomplete, linesOf]
    rcases hconsumed with hconsumed | hconsumed
    · rw [hconsumed, hcut]
    · rw [hconsumed]
      exact nil_prefix

end Tailer

namespace Pass

/-- Where a tailer that holds this file open reads on: at the start if the file is shorter than the
offset. -/
def resumesAt (pass : Pass) (d : Disk) (t : Tailer) (file : Nat) : Nat :=
  if (pass.statDisk d).size file < t.offset then 0 else t.offset

/-- What the tailer has not given out of the file when its size is read. -/
def backlog (pass : Pass) (d : Disk) (t : Tailer) (file : Nat) : Bytes :=
  ((pass.statDisk d).contents file).drop (pass.resumesAt d t file)

theorem resumesAt_le (pass : Pass) (d : Disk) (t : Tailer) (file : Nat) :
    pass.resumesAt d t file ≤ (pass.statDisk d).size file := by
  unfold resumesAt
  split
  · exact Nat.zero_le _
  · omega

/-- A poll that holds this file open gets through and finds another one at the path; the file is
not cut short between the look at its size and the read. -/
structure Rotates (pass : Pass) (d : Disk) (file : Nat) : Prop where
  stat : pass.faults.stat = none
  rewind : pass.rewind = none
  read : pass.faults.read = none
  live : pass.faults.live = true
  other : ∃ other, (pass.liveDisk d).path = some other ∧ other ≠ file
  grows : (pass.statDisk d).contents file <+: (pass.readDisk d).contents file

end Pass

namespace Host

theorem window_step (h : Host) (e : Event) (hw : h.tailer.maxReadBytes = defaultMaxReadBytes) :
    (h.step e).tailer.maxReadBytes = defaultMaxReadBytes := by
  cases e with
  | change | close => exact hw
  | poll pass =>
    rw [step, (Tailer.moves_poll _ _).window, ensureOpen_window]
    exact hw
  | restart maxLineBytes => rfl

theorem window_run (maxLineBytes : Int) (d : Disk) (events : List Event) :
    (Runs.run step (start maxLineBytes d) events).tailer.maxReadBytes = defaultMaxReadBytes :=
  Runs.invariant_always _ window_step rfl events

variable {file : Nat} {h : Host}

theorem held_of_open {pass : Pass} {t : Tailer}
    (hopen : h.tailer.ensureOpen (pass.probe h.disk h.tailer.file) = (t, none))
    (hfile : t.file = some file) : (h.tailer.file.or h.disk.path).getD 0 = file := by
  cases hheld : h.tailer.file with
  | some held =>
    rw [Tailer.ensureOpen, hheld, Option.isSome_some, if_pos rfl] at hopen
    cases hopen
    rw [hheld] at hfile
    exact Option.some.inj hfile
  | none =>
    rw [Tailer.ensureOpen, hheld, Option.isSome_none, if_neg Bool.false_ne_true] at hopen
    split at hopen
    · cases hopen
    · rename_i opened size hopened
      obtain ⟨hpath, -⟩ := opened_probe hopened
      dsimp only at hopen
      cases hseek : (pass.probe h.disk none).seek with
      | some e =>
        rw [hseek] at hopen
        cases hopen
      | none =>
        rw [hseek] at hopen
        cases hopen
        rw [Option.none_or, hpath]
        exact Option.some.inj hfile

theorem poll_rotates {pass : Pass} {t : Tailer}
    (hopen : h.tailer.ensureOpen (pass.probe h.disk h.tailer.file) = (t, none))
    (hfile : t.file = some file) (hr : pass.Rotates h.disk file) :
    ∃ u : Tailer, (u = t ∨ u = { t with offset := 0, incarnation := t.incarnation + 1 }) ∧
      u.offset = pass.resumesAt h.disk t file ∧
      h.tailer.poll (pass.probe h.disk h.tailer.file) =
        ({ u with file := none, offset := 0, incarnation := u.incarnation + 1 },
          .ok (u.readLines ((pass.statDisk h.disk).size file)
            ((pass.readDisk h.disk).contents file)).2) := by
  obtain ⟨other, hpath, hother⟩ := hr.other
  have hheld := held_of_open hopen hfile
  have hstat : (pass.probe h.disk h.tailer.file).stat = .ok ((pass.statDisk h.disk).size file) := by
    simp only [Pass.probe, hr.stat, hheld, Option.elim_none]
  have hread : (pass.probe h.disk h.tailer.file).read =
      .ok ((pass.readDisk h.disk).contents file) := by
    simp only [Pass.probe, hr.read, hheld, Option.elim_none]
  have hlive : (pass.probe h.disk h.tailer.file).live = some other := by
    simp only [Pass.probe, hr.live, if_true, hpath]
  have hrewind : (pass.probe h.disk h.tailer.file).rewind = none := hr.rewind
  rw [Tailer.poll, hopen]
  dsimp only
  rw [hstat]
  dsimp only
  by_cases htrunc : (pass.statDisk h.disk).size file < t.offset
  · rw [if_pos htrunc, hrewind]
    refine ⟨_, .inr rfl, ?_, pollOpen_rotates hfile hother hlive hread⟩
    rw [Pass.resumesAt, if_pos htrunc]
  · rw [if_neg htrunc]
    refine ⟨t, .inl rfl, ?_, pollOpen_rotates hfile hother hlive hread⟩
    rw [Pass.resumesAt, if_neg htrunc]

theorem poll_drains_iff {pass : Pass} {t : Tailer}
    (hopen : h.tailer.ensureOpen (pass.probe h.disk h.tailer.file) = (t, none))
    (hfile : t.file = some file) (hr : pass.Rotates h.disk file) (hwindow : 0 < t.maxReadBytes) :
    (h.step (.poll pass)).tailer.file = none ∧ (h.step (.poll pass)).tailer.offset = 0 ∧
      ∃ lines, (h.tailer.poll (pass.probe h.disk h.tailer.file)).2 = .ok lines ∧
        (t.linesOf ((pass.backlog h.disk t file).rdropWhile (· ≠ newline)) <+: lines ↔
          newline ∉ (pass.backlog h.disk t file).drop t.maxReadBytes) := by
  obtain ⟨u, hu, hoff, hpoll⟩ := poll_rotates hopen hfile hr
  obtain ⟨late, hlate⟩ := hr.grows
  have hsame : u.maxReadBytes = t.maxReadBytes ∧ u.linesOf = t.linesOf := by
    rcases hu with rfl | rfl <;> exact ⟨rfl, rfl⟩
  have hle : u.offset ≤ ((pass.statDisk h.disk).contents file).length := by
    rw [hoff]
    exact pass.resumesAt_le h.disk t file
  have hdrains := readLines_drains_iff hle (by rw [hsame.1]; exact hwindow) late
  rw [hlate, hsame.2, hsame.1, hoff] at hdrains
  rw [step, hpoll]
  exact ⟨rfl, rfl, _, rfl, hdrains⟩

/-- **A rotation drains the old file exactly if no line of it ends beyond one window.**  The handle
is closed either way, so that what the poll did not give out is never read. -/
theorem rotation_drains_iff (maxLineBytes : Int) (d : Disk) (events : List Event) (pass : Pass)
    {h : Host} (hrun : h = Runs.run step (start maxLineBytes d) events) {t : Tailer} {file : Nat}
    (hopen : h.tailer.ensureOpen (pass.probe h.disk h.tailer.file) = (t, none))
    (hfile : t.file = some file) (hr : pass.Rotates h.disk file) :
    (h.step (.poll pass)).tailer.file = none ∧ (h.step (.poll pass)).tailer.offset = 0 ∧
      ∃ lines, (h.tailer.poll (pass.probe h.disk h.tailer.file)).2 = .ok lines ∧
        (t.linesOf ((pass.backlog h.disk t file).rdropWhile (· ≠ newline)) <+: lines ↔
          newline ∉ (pass.backlog h.disk t file).drop defaultMaxReadBytes) := by
  have hwindow : t.maxReadBytes = defaultMaxReadBytes := by
    have hsame := ensureOpen_window h.tailer (pass.probe h.disk h.tailer.file)
    rw [hopen] at hsame
    rw [hsame, hrun]
    exact window_run maxLineBytes d events
  rw [← hwindow]
  exact poll_drains_iff hopen hfile hr (by rw [hwindow]; decide)

/-- An empty file is followed, gets this backlog, and another file is put in its place. -/
def rotatedAfter (backlog : Bytes) : Host :=
  Runs.run step (start 0 ⟨fun _ => [], some 0⟩)
    [.poll {}, .change (.append 0 backlog), .change (.replace 1 [99, 10])]

theorem rotatedAfter_rotates (backlog : Bytes) : Pass.Rotates {} (rotatedAfter backlog).disk 0 :=
  ⟨rfl, rfl, rfl, rfl, ⟨1, rfl, by decide⟩, prefix_rfl⟩

theorem rotation_drains_short :
    ∃ lines, ((rotatedAfter [98, 10]).tailer.poll
        (Pass.probe {} (rotatedAfter [98, 10]).disk (rotatedAfter [98, 10]).tailer.file)).2 =
          .ok lines ∧
      (rotatedAfter [98, 10]).tailer.linesOf [98, 10] <+: lines := by
  obtain ⟨-, -, lines, hlines, hdrains⟩ := rotation_drains_iff 0 ⟨fun _ => [], some 0⟩
    [.poll {}, .change (.append 0 [98, 10]), .change (.replace 1 [99, 10])] {}
    (show rotatedAfter [98, 10] = _ from rfl) (t := (rotatedAfter [98, 10]).tailer) rfl rfl
    (rotatedAfter_rotates [98, 10])
  have hshort : Pass.backlog {} (rotatedAfter [98, 10]).disk (rotatedAfter [98, 10]).tailer 0 =
      [98, 10] := by decide
  rw [hshort, drop_of_length_le (by decide)] at hdrains
  exact ⟨lines, hlines, hdrains.mpr List.not_mem_nil⟩

theorem rotatedAfter_backlog (backlog : Bytes) :
    Pass.backlog {} (rotatedAfter backlog).disk (rotatedAfter backlog).tailer 0 = backlog := by
  have hoffset : Pass.resumesAt {} (rotatedAfter backlog).disk (rotatedAfter backlog).tailer 0 = 0 :=
    ite_self 0
  rw [Pass.backlog, hoffset]
  rfl

/-- A line behind a mebibyte of empty ones is not given out, and the next poll reads the new
file. -/
theorem rotation_discards :
    ∃ backlog lines, ((rotatedAfter backlog).tailer.poll
        (Pass.probe {} (rotatedAfter backlog).disk (rotatedAfter backlog).tailer.file)).2 =
          .ok lines ∧
      ¬ (rotatedAfter backlog).tailer.linesOf (backlog.rdropWhile (· ≠ newline)) <+: lines ∧
      (((rotatedAfter backlog).step (.poll {})).tailer.poll
        (Pass.probe {} ((rotatedAfter backlog).step (.poll {})).disk none)).2 = .ok [[99]] := by
  refine ⟨List.replicate defaultMaxReadBytes newline ++ [98, 10], ?_⟩
  generalize hbacklog : List.replicate defaultMaxReadBytes newline ++ [98, 10] = backlog
  have hbeyond : newline ∈ backlog.drop defaultMaxReadBytes := by
    rw [← hbacklog, drop_left' length_replicate]
    decide
  have hr := rotatedAfter_rotates backlog
  have hwindow : (rotatedAfter backlog).tailer.maxReadBytes = defaultMaxReadBytes := rfl
  obtain ⟨-, -, lines, hlines, hdrains⟩ :=
    poll_drains_iff (h := rotatedAfter backlog) (t := (rotatedAfter backlog).tailer) rfl rfl hr
      (by rw [hwindow]; decide)
  rw [hwindow, rotatedAfter_backlog] at hdrains
  refine ⟨lines, hlines, fun hall => hdrains.mp hall hbeyond, ?_⟩
  obtain ⟨u, hu, -, hpoll⟩ :=
    poll_rotates (h := rotatedAfter backlog) (t := (rotatedAfter backlog).tailer) rfl rfl hr
  rw [step, hpoll]
  rcases hu with rfl | rfl <;> rfl

end Host
end LatticeAgent.Logtail
