import LatticeAgent.Logtail.Tailer

/-! # Tailing does not depend on when it polls

`Follow` is a tailer on one file that only grows, with appends and polls in any order and any of
the calls of a poll failing. The lines given out are always the first of the sequence that
`linesOf` makes of the whole file, and all of them after enough polls (`emits_linesOf`). -/

namespace LatticeAgent.Logtail

open List
open Framing (cut Frame)

/-- A tailer on one file, and every line it has given out. -/
structure Follow where
  tailer : Tailer
  content : Bytes
  emitted : List Bytes := []
deriving DecidableEq, Repr

inductive Move where
  | append (bytes : Bytes)
  /-- A poll; `late` is appended between its look at the size and its read. -/
  | poll (faults : Faults) (late : Bytes)
deriving DecidableEq, Repr

namespace Follow

def step (f : Follow) : Move → Follow
  | .append bytes => { f with content := f.content ++ bytes }
  | .poll faults late =>
    let r := Tailer.polled (f.tailer.poll (faults.probe f.content late))
    { tailer := r.1, content := f.content ++ late, emitted := f.emitted ++ r.2 }

def run (f : Follow) (moves : List Move) : Follow := Runs.run step f moves

variable {f f₀ : Follow}

/-- Where the run began, and the frames given out since. -/
structure Inv (f₀ f : Follow) : Prop where
  ready : f.tailer.Ready f.content
  limits : f.tailer.maxReadBytes = f₀.tailer.maxReadBytes ∧
    f.tailer.maxLineBytes = f₀.tailer.maxLineBytes
  start_le : f₀.tailer.offset ≤ f.tailer.offset
  /-- The frames of the file between the start and the offset, with nothing left of a last one. -/
  frames : ∃ fs, cut newline f₀.tailer.maxReadBytes
      ((f.content.take f.tailer.offset).drop f₀.tailer.offset) = (fs, []) ∧
    f.emitted = fs.map f₀.tailer.text

theorem Inv.init (h : f₀.tailer.Ready f₀.content) (hemitted : f₀.emitted = []) : Inv f₀ f₀ := by
  refine ⟨h, ⟨rfl, rfl⟩, le_rfl, [], ?_, hemitted⟩
  rw [drop_of_length_le (by rw [length_take]; exact Nat.min_le_left _ _)]
  rfl

theorem Inv.grow (h : Inv f₀ f) (bytes : Bytes) :
    Inv f₀ { f with content := f.content ++ bytes } := by
  obtain ⟨hready, hlimits, hstart, hframes⟩ := h
  have hoffset := hready.offset_le
  refine ⟨⟨hready.started, hready.file, ?_, hready.window⟩, hlimits, hstart, ?_⟩
  · rw [length_append]
    exact Nat.le_add_right_of_le hoffset
  · dsimp only
    rwa [take_append_of_le_length hoffset]

theorem between_append (content : Bytes) {start off off' : Nat} (hstart : start ≤ off)
    (hoff : off ≤ off') (hlength : off ≤ content.length) :
    (content.take off').drop start =
      (content.take off).drop start ++ (content.drop off).take (off' - off) := by
  have hsplit : content.take off' = content.take off ++ (content.drop off).take (off' - off) := by
    rw [← take_add, Nat.add_sub_cancel' hoff]
  rw [hsplit, drop_append_of_le_length]
  rw [length_take]
  omega

theorem Inv.poll (h : Inv f₀ f) (faults : Faults) (late : Bytes) :
    Inv f₀ (f.step (.poll faults late)) := by
  obtain ⟨hreads, -⟩ := Tailer.poll_reads h.ready faults late
  obtain ⟨hread, hline⟩ := h.limits
  have hoffset := hreads.offset_le
  obtain ⟨fs, hcut, hemitted⟩ := h.frames
  obtain ⟨gs, hmore, hlines⟩ := hreads.lines
  rw [Tailer.text_congr hline] at hlines
  refine Inv.grow (f := { f with tailer := _, emitted := _ }) ⟨hreads.ready, ⟨?_, ?_⟩,
    h.start_le.trans hoffset, ?_⟩ late
  · exact hreads.same.1.trans hread
  · exact hreads.same.2.1.trans hline
  · refine ⟨fs ++ gs, ?_, ?_⟩
    · rw [between_append f.content h.start_le hoffset h.ready.offset_le, Framing.cut_append hcut,
        ← hread, hmore]
    · rw [map_append, ← hemitted, ← hlines]

theorem Inv.run (h : Inv f₀ f) (moves : List Move) : Inv f₀ (f.run moves) :=
  Runs.invariant_always (Inv f₀) (fun f m hf => by
    cases m with
    | append bytes => exact hf.grow bytes
    | poll faults late => exact hf.poll faults late) h moves

/-- The frames given out are the first of the whole file, and the rest are those after the
offset. -/
theorem Inv.frames_eq (h : Inv f₀ f) :
    ∃ fs, (cut newline f₀.tailer.maxReadBytes (f.content.drop f₀.tailer.offset)).1 =
        fs ++ (cut newline f₀.tailer.maxReadBytes (f.content.drop f.tailer.offset)).1 ∧
      f.emitted = fs.map f₀.tailer.text ∧
      f.tailer.offset = f₀.tailer.offset + (fs.map Frame.size).sum := by
  obtain ⟨fs, hcut, hemitted⟩ := h.frames
  have hoffset := h.ready.offset_le
  refine ⟨fs, ?_, hemitted, ?_⟩
  · have hwhole := between_append f.content h.start_le hoffset hoffset
    rw [take_length, take_of_length_le (length_drop).le] at hwhole
    rw [hwhole, Framing.cut_append hcut]
  · have hsize := Framing.size_of_cut hcut
    have hstart := h.start_le
    rw [length_drop, length_take, Nat.min_eq_left hoffset] at hsize
    omega

/-! ### Repeated polling -/

/-- A poll in which nothing fails and nothing is appended. -/
def quiet : Move := .poll {} []

@[simp] theorem quiet_content (f : Follow) : (f.step quiet).content = f.content := by
  simp [step, quiet]

theorem caughtUp_quiet (h : f.tailer.Ready f.content) (hc : f.tailer.CaughtUp f.content) :
    (f.step quiet).tailer.CaughtUp (f.step quiet).content := by
  obtain ⟨hreads, -⟩ := Tailer.poll_reads h {} []
  rw [quiet_content]
  exact hreads.caughtUp hc

theorem quiet_polls (h : Inv f₀ f) (k : Nat) :
    (f.run (List.replicate k quiet)).content = f.content ∧
      ((f.run (List.replicate k quiet)).tailer.CaughtUp f.content ∨
        f.tailer.offset + k ≤ (f.run (List.replicate k quiet)).tailer.offset) := by
  induction k with
  | zero => exact ⟨rfl, .inr le_rfl⟩
  | succ k ih =>
    obtain ⟨hcontent, hk⟩ := ih
    have hready := (h.run (List.replicate k quiet)).ready
    rw [replicate_succ', run, Runs.run_append]
    set g := f.run (List.replicate k quiet)
    show (g.step quiet).content = _ ∧ _
    rw [quiet_content]
    refine ⟨hcontent, ?_⟩
    by_cases hc : g.tailer.CaughtUp g.content
    · left
      have hstill := caughtUp_quiet hready hc
      rwa [quiet_content, hcontent] at hstill
    · right
      obtain ⟨hreads, hstuck⟩ := Tailer.poll_reads hready {} []
      have hon : (g.step quiet).tailer.offset ≠ g.tailer.offset := fun hsame => hc (hstuck rfl hsame)
      have hle : g.tailer.offset ≤ (g.step quiet).tailer.offset := hreads.offset_le
      rcases hk with hk | hk
      · exact absurd (by rwa [hcontent]) hc
      · show _ ≤ (g.step quiet).tailer.offset
        omega

/-- **Tailing does not depend on when it polls.**  After any appends and polls, in any order and
with any faults, the lines given out are the first of those that the file alone determines, the
offset is where the last of them ends, and polls enough give out the others. -/
theorem emits_linesOf (f : Follow) (h : f.tailer.Ready f.content) (hemitted : f.emitted = [])
    (moves : List Move) :
    (∃ n, (f.run moves).emitted =
          (f.tailer.linesOf ((f.run moves).content.drop f.tailer.offset)).take n ∧
        (f.run moves).tailer.offset = f.tailer.offset +
          (((cut newline f.tailer.maxReadBytes
            ((f.run moves).content.drop f.tailer.offset)).1.take n).map Frame.size).sum) ∧
      ∀ k, (f.run moves).content.length ≤ k →
        (f.run (moves ++ List.replicate k quiet)).emitted =
          f.tailer.linesOf ((f.run moves).content.drop f.tailer.offset) := by
  have hrun : Inv f (f.run moves) := (Inv.init h hemitted).run moves
  constructor
  · obtain ⟨fs, hfs, hemit, hoffset⟩ := hrun.frames_eq
    refine ⟨fs.length, ?_, ?_⟩
    · rw [Tailer.linesOf, hfs, ← map_take, take_left, hemit]
    · rw [hfs, take_left, hoffset]
  · intro k hk
    obtain ⟨hcontent, hdone⟩ := quiet_polls hrun k
    have hlast := hrun.run (List.replicate k quiet)
    have hbound := hlast.ready.offset_le
    rw [run, Runs.run_append]
    change ((f.run moves).run (List.replicate k quiet)).emitted = _
    obtain ⟨fs, hfs, hemit, -⟩ := hlast.frames_eq
    rw [hcontent] at hfs hbound
    have hnone : (cut newline f.tailer.maxReadBytes ((f.run moves).content.drop
        ((f.run moves).run (List.replicate k quiet)).tailer.offset)).1 = [] := by
      rw [← hlast.limits.1]
      rcases hdone with hdone | hdone
      · exact hdone
      · rw [drop_of_length_le (by omega)]
        rfl
    rw [Tailer.linesOf, hfs, hnone, append_nil, hemit]

/-- A window of four bytes, resumed after the first line `a`. -/
def sampleFollow : Follow where
  tailer := { (Tailer.new 3).resume 2 0 with maxReadBytes := 4 }
  content := [97, 10, 98]

/-- A poll inside a line, one that fails, a line with its carriage return and one that is longer
than the window. -/
def sampleMoves : List Move :=
  [quiet, .append [13], .poll { read := some "input/output error" } [10, 99, 99], quiet,
    .append [99, 99, 99, 10, 100]]

theorem emits_linesOf_sample :
    sampleFollow.tailer.Ready sampleFollow.content ∧
      (sampleFollow.run sampleMoves).emitted = [[98]] ∧
      (sampleFollow.run (sampleMoves ++ List.replicate 12 quiet)).emitted =
        [[98], [99, 99, 99], [99]] := by
  have hready : sampleFollow.tailer.Ready sampleFollow.content :=
    ⟨rfl, .inl rfl, by decide, by decide⟩
  have hall := (emits_linesOf sampleFollow hready rfl sampleMoves).2 12 (by decide)
  exact ⟨hready, by decide, hall.trans (by decide)⟩

end Follow
end LatticeAgent.Logtail
