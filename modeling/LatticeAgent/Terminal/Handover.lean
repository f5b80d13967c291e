import LatticeAgent.Terminal.Sink

/-! # Handing a terminal over to the next connection

`runStream` serves one connection after the other. A call of `serveStreamConn` has three parties:
the call itself, which waits, detaches its connection, closes it and returns; the input pump, which
handles the browser's resume frames; and the fallback, which waits two seconds for a resume and
then resumes from offset zero. The call joins the pump before it returns, but not the fallback.

A `Stream` is the sink, every call made so far (a connection is known by the place of its call),
and a record of who should be getting the output. Its moves are the steps of the parties; a move
that its party is not ready for changes nothing, so a list of moves is any interleaving. -/

namespace LatticeAgent.Terminal

open List

/-- Where the fallback goroutine of a call stands: in its `select`, past the timer's arm of it but
before its `resumeOnce`, or ended. -/
inductive Fallback where
  | selecting | timedOut | ended
deriving DecidableEq, Repr

/-- Where a call of `serveStreamConn` stands. -/
inductive Stage where
  | selecting | woken | detached | returned
deriving DecidableEq, Repr

/-- One call: its own stage, whether the channels `resumed` and `inDone` are closed, and its
fallback. -/
structure Call where
  stage : Stage := .selecting
  resumed : Bool := false
  inDone : Bool := false
  fallback : Fallback := .selecting
deriving DecidableEq, Repr

/-- The call has detached its connection. -/
def Call.detached (c : Call) : Bool := c.stage = .detached || c.stage = .returned

/-- The steps of the parties of one call. -/
inductive Act where
  /-- The pump handles a resume frame. -/
  | frame (off : Nat) (fail : Option Nat)
  /-- The pump ends and closes `inDone`. -/
  | pumpEnds
  /-- The fallback's timer fires. -/
  | timeout
  /-- The fallback sees `resumed` or `inDone` closed. -/
  | seen
  /-- The fallback resumes from offset zero. -/
  | fires (fail : Option Nat)
  /-- The call sees `inDone` closed, or the session over. -/
  | wake
  | detach
  /-- The call has closed the connection and joined the pump. -/
  | leave
deriving DecidableEq, Repr

/-- Where a step leaves its call, if the call is ready for it. `attached` says whether its
connection is the live one, in which case `resumeOnce` returns false. -/
def Call.next (c : Call) (finished attached : Bool) : Act → Option Call
  | .frame .. => if c.inDone then none else some { c with resumed := c.resumed || !attached }
  | .pumpEnds => if c.inDone then none else some { c with inDone := true }
  | .timeout => if c.fallback = .selecting then some { c with fallback := .timedOut } else none
  | .seen =>
    if c.fallback = .selecting ∧ (c.resumed || c.inDone) then some { c with fallback := .ended }
    else none
  | .fires _ => if c.fallback = .timedOut then some { c with fallback := .ended } else none
  | .wake =>
    if c.stage = .selecting ∧ (c.inDone || finished) then some { c with stage := .woken } else none
  | .detach => if c.stage = .woken then some { c with stage := .detached } else none
  | .leave => if c.stage = .detached ∧ c.inDone then some { c with stage := .returned } else none

/-- The stream of one session. `owner` is the connection that has resumed and has neither been
detached nor failed a write since; `lost` is what was written while it should have got it and
another connection, or none, was live. -/
structure Stream where
  sink : StreamSink Nat
  calls : List Call := []
  finished : Bool := false
  owner : Option Nat := none
  lost : Bytes := []
deriving DecidableEq, Repr

inductive StreamMove where
  /-- The shell's output. -/
  | write (p : Bytes) (fail : Option Nat)
  /-- The session is cancelled or the shell exits. -/
  | finish
  /-- The next connection is dialled and its call begins. -/
  | dial
  | act (i : Nat) (a : Act)
deriving DecidableEq, Repr

namespace Stream

def new (cap : Nat) : Stream := { sink := { ring := { capBytes := cap } } }

/-- Call `i` has detached its connection. -/
def gone (w : Stream) (i : Nat) : Bool := (w.calls[i]?).any Call.detached

/-- `resumeOnce` for the connection of call `i`. A connection that resumes owns the output, unless
its call has detached it or another one owns it still. -/
def resume (w : Stream) (i off : Nat) (fail : Option Nat) : Stream :=
  let r := w.sink.resumeOnce i off fail
  { w with
    sink := r.sink
    owner := if r.performed = true ∧ r.sink.conn = some i ∧ w.gone i = false ∧ w.owner = none
      then some i else w.owner }

/-- `detach` for the connection of call `i`. -/
def detach (w : Stream) (i : Nat) : Stream :=
  { w with sink := w.sink.detach i, owner := if w.owner = some i then none else w.owner }

/-- What a step of call `i` does to the sink. -/
def effect (w : Stream) (i : Nat) : Act → Stream
  | .frame off fail => w.resume i off fail
  | .fires fail => w.resume i 0 fail
  | .detach => w.detach i
  | _ => w

/-- The next connection is dialled only after the last call returned, and not if the session is
over. -/
def ready (w : Stream) : Bool := !w.finished && w.calls.all fun c => c.stage == .returned

def step (w : Stream) : StreamMove → Stream
  | .write p fail =>
    { w with
      sink := w.sink.write p fail
      owner := if fail.isSome ∧ w.owner = w.sink.conn then none else w.owner
      lost := if w.owner.isSome ∧ w.owner ≠ w.sink.conn then w.lost ++ p else w.lost }
  | .finish => { w with finished := true }
  | .dial => if w.ready then { w with calls := w.calls ++ [{}] } else w
  | .act i a =>
    match (w.calls[i]?).bind fun c => c.next w.finished (w.sink.conn == some i) a with
    | some c => { w.effect i a with calls := w.calls.set i c }
    | none => w

/-- A whole run. -/
def run (cap : Nat) (moves : List StreamMove) : Stream := Runs.run step (new cap) moves

/-- The offset and the outcome of a `resumeOnce` that a step makes, if it is ready for it. -/
def resumes (w : Stream) (i : Nat) : Act → Option (Nat × Option Nat)
  | .frame off fail =>
    if (w.calls[i]?).any fun c => !c.inDone then some (off, fail) else none
  | .fires fail =>
    if (w.calls[i]?).any fun c => c.fallback == .timedOut then some (0, fail) else none
  | _ => none

/-- The replay of a late `resumeOnce`, one for a connection that its call has detached, has
something to write and the write fails. -/
def OnTime (w : Stream) : StreamMove → Prop
  | .act i a => w.gone i = true → ∀ r ∈ w.resumes i a,
      (w.sink.ring.tailFrom r.1).1 ≠ [] ∧ r.2.isSome = true
  | _ => True

/-- A detached connection is not the live one, the live one is the one that should be, and no
output went past it. -/
structure Kept (w : Stream) : Prop where
  gone : ∀ i, w.gone i = true → w.sink.conn ≠ some i
  live : ∀ b, w.owner = some b → w.sink.conn = some b
  lost : w.lost = []

variable {w : Stream}

variable {a : Act} {attached : Bool} {c : Call} {i : Nat}

variable {c' : Call} {finished : Bool}

theorem next_detached (h : c.next finished attached a = some c') :
    c'.detached = (c.detached || decide (a = .detach)) := by
  cases a <;> simp only [Call.next] at h <;> split at h <;> cases h <;>
    simp_all [Call.detached]

theorem next_returned (h : c.next finished attached a = some c') (hc : c.stage = .returned) :
    c'.stage = .returned := by
  cases a <;> simp only [Call.next] at h <;> split at h <;> cases h <;> simp_all

theorem resumes_eq (hi : w.calls[i]? = some c) (h : c.next w.finished attached a = some c') :
    w.resumes i a = match a with
      | .frame off fail => some (off, fail)
      | .fires fail => some (0, fail)
      | _ => none := by
  cases a <;> simp only [Call.next] at h <;> split at h <;> cases h <;> simp_all [resumes]

theorem resumes_none (h : ((w.calls[i]?).bind fun c => c.next w.finished attached a) = none) :
    w.resumes i a = none := by
  cases hi : w.calls[i]? with
  | none => cases a <;> simp [resumes, hi]
  | some c =>
    rw [hi] at h
    cases a <;> simp_all [resumes, Call.next]

/-- After a step of call `i`, the detached connections are those before, and its own if the step
detached it. -/
theorem gone_set (hi : w.calls[i]? = some c) (h : c.next w.finished attached a =
      some c') (j : Nat) :
    ((w.calls.set i c')[j]?).any Call.detached = (w.gone j || decide (j = i ∧ a = .detach)) := by
  rw [getElem?_set]
  split
  · rename_i hij
    subst hij
    rw [if_pos (List.getElem?_eq_some_iff.mp hi).1]
    simp [gone, hi, next_detached h]
  · rename_i hij
    simp [gone, Ne.symm hij]

/-- Only the last call has not returned, and the connection that owns the output is that of the last
call, not detached. -/
structure Inv (w : Stream) : Prop where
  returned : ∀ (i : Nat) (c : Call), w.calls[i]? = some c → i + 1 < w.calls.length →
    c.stage = .returned
  owner : ∀ b, w.owner = some b → b + 1 = w.calls.length ∧ w.gone b = false

theorem Inv.new (cap : Nat) : Inv (new cap) where
  returned i c h := by simp [Stream.new] at h
  owner b h := by cases h

theorem Inv.last (hw : Inv w) (hi : w.calls[i]? = some c) (hgone : w.gone i = false) :
    i + 1 = w.calls.length := by
  have hlt := (List.getElem?_eq_some_iff.mp hi).1
  by_contra hne
  have hret := hw.returned i c hi (by omega)
  simp [gone, hi, Call.detached, hret] at hgone

/-- The owner after a step of call `i`: itself if it resumed, nobody if it was the owner and is
detached, the same as before otherwise. -/
theorem effect_owner {b : Nat} (h : (w.effect i a).owner = some b) :
    b = i ∧ w.gone i = false ∧ a ≠ .detach ∨ w.owner = some b ∧ (b ≠ i ∨ a ≠ .detach) := by
  have hresume (off : Nat) (fail : Option Nat) (h : (w.resume i off fail).owner = some b) :
      b = i ∧ w.gone i = false ∨ w.owner = some b := by
    simp only [resume] at h
    split at h
    · rename_i hr
      exact .inl ⟨(Option.some.inj h).symm, hr.2.2.1⟩
    · exact .inr h
  cases a with
  | frame off fail => exact (hresume off fail h).imp (fun h => ⟨h.1, h.2, nofun⟩) (⟨·, .inr nofun⟩)
  | fires fail => exact (hresume 0 fail h).imp (fun h => ⟨h.1, h.2, nofun⟩) (⟨·, .inr nofun⟩)
  | detach =>
    simp only [effect, detach] at h
    split at h
    · cases h
    · rename_i hne
      refine .inr ⟨h, .inl fun hb => hne ?_⟩
      rw [h, hb]
  | pumpEnds | timeout | seen | wake | leave => exact .inr ⟨h, .inr nofun⟩

theorem Inv.step (hw : Inv w) (m : StreamMove) : Inv (w.step m) := by
  cases m with
  | write p fail =>
    refine ⟨hw.returned, fun b hb => hw.owner b ?_⟩
    simp only [Stream.step] at hb
    split at hb
    · cases hb
    · exact hb
  | finish => exact ⟨hw.returned, hw.owner⟩
  | dial =>
    simp only [Stream.step]
    split
    · rename_i hready
      have hall : ∀ c ∈ w.calls, c.stage = .returned := by
        simp only [ready, Bool.and_eq_true, all_eq_true, beq_iff_eq] at hready
        exact hready.2
      refine ⟨fun i c hi hlt => ?_, fun b hb => ?_⟩
      · rw [length_append, length_singleton] at hlt
        rw [getElem?_append_left (by omega)] at hi
        exact hall c (mem_of_getElem? hi)
      · -- every call has returned, so nobody owns the output
        obtain ⟨hlast, hgone⟩ := hw.owner b hb
        obtain ⟨c, hc⟩ : ∃ c, w.calls[b]? = some c :=
          ⟨w.calls[b], getElem?_eq_getElem (by omega)⟩
        simp [gone, hc, Call.detached, hall c (mem_of_getElem? hc)] at hgone
    · exact hw
  | act i a =>
    simp only [Stream.step]
    split
    · rename_i c' hnext
      obtain ⟨c, hi, hnext⟩ := Option.bind_eq_some_iff.mp hnext
      refine ⟨fun j d hj hlt => ?_, fun b hb => ?_⟩
      · rw [length_set] at hlt
        rw [getElem?_set] at hj
        split at hj
        · rename_i hij
          subst hij
          rw [if_pos (List.getElem?_eq_some_iff.mp hi).1] at hj
          obtain rfl := Option.some.inj hj
          exact next_returned hnext (hw.returned i c hi hlt)
        · exact hw.returned j d hj hlt
      · have hgone := gone_set hi hnext b
        rw [length_set]
        rcases effect_owner hb with ⟨rfl, hfree, hne⟩ | ⟨hb, hne⟩
        · refine ⟨hw.last hi hfree, ?_⟩
          rw [gone, hgone, hfree]
          simp [hne]
        · obtain ⟨hlast, hfree⟩ := hw.owner b hb
          refine ⟨hlast, ?_⟩
          rw [gone, hgone, hfree]
          simpa [imp_iff_not_or] using hne
    · exact hw

/-! ### Who gets the output -/

/-- A resume keeps the output where it should go exactly if it is not late, or if its replay
fails. -/
theorem resume_kept (hw : Inv w) (hk : Kept w) (hi : w.calls[i]? = some c) (off : Nat)
    (fail : Option Nat) : Kept (w.resume i off fail) ↔
      (w.gone i → (w.sink.ring.tailFrom off).1 ≠ [] ∧ fail.isSome) := by
  by_cases hconn : w.sink.conn = some i
  · -- `resumeOnce` finds its connection attached
    have hsame : w.resume i off fail = w := by
      simp [resume, StreamSink.resumeOnce, hconn]
    rw [hsame]
    exact ⟨fun _ hgone => absurd hconn (hk.gone i hgone), fun _ => hk⟩
  · by_cases hfail : (w.sink.ring.tailFrom off).1 ≠ [] ∧ fail.isSome = true
    · have hsame : w.resume i off fail = w := by
        simp [resume, StreamSink.resumeOnce, if_pos hfail, hconn]
      rw [hsame]
      exact ⟨fun _ _ => hfail, fun _ => hk⟩
    · have hsink : (w.resume i off fail).sink = { w.sink with conn := some i } := by
        simp only [resume, StreamSink.resumeOnce, if_neg hconn, if_neg hfail]
      have howner : (w.resume i off fail).owner =
          if w.gone i = false ∧ w.owner = none then some i else w.owner := by
        simp [resume, StreamSink.resumeOnce, if_neg hconn, if_neg hfail]
      refine ⟨fun hk' hgone => ?_, fun hlate => ?_⟩
      · exact absurd (by rw [hsink]) (hk'.gone i hgone)
      · have hfree : w.gone i = false := by
          by_contra h
          exact hfail (hlate (by simpa using h))
        have hnone : w.owner = none := by
          -- an owner would be the connection of the last call, which is this one
          by_contra hsome
          obtain ⟨b, hb⟩ := Option.ne_none_iff_exists'.mp hsome
          have hlast := (hw.owner b hb).1
          have hlast' := hw.last hi hfree
          obtain rfl : b = i := by omega
          exact hconn (hk.live b hb)
        rw [if_pos ⟨hfree, hnone⟩] at howner
        refine ⟨fun j hgone hj => ?_, fun b hb => ?_, hk.lost⟩
        · rw [hsink] at hj
          obtain rfl := Option.some.inj hj
          exact absurd (hgone.symm.trans hfree) (by decide)
        · rw [hsink]
          exact howner.symm.trans hb

theorem detach_kept (hk : Kept w) (i : Nat) :
    (w.detach i).sink.conn ≠ some i ∧ Kept (w.detach i) := by
  have hsink : (w.detach i).sink.conn = if w.sink.conn = some i then none else w.sink.conn := by
    simp only [detach, StreamSink.detach]
    split <;> rfl
  refine ⟨?_, ⟨fun j hgone hj => ?_, fun b hb => ?_, hk.lost⟩⟩
  · rw [hsink]
    split
    · exact (Option.some_ne_none i).symm
    · assumption
  · rw [hsink] at hj
    split at hj
    · cases hj
    · exact hk.gone j hgone hj
  · simp only [detach] at hb
    split at hb
    · cases hb
    · rename_i hne
      have hconn := hk.live b hb
      rw [hsink, if_neg, hconn]
      rw [hconn, ← hb]
      exact hne

theorem Kept.congr (hk : Kept w) {v : Stream} (hsink : v.sink = w.sink) (howner : v.owner = w.owner)
    (hlost : v.lost = w.lost) (hgone : ∀ i, v.gone i → v.sink.conn = some i → w.gone i) :
    Kept v where
  gone i h hconn := hk.gone i (hgone i h hconn) (hsink ▸ hconn)
  live b hb := hsink ▸ hk.live b (howner ▸ hb)
  lost := hlost.trans hk.lost

theorem step_kept (hw : Inv w) (hk : Kept w) (m : StreamMove) : Kept (w.step m) ↔ w.OnTime m := by
  cases m with
  | write p fail =>
    refine iff_of_true ⟨fun i hgone hconn => ?_, fun b hb => ?_, ?_⟩ trivial
    · simp only [step, StreamSink.write] at hconn
      split at hconn
      · cases hconn
      · exact hk.gone i hgone hconn
    · simp only [step] at hb
      split at hb
      · cases hb
      · rename_i hfail
        have hconn := hk.live b hb
        have hok : fail.isSome = false := by
          by_contra h
          exact hfail ⟨(Bool.not_eq_false _).mp h, hb.trans hconn.symm⟩
        simp [step, StreamSink.write, hok, hconn]
    · have hown : ¬ (w.owner.isSome = true ∧ w.owner ≠ w.sink.conn) := by
        rintro ⟨hsome, hne⟩
        obtain ⟨b, hb⟩ := Option.isSome_iff_exists.mp hsome
        exact hne (hb.trans (hk.live b hb).symm)
      simp only [step, if_neg hown, hk.lost]
  | finish => exact iff_of_true (hk.congr rfl rfl rfl fun _ h _ => h) trivial
  | dial =>
    refine iff_of_true ?_ trivial
    simp only [step]
    split
    · refine hk.congr rfl rfl rfl fun i hgone _ => ?_
      by_cases hlt : i < w.calls.length
      · simpa [gone, getElem?_append_left hlt] using hgone
      · -- the new call has detached nothing
        rw [gone, getElem?_append_right (by omega), getElem?_singleton] at hgone
        split at hgone <;> simp [Call.detached] at hgone
    · exact hk
  | act i a =>
    simp only [step]
    split
    · rename_i c' hnext
      obtain ⟨c, hi, hnext⟩ := Option.bind_eq_some_iff.mp hnext
      have hgone := gone_set hi hnext
      have hresumes := resumes_eq hi hnext
      -- a step that only moves its call on
      have hquiet (v : Stream) (ha : a ≠ .detach) (hv : v.calls = w.calls) :
          Kept { v with calls := w.calls.set i c' } ↔ Kept v := by
        have hsame (j : Nat) : gone { v with calls := w.calls.set i c' } j = v.gone j := by
          unfold gone
          rw [hgone, hv]
          simp [gone, ha]
        exact ⟨fun h => h.congr rfl rfl rfl fun j hj _ => (hsame j).trans hj,
          fun h => h.congr rfl rfl rfl fun j hj _ => (hsame j).symm.trans hj⟩
      cases a with
      | frame off fail =>
        refine (hquiet (w.resume i off fail) nofun rfl).trans ?_
        rw [resume_kept hw hk hi, OnTime, hresumes]
        simp
      | fires fail =>
        refine (hquiet (w.resume i 0 fail) nofun rfl).trans ?_
        rw [resume_kept hw hk hi, OnTime, hresumes]
        simp
      | detach =>
        obtain ⟨hne, hkept⟩ := detach_kept hk i
        refine iff_of_true (hkept.congr rfl rfl rfl fun j hj hconn => ?_) ?_
        · rw [gone, hgone] at hj
          rcases (Bool.or_eq_true _ _).mp hj with hj | hj
          · exact hj
          · obtain ⟨rfl, -⟩ := of_decide_eq_true hj
            exact absurd hconn hne
        · rw [OnTime, hresumes]
          exact fun _ r hr => (by cases hr)
      | pumpEnds | timeout | seen | wake | leave =>
        rw [OnTime, hresumes]
        exact iff_of_true ((hquiet w nofun rfl).mpr hk) fun _ r hr => (by cases hr)
    · rename_i hnext
      refine iff_of_true hk fun _ r hr => ?_
      rw [resumes_none hnext] at hr
      cases hr

theorem Kept.new (cap : Nat) : Kept (Stream.new cap) where
  gone _ _ := nofun
  live b h := by cases h
  lost := rfl

/-- **A closed connection never takes the output back**, in any number of consecutive calls and any
interleaving of their parties, exactly if every `resumeOnce` for a connection that its call has
detached has something to replay and fails to write it: then, in every state, no detached
connection is the live one, and while a connection has resumed and has neither been detached nor
failed a write, every write goes to it. -/
theorem handover_iff (cap : Nat) (moves : List StreamMove) :
    (∀ k, Kept (run cap (moves.take k))) ↔ Runs.Along step OnTime (new cap) moves :=
  Runs.along_iff Inv Kept (fun _ m hw => hw.step m) (fun _ m hw hk => step_kept hw hk m)
    (Inv.new cap) (Kept.new cap) moves

/-- The fallback of the first connection picks its timer, the connection breaks, and its call
detaches it and returns; the second connection resumes, and only then does the fallback get to its
`resumeOnce`, with nothing to replay. -/
def lateFallback : List StreamMove :=
  [.dial, .act 0 .timeout, .act 0 .pumpEnds, .act 0 .wake, .act 0 .detach, .act 0 .leave,
    .dial, .act 1 (.frame 0 none), .act 0 (.fires none)]

/-- The closed connection is live again, and the shell's next output never reaches the connection
that resumed. -/
theorem closed_takes_output :
    (run 8 lateFallback).gone 0 = true ∧ (run 8 lateFallback).sink.conn = some 0 ∧
    (run 8 lateFallback).owner = some 1 ∧
    (run 8 (lateFallback ++ [.write [36] (some 0)])).owner = some 1 ∧
    (run 8 (lateFallback ++ [.write [36] (some 0)])).sink.conn = none ∧
    (run 8 (lateFallback ++ [.write [36] (some 0)])).lost = [36] := by
  decide

end Stream
end LatticeAgent.Terminal
