import LatticeAgent.Outbox.Store

/-! # What the outbox exposes is durable

`durabilityUnconfirmed` stands between a published entry and its upload: while it is clear,
the visible directory is the durable one (`Store.Sound`). Every call keeps this, whatever
syncs fail in it; only a fresh `Open`, which starts with the flag clear over whatever an
earlier process left visible, does not establish it, and the confirmation at the head of
`RecoverInterrupted` does.

`pending_durable`: in every run in which each `Open` is followed by a successful
`RecoverInterrupted` before the first `Pending`, an entry that `Pending` returns is in the
durable directory, with the same contents. -/

namespace LatticeAgent.Outbox

open CutProg

/-- While the flag is clear, what is visible is durable. -/
def Store.Sound (s : Store) : Prop :=
  s.durabilityUnconfirmed = false → s.dir.visible = s.dir.durable

section rules
variable {A : Choice → Prop} {α : Type} {Q : α → Store → Prop} {E : String → Store → Prop}
  {C : Store → Prop} {s : Store}

variable {seam : Choice → Option String}

theorem wp_access {f : Store → Except String α × Store} (hC : C s) (hE : ∀ e, E e s)
    (hf : Outcome Q E (f s)) : wp A (access seam f) Q E C s := by
  refine wp_step hC fun c _ => ?_
  cases hs : seam c with
  | none => simpa only [hs] using hf
  | some e => exact hE e

theorem wp_read {f : Store → Except String α} (hC : C s) (hE : ∀ e, E e s)
    (hQ : ∀ a, f s = .ok a → Q a s) : wp A (access seam fun s => (f s, s)) Q E C s := by
  refine wp_access hC hE ?_
  cases hf : f s with
  | ok a => exact hQ a hf
  | error e => exact hE e

theorem wp_confirmStep {f : Store → Store} {Q : Option String → Store → Prop} (hC : C s)
    (hfail : ∀ e, Q (some e) { s with durabilityUnconfirmed := true }) (hok : Q none (f s)) :
    wp A (confirmStep seam f) Q E C s := by
  refine wp_step hC fun c _ => ?_
  cases hs : seam c with
  | none => simpa only [hs, outcome_ok] using hok
  | some e => simpa only [hs, outcome_ok] using hfail e

theorem wp_timeNow {Q : Time → Store → Prop} (hC : C s) (hQ : ∀ t, Q t s) : wp A timeNow Q E C s :=
  wp_step hC fun c _ => hQ c.now

end rules

/-! ### One call -/

section calls
variable {A : Choice → Prop} (cx : Codec) {s : Store}

/-- A call that keeps `Sound`, whether it returns or fails. -/
abbrev KeepsSound {α : Type} (A : Choice → Prop) (p : StoreProg α) : Prop :=
  Keeps A Store.Sound (fun _ => True) p

theorem sound_unconfirmed : Store.Sound { s with durabilityUnconfirmed := true } :=
  fun h => Bool.noConfusion h

theorem sound_synced {b : Bool} :
    Store.Sound { s with dir := s.dir.sync, durabilityUnconfirmed := b } := fun _ => rfl

/-- The sync that ends a write makes any store sound, one way or the other. -/
theorem syncWritten_sound :
    wp A syncWritten (fun _ => Store.Sound) (fun _ => Store.Sound) (fun _ => True) s :=
  wp_bind (wp_confirmStep trivial (fun _ => wp_pure sound_unconfirmed) (wp_pure sound_synced))

theorem writeNew_keeps (key : String) (e : Entry) : KeepsSound A (writeNew cx key e) := by
  intro s hs
  unfold writeNew
  split_ifs
  · exact wp_pure hs
  · refine wp_bind (wp_attempt (wp_access trivial (fun _ => wp_pure hs) ?_))
    refine wp_bind (wp_attempt (wp_access trivial (fun _ => wp_pure hs) ?_))
    split_ifs
    · exact wp_pure hs
    · exact wp_bind (wp_confirmStep trivial (fun _ => wp_pure sound_unconfirmed)
        syncWritten_sound)

theorem write_keeps (key : String) (e : Entry) : KeepsSound A (write cx key e) := by
  intro s hs
  unfold write
  split_ifs
  · exact wp_pure hs
  · refine wp_bind (wp_attempt (wp_access trivial (fun _ => wp_pure hs) ?_))
    refine wp_bind (wp_attempt (wp_access trivial (fun _ => wp_pure hs) ?_))
    exact syncWritten_sound

theorem begin_keeps (task : Task) (protocol : String) : KeepsSound A (begin cx task protocol) := by
  intro s hs
  unfold begin
  split_ifs
  · exact wp_pure hs
  · refine wp_bind (wp_attempt (wp_read trivial (fun _ => wp_pure hs) fun entries _ => ?_))
    dsimp only
    split
    · exact wp_pure hs
    · split_ifs
      · exact wp_pure hs
      · exact wp_bind (wp_timeNow trivial fun now => writeNew_keeps cx _ _ s hs)

theorem complete_keeps (r : TaskResult) : KeepsSound A (complete cx r) := by
  intro s hs
  unfold complete
  refine wp_bind (wp_attempt (wp_read trivial (fun _ => wp_pure hs) fun e _ => ?_))
  dsimp only
  split_ifs
  · exact wp_pure hs
  · exact wp_pure hs
  · exact wp_pure hs
  · exact wp_bind (wp_timeNow trivial fun now => write_keeps cx _ _ s hs)

theorem confirmDurability_sound {E : String → Store → Prop} (hE : ∀ e, E e s) :
    wp A confirmDurability (fun _ => Store.Sound) E (fun _ => True) s := by
  refine wp_step trivial fun c _ => ?_
  cases hc : c.sync with
  | none => simpa only [hc, outcome_ok] using sound_synced
  | some e => simpa only [hc, outcome_error] using hE _

theorem confirmDurability_keeps : KeepsSound A confirmDurability :=
  fun _ hs => confirmDurability_sound fun _ => hs

theorem recoverEntry_keeps (nodeID : String) (e : Entry) :
    KeepsSound A (recoverEntry cx nodeID e) := by
  intro s hs
  unfold recoverEntry
  split_ifs
  · exact wp_ret hs
  · exact wp_fail hs
  · refine wp_bind (wp_timeNow trivial fun now => ?_)
    refine wp_then (write_keeps cx _ _ s hs) (fun w s' hs' => ?_)
    split
    · exact wp_ret hs'
    · split_ifs
      · exact wp_fail hs'
      · exact wp_bind (wp_attempt (wp_mono (confirmDurability_keeps s' hs')
          (fun _ _ h => wp_ret h) (fun _ _ h => wp_fail h) fun _ h => h))

/-- **Recovery confirms.**  A `RecoverInterrupted` that returns without an error leaves a
sound store, whatever it started from. -/
theorem recoverInterrupted_sound (nodeID : String) {E : String → Store → Prop}
    (hE : ∀ e, E e s) (hE' : ∀ e s', Store.Sound s' → E e s') :
    wp A (recoverInterrupted cx nodeID) (fun _ => Store.Sound) E (fun _ => True) s := by
  refine wp_bind (wp_attempt (wp_mono (confirmDurability_sound (E := fun _ s' => s' = s)
    fun _ => rfl) (fun _ s' hs' => ?_) (fun _ s' hs' => ?_) fun _ h => h))
  · refine wp_bind (wp_read trivial (fun e => hE' e s' hs') fun entries _ => ?_)
    refine wp_forEach (fun _ => Store.Sound) hs' fun e _ s'' hs'' => ?_
    exact wp_mono (recoverEntry_keeps cx nodeID e s'' hs'') (fun _ _ h => h)
      (fun e _ h => hE' e _ h) fun _ h => h
  · subst hs'
    exact wp_fail (hE _)

theorem remove_keeps (e : Entry) : KeepsSound A (remove cx e) := by
  intro s hs
  unfold remove
  refine wp_bind (wp_access trivial (fun _ => hs) ?_)
  split_ifs
  · exact wp_bind (wp_confirmStep trivial (fun _ => wp_fail sound_unconfirmed)
      (wp_ret fun _ => rfl))
  · exact hs

end calls
/-! ### Every run -/

/-- Where the process stands: not running, with the store open, or with the store open and
recovered since. -/
inductive Status where
  | down
  | opened
  | recovered
deriving DecidableEq, Repr

/-- One call on the store. -/
inductive Call where
  | openStore
  | begin (task : Task) (protocol : String)
  | complete (r : TaskResult)
  | confirmDurability
  | recoverInterrupted (nodeID : String)
  | pending
  | remove (e : Entry)

section runs
variable (cx : Codec)

/-- The program of a call, with what it exposes for upload. -/
def Call.prog : Call → StoreProg (List Entry)
  | .openStore => do Outbox.openStore cx; return []
  | .begin task protocol => do let _ ← Outbox.begin cx task protocol; return []
  | .complete r => do let _ ← Outbox.complete cx r; return []
  | .confirmDurability => do Outbox.confirmDurability; return []
  | .recoverInterrupted nodeID => do Outbox.recoverInterrupted cx nodeID; return []
  | .pending => Outbox.pending cx
  | .remove e => do Outbox.remove cx e; return []

/-- A process opens the store first, and recovers it before it asks what is pending. -/
def Call.allowed : Call → Status → Bool
  | .openStore, _ => true
  | .pending, st => st == .recovered
  | _, st => st != .down

/-- Where the process stands after a call that ended in a given way. -/
def Call.statusAfter (st : Status) : Call → Exit Choice String (List Entry) → Status
  | _, .cut => .down
  | .openStore, .done .. => .opened
  | .openStore, .failed .. => .down
  | .recoverInterrupted _, .done .. => .recovered
  | _, _ => st

/-- One step of a run: a call, cut anywhere, or a power loss. -/
inductive Step : Store × Status → Store × Status → Prop
  | call (c : Call) (sc : List Choice) (s : Store) (st : Status) (h : c.allowed st = true) :
      Step (s, st) ((c.prog cx).after sc s, c.statusAfter st ((c.prog cx) sc s).1)
  | powerLoss (s : Store) (st : Status) :
      Step (s, st) ({ s with dir := s.dir.powerLoss }, .down)

variable {cx} {A : Choice → Prop}

theorem pending_keeps : KeepsSound A (pending cx) := by
  intro s hs
  refine wp_bind (wp_get ?_)
  split_ifs
  · exact wp_fail hs
  · exact wp_bind (wp_read trivial (fun _ => hs) fun _ _ => wp_pure hs)

theorem Call.keeps (c : Call) (hc : c ≠ .openStore) : KeepsSound A (c.prog cx) := by
  cases c with
  | openStore => exact absurd rfl hc
  | begin task protocol => exact keeps_bind (begin_keeps cx task protocol) fun _ => keeps_pure
  | complete r => exact keeps_bind (complete_keeps cx r) fun _ => keeps_pure
  | confirmDurability => exact keeps_bind confirmDurability_keeps fun _ => keeps_pure
  | recoverInterrupted nodeID =>
    refine keeps_bind (fun s hs => ?_) fun _ => keeps_pure
    exact recoverInterrupted_sound cx nodeID (fun _ => hs) fun _ _ h => h
  | pending => exact pending_keeps
  | remove e => exact keeps_bind (remove_keeps cx e) fun _ => keeps_pure

theorem Call.sound_of_recovered {c : Call} {sc : List Choice} {s : Store} {st : Status}
    (hs : st = .recovered → s.Sound) (h : c.statusAfter st ((c.prog cx) sc s).1 = .recovered) :
    Store.Sound ((c.prog cx).after sc s) := by
  have hall : ∀ x ∈ sc, (fun _ : Choice => True) x := fun _ _ => trivial
  by_cases hopen : c = .openStore
  · subst hopen
    unfold Prog.after at *
    generalize (Call.openStore.prog cx) sc s = r at h
    obtain ⟨r, s'⟩ := r
    cases r <;> cases h
  by_cases hst : st = .recovered
  · have hp : Exit.Holds _ _ _ _ (c.prog cx sc s) := (c.keeps hopen s (hs hst)).run hall
    unfold Prog.after
    generalize (c.prog cx) sc s = r at hp h ⊢
    obtain ⟨r, s'⟩ := r
    cases r with
    | done | failed => exact hp.1
    | cut => cases c <;> cases h
  · -- the only other way to be recovered is a recovery that returned
    cases c with
    | recoverInterrupted nodeID =>
      have hp : wp (fun _ => True) (Call.prog cx (.recoverInterrupted nodeID))
          (fun _ => Store.Sound) (fun _ _ => True) (fun _ => True) s :=
        wp_then (recoverInterrupted_sound cx nodeID (fun _ => trivial) fun _ _ _ => trivial)
          (fun _ _ h => wp_pure h)
      have hp := hp.run hall
      unfold Prog.after
      generalize (Call.prog cx (.recoverInterrupted nodeID)) sc s = r at hp h ⊢
      obtain ⟨r, s'⟩ := r
      cases r with
      | done a rest => exact hp.1
      | failed e rest => exact absurd h hst
      | cut => cases h
    | openStore => exact absurd rfl hopen
    | _ =>
      generalize (Call.prog cx _) sc s = r at h
      obtain ⟨r, s'⟩ := r
      cases r with
      | cut => cases h
      | _ => exact absurd h hst

theorem Step.sound {x y : Store × Status} (h : Step cx x y)
    (hx : x.2 = .recovered → x.1.Sound) : y.2 = .recovered → y.1.Sound := by
  cases h with
  | call c sc s st hc => exact fun h => Call.sound_of_recovered hx h
  | powerLoss s st => exact fun h => Status.noConfusion h

/-- In every state a run reaches, a recovered process has a sound store. -/
theorem reachable_sound {s₀ : Store} {x : Store × Status}
    (h : Relation.ReflTransGen (Step cx) (s₀, .down) x) : x.2 = .recovered → x.1.Sound := by
  induction h with
  | refl => exact fun h => Status.noConfusion h
  | tail _ hstep ih => exact hstep.sound ih

theorem pending_spec {s : Store} :
    wp A (pending cx)
      (fun es s' => s' = s ∧ s.durabilityUnconfirmed = false ∧
        ∀ e ∈ es, s.dir.visible.lookup (e.key cx) = some e)
      (fun _ _ => True) (fun _ => True) s := by
  refine wp_bind (wp_get ?_)
  split_ifs with hflag
  · exact wp_fail trivial
  · refine wp_bind (wp_read trivial (fun _ => trivial) fun es hes => wp_pure ⟨rfl, ?_, ?_⟩)
    · simpa using hflag
    · intro e he
      rw [completedEntries, List.mem_insertionSort] at he
      exact ((mem_checkAll hes).1 e (List.mem_of_mem_filter he)).1

/-- **Exposed results are durable.**  From any directory, in any run of calls, syncs that
fail, crashes and power losses in which a process recovers the store before it asks what is
pending: an entry that `Pending` returns is in the durable directory, with the same
contents. -/
theorem pending_durable {s₀ s : Store}
    (hreach : Relation.ReflTransGen (Step cx) (s₀, .down) (s, .recovered)) {sc rest : List Choice}
    {es : List Entry} {s' : Store} (hp : pending cx sc s = (.done es rest, s')) :
    ∀ e ∈ es, s'.dir.durable.lookup (e.key cx) = some e := by
  have hspec : Exit.Holds _ _ _ _ (pending cx sc s) :=
    pending_spec.run (A := fun _ => True) fun _ _ => trivial
  rw [hp] at hspec
  obtain ⟨⟨rfl, hflag, hes⟩, -⟩ := hspec
  intro e he
  rw [← reachable_sound hreach rfl hflag]
  exact hes e he

/-! ### A result whose sync fails at first -/

def sampleCodec : Codec :=
  { digest := fun b => String.ofList (b.map fun u => Char.ofNat u.toNat),
    marshalEntry := fun _ => [] }

/-- The process opens and recovers an empty store, journals a task, completes it with a
directory sync that fails, and confirms it. -/
def sampleCalls : List (Call × List Choice) :=
  [(.openStore, [{}, {}, {}]), (.recoverInterrupted "node", [{}, {}]),
   (.begin { id := "t", leaseID := "l" } "netguard-v1", List.replicate 6 {}),
   (.complete { taskID := "t", leaseID := "l" }, [{}, {}, {}, {}, { sync := some "EIO" }]),
   (.confirmDurability, [{}])]

/-- The calls of a run, one after the other. -/
def runCalls (calls : List (Call × List Choice)) (x : Store × Status) : Store × Status :=
  calls.foldl (fun x c => ((c.1.prog sampleCodec).after c.2 x.1,
    c.1.statusAfter x.2 ((c.1.prog sampleCodec) c.2 x.1).1)) x

/-- Every call of a run was allowed where the process stood. -/
def allowedCalls : List (Call × List Choice) → Store × Status → Bool
  | [], _ => true
  | c :: calls, x => c.1.allowed x.2 && allowedCalls calls (runCalls [c] x)

theorem runCalls_reach (calls : List (Call × List Choice)) (x : Store × Status)
    (h : allowedCalls calls x) : Relation.ReflTransGen (Step sampleCodec) x (runCalls calls x) := by
  induction calls generalizing x with
  | nil => exact .refl
  | cons c calls ih =>
    rw [allowedCalls, Bool.and_eq_true] at h
    exact .head (.call c.1 c.2 x.1 x.2 h.1) (ih _ h.2)

def sampleStore : Store := ⟨⟨∅, ∅⟩, false, []⟩

theorem pending_durable_sample : ∃ s sc es rest s',
    Relation.ReflTransGen (Step sampleCodec) (sampleStore, .down) (s, .recovered) ∧
    pending sampleCodec sc s = (.done es rest, s') ∧ es ≠ [] ∧
    ∀ e ∈ es, s'.dir.durable.lookup (e.key sampleCodec) = some e := by
  have hreach := runCalls_reach sampleCalls (sampleStore, .down) (by decide +kernel)
  have hst : (runCalls sampleCalls (sampleStore, .down)).2 = .recovered := by decide +kernel
  rw [← Prod.mk.eta (p := runCalls sampleCalls (sampleStore, .down)), hst] at hreach
  generalize hs : (runCalls sampleCalls (sampleStore, .down)).1 = s at hreach
  have hp : ∃ es rest s', pending sampleCodec [{}] s = (.done es rest, s') ∧ es ≠ [] := by
    subst hs
    exact ⟨_, _, _, rfl, by decide +kernel⟩
  obtain ⟨es, rest, s', hp, hne⟩ := hp
  exact ⟨s, [{}], es, rest, s', hreach, hp, hne, pending_durable hreach hp⟩

end runs
end LatticeAgent.Outbox
