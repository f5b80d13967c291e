import LatticeAgent.Outbox.Durability

/-! # Entries that stay

`Store.Holds p K`: each lease of `K` has its entry, under the protocol `p`, in the visible
directory and in the durable one. A fresh lease is held once `Begin` reports it without an
error; completing keeps what is held, and only the removal of an entry itself lets go of it. -/

namespace LatticeAgent.Outbox

open CutProg

section holds
variable (cx : Codec) (protocol : String)

/-- A directory has the entry of a lease. -/
def DirHolds (k : Lease) (dir : AList fun _ : String => Entry) : Prop :=
  ∃ e, dir.lookup (entryKey cx k.1 k.2) = some e ∧ e.lease = k ∧ e.durableProtocol = protocol

/-- Both directories have the entries of all leases of `K`. -/
structure Store.Holds (K : Set Lease) (s : Store) : Prop where
  visible : ∀ k ∈ K, DirHolds cx protocol k s.dir.visible
  durable : ∀ k ∈ K, DirHolds cx protocol k s.dir.durable

variable {cx protocol} {K : Set Lease} {s : Store} {A : Choice → Prop}

section

variable (h : s.Holds cx protocol K)

include h

theorem Store.Holds.congr {s' : Store} (hd : s'.dir = s.dir) : s'.Holds cx protocol K := by
  obtain ⟨hv, hdur⟩ := h
  constructor
  · rw [hd]
    exact hv
  · rw [hd]
    exact hdur

theorem Store.Holds.sync {b : Bool} :
    Store.Holds cx protocol K { s with dir := s.dir.sync, durabilityUnconfirmed := b } :=
  ⟨h.visible, h.visible⟩

theorem Store.Holds.complete {key : String} {e : Entry} (hl : s.dir.visible.lookup key = some e)
    (r : TaskResult) (now : Time) : (s.put key (e.complete r now)).Holds cx protocol K := by
  refine ⟨fun k hk => ?_, h.durable⟩
  obtain ⟨e', hl', hlease, hproto⟩ := h.visible k hk
  by_cases hkey : entryKey cx k.1 k.2 = key
  · rw [hkey, hl] at hl'
    obtain rfl := Option.some.inj hl'
    refine ⟨e.complete r now, ?_, hlease, hproto⟩
    rw [hkey]
    exact AList.lookup_insert _
  · exact ⟨e', (AList.lookup_insert_ne hkey).trans hl', hlease, hproto⟩

theorem Store.Holds.unlink {key : String} (hne : ∀ k ∈ K, entryKey cx k.1 k.2 ≠ key) :
    (s.unlink key).Holds cx protocol K := by
  refine ⟨fun k hk => ?_, h.durable⟩
  obtain ⟨e', hl', hlease, hproto⟩ := h.visible k hk
  exact ⟨e', (AList.lookup_erase_ne (hne k hk)).trans hl', hlease, hproto⟩

end

/-! ### The calls -/

/-- A call that keeps the entries, wherever it is cut. -/
abbrev KeepsEntries {α : Type} (cx : Codec) (protocol : String) (K : Set Lease)
    (A : Choice → Prop) (p : StoreProg α) : Prop :=
  Keeps A (Store.Holds cx protocol K) (Store.Holds cx protocol K) p

theorem syncWritten_holds : KeepsEntries cx protocol K A syncWritten :=
  fun _ h => wp_bind (wp_confirmStep h (fun _ => wp_pure (h.congr rfl)) (wp_pure h.sync))

theorem complete_holds (r : TaskResult) : KeepsEntries cx protocol K A (complete cx r) := by
  intro s h
  refine wp_bind (wp_attempt (wp_read h (fun _ => wp_pure h) fun e he => ?_))
  have hl := (readFile_ok he).1
  dsimp only
  split_ifs
  · exact wp_pure h
  · exact wp_pure h
  · exact wp_pure h
  · refine wp_bind (wp_timeNow h fun now => ?_)
    unfold write
    split_ifs
    · exact wp_pure h
    · refine wp_bind (wp_attempt (wp_access h (fun _ => wp_pure h) ?_))
      refine wp_bind (wp_attempt (wp_access h (fun _ => wp_pure h) ?_))
      exact syncWritten_holds _ (h.complete hl r now)

theorem confirmDurability_holds : KeepsEntries cx protocol K A confirmDurability := by
  intro s h
  refine wp_step h fun c _ => ?_
  cases hs : c.sync with
  | some e => exact h
  | none => exact h.sync

theorem snapshot_holds : KeepsEntries cx protocol K A (snapshot cx) :=
  fun _ h => wp_read h (fun _ => h) fun _ _ => h

theorem openStore_holds : KeepsEntries cx protocol K A (openStore cx) := by
  refine keeps_bind (fun s h => wp_access h (fun _ => h) (h.congr rfl)) fun _ => ?_
  refine keeps_bind (keeps_bind (fun s h => wp_step h fun c _ => ?_) fun stale => ?_) fun _ => ?_
  · cases hr : c.read with
    | some | none => exact h
  · exact keeps_ite (fun _ => fun s h => wp_access h (fun _ => h) h.sync) fun _ => keeps_ret
  · exact keeps_bind snapshot_holds fun _ => keeps_pure

/-- **`Begin`** that reports a new journal without an error holds its lease. -/
theorem begin_holds (task : Task) :
    wp A (begin cx task protocol)
      (fun w s' => w.err = none → w.committed = true →
        s'.Holds cx protocol {(task.id, task.leaseID)})
      (fun _ _ => False) (fun _ => True) s := by
  have hno : ∀ {err : Option String} {P : Prop}, (⟨false, err⟩ : Written).committed = true → P :=
    fun hc => absurd hc Bool.false_ne_true
  unfold begin
  split_ifs
  · exact wp_pure fun _ => hno
  refine wp_bind (wp_attempt (wp_read trivial (fun _ => wp_pure fun _ => hno) fun es _ => ?_))
  dsimp only
  cases hr : redelivered cx task protocol es with
  | some w =>
    refine wp_pure fun _ hc => ?_
    unfold redelivered at hr
    obtain ⟨e, -, rfl⟩ := Option.map_eq_some_iff.mp hr
    split_ifs at hc
  | none =>
    dsimp only
    split_ifs
    · exact wp_pure fun _ => hno
    refine wp_bind (wp_timeNow trivial fun now => ?_)
    unfold writeNew
    split_ifs
    · exact wp_pure fun _ => hno
    refine wp_bind (wp_attempt (wp_access trivial (fun _ => wp_pure fun _ => hno) ?_))
    refine wp_bind (wp_attempt (wp_access trivial (fun _ => wp_pure fun _ => hno) ?_))
    split_ifs
    · exact wp_pure fun _ => hno
    · refine wp_bind (wp_confirmStep trivial (fun _ => ?_) ?_)
      · exact wp_pure fun hc => absurd hc (Option.some_ne_none _)
      · refine wp_bind (wp_confirmStep trivial (fun _ => ?_) ?_)
        · exact wp_pure fun hc => absurd hc (Option.some_ne_none _)
        · have hheld : DirHolds cx protocol (task.id, task.leaseID)
              (s.dir.visible.insert (entryKey cx task.id task.leaseID)
                (leasedEntry task protocol now)) :=
            ⟨leasedEntry task protocol now, AList.lookup_insert _, rfl, rfl⟩
          refine wp_pure fun _ _ => ⟨fun k hk => ?_, fun k hk => ?_⟩ <;>
            exact (Set.mem_singleton_iff.mp hk) ▸ hheld

/-- **`Pending`** returns entries as they are on disk. -/
theorem pending_holds (h : s.Holds cx protocol K) :
    Leaves A (pending cx)
      (fun es s' => s'.Holds cx protocol K ∧
        ∀ e ∈ es, e.durableProtocol ≠ protocol → ∀ k ∈ K, entryKey cx k.1 k.2 ≠ e.key cx)
      (Store.Holds cx protocol K) s := by
  refine wp_bind (wp_get ?_)
  split_ifs
  · exact wp_fail h
  refine wp_bind (wp_read h (fun _ => h) fun es hes => wp_pure ⟨h, fun e he hp k hk hkey => hp ?_⟩)
  obtain ⟨e', hl', -, hproto⟩ := h.visible k hk
  rw [completedEntries, List.mem_insertionSort] at he
  have hl := ((mem_checkAll hes).1 e (List.mem_of_mem_filter he)).1
  rw [hkey, hl] at hl'
  rw [Option.some.inj hl']
  exact hproto

/-- **`Remove`** of an entry of another lease. -/
theorem remove_holds {e : Entry} (hne : ∀ k ∈ K, entryKey cx k.1 k.2 ≠ e.key cx) :
    KeepsEntries cx protocol K A (remove cx e) := by
  intro s h
  have hu : ((s.unlink (e.key cx)).record (.removed e.lease)).Holds cx protocol K :=
    (h.unlink hne).congr rfl
  refine wp_bind (wp_access h (fun _ => h) ?_)
  split_ifs
  · exact wp_bind (wp_confirmStep hu (fun _ => wp_fail (hu.congr rfl)) (wp_ret hu.sync))
  · exact h

end holds
end LatticeAgent.Outbox
