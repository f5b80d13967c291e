import LatticeAgent.Outbox.Durability

/-! # Leases and the journals on disk

`Store.Coherent`: every lease of the store's history follows its lifecycle, and stands where
the visible directory says it does: no journal, a journal still leased whose result nobody
has seen, or a completed one whose uploads, if any, were of the result it holds. Each call
of the store keeps this at every step (`begin_coherent`, `complete_coherent`,
`recoverInterrupted_coherent`, `remove_coherent`), and the specifications say what the agent
relies on besides. -/

namespace LatticeAgent.Outbox

open List CutProg Lifecycle AList Option

section coherent
variable (cx : Codec)

/-- The journal of a lease in the visible directory. -/
def Store.journalOf (s : Store) (k : Lease) : Option Entry :=
  (s.dir.visible.lookup (entryKey cx k.1 k.2)).filter fun e => e.lease = k

/-- Where a lease stands, given its journal. -/
def Agrees : Option Entry → Life TaskResult → Prop
  | none, l => l = .absent
  | some e, l => ∃ ran sent acked, l = .live ran sent acked ∧
      (e.state = .leased → sent = none ∧ acked = false) ∧
      ∀ r, e.result = some r → sent = none ∨ sent = some r

/-- The history and the visible directory tell the same of every lease. -/
structure Store.Coherent (s : Store) : Prop where
  keyed : ∀ key e, s.dir.visible.lookup key = some e → key = e.key cx
  agrees : ∀ k, ∃ l, life k s.history = some l ∧ Agrees (s.journalOf cx k) l

/-- No journal is visible. -/
def Store.Empty (s : Store) : Prop := ∀ key, s.dir.visible.lookup key = none

/-- Every visible journal is completed. -/
def Store.AllDone (s : Store) : Prop :=
  ∀ key e, s.dir.visible.lookup key = some e → e.state = .completed

variable {cx} {s : Store} {k : Lease}

variable {e : Entry} {es rest : List Entry} {r : TaskResult} {s' : Store} {sent : Option TaskResult}

theorem Store.journalOf_eq_some :
    s.journalOf cx k = some e ↔
      s.dir.visible.lookup (entryKey cx k.1 k.2) = some e ∧ e.lease = k := by
  simp [Store.journalOf, filter_eq_some_iff]

theorem Store.journalOf_lease (h : s.dir.visible.lookup (e.key cx) = some e) :
    s.journalOf cx e.lease = some e :=
  Store.journalOf_eq_some.mpr ⟨h, rfl⟩

theorem Store.Empty.journalOf (h : s.Empty) (k : Lease) : s.journalOf cx k = none := by
  simp [Store.journalOf, h (entryKey cx k.1 k.2)]

theorem Store.Coherent.congr (h : s.Coherent cx) (hdir : s'.dir.visible = s.dir.visible)
    (hhist : s'.history = s.history) : s'.Coherent cx := by
  refine ⟨by rw [hdir]; exact h.keyed, fun k => ?_⟩
  have hj : s'.journalOf cx k = s.journalOf cx k := by simp only [Store.journalOf, hdir]
  rw [hj, hhist]
  exact h.agrees k

/-- An event about one lease, with the directory as it is: it is nothing to a lease without a
journal, and one that has a journal has to take it. -/
theorem Store.Coherent.record (h : s.Coherent cx) {e : Event}
    (hnone : Life.next e.lease .absent e = some .absent)
    (hsome : ∀ j l, s.journalOf cx e.lease = some j → life e.lease s.history = some l →
      Agrees (some j) l → ∃ l', Life.next e.lease l e = some l' ∧ Agrees (some j) l') :
    (s.record e).Coherent cx := by
  refine ⟨h.keyed, fun k => ?_⟩
  obtain ⟨l, hl, hag⟩ := h.agrees k
  have hlife : life k (s.record e).history = Life.next k l e := by
    rw [Store.record, life_snoc, hl]
    rfl
  rw [hlife]
  by_cases hk : e.lease = k
  · subst hk
    change ∃ l', _ ∧ Agrees (s.journalOf cx e.lease) l'
    cases hj : s.journalOf cx e.lease with
    | none =>
      rw [hj] at hag
      obtain rfl : l = .absent := hag
      exact ⟨.absent, hnone, rfl⟩
    | some j => exact hsome j l hj hl (hj ▸ hag)
  · exact ⟨l, next_of_ne hk, hag⟩

theorem Store.Coherent.uploaded (h : s.Coherent cx)
    (hj : ∀ e, s.journalOf cx k = some e → e.state = .completed ∧ e.result = some r) :
    (s.record (.uploaded k r)).Coherent cx := by
  refine h.record (e := .uploaded k r) (by simp [Life.next]) fun e l hjk _ hag => ?_
  obtain ⟨hst, hres⟩ := hj e hjk
  obtain ⟨ran, sent, acked, rfl, -, hsent⟩ := hag
  refine ⟨.live ran (some r) acked, ?_, ran, some r, acked, rfl, fun hc => ?_, fun r' hr' => ?_⟩
  · rcases hsent r hres with rfl | rfl <;> simp [Life.next, Event.lease]
  · rw [hst] at hc
    cases hc
  · rw [hres] at hr'
    exact .inr hr'

theorem Store.Coherent.acked (h : s.Coherent cx)
    (hj : ∀ e, s.journalOf cx k = some e → e.state = .completed) :
    (s.record (.acked k r)).Coherent cx ∧
      ∀ e, s.journalOf cx k = some e →
        ∃ ran sent, life k (s.record (.acked k r)).history = some (.live ran sent true) := by
  refine ⟨h.record (e := .acked k r) (by simp [Life.next]) fun e l hjk _ hag => ?_, fun e he => ?_⟩
  · obtain ⟨ran, sent, acked, rfl, -, hsent⟩ := hag
    refine ⟨.live ran sent true, by simp [Life.next, Event.lease], ran, sent, true, rfl,
      fun hc => ?_, hsent⟩
    rw [hj e hjk] at hc
    cases hc
  · obtain ⟨l, hl, hag⟩ := h.agrees k
    rw [he] at hag
    obtain ⟨ran, sent, acked, rfl, -⟩ := hag
    exact ⟨ran, sent, by simp [Store.record, life_snoc, hl, Life.next]⟩

theorem Store.Coherent.ran (h : s.Coherent cx) {durable onDisk : Bool} (hdisk : durable → onDisk)
    (hfresh : ∀ e, s.journalOf cx k = some e → life k s.history = some (.live false none false)) :
    (s.record (.ran k durable onDisk)).Coherent cx := by
  have hblind : (durable && !onDisk) = false := by
    cases durable <;> simp_all
  refine h.record (e := .ran k durable onDisk) (by simp [Life.next, hblind])
    fun e l hjk hl hag => ?_
  obtain rfl := Option.some.inj ((hfresh e hjk).symm.trans hl)
  exact ⟨.live true none false, by simp [Life.next, Event.lease, hblind], true, none, false, rfl,
    fun _ => ⟨rfl, rfl⟩, fun _ _ => .inl rfl⟩

/-! ### Changes of the directory -/

theorem journalOf_put_self : (s.put (e.key cx) e).journalOf cx e.lease = some e := by
  rw [Store.journalOf_eq_some]
  exact ⟨lookup_insert _, rfl⟩

theorem journalOf_put_ne (hk : e.lease ≠ k)
    (hold : ∀ e', s.dir.visible.lookup (e.key cx) = some e' → e'.lease ≠ k) :
    (s.put (e.key cx) e).journalOf cx k = s.journalOf cx k := by
  unfold Store.journalOf Store.put
  simp only [Synced.write_visible]
  by_cases hkey : entryKey cx k.1 k.2 = e.key cx
  · rw [hkey, lookup_insert]
    cases hl : s.dir.visible.lookup (e.key cx) with
    | none => simp [Option.filter, hk]
    | some e' => simp [Option.filter, hk, hold e' hl]
  · rw [lookup_insert_ne hkey]

theorem keyed_put (h : s.Coherent cx) (e : Entry) :
    ∀ key e', (s.put (e.key cx) e).dir.visible.lookup key = some e' → key = e'.key cx := by
  intro key e' hl
  simp only [Store.put, Synced.write_visible] at hl
  by_cases hkey : key = e.key cx
  · rw [hkey, lookup_insert] at hl
    rw [hkey, Option.some.inj hl]
  · rw [lookup_insert_ne hkey] at hl
    exact h.keyed key e' hl

theorem Store.Coherent.link (h : s.Coherent cx) (hres : e.result = none)
    (hfree : s.dir.visible.lookup (e.key cx) = none) :
    ((s.put (e.key cx) e).record (.journaled e.lease)).Coherent cx ∧
      life e.lease ((s.put (e.key cx) e).record (.journaled e.lease)).history =
        some (.live false none false) := by
  have habsent : life e.lease s.history = some .absent := by
    obtain ⟨l, hl, hag⟩ := h.agrees e.lease
    have hnone : s.journalOf cx e.lease = none := by
      have : s.dir.visible.lookup (entryKey cx e.lease.1 e.lease.2) = none := hfree
      simp [Store.journalOf, this]
    rw [hnone] at hag
    rw [hl, show l = .absent from hag]
  have hlive : life e.lease (s.history ++ [.journaled e.lease]) =
      some (.live false none false) := by
    rw [life_snoc, habsent]
    simp [Life.next]
  refine ⟨⟨keyed_put h e, fun k => ?_⟩, hlive⟩
  by_cases hk : e.lease = k
  · subst hk
    refine ⟨_, hlive, ?_⟩
    rw [show ((s.put (e.key cx) e).record (.journaled e.lease)).journalOf cx e.lease = some e from
      journalOf_put_self]
    exact ⟨false, none, false, rfl, fun _ => ⟨rfl, rfl⟩, fun r hr => by simp [hres] at hr⟩
  · obtain ⟨l, hl, hag⟩ := h.agrees k
    refine ⟨l, ?_, ?_⟩
    · show life k (s.history ++ [.journaled e.lease]) = some l
      rw [life_snoc, hl]
      exact next_of_ne (e := .journaled e.lease) hk
    · rw [show ((s.put (e.key cx) e).record (.journaled e.lease)).journalOf cx k = _ from
        journalOf_put_ne hk (fun e' he' => by rw [hfree] at he'; cases he')]
      exact hag

theorem Store.Coherent.complete (h : s.Coherent cx) (hleased : e.state = .leased)
    (hl : s.dir.visible.lookup (e.key cx) = some e) (r : TaskResult) (now : Time) :
    (s.put (e.key cx) (e.complete r now)).Coherent cx := by
  have hkey : (e.complete r now).key cx = e.key cx := rfl
  have hlease : (e.complete r now).lease = e.lease := rfl
  rw [← hkey]
  refine ⟨keyed_put h _, fun k => ?_⟩
  obtain ⟨l, hlife, hag⟩ := h.agrees k
  refine ⟨l, hlife, ?_⟩
  by_cases hk : e.lease = k
  · subst hk
    rw [← hlease, journalOf_put_self]
    rw [Store.journalOf_lease hl] at hag
    obtain ⟨ran, sent, acked, rfl, hs, -⟩ := hag
    obtain ⟨rfl, rfl⟩ := hs hleased
    exact ⟨ran, none, false, rfl, fun _ => ⟨rfl, rfl⟩, fun _ _ => .inl rfl⟩
  · rw [journalOf_put_ne (by rw [hlease]; exact hk)
      (fun e' he' => by rw [hkey, hl] at he'; rwa [← Option.some.inj he'])]
    exact hag

theorem Store.Coherent.unlink (h : s.Coherent cx) (hl : s.dir.visible.lookup (e.key cx) = some e)
    {ran : Bool} (hlife : life e.lease s.history = some (.live ran sent true)) :
    ((s.unlink (e.key cx)).record (.removed e.lease)).Coherent cx := by
  refine ⟨fun key e' he' => ?_, fun k => ?_⟩
  · by_cases hkey : key = e.key cx
    · rw [hkey] at he'
      simp [Store.unlink, Store.record] at he'
    · refine h.keyed key e' ?_
      simpa [Store.unlink, Store.record, lookup_erase_ne hkey] using he'
  · by_cases hk : e.lease = k
    · subst hk
      refine ⟨.absent, ?_, ?_⟩
      · show life e.lease (s.history ++ [.removed e.lease]) = _
        rw [life_snoc, hlife]
        simp [Life.next]
      · have hgone : ((s.unlink (e.key cx)).record (.removed e.lease)).dir.visible.lookup
            (entryKey cx e.lease.1 e.lease.2) = none := lookup_erase _ _
        simp [Store.journalOf, hgone, Agrees]
    · obtain ⟨l, hl', hag⟩ := h.agrees k
      refine ⟨l, ?_, ?_⟩
      · show life k (s.history ++ [.removed e.lease]) = some l
        rw [life_snoc, hl']
        exact next_of_ne (e := .removed e.lease) hk
      · have hsame : ((s.unlink (e.key cx)).record (.removed e.lease)).journalOf cx k =
            s.journalOf cx k := by
          unfold Store.journalOf
          by_cases hkey : entryKey cx k.1 k.2 = e.key cx
          · have hgone : ((s.unlink (e.key cx)).record (.removed e.lease)).dir.visible.lookup
                (e.key cx) = none := lookup_erase _ _
            rw [hkey, hgone, hl]
            simp [Option.filter, hk]
          · have hkept : ((s.unlink (e.key cx)).record (.removed e.lease)).dir.visible.lookup
                (entryKey cx k.1 k.2) = s.dir.visible.lookup (entryKey cx k.1 k.2) :=
              lookup_erase_ne hkey
            rw [hkept]
        rw [hsame]
        exact hag

/-! ### Writing -/

variable {A : Choice → Prop}

theorem syncWritten_visible :
    wp A syncWritten (fun w s' => w.committed = true ∧ s'.dir.visible = s.dir.visible ∧
        s'.history = s.history ∧ (w.err = none → s'.dir.durable = s'.dir.visible))
      (fun _ _ => False) (fun s' => s' = s) s :=
  wp_bind (wp_confirmStep rfl
    (fun _ => wp_pure ⟨rfl, rfl, rfl, fun hc => absurd hc (some_ne_none _)⟩)
    (wp_pure ⟨rfl, rfl, rfl, fun _ => rfl⟩))

/-- What a write reports is what it did: an error and nothing published, or published. -/
structure Written.Reports (w : Written) (unchanged published : Prop) : Prop where
  no : w.committed = false → w.err ≠ none ∧ unchanged
  yes : w.committed = true → published

theorem Written.Reports.refused {err : String} {P Q : Prop} (h : P) :
    Written.Reports ⟨false, some err⟩ P Q :=
  ⟨fun _ => ⟨some_ne_none err, h⟩, fun hc => Bool.noConfusion hc⟩

theorem Written.Reports.published {w : Written} {P Q : Prop} (hw : w.committed) (h : Q) :
    w.Reports P Q :=
  ⟨fun hc => absurd (hw.symm.trans hc) (by simp), fun _ => h⟩

/-- Journaling a new lease: either nothing happened, with an error, or it is on disk and
waits for its run. -/
theorem writeNew_coherent (h : s.Coherent cx) (hres : e.result = none) :
    wp A (writeNew cx (e.key cx) e)
      (fun w s' => s'.Coherent cx ∧ w.Reports (s'.dir.visible = s.dir.visible)
        (life e.lease s'.history = some (.live false none false) ∧
          s'.dir.visible = s.dir.visible.insert (e.key cx) e ∧
          (w.err = none → s'.dir.durable = s'.dir.visible)))
      (fun _ _ => False) (Store.Coherent cx) s := by
  unfold writeNew
  split_ifs
  · exact wp_pure ⟨h, .refused rfl⟩
  refine wp_bind (wp_attempt (wp_access h (fun _ => wp_pure ⟨h, .refused rfl⟩) ?_))
  refine wp_bind (wp_attempt (wp_access h (fun _ => wp_pure ⟨h, .refused rfl⟩) ?_))
  split_ifs with hex
  · exact wp_pure ⟨h, .refused rfl⟩
  · obtain ⟨hco, hlife⟩ := h.link hres (by simpa using hex)
    refine wp_bind (wp_confirmStep hco (fun _ => ?_) ?_)
    · exact wp_pure ⟨hco.congr rfl rfl, .published rfl
        ⟨hlife, rfl, fun hc => absurd hc (some_ne_none _)⟩⟩
    · refine wp_mono syncWritten_visible (fun w s' hw => ?_) (fun _ _ he => he)
        fun s' hs' => hs' ▸ hco
      obtain ⟨hcom, hvis, hhist, hdur⟩ := hw
      exact ⟨hco.congr hvis hhist, .published hcom ⟨hhist ▸ hlife, hvis, hdur⟩⟩

theorem write_coherent (h : s.Coherent cx) (hleased : e.state = .leased)
    (hl : s.dir.visible.lookup (e.key cx) = some e) (r : TaskResult) (now : Time) :
    wp A (write cx (e.key cx) (e.complete r now))
      (fun w s' => s'.Coherent cx ∧ w.Reports (s'.dir.visible = s.dir.visible)
        (s'.dir.visible = s.dir.visible.insert (e.key cx) (e.complete r now)))
      (fun _ _ => False) (Store.Coherent cx) s := by
  have hco := h.complete hleased hl r now
  unfold write
  split_ifs
  · exact wp_pure ⟨h, .refused rfl⟩
  refine wp_bind (wp_attempt (wp_access h (fun _ => wp_pure ⟨h, .refused rfl⟩) ?_))
  refine wp_bind (wp_attempt (wp_access h (fun _ => wp_pure ⟨h, .refused rfl⟩) ?_))
  refine wp_mono syncWritten_visible (fun w s' hw => ?_) (fun _ _ he => he) fun s' hs' => hs' ▸ hco
  obtain ⟨hcom, hvis, hhist, -⟩ := hw
  exact ⟨hco.congr hvis hhist, .published hcom hvis⟩

/-! ### The calls -/

variable (cx) in
/-- One journal is visible, and no other. -/
def Store.Only (e : Entry) (s : Store) : Prop :=
  ∀ key, s.dir.visible.lookup key = if key = e.key cx then some e else none

theorem redelivered_nil (task : Task) (protocol : String) :
    redelivered cx task protocol [] = none := rfl

theorem Store.Empty.of_visible (h : s.Empty) (hv : s'.dir.visible = s.dir.visible) : s'.Empty := by
  intro key
  rw [hv]
  exact h key

theorem Store.Empty.checkAll (h : s.Empty) (hes : checkAll cx s.dir.visible = .ok es) :
    es = [] := by
  rw [eq_nil_iff_forall_not_mem]
  intro e he
  have hl := ((mem_checkAll hes).1 e he).1
  rw [h] at hl
  cases hl

/-- **`Begin` over an empty outbox.**  Without an error the lease is journaled, alone and
durably, and waits for its run; where it is not published, nothing is. -/
theorem begin_coherent (h : s.Coherent cx) (hempty : s.Empty) (task : Task) (protocol : String) :
    wp A (begin cx task protocol)
      (fun w s' => s'.Coherent cx ∧ w.Reports s'.Empty
        (∃ e, e.lease = (task.id, task.leaseID) ∧ e.state = .leased ∧ Store.Only cx e s' ∧
          life e.lease s'.history = some (.live false none false) ∧
          (w.err = none → s'.dir.durable = s'.dir.visible)))
      (fun _ _ => False) (Store.Coherent cx) s := by
  unfold begin
  split_ifs
  · exact wp_pure ⟨h, .refused hempty⟩
  refine wp_bind (wp_attempt (wp_read h (fun _ => wp_pure ⟨h, .refused hempty⟩)
    fun entries hes => ?_))
  obtain rfl := hempty.checkAll hes
  simp only [redelivered_nil]
  split_ifs
  · exact wp_pure ⟨h, .refused hempty⟩
  refine wp_bind (wp_timeNow h fun now => ?_)
  refine wp_weaken (writeNew_coherent h (e := leasedEntry task protocol now) rfl)
    (fun w s' hw => ?_)
  obtain ⟨hco, hrep⟩ := hw
  refine ⟨hco, fun hc => ⟨(hrep.no hc).1, hempty.of_visible (hrep.no hc).2⟩, fun hc => ?_⟩
  obtain ⟨hlife, hvis, hdur⟩ := hrep.yes hc
  refine ⟨leasedEntry task protocol now, rfl, rfl, fun key => ?_, hlife, hdur⟩
  rw [hvis]
  split_ifs with hkey
  · rw [hkey, lookup_insert]
  · rw [lookup_insert_ne hkey]
    exact hempty key

/-- **`Complete`.**  Without an error the journal of the result is there and completed, and
no other has changed. -/
theorem complete_coherent (h : s.Coherent cx) (r : TaskResult) :
    wp A (complete cx r)
      (fun w s' => s'.Coherent cx ∧ (w.err = none →
        (∃ e, s.dir.visible.lookup (entryKey cx r.taskID r.leaseID) = some e) ∧
        ∀ key e, s'.dir.visible.lookup key = some e → e.state = .completed ∨
          (key ≠ entryKey cx r.taskID r.leaseID ∧ s.dir.visible.lookup key = some e)))
      (fun _ _ => False) (Store.Coherent cx) s := by
  have herr : ∀ {err : String} {P : Prop}, (⟨false, some err⟩ : Written).err = none → P :=
    fun hc => absurd hc (some_ne_none _)
  unfold complete
  refine wp_bind (wp_attempt (wp_read h (fun _ => wp_pure ⟨h, herr⟩) fun e he => ?_))
  obtain ⟨hl, hv⟩ := readFile_ok he
  dsimp only
  split_ifs with hsame hst hids
  · refine wp_pure ⟨h, fun _ => ⟨⟨e, hl⟩, fun key e' he' => ?_⟩⟩
    by_cases hkey : key = entryKey cx r.taskID r.leaseID
    · rw [hkey, hl] at he'
      rw [← Option.some.inj he']
      exact .inl hsame.1
    · exact .inr ⟨hkey, he'⟩
  · exact wp_pure ⟨h, herr⟩
  · exact wp_pure ⟨h, herr⟩
  · refine wp_bind (wp_timeNow h fun now => ?_)
    rw [hv.key_eq] at hl ⊢
    refine wp_weaken (write_coherent h (not_not.mp hst) hl r now) (fun w s' hw => ?_)
    obtain ⟨hco, hrep⟩ := hw
    refine ⟨hco, fun hok => ⟨⟨e, hl⟩, fun key e' he' => ?_⟩⟩
    cases hcom : w.committed with
    | false => exact absurd hok (hrep.no hcom).1
    | true =>
      rw [hrep.yes hcom] at he'
      by_cases hkey : key = e.key cx
      · rw [hkey, lookup_insert] at he'
        rw [← Option.some.inj he']
        exact .inl rfl
      · rw [lookup_insert_ne hkey] at he'
        exact .inr ⟨hkey, he'⟩

/-! ### Loops over the entries -/

/-- The entries a loop has still to visit are on disk, each under a name of its own. -/
structure Store.Visits (cx : Codec) (s : Store) (rest : List Entry) : Prop where
  lookup : ∀ e ∈ rest, s.dir.visible.lookup (e.key cx) = some e
  nodup : (rest.map (Entry.key cx)).Nodup

theorem Store.Visits.tail (h : s.Visits cx (e :: rest)) :
    s.Visits cx rest :=
  ⟨fun e' he' => h.lookup e' (mem_cons_of_mem _ he'), (nodup_cons.mp h.nodup).2⟩

theorem Store.Visits.frame (h : s.Visits cx (e :: rest))
    (hs' : ∀ key, key ≠ e.key cx → s'.dir.visible.lookup key = s.dir.visible.lookup key) :
    s'.Visits cx rest := by
  refine ⟨fun e' he' => ?_, h.tail.nodup⟩
  have hne : e'.key cx ≠ e.key cx := by
    intro heq
    exact (nodup_cons.mp h.nodup).1 (heq ▸ mem_map_of_mem he')
  rw [hs' _ hne]
  exact h.tail.lookup e' he'

theorem checkAll_visits (hes : checkAll cx s.dir.visible = .ok es) : s.Visits cx es := by
  refine ⟨fun e he => ((mem_checkAll hes).1 e he).1, ?_⟩
  unfold checkAll at hes
  obtain ⟨es', hes', h⟩ := bind_eq_ok.mp hes
  obtain ⟨-, h⟩ := refuse_bind_eq_ok.mp h
  cases h
  rw [map_of_mapM_eq_ok hes' fun key e he => (readFile_ok he).2.key_eq.symm]
  refine List.Nodup.sublist (take_sublist _ _) ?_
  rw [(perm_insertionSort _ _).nodup_iff]
  exact s.dir.visible.nodupKeys

/-- The entries that are not to come are completed. -/
def Store.DoneBut (s : Store) (rest : List Entry) : Prop :=
  ∀ key e, s.dir.visible.lookup key = some e → e.state = .completed ∨ e ∈ rest

section

variable (h : s.Coherent cx)

include h

theorem recoverEntry_coherent (hv : s.Visits cx (e :: rest)) (hd : s.DoneBut (e :: rest))
    (nodeID : String) :
    Leaves A (recoverEntry cx nodeID e)
      (fun _ s' => s'.Coherent cx ∧ s'.Visits cx rest ∧ s'.DoneBut rest) (Store.Coherent cx) s := by
  have hl := hv.lookup e mem_cons_self
  unfold recoverEntry
  split_ifs with hst hproto
  · refine wp_ret ⟨h, hv.tail, fun key e' he' => ?_⟩
    rcases hd key e' he' with hdone | hmem
    · exact .inl hdone
    · rcases mem_cons.mp hmem with rfl | hmem
      · cases hs : e'.state with
        | leased => exact absurd hs hst
        | completed => exact .inl rfl
      · exact .inr hmem
  · exact wp_fail h
  refine wp_bind (wp_timeNow h fun now => ?_)
  refine wp_seq (write_coherent h (not_not.mp hst) hl (unknownOutcome e nodeID now) now)
    (fun w s' hw => ?_) (fun _ _ he => he.elim) fun _ hc => hc
  obtain ⟨hco, hrep⟩ := hw
  -- once it is published the entry is completed, whatever becomes of its sync
  have hpub : ∀ {x : Store}, x.dir.visible = s'.dir.visible → w.committed = true →
      x.Visits cx rest ∧ x.DoneBut rest := by
    intro x hx hc
    rw [hrep.yes hc] at hx
    refine ⟨hv.frame fun key hkey => by rw [hx, lookup_insert_ne hkey], fun key e' he' => ?_⟩
    rw [hx] at he'
    by_cases hkey : key = e.key cx
    · rw [hkey, lookup_insert] at he'
      rw [← Option.some.inj he']
      exact .inl rfl
    · rw [lookup_insert_ne hkey] at he'
      refine (hd key e' he').imp_right fun hmem => (mem_cons.mp hmem).resolve_left ?_
      rintro rfl
      exact hkey (h.keyed key e' he')
  cases herr : w.err with
  | none =>
    cases hc : w.committed with
    | false => exact absurd herr (hrep.no hc).1
    | true => exact wp_ret ⟨hco, hpub rfl hc⟩
  | some err =>
    cases hc : w.committed with
    | false => exact wp_fail hco
    | true =>
      refine wp_bind (wp_attempt (wp_step hco fun c _ => ?_))
      cases hs : c.sync with
      | some e => exact wp_fail hco
      | none => exact wp_ret ⟨hco.congr rfl rfl, hpub rfl hc⟩

/-- **`RecoverInterrupted`.**  Without an error every journal is completed. -/
theorem recoverInterrupted_coherent (nodeID : String) :
    Leaves A (recoverInterrupted cx nodeID) (fun _ s' => s'.Coherent cx ∧ s'.AllDone)
      (Store.Coherent cx) s := by
  unfold recoverInterrupted
  refine wp_bind (wp_attempt (wp_step h fun c _ => ?_))
  cases hs : c.sync with
  | some e => exact wp_fail h
  | none =>
    have h' : Store.Coherent cx { s with dir := s.dir.sync, durabilityUnconfirmed := false } :=
      h.congr rfl rfl
    refine wp_bind (wp_read h' (fun _ => h') fun es hes => ?_)
    refine wp_weaken (wp_forEach (fun rest s' => s'.Coherent cx ∧ s'.Visits cx rest ∧
      s'.DoneBut rest) ⟨h', checkAll_visits hes, fun key e he => ?_⟩ fun e rest s' hI => ?_)
      (fun _ s' hI => ⟨hI.1, fun key e he => ?_⟩)
    · exact .inr ((mem_checkAll hes).2 key e he)
    · exact recoverEntry_coherent hI.1 hI.2.1 hI.2.2 nodeID
    · exact (hI.2.2 key e he).resolve_right (by simp)

/-- **`Pending`.**  It returns every completed journal, each once and as it is on disk. -/
theorem pending_coherent :
    wp A (pending cx)
      (fun es s' => s' = s ∧ s.Visits cx es ∧
        (∀ e ∈ es, e.state = .completed ∧ ∃ r, e.result = some r ∧
          (r.taskID, r.leaseID) = e.lease) ∧
        ∀ key e, s.dir.visible.lookup key = some e → e.state = .completed → e ∈ es)
      (fun _ s' => s' = s) (Store.Coherent cx) s := by
  refine wp_bind (wp_get ?_)
  split_ifs
  · exact wp_fail rfl
  refine wp_bind (wp_read h (fun _ => rfl) fun es hes => wp_pure ⟨rfl, ?_, fun e he => ?_, ?_⟩)
  · have hv := checkAll_visits hes
    refine ⟨fun e he => ?_, ?_⟩
    · rw [completedEntries, mem_insertionSort] at he
      exact hv.lookup e (mem_of_mem_filter he)
    · refine ((perm_insertionSort _ _).map _).nodup_iff.mpr ?_
      exact hv.nodup.sublist (filter_sublist.map _)
  · rw [completedEntries, mem_insertionSort, mem_filter] at he
    have hst : e.state = .completed := by simpa using (Bool.and_eq_true_iff.mp he.2).1
    obtain ⟨r, hr, hid, hlease⟩ := ((mem_checkAll hes).1 e he.1).2.completed hst
    exact ⟨hst, r, hr, by rw [hid, hlease]; rfl⟩
  · intro key e hl hst
    have hmem := (mem_checkAll hes).2 key e hl
    obtain ⟨r, hr, -⟩ := ((mem_checkAll hes).1 e hmem).2.completed hst
    rw [completedEntries, mem_insertionSort, mem_filter]
    exact ⟨hmem, by simp [hst, hr]⟩

theorem confirmDurability_coherent :
    Leaves A confirmDurability
      (fun _ s' => s'.Coherent cx ∧ s'.dir.visible = s.dir.visible) (Store.Coherent cx) s := by
  refine wp_step h fun c _ => ?_
  cases hs : c.sync with
  | some e => exact h
  | none => exact ⟨h.congr rfl rfl, rfl⟩

/-- **`Open`** changes nothing a lease depends on. -/
theorem openStore_coherent :
    Leaves A (openStore cx) (fun _ => Store.Coherent cx) (Store.Coherent cx) s := by
  have h' : Store.Coherent cx { s with durabilityUnconfirmed := false } := h.congr rfl rfl
  refine wp_bind (wp_access h (fun _ => h) ?_)
  refine wp_bind (wp_bind (wp_step h' fun c _ => ?_))
  cases hr : c.read with
  | some e => exact h'
  | none =>
    simp only [outcome_ok]
    split_ifs
    · have hs : Store.Coherent cx { s with dir := s.dir.sync, durabilityUnconfirmed := false } :=
        h'.congr rfl rfl
      exact wp_access h' (fun _ => h') (wp_bind (wp_read hs (fun _ => hs) fun _ _ => wp_pure hs))
    · exact wp_ret (wp_bind (wp_read h' (fun _ => h') fun _ _ => wp_pure h'))

/-- **`Remove`** of a journal whose upload was acknowledged. -/
theorem remove_coherent (hl : s.dir.visible.lookup (e.key cx) = some e) {ran : Bool}
    (hlife : life e.lease s.history = some (.live ran sent true)) :
    Leaves A (remove cx e)
      (fun _ s' => s'.Coherent cx ∧ s'.dir.visible = s.dir.visible.erase (e.key cx))
      (Store.Coherent cx) s := by
  have hco := h.unlink hl hlife
  unfold remove
  refine wp_bind (wp_access h (fun _ => h) ?_)
  rw [if_pos (by simp [hl])]
  exact wp_bind (wp_confirmStep hco (fun _ => wp_fail (hco.congr rfl rfl))
    (wp_ret ⟨hco.congr rfl rfl, rfl⟩))

end

end coherent
end LatticeAgent.Outbox
