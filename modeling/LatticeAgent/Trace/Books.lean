import LatticeAgent.Trace.Lives

/-! # The assembler's books

The assembler reaches a connection through its map by log id, its list in creation order and its
index by source address, and a connection leaves through a close line, a half close, a vanished
table entry, an orphan sweep, a collision, an eviction or a restart of the core. `Consistent`
says that the three agree, `Counted` that every connection ever created is accounted for once;
`every_connection_accounted` has both after every sequence of calls.

`still_listed_kept_iff` is about the sweep of the connections that left the table, which sees the
table through the index by source address. -/

namespace LatticeAgent.Trace

open List AList

namespace Assembler

section

variable {α : Type} {β : α → Type} [DecidableEq α] {s : AList β} {k : α}

omit [DecidableEq α] in
theorem keys_length (s : AList β) : s.keys.length = s.entries.length := length_map _

theorem erase_length {v : β k} (h : s.lookup k = some v) :
    (s.erase k).entries.length + 1 = s.entries.length := by
  have hk : k ∈ s.keys := AList.mem_keys.mp (lookup_isSome.mp (h ▸ rfl))
  have hpos := length_pos_of_mem hk
  rw [← keys_length, ← keys_length, keys_erase, length_erase_of_mem hk]
  omega

theorem insert_length (v : β k) (h : s.lookup k = none) :
    (s.insert k v).entries.length = s.entries.length + 1 := by
  have hk : k ∉ s.keys := fun hmem => lookup_eq_none.mp h (AList.mem_keys.mpr hmem)
  rw [← keys_length, ← keys_length, keys_insert, length_cons, erase_of_not_mem hk]

end

/-- Every connection ever created is open, has a final record among those pushed, or is counted
as partial or as dropped; and every record pushed is counted as emitted. The counters hold the
numbers modulo their range. -/
structure Counted (drained : List ConnRecord) (a : Assembler) : Prop where
  created : ∃ partials dropped : Nat,
    a.conns.length = a.open_.entries.length +
      ((drained ++ a.out).filter fun rec => !rec.open_).length + partials + dropped ∧
    a.stats.partials = .ofNat partials ∧ a.stats.dropped = .ofNat dropped
  emitted : a.stats.emitted = .ofNat (drained.length + a.out.length)

theorem forget_lookup (a : Assembler) (r : Nat) {id : UInt32} {r' : Nat} :
    (a.forget r).open_.lookup id = some r' ↔
      id ≠ (a.conn r).record.logID ∧ a.open_.lookup id = some r' := by
  unfold forget
  by_cases hid : id = (a.conn r).record.logID
  · subst hid
    simp
  · simp [hid, lookup_erase_ne hid]

namespace Consistent

variable {a a' : Assembler}

section

variable (h : a.Consistent)

include h

theorem transfer (hlen : a'.conns.length = a.conns.length)
    (hid : ∀ r, (a'.conn r).record.logID = (a.conn r).record.logID)
    (hkey : ∀ r, (a'.conn r).srcKey = (a.conn r).srcKey)
    (hip : ∀ r, (a'.conn r).record.srcIP = (a.conn r).record.srcIP)
    (hport : ∀ r, (a'.conn r).record.srcPort = (a.conn r).record.srcPort)
    (hsampled : ∀ r ∈ a.order, (a'.conn r).sampled → (a.conn r).record.srcIP ≠ "")
    (hopen : a'.open_ = a.open_) (horder : a'.order = a.order) (hsrc : a'.bySrc = a.bySrc)
    (hopts : a'.opts = a.opts) : a'.Consistent := by
  refine ⟨?_, ?_, ?_, ?_, ?_, ?_, ?_, ?_, ?_, ?_⟩
  · simpa only [hopen, horder, hid] using h.opened
  · intro r hr
    rw [hopen, hid]
    exact h.found r (horder ▸ hr)
  · simpa only [hopen, horder] using h.size
  · simpa only [horder] using h.order
  · simpa only [horder, hlen] using h.allocated
  · simpa only [hsrc, horder, hkey] using h.bySrc
  · simpa only [horder, hkey, hip, hport] using h.keyed
  · simpa only [horder, hip] using hsampled
  · simpa only [horder, hopts] using h.bound
  · simpa only [hopts] using h.positive

theorem congr (hlen : a'.conns.length = a.conns.length)
    (hconn : ∀ r, (a'.conn r).identity = (a.conn r).identity) (hopen : a'.open_ = a.open_)
    (horder : a'.order = a.order) (hsrc : a'.bySrc = a.bySrc) (hopts : a'.opts = a.opts) :
    a'.Consistent := by
  refine h.transfer hlen (fun r => congrArg (·.1) (hconn r)) (fun r => congrArg (·.2.1) (hconn r))
    (fun r => congrArg (·.2.2.1) (hconn r)) (fun r => congrArg (·.2.2.2.1) (hconn r))
    (fun r hr hs => h.sampled r hr ?_) hopen horder hsrc hopts
  have heq : (a'.conn r).sampled = (a.conn r).sampled := congrArg (·.2.2.2.2) (hconn r)
  rwa [← heq]

theorem modify (r : Nat) (f : Conn → Conn) (hf : ∀ c, (f c).identity = c.identity) :
    (a.modify r f).Consistent := by
  refine h.congr (modify_length a r f) (fun r' => ?_) rfl rfl rfl rfl
  rw [conn_modify]
  split
  · rename_i heq
    rw [hf, heq.1]
  · rfl

theorem logID_inj {r r' : Nat} (hr : r ∈ a.order) (hr' : r' ∈ a.order)
    (heq : (a.conn r').record.logID = (a.conn r).record.logID) : r' = r := by
  have h₁ := h.found r hr
  have h₂ := h.found r' hr'
  rw [heq, h₁] at h₂
  exact (Option.some.inj h₂).symm

theorem forget {r : Nat} (hr : r ∈ a.order) : (a.forget r).Consistent := by
  have hmem {r' : Nat} : r' ∈ (a.forget r).order ↔ r' ≠ r ∧ r' ∈ a.order := h.nodup.mem_erase_iff
  have hsize := erase_length (h.found r hr)
  have hlen := length_erase_of_mem hr
  have hpos := length_pos_of_mem hr
  refine ⟨fun id r' hl => ?_, fun r' hr' => ?_, ?_, h.order.sublist erase_sublist,
    fun r' hr' => h.allocated r' (hmem.mp hr').2, fun key r' hl => ?_,
    fun r' hr' => h.keyed r' (hmem.mp hr').2, fun r' hr' => h.sampled r' (hmem.mp hr').2, ?_,
    h.positive⟩
  · obtain ⟨hne, hl⟩ := (forget_lookup a r).mp hl
    obtain ⟨hr', hid⟩ := h.opened id r' hl
    refine ⟨hmem.mpr ⟨?_, hr'⟩, hid⟩
    rintro rfl
    exact hne hid.symm
  · obtain ⟨hne, hr'⟩ := hmem.mp hr'
    exact (forget_lookup a r).mpr ⟨fun heq => hne (h.logID_inj hr hr' heq), h.found r' hr'⟩
  · change (a.open_.erase _).entries.length = (a.order.erase r).length
    have := h.size
    omega
  · -- The key that led to the connection is gone with it.
    change (if _ then a.bySrc.erase (a.conn r).srcKey else a.bySrc).lookup key = some r' at hl
    split at hl
    · rename_i hkey
      have hne : key ≠ (a.conn r).srcKey := by
        rintro rfl
        rw [lookup_erase] at hl
        cases hl
      rw [lookup_erase_ne hne] at hl
      obtain ⟨hr', hk, hempty⟩ := h.bySrc key r' hl
      refine ⟨hmem.mpr ⟨?_, hr'⟩, hk, hempty⟩
      rintro rfl
      exact hne hk.symm
    · rename_i hkey
      obtain ⟨hr', hk, hempty⟩ := h.bySrc key r' hl
      refine ⟨hmem.mpr ⟨?_, hr'⟩, hk, hempty⟩
      rintro rfl
      exact hkey ⟨hk ▸ hempty, hk ▸ hl⟩
  · have hbound := h.bound
    change ((a.order.erase r).length : Int) ≤ a.opts.maxOpen
    omega

theorem born {c : Conn} (hfree : a.open_.lookup c.record.logID = none)
    (hroom : (a.order.length : Int) < a.opts.maxOpen)
    (hkeyed : c.srcKey = srcKey c.record.srcIP (toString c.record.srcPort))
    (hsampled : c.sampled = false) (hconns : a'.conns = a.conns ++ [c])
    (hopen : a'.open_ = a.open_.insert c.record.logID a.conns.length)
    (horder : a'.order = a.order ++ [a.conns.length])
    (hsrc : ∀ key r, a'.bySrc.lookup key = some r →
      a.bySrc.lookup key = some r ∨ (r = a.conns.length ∧ key = c.srcKey ∧ key ≠ ""))
    (hopts : a'.opts = a.opts) : a'.Consistent := by
  have hold (r : Nat) (hr : r ∈ a.order) : a'.conn r = a.conn r := by
    simp [conn, hconns, getD_eq_getElem?_getD, getElem?_append_left (h.allocated r hr)]
  have hnew : a'.conn a.conns.length = c := by
    simp [conn, hconns, getD_eq_getElem?_getD]
  have hmem {r : Nat} : r ∈ a'.order ↔ r ∈ a.order ∨ r = a.conns.length := by simp [horder]
  refine ⟨fun id r hl => ?_, fun r hr => ?_, ?_, ?_, fun r hr => ?_, fun key r hl => ?_,
    fun r hr => ?_, fun r hr => ?_, ?_, hopts ▸ h.positive⟩
  · rw [hopen] at hl
    by_cases hid : id = c.record.logID
    · subst hid
      have heq : r = a.conns.length := by simpa [eq_comm] using hl
      rw [heq, hnew]
      exact ⟨hmem.mpr (.inr rfl), rfl⟩
    · rw [lookup_insert_ne hid] at hl
      obtain ⟨hr, hlog⟩ := h.opened id r hl
      exact ⟨hmem.mpr (.inl hr), by rw [hold r hr, hlog]⟩
  · rw [hopen]
    obtain hr | rfl := hmem.mp hr
    · rw [hold r hr]
      have hne : (a.conn r).record.logID ≠ c.record.logID := by
        intro heq
        have hfound := h.found r hr
        rw [heq, hfree] at hfound
        cases hfound
      exact (lookup_insert_ne hne).trans (h.found r hr)
    · rw [hnew]
      exact lookup_insert _
  · rw [hopen, horder, insert_length _ hfree, h.size, length_append, length_singleton]
  · rw [horder]
    refine pairwise_append.mpr ⟨h.order, pairwise_singleton _ _, fun r hr r' hr' => ?_⟩
    rw [mem_singleton.mp hr']
    exact h.allocated r hr
  · rw [hconns, length_append, length_singleton]
    obtain hr | rfl := hmem.mp hr
    · have := h.allocated r hr
      omega
    · omega
  · obtain hl | ⟨rfl, hk, hempty⟩ := hsrc key r hl
    · obtain ⟨hr, hk, hempty⟩ := h.bySrc key r hl
      exact ⟨hmem.mpr (.inl hr), by rw [hold r hr, hk], hempty⟩
    · exact ⟨hmem.mpr (.inr rfl), by rw [hnew, hk], hempty⟩
  · obtain hr | rfl := hmem.mp hr
    · rw [hold r hr]
      exact h.keyed r hr
    · rw [hnew, hkeyed]
  · obtain hr | rfl := hmem.mp hr
    · rw [hold r hr]
      exact h.sampled r hr
    · rw [hnew, hsampled]
      exact fun hs => absurd hs Bool.false_ne_true
  · rw [horder, hopts, length_append, length_singleton]
    omega

theorem listed {key : String} {r : Nat} (hl : a.bySrc.lookup key = some r) (f : Conn → Conn)
    (hid : ∀ c, (f c).record.logID = c.record.logID) (hkey : ∀ c, (f c).srcKey = c.srcKey)
    (hip : ∀ c, (f c).record.srcIP = c.record.srcIP)
    (hport : ∀ c, (f c).record.srcPort = c.record.srcPort) : (a.modify r f).Consistent := by
  have hfield {α : Type} (field : Conn → α) (hf : ∀ c, field (f c) = field c) (r' : Nat) :
      field ((a.modify r f).conn r') = field (a.conn r') := by
    rw [conn_modify]
    split
    · rename_i heq
      rw [hf, heq.1]
    · rfl
  refine h.transfer (modify_length a r f) (hfield (·.record.logID) hid) (hfield (·.srcKey) hkey)
    (hfield (·.record.srcIP) hip) (hfield (·.record.srcPort) hport) (fun r' hr' hs => ?_) rfl rfl rfl
    rfl
  by_cases heq : r' = r
  · obtain ⟨hr, hk, hempty⟩ := h.bySrc key r hl
    rw [heq]
    intro hnone
    have hkeyed := h.keyed r hr
    rw [hk, hnone] at hkeyed
    exact hempty hkeyed
  · rw [conn_modify, if_neg fun hc => heq hc.1] at hs
    exact h.sampled r' hr' hs

end

end Consistent

/-! ### The counts -/

namespace Counted

variable {drained : List ConnRecord} {a a' : Assembler}

theorem congr (h : Counted drained a) (hlen : a'.conns.length = a.conns.length)
    (hopen : a'.open_ = a.open_) (hout : a'.out = a.out) (hpartials : a'.stats.partials =
      a.stats.partials) (hdropped : a'.stats.dropped = a.stats.dropped)
    (hemitted : a'.stats.emitted = a.stats.emitted) : Counted drained a' := by
  refine ⟨?_, ?_⟩
  · simpa only [hlen, hopen, hout, hpartials, hdropped] using h.created
  · simpa only [hout, hemitted] using h.emitted

theorem ofNat_succ (n : Nat) : UInt64.ofNat n + 1 = .ofNat (n + 1) := (UInt64.ofNat_add n 1).symm

theorem began (h : Counted drained a) (hlen : a'.conns.length = a.conns.length + 1)
    (hopen : a'.open_.entries.length = a.open_.entries.length + 1) (hout : a'.out = a.out)
    (hstats : a'.stats = a.stats) : Counted drained a' := by
  obtain ⟨⟨partials, dropped, hcreated, hp, hd⟩, hemitted⟩ := h
  refine ⟨⟨partials, dropped, ?_, hstats ▸ hp, hstats ▸ hd⟩, ?_⟩
  · rw [hlen, hopen, hout]
    omega
  · rw [hstats, hout]
    exact hemitted

section

variable (h : Counted drained a) (hlen : a'.conns.length = a.conns.length)
  (hopen : a'.open_.entries.length + 1 = a.open_.entries.length) (hout : a'.out = a.out)

include h hlen hopen hout

/-- A connection leaves without a record, as partial or as dropped. -/
theorem shed {m n : Nat} (hone : m + n = 1)
    (hpartials : a'.stats.partials = a.stats.partials + .ofNat m)
    (hdropped : a'.stats.dropped = a.stats.dropped + .ofNat n)
    (hemitted : a'.stats.emitted = a.stats.emitted) : Counted drained a' := by
  obtain ⟨⟨partials, dropped, hcreated, hp, hd⟩, he⟩ := h
  refine ⟨⟨partials + m, dropped + n, ?_, ?_, ?_⟩, ?_⟩
  · rw [hlen, hout]
    omega
  · rw [hpartials, UInt64.ofNat_add, ← hp]
  · rw [hdropped, UInt64.ofNat_add, ← hd]
  · rw [hemitted, hout]
    exact he

end

theorem pushed (h : Counted drained a) (hlen : a'.conns.length = a.conns.length) (rec : ConnRecord)
    (hopen : a'.open_.entries.length + (if rec.open_ then 0 else 1) = a.open_.entries.length)
    (hout : a'.out = a.out ++ [rec])
    (hstats : a'.stats = { a.stats with emitted := a.stats.emitted + 1 }) : Counted drained a' := by
  obtain ⟨⟨partials, dropped, hcreated, hp, hd⟩, hemitted⟩ := h
  refine ⟨⟨partials, dropped, ?_, ?_, ?_⟩, ?_⟩
  · have hone : ([rec].filter fun rec => !rec.open_).length = if rec.open_ then 0 else 1 := by
      cases h : rec.open_ <;> simp [h]
    rw [hlen, hout, ← append_assoc, filter_append, length_append, hone, hcreated,
      ← hopen]
    omega
  · rw [hstats, ← hp]
  · rw [hstats, ← hd]
  · rw [hstats, hout, length_append, length_singleton, ← Nat.add_assoc, ← ofNat_succ,
      ← hemitted]

end Counted

/-- Both books. -/
structure Books (drained : List ConnRecord) (a : Assembler) : Prop where
  consistent : a.Consistent
  counted : a.Counted drained

namespace Books

variable {drained : List ConnRecord} {a a' : Assembler}

/-- What one operation does to the connection at `r`: the books stay in order, and the others
stay open. -/
structure Keeps (drained : List ConnRecord) (r : Nat) (a a' : Assembler) : Prop where
  books : Books drained a'
  others : ∀ r' ∈ a.order, r' ≠ r → r' ∈ a'.order

theorem modify (h : Books drained a) (r : Nat) (f : Conn → Conn)
    (hf : ∀ c, (f c).identity = c.identity) : Books drained (a.modify r f) :=
  ⟨h.consistent.modify r f hf, h.counted.congr (modify_length a r f) rfl rfl rfl rfl rfl⟩

theorem ended (h : Books drained a) {r : Nat} (hr : r ∈ a.order) (e : Option Ending) :
    Keeps drained r a (a.ended r e) := by
  cases e with
  | none => exact ⟨h, fun _ hr _ => hr⟩
  | some e =>
    have hforget := h.consistent.forget hr
    have hsize := erase_length (h.consistent.found r hr)
    have hothers : ∀ r' ∈ a.order, r' ≠ r → r' ∈ (a.forget r).order :=
      fun r' hr' hne => h.consistent.nodup.mem_erase_iff.mpr ⟨hne, hr'⟩
    unfold Assembler.ended Assembler.finish
    dsimp only
    split
    · exact ⟨⟨hforget.congr rfl (fun _ => rfl) rfl rfl rfl rfl,
        h.counted.shed rfl hsize rfl (n := 0) rfl rfl (UInt64.add_zero _).symm rfl⟩, hothers⟩
    · exact ⟨⟨hforget.congr rfl (fun _ => rfl) rfl rfl rfl rfl,
        h.counted.pushed rfl (a.finalRecord r e.cand e.at_ e.src) hsize rfl rfl⟩, hothers⟩

theorem cleared (h : Books drained a) :
    Books drained a.cleared ∧ (a.cleared.order.length : Int) < a.cleared.opts.maxOpen ∧
      ∀ id, a.open_.lookup id = none → a.cleared.open_.lookup id = none := by
  have hsize := h.consistent.size
  have hpos := h.consistent.positive
  have hbound := h.consistent.bound
  unfold Assembler.cleared
  split
  · unfold evictOldest
    cases horder : a.order with
    | nil =>
      rw [horder, length_nil] at hsize
      omega
    | cons r rest =>
      have hr : r ∈ a.order := horder ▸ mem_cons_self
      have hlen : (a.order.erase r).length + 1 = a.order.length := by
        rw [horder, erase_cons_head, length_cons]
      refine ⟨⟨(h.consistent.forget hr).congr rfl (fun _ => rfl) rfl rfl rfl rfl,
        h.counted.shed rfl (erase_length (h.consistent.found r hr)) rfl (m := 0) rfl
          (UInt64.add_zero _).symm rfl rfl⟩, ?_, fun id hfree => ?_⟩
      · change ((a.order.erase r).length : Int) < a.opts.maxOpen
        omega
      · refine Option.eq_none_iff_forall_ne_some.mpr fun r' hr' => ?_
        rw [((forget_lookup a r).mp hr').2] at hfree
        cases hfree
  · exact ⟨h, by omega, fun _ hfree => hfree⟩

variable (sdk : Sdk)

theorem fed_fresh (nodeID : String) (l : Line) (at_ : Time) :
    let c := (Conn.fresh nodeID l at_).fed sdk l at_
    c.record.logID = l.logID ∧ c.sampled = false ∧ c.srcKey = (if l.indexes then l.key else "") ∧
      c.srcKey = srcKey c.record.srcIP (toString c.record.srcPort) := by
  intro c
  have hc : c = _ := Conn.fed_eq sdk (Conn.fresh nodeID l at_) l at_
  rw [hc]
  refine ⟨rfl, rfl, rfl, ?_⟩
  by_cases hev : l.event = .inboundFrom
  · by_cases hip : l.srcIP = ""
    · simp [hev, hip, Line.indexes, Conn.fresh, srcKey]
    · simp [hev, hip, Line.indexes, Line.key]
  · simp [hev, Line.indexes, Conn.fresh, srcKey]

theorem born (h : Books drained a) (l : Line) (at_ : Time) (hfree : a.open_.lookup l.logID = none)
    (hroom : (a.order.length : Int) < a.opts.maxOpen) :
    Books drained ((a.opened l at_).written sdk a.conns.length l at_) := by
  obtain ⟨hid, hsampled, hkey, hkeyed⟩ := fed_fresh sdk a.opts.nodeID l at_
  have hfresh : (a.opened l at_).conn a.conns.length = Conn.fresh a.opts.nodeID l at_ := by
    simp [Assembler.opened, conn, getD_eq_getElem?_getD]
  have hconns : ((a.opened l at_).written sdk a.conns.length l at_).conns =
      a.conns ++ [(Conn.fresh a.opts.nodeID l at_).fed sdk l at_] := by
    simp only [written, Assembler.modify, hfresh]
    simp [Assembler.opened]
  refine ⟨h.consistent.born (hid ▸ hfree) hroom hkeyed hsampled hconns (by rw [hid]; rfl) rfl
    (fun key r hl => ?_) rfl, ?_⟩
  · -- Only an accept line with an address puts the connection into the index.
    change ((a.opened l at_).indexed a.conns.length l).lookup key = some r at hl
    unfold indexed at hl
    dsimp only at hl
    rw [hfresh] at hl
    rw [hkey]
    split at hl
    · rename_i hev
      rw [if_neg fun hc => hc.1 rfl] at hl
      have hin : l.indexes := by simp [Line.indexes, hev.1, hev.2]
      by_cases heq : key = l.key
      · rw [heq, Line.key, lookup_insert] at hl
        refine .inr ⟨(Option.some.inj hl).symm, by rw [hin, heq]; rfl, ?_⟩
        simp [heq, Line.key, srcKey, hev.2]
      · exact .inl ((lookup_insert_ne heq).symm.trans hl)
    · exact .inl hl
  · exact h.counted.began (by rw [hconns, length_append]; rfl) (insert_length _ hfree) rfl rfl

theorem collided (h : Books drained a) (l : Line) (at_ : Time) :
    Books drained (a.collided l at_) ∧ (a.collided l at_).open_.lookup l.logID = none := by
  unfold Assembler.collided
  rcases hr : a.open_.lookup l.logID with - | r
  · exact ⟨h, hr⟩
  · obtain ⟨hmem, hid⟩ := h.consistent.opened _ r hr
    refine ⟨(h.ended hmem (some (collisionEnding at_))).books, ?_⟩
    rw [Option.elim_some, ended_open, hid]
    exact lookup_erase _ _

/-! ### The operations -/

theorem line (sdk : Sdk) (h : Books drained a) (l : Line) (clock : Time) :
    Books drained (a.line sdk l clock) := by
  rw [line_eq sdk h.consistent l clock]
  generalize orClock l.at_ clock = at_
  cases ht : a.target l with
  | none => exact h
  | some r =>
    rw [Option.elim_some]
    have hr : r ∈ ((a.ready l at_).written sdk r l at_).order := (mem_ready h.consistent ht at_).1
    refine (ended ?_ hr _).books
    obtain ⟨hmem, -, hev⟩ | ⟨rfl, -⟩ := target_cases h.consistent ht
    · rw [ready_of_mem h.consistent ht hmem, written_of_ne sdk hev]
      refine h.modify r _ fun c => ?_
      rw [Conn.identity, Conn.fed_eq]
      simp [Line.indexes, hev, Conn.identity]
    · obtain ⟨hcol, hfree⟩ := h.collided l at_
      obtain ⟨hbooks, hroom, hkeeps⟩ := hcol.cleared
      have hlen : (a.collided l at_).cleared.conns.length = a.conns.length := by
        rw [(a.collided l at_).cleared_frame.2.2.2.1, (a.collided_frame l at_).2.2.2]
      rw [ready, if_pos ht, newborn, ← hlen]
      exact hbooks.born sdk l at_ (hkeeps _ hfree) hroom

theorem foldl {f : Assembler → Nat → Assembler}
    (hf : ∀ a r, Books drained a → r ∈ a.order → Keeps drained r a (f a r)) (l : List Nat)
    (hl : ∀ r ∈ l, r ∈ a.order) (hn : l.Nodup) (h : Books drained a) :
    Books drained (l.foldl f a) := by
  induction l generalizing a with
  | nil => exact h
  | cons r l ih =>
    obtain ⟨hnot, hn⟩ := nodup_cons.mp hn
    obtain ⟨hbooks, hothers⟩ := hf a r h (hl r mem_cons_self)
    refine ih (fun r' hr' => hothers r' (hl r' (mem_cons_of_mem _ hr')) ?_) hn hbooks
    rintro rfl
    exact hnot hr'

theorem snapshotOne (h : Books drained a) (at_ : Time) (item : SnapshotItem) :
    Books drained (a.snapshotOne sdk at_ item) := by
  unfold Assembler.snapshotOne
  split
  · exact h
  · rename_i r hl
    split
    · exact h
    · refine ⟨h.consistent.listed hl _ ?_ ?_ ?_ ?_,
        h.counted.congr (modify_length a r _) rfl rfl rfl rfl rfl⟩ <;>
      · intro c
        rw [Conn.join_eq]

theorem items (at_ : Time) (items : List SnapshotItem) (h : Books drained a) :
    Books drained (items.foldl (Assembler.snapshotOne sdk at_) a) := by
  induction items generalizing a with
  | nil => exact h
  | cons item items ih => exact ih (h.snapshotOne sdk at_ item)

section

variable (h : Books drained a)

include h

theorem snapshot (s : Snapshot) (clock : Time) : Books drained (a.snapshot sdk s clock) := by
  have hseq : Books drained { a with snapSeq := a.snapSeq + 1 } :=
    ⟨h.consistent.congr rfl (fun _ => rfl) rfl rfl rfl rfl, h.counted.congr rfl rfl rfl rfl rfl rfl⟩
  have hitems := items sdk (orClock s.at_ clock) s.items hseq
  refine foldl (fun b r hb hr => ?_) _ (fun _ hr => hr) hitems.consistent.nodup hitems
  rw [sweepOne_eq]
  exact hb.ended hr _

theorem tick (now clock : Time) : Books drained (a.tick now clock) := by
  refine foldl (fun b r hb hr => ?_) a.order (fun _ hr => hr) h.consistent.nodup h
  cases he : (b.conn r).tickEnding b.opts b.snapSeq (orClock now clock) with
  | some e =>
    obtain ⟨n, heq⟩ := tickOne_ends he
    have horphan : Books drained { b with stats := { b.stats with orphaned := n } } :=
      ⟨hb.consistent.congr rfl (fun _ => rfl) rfl rfl rfl rfl,
        hb.counted.congr rfl rfl rfl rfl rfl rfl⟩
    obtain ⟨hbooks, hothers⟩ := horphan.ended hr (some e)
    rw [heq]
    exact ⟨hbooks, hothers⟩
  | none =>
    obtain ⟨recs, hrecs, heq⟩ := tickOne_stays (hb.consistent.allocated r hr) he
    have hmod := hb.modify r (fun c => c.ticked b.opts (orClock now clock)) fun c => by
      rw [Conn.ticked_eq]
      rfl
    rw [heq]
    refine ⟨⟨hmod.consistent.congr rfl (fun _ => rfl) rfl rfl rfl rfl, ?_⟩, fun _ hr _ => hr⟩
    obtain rfl | rfl := hrecs
    · exact hmod.counted.congr rfl rfl (append_nil _) rfl rfl (UInt64.add_zero _)
    · exact hmod.counted.pushed rfl _ rfl rfl rfl

theorem coreRestart (generation : UInt64) (at_ clock : Time) :
    Books drained (a.coreRestart generation at_ clock) := by
  have hloop := foldl (fun b r hb hr => hb.ended hr (some (Conn.restartEnding (orClock at_ clock))))
    a.order (fun _ hr => hr) h.consistent.nodup h
  exact ⟨hloop.consistent.congr rfl (fun _ => rfl) rfl rfl rfl rfl,
    hloop.counted.congr rfl rfl rfl rfl rfl rfl⟩

theorem tag (logID : UInt32) (ids : List String) : Books drained (a.tag logID ids) := by
  unfold Assembler.tag
  split
  · exact h
  · split
    · exact h
    · exact h.modify _ _ fun _ => rfl

theorem drain : Books (drained ++ a.drain.1) a.drain.2 := by
  refine ⟨h.consistent.congr rfl (fun _ => rfl) rfl rfl rfl rfl, ?_, ?_⟩
  · simpa [Assembler.drain] using h.counted.created
  · simpa [Assembler.drain] using h.counted.emitted

end

theorem new (opts : Options) : Books [] (Assembler.new opts) := by
  have hpos : 0 < (Assembler.new opts).opts.maxOpen := by
    change (0 : Int) < if opts.maxOpen ≤ 0 then 4096 else opts.maxOpen
    split <;> omega
  refine ⟨⟨nofun, forall_mem_nil _, rfl, List.Pairwise.nil, forall_mem_nil _, nofun,
    forall_mem_nil _, forall_mem_nil _, hpos.le, hpos⟩, ⟨0, 0, rfl, rfl, rfl⟩, rfl⟩

end Books

end Assembler

/-! ### Runs -/

/-- A call of the assembler. -/
inductive AsmCall where
  | line (l : Line) (clock : Time)
  | snapshot (s : Snapshot) (clock : Time)
  | tick (now clock : Time)
  | coreRestart (generation : UInt64) (at_ clock : Time)
  | tag (logID : UInt32) (sessionIDs : List String)
  | drain

/-- An assembler and what was drained from it. -/
structure AsmRun where
  asm : Assembler
  drained : List ConnRecord := []

namespace AsmRun

def step (sdk : Sdk) (s : AsmRun) : AsmCall → AsmRun
  | .line l clock => { s with asm := s.asm.line sdk l clock }
  | .snapshot snap clock => { s with asm := s.asm.snapshot sdk snap clock }
  | .tick now clock => { s with asm := s.asm.tick now clock }
  | .coreRestart generation at_ clock => { s with asm := s.asm.coreRestart generation at_ clock }
  | .tag logID sessionIDs => { s with asm := s.asm.tag logID sessionIDs }
  | .drain => { asm := s.asm.drain.2, drained := s.drained ++ s.asm.drain.1 }

def run (sdk : Sdk) (s : AsmRun) (calls : List AsmCall) : AsmRun := calls.foldl (step sdk) s

theorem step_books (sdk : Sdk) {s : AsmRun} (h : s.asm.Books s.drained) (call : AsmCall) :
    (s.step sdk call).asm.Books (s.step sdk call).drained := by
  cases call with
  | line l clock => exact h.line sdk l clock
  | snapshot snap clock => exact h.snapshot sdk snap clock
  | tick now clock => exact h.tick now clock
  | coreRestart generation at_ clock => exact h.coreRestart generation at_ clock
  | tag logID sessionIDs => exact h.tag logID sessionIDs
  | drain => exact h.drain

theorem run_books (sdk : Sdk) {s : AsmRun} (h : s.asm.Books s.drained) (calls : List AsmCall) :
    (s.run sdk calls).asm.Books (s.run sdk calls).drained := by
  induction calls generalizing s with
  | nil => exact h
  | cons call calls ih => exact ih (step_books sdk h call)

/-- **Every connection is accounted for once**, after every sequence of calls. -/
theorem every_connection_accounted (sdk : Sdk) (opts : Options) (calls : List AsmCall) :
    let s := run sdk ⟨.new opts, []⟩ calls
    s.asm.Consistent ∧ s.asm.Counted s.drained := by
  have h := run_books sdk (s := ⟨.new opts, []⟩) (.new opts) calls
  exact ⟨h.consistent, h.counted⟩

end AsmRun

/-! ### The sweep of what left the table -/

namespace Assembler

/-- An entry of the table is of this connection: same source, and not started well before it. -/
def lists (item : SnapshotItem) (c : Conn) : Prop :=
  item.srcIP = c.record.srcIP ∧ item.srcPort = toString c.record.srcPort ∧
    (item.start.isZero = true ∨ c.record.startedAt - snapshotStartSkew ≤ item.start)

instance (item : SnapshotItem) (c : Conn) : Decidable (lists item c) :=
  inferInstanceAs (Decidable (_ ∧ _))

/-- What the entries of a poll leave of a connection: it is listed, if any of them joins it. -/
theorem joined_seq (sdk : Sdk) (at_ : Time) (seq : UInt64) (floor quiet : Duration)
    (items : List SnapshotItem) (c : Conn) (hne : items ≠ []) :
    (items.foldl (fun c item => c.join sdk item at_ seq floor quiet) c).lastSnapSeq = seq := by
  obtain h | ⟨init, item, rfl⟩ := eq_nil_or_concat items
  · exact absurd h hne
  · rw [concat_eq_append, foldl_append, foldl_cons, foldl_nil, Conn.join_eq]

theorem sweepEnding_isNone (c : Conn) (seq : UInt64) (at_ : Time) :
    (c.sweepEnding seq at_).isSome ≠ true ↔ c.sampled = false ∨ seq ≤ c.lastSnapSeq := by
  unfold Conn.sweepEnding
  split
  · rename_i h
    rw [Bool.and_eq_true, decide_eq_true_eq] at h
    split <;> simp [h.1, UInt64.not_le.mpr h.2]
  · rename_i h
    rw [Bool.and_eq_true, not_and_or, decide_eq_true_eq, UInt64.not_lt, Bool.not_eq_true] at h
    simpa using h

end Assembler

namespace AsmRun

open Assembler

/-- **When a listed connection is kept.**  A poll that lists an open connection does not declare
it vanished if and only if the source index leads to it, or it was never in a poll that the new
one could miss it from. -/
theorem still_listed_kept_iff (sdk : Sdk) (opts : Options) (calls : List AsmCall) (s : Snapshot)
    (clock : Time) {r : Nat} {item : SnapshotItem} (hitem : item ∈ s.items) :
    let a := (run sdk ⟨.new opts, []⟩ calls).asm
    r ∈ a.order → lists item (a.conn r) →
      (r ∈ (a.snapshot sdk s clock).order ↔ a.bySrc.lookup (a.conn r).srcKey = some r ∨
        (a.conn r).sampled = false ∨ a.snapSeq + 1 ≤ (a.conn r).lastSnapSeq) := by
  intro a hr ⟨hip, hport, hstart⟩
  have h : a.Books _ := run_books sdk (s := ⟨.new opts, []⟩) (.new opts) calls
  have hkeyed := h.consistent.keyed r hr
  have hlt := h.consistent.allocated r hr
  have horder : (a.polled sdk s (orClock s.at_ clock)).order = a.order := by rw [polled_eq]
  have hmem : r ∈ (a.snapshot sdk s clock).order ↔ _ :=
    ((swept_snapshot sdk h.consistent s clock).order r).trans
      (and_iff_right (horder ▸ hr)) |>.trans (not_congr (and_iff_right hr)) |>.trans
      (sweepEnding_isNone _ _ _)
  rw [hmem, polled_conn sdk a s _ hlt]
  by_cases hindexed : a.bySrc.lookup (a.conn r).srcKey = some r
  · -- The item is found under the key, so the poll has listed the connection.
    refine iff_of_true (.inr ?_) (.inl hindexed)
    rw [joined_seq]
    · exact UInt64.le_refl _
    refine ne_nil_of_mem (mem_filter.mpr ⟨hitem, ?_⟩)
    rw [hip, hport, ← hkeyed, decide_eq_true hindexed, Bool.true_and, Bool.not_eq_true', early]
    obtain hzero | hle := hstart
    · rw [hzero]
      rfl
    · rw [decide_eq_false (by lia), Bool.and_false]
  · -- No key leads to the connection, so no item touches it.
    have hnone : a.joins r s.items = [] := by
      refine filter_eq_nil_iff.mpr fun item' _ hl => ?_
      rw [Bool.and_eq_true, decide_eq_true_eq] at hl
      exact hindexed ((h.consistent.bySrc _ r hl.1).2.1 ▸ hl.1)
    rw [hnone]
    exact ⟨.inr, fun hkept => hkept.resolve_left hindexed⟩

/-- A connection from one address, accepted under this log id. -/
def acceptedFrom (logID : UInt32) : AsmCall :=
  .line { logID, hasLogID := true, event := .inboundFrom, srcIP := "192.0.2.1", srcPort := 4000 }
    second

/-- The table lists that address. -/
def listing : Snapshot where
  at_ := 2 * second
  items := [{ srcIP := "192.0.2.1", srcPort := "4000" }]

theorem still_listed_kept_iff_sample :
    0 ∈ ((run asciiSdk ⟨.new {}, []⟩ [acceptedFrom 1, .snapshot listing second]).asm.snapshot asciiSdk
      listing second).order :=
  (@still_listed_kept_iff asciiSdk {} [acceptedFrom 1, .snapshot listing second] listing second 0
    { srcIP := "192.0.2.1", srcPort := "4000" } mem_cons_self (by decide +kernel)
    (by decide +kernel)).mpr (by decide +kernel)

/-- A second connection from the same address takes the key over: the next poll lists the address
and finishes the first connection as vanished. -/
theorem shared_source_declared_vanished :
    let a := (run asciiSdk ⟨.new {}, []⟩
      [acceptedFrom 1, .snapshot listing second, acceptedFrom 2]).asm
    0 ∈ a.order ∧ lists { srcIP := "192.0.2.1", srcPort := "4000" } (a.conn 0) ∧
      0 ∉ (a.snapshot asciiSdk listing second).order ∧
      (a.snapshot asciiSdk listing second).out.map (·.closeError) =
        ["connection left the sing-box connection table without a close line"] := by
  decide +kernel

end AsmRun

end LatticeAgent.Trace
