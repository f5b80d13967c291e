import Mathlib.Data.List.AList
import Mathlib.Data.List.Sort
import LatticeAgent.Lib.CutProg
import LatticeAgent.Lib.Durable
import LatticeAgent.Lib.Lifecycle
import LatticeAgent.Sdk

/-! # The task result outbox

`taskoutbox.Store`: a directory with one journal file for each leased task. The directory
has a visible and a durable state (`Synced`); every access to it is one step of a program,
and the outcome of each step is the choice of the outside world.

Publishing an entry is a link or a rename, which makes it visible, followed by a directory
sync, which makes it durable and may fail after the entry is visible. A call therefore
returns, as in the source, both whether the entry was published and an error.

The store also carries the history of its journals (`Lifecycle.Event`); no program reads
it. -/

namespace LatticeAgent.Outbox

open CutProg

/-- The state of an entry. -/
inductive EntryState where
  | leased
  | completed
deriving DecidableEq, Repr

/-- A durable task execution journal record. -/
structure Entry where
  version : Int
  state : EntryState
  task : Task
  durableProtocol : String
  result : Option TaskResult
  executionStartedAt : Time
  updatedAt : Time
deriving DecidableEq, Repr

def entryVersion : Int := 1
def maxEntries : ℕ := 1024
def maxEntrySize : ℕ := 4 * 2 ^ 20

/-- SHA-256 and JSON as the store calls them. -/
structure Codec where
  digest : Bytes → String
  marshalEntry : Entry → Bytes

/-- A task and its lease. -/
abbrev Lease := String × String

abbrev Event := Lifecycle.Event Lease TaskResult

def Entry.lease (e : Entry) : Lease := (e.task.id, e.task.leaseID)

/-- The store of one process, over the directory it has open. -/
structure Store where
  dir : Synced (AList (fun _ : String => Entry))
  durabilityUnconfirmed : Bool
  history : List Event

/-- What the outside world decides at one step of the store. -/
structure Choice where
  /-- Opening the directory, or reading it or a file of it. -/
  read : Option String := none
  /-- Writing the temporary file. -/
  write : Option String := none
  /-- The link or rename that publishes the entry. -/
  publish : Option String := none
  /-- Unlinking the temporary file after a link. -/
  unlink : Option String := none
  /-- The directory sync. -/
  sync : Option String := none
  /-- Unlinking an entry. -/
  remove : Option String := none
  /-- Temporary files of an earlier process are found. -/
  stale : Bool := false
  /-- `time.Now()`. -/
  now : Time := 1
deriving DecidableEq, Repr

abbrev StoreProg := Prog Choice Store String

section store
variable (cx : Codec)

def entryKey (taskID leaseID : String) : String :=
  cx.digest (utf8 (taskID ++ "\x00" ++ leaseID))

def Entry.key (e : Entry) : String := entryKey cx e.task.id e.task.leaseID

/-! ### Reading -/

/-- The checks `read` makes on an entry it could open. -/
def checkEntry (key : String) (e : Entry) : Except String Unit := do
  refuse (decide (maxEntrySize < (cx.marshalEntry e).length))
    ("task result journal exceeds 4194304 bytes: " ++ key)
  refuse (e.version != entryVersion || e.task.id == "" || e.task.leaseID == "")
    ("invalid task result journal: " ++ key)
  refuse ("linechain-e3-".toList.isPrefixOf e.durableProtocol.toList &&
      e.durableProtocol != "linechain-e3-v2")
    ("unsupported persisted linechain durable protocol \"" ++ e.durableProtocol ++ "\"")
  refuse (key != e.key cx) ("task result journal key mismatch: " ++ key)
  refuse (e.state == .leased && e.result.isSome)
    "leased task result journal unexpectedly contains a result"
  refuse (e.state == .completed && !e.result.any fun r =>
      r.taskID == e.task.id && r.leaseID == e.task.leaseID)
    "completed task result journal does not match its lease"

/-- A step that fails with the error of its seam and changes nothing then. -/
def access {α : Type} (seam : Choice → Option String) (f : Store → Except String α × Store) :
    StoreProg α :=
  .step fun c s => match seam c with
    | some e => (.error e, s)
    | none => f s

/-- The file of a name, checked. -/
def readFile (dir : AList (fun _ : String => Entry)) (key : String) : Except String Entry :=
  match dir.lookup key with
  | none => .error "inspect task result journal: file does not exist"
  | some e => (checkEntry cx key e).map fun _ => e

/-- The entries of a directory in the order of their names, each checked. -/
def checkAll (dir : AList (fun _ : String => Entry)) : Except String (List Entry) := do
  let entries ← ((dir.keys.insertionSort (· ≤ ·)).take maxEntries).mapM (readFile cx dir)
  refuse (decide (maxEntries < dir.keys.length)) "task result outbox capacity exceeded"
  return entries

def readAll : StoreProg (List Entry) :=
  access Choice.read fun s => (checkAll cx s.dir.visible, s)

def read (key : String) : StoreProg Entry :=
  access Choice.read fun s => (readFile cx s.dir.visible key, s)

/-- What the checks of `read` promise about an entry. -/
structure Entry.Valid (key : String) (e : Entry) : Prop where
  key_eq : key = e.key cx
  leased : e.state = .leased → e.result = none
  completed : e.state = .completed →
    ∃ r, e.result = some r ∧ r.taskID = e.task.id ∧ r.leaseID = e.task.leaseID

variable {cx}

theorem checkEntry_ok {key : String} {e : Entry} {u : Unit} (h : checkEntry cx key e = .ok u) :
    e.Valid cx key := by
  unfold checkEntry at h
  simp only [refuse_bind_eq_ok, refuse_eq_ok] at h
  obtain ⟨-, -, -, hkey, hleased, hdone⟩ := h
  refine ⟨by simpa using hkey, fun hs => ?_, fun hs => ?_⟩
  · cases hr : e.result <;> simp_all
  · cases hr : e.result <;> simp_all

variable {dir : AList (fun _ : String => Entry)}

theorem readFile_ok {key : String} {e : Entry} (h : readFile cx dir key = .ok e) :
    dir.lookup key = some e ∧ e.Valid cx key := by
  unfold readFile at h
  cases hl : dir.lookup key with
  | none => simp [hl] at h
  | some e' =>
    cases hc : checkEntry cx key e' with
    | error err => simp [hl, hc, Except.map] at h
    | ok u =>
      simp only [hl, hc, Except.map, Except.ok.injEq] at h
      subst h
      exact ⟨rfl, checkEntry_ok hc⟩

/-- A successful `readAll` returns exactly the entries of the directory, all valid. -/
theorem mem_checkAll {es : List Entry} (h : checkAll cx dir = .ok es) :
    (∀ e ∈ es, dir.lookup (e.key cx) = some e ∧ e.Valid cx (e.key cx)) ∧
      ∀ key e, dir.lookup key = some e → e ∈ es := by
  unfold checkAll at h
  obtain ⟨es', hes, h⟩ := bind_eq_ok.mp h
  obtain ⟨hcap, h⟩ := refuse_bind_eq_ok.mp h
  cases h
  obtain ⟨hsound, hall⟩ := mem_of_mapM_eq_ok hes
  refine ⟨fun e he => ?_, fun key e hl => ?_⟩
  · obtain ⟨key, -, hk⟩ := hsound e he
    obtain ⟨hl, hv⟩ := readFile_ok hk
    rw [← hv.key_eq]
    exact ⟨hl, hv⟩
  · have hlen : (dir.keys.insertionSort (· ≤ ·)).length ≤ maxEntries := by
      rw [List.length_insertionSort]
      simpa using hcap
    have hmem : key ∈ dir.keys := by
      rw [← AList.mem_keys, ← AList.lookup_isSome, hl]
      rfl
    rw [List.take_of_length_le hlen] at hall
    obtain ⟨e', he', hk⟩ := hall key (by rwa [List.mem_insertionSort])
    obtain rfl : e = e' := Option.some.inj (hl.symm.trans (readFile_ok hk).1)
    exact he'

variable (cx)

/-! ### Writing -/

/-- The store with an entry visible under a name. -/
def Store.put (s : Store) (key : String) (e : Entry) : Store :=
  { s with dir := s.dir.write (·.insert key e) }

/-- The store with an entry unlinked. -/
def Store.unlink (s : Store) (key : String) : Store :=
  { s with dir := s.dir.write (·.erase key) }

def Store.record (s : Store) (ev : Event) : Store := { s with history := s.history ++ [ev] }

/-- What a write reports: whether the entry was published, and an error. -/
structure Written where
  committed : Bool
  err : Option String
deriving DecidableEq, Repr

/-- Creating, writing, syncing and closing the temporary file. -/
def stage : StoreProg Unit := access Choice.write fun s => (.ok (), s)

/-- `os.Link` of the temporary file: the initial lease, never over another file. -/
def link (key : String) (e : Entry) : StoreProg Unit :=
  access Choice.publish fun s =>
    if (s.dir.visible.lookup key).isSome then (.error "file exists", s)
    else (.ok (), (s.put key e).record (.journaled e.lease))

/-- `os.Rename` of the temporary file. -/
def rename (key : String) (e : Entry) : StoreProg Unit :=
  access Choice.publish fun s => (.ok (), s.put key e)

/-- A step after the entry is published: its failure leaves the durability unconfirmed. -/
def confirmStep (seam : Choice → Option String) (f : Store → Store) : StoreProg (Option String) :=
  .step fun c s => match seam c with
    | some e => (.ok (some e), { s with durabilityUnconfirmed := true })
    | none => (.ok none, f s)

/-- The directory sync that ends a write. -/
def syncWritten : StoreProg Written := do
  match ← confirmStep Choice.sync fun s =>
      { s with dir := s.dir.sync, durabilityUnconfirmed := false } with
  | some e => return ⟨true, some ("sync task result outbox: " ++ e)⟩
  | none => return ⟨true, none⟩

def writeNew (key : String) (e : Entry) : StoreProg Written := do
  if maxEntrySize < (cx.marshalEntry e).length then
    return ⟨false, some "task result journal exceeds 4194304 bytes"⟩
  else
    match ← Prog.attempt stage with
    | .error err => return ⟨false, some err⟩
    | .ok _ =>
      match ← Prog.attempt (link key e) with
      | .error err => return ⟨false, some ("publish new task result journal: " ++ err)⟩
      | .ok _ =>
        match ← confirmStep Choice.unlink id with
        | some err =>
          return ⟨true, some ("remove published task result temp file: " ++ err)⟩
        | none => syncWritten

def write (key : String) (e : Entry) : StoreProg Written := do
  if maxEntrySize < (cx.marshalEntry e).length then
    return ⟨false, some "task result journal exceeds 4194304 bytes"⟩
  else
    match ← Prog.attempt stage with
    | .error err => return ⟨false, some err⟩
    | .ok _ =>
      match ← Prog.attempt (rename key e) with
      | .error err => return ⟨false, some ("publish task result journal: " ++ err)⟩
      | .ok _ => syncWritten

/-- `time.Now().UTC()`. -/
def timeNow : StoreProg Time := .step fun c s => (.ok c.now, s)

/-- The entry of a fresh lease. -/
def leasedEntry (task : Task) (protocol : String) (now : Time) : Entry :=
  { version := entryVersion, state := .leased, task := task, durableProtocol := protocol,
    result := none, executionStartedAt := now, updatedAt := now }

/-- The scan of `begin` over the entries: an exact redelivery, a conflict, or neither. -/
def redelivered (task : Task) (protocol : String) (entries : List Entry) : Option Written :=
  (entries.find? fun e => e.task.id == task.id).map fun e =>
    if e.key cx == entryKey cx task.id task.leaseID && e.task == task &&
        e.durableProtocol == protocol then ⟨false, none⟩
    else ⟨false, some ("task " ++ task.id ++
      " was redelivered with a different lease or content")⟩

/-- `BeginWithProtocol`. -/
def begin (task : Task) (protocol : String) : StoreProg Written := do
  if trimSpace task.id = "" ∨ trimSpace task.leaseID = "" then
    return ⟨false, some "task id and lease id are required for durable execution"⟩
  else
    match ← Prog.attempt (readAll cx) with
    | .error err => return ⟨false, some err⟩
    | .ok entries =>
      match redelivered cx task protocol entries with
      | some w => return w
      | none =>
        if maxEntries ≤ entries.length then
          return ⟨false, some "task result outbox capacity exceeded"⟩
        else
          let now ← timeNow
          writeNew cx (entryKey cx task.id task.leaseID) (leasedEntry task protocol now)

/-- The entry with its result. -/
def Entry.complete (e : Entry) (r : TaskResult) (now : Time) : Entry :=
  { e with state := .completed, result := some r, updatedAt := now }

def complete (r : TaskResult) : StoreProg Written := do
  let key := entryKey cx r.taskID r.leaseID
  match ← Prog.attempt (read cx key) with
  | .error err => return ⟨false, some err⟩
  | .ok e =>
    if e.state = .completed ∧ e.result = some r then return ⟨false, none⟩
    else if e.state ≠ .leased then
      return ⟨false, some ("task lease " ++ r.taskID ++ " is not awaiting completion")⟩
    else if e.task.id ≠ r.taskID ∨ e.task.leaseID ≠ r.leaseID then
      return ⟨false, some "task result does not match durable lease"⟩
    else
      let now ← timeNow
      write cx key (e.complete r now)

/-! ### Recovery and upload -/

def confirmDurability : StoreProg Unit :=
  .step fun c s => match c.sync with
    | some e => (.error ("confirm task result outbox durability: " ++ e), s)
    | none => (.ok (), { s with dir := s.dir.sync, durabilityUnconfirmed := false })

/-- The synthetic result of a lease whose outcome is unknown. -/
def unknownOutcome (e : Entry) (nodeID : String) (now : Time) : TaskResult :=
  { taskID := e.task.id, leaseID := e.task.leaseID, nodeID := nodeID, exitCode := -1,
    error := "agent restarted or lost durable result after task launch; execution outcome " ++
      "is unknown and the task was not re-executed",
    startedAt := e.executionStartedAt, finishedAt := now }

/-- The body of the loop of `RecoverInterrupted`. -/
def recoverEntry (nodeID : String) (e : Entry) : StoreProg Unit := do
  if e.state ≠ .leased then .ret ()
  else if e.durableProtocol = "linechain-e3-v2" then
    .fail ("leased E3 task " ++ e.task.id ++
      " requires linechain journal recovery before generic outbox recovery")
  else
    let now ← timeNow
    let w ← write cx (e.key cx) (e.complete (unknownOutcome e nodeID now) now)
    match w.err with
    | none => .ret ()
    | some err =>
      if !w.committed then
        .fail ("recover interrupted task " ++ e.task.id ++ ": " ++ err)
      else
        match ← Prog.attempt confirmDurability with
        | .ok _ => .ret ()
        | .error confirmErr =>
          .fail ("recover interrupted task " ++ e.task.id ++ ": " ++ err ++
            "; confirm published recovery: " ++ confirmErr)

def recoverInterrupted (nodeID : String) : StoreProg Unit := do
  match ← Prog.attempt confirmDurability with
  | .error e => .fail ("confirm task result outbox before recovery: " ++ e)
  | .ok _ =>
    let entries ← readAll cx
    .forEach (recoverEntry cx nodeID) entries

/-- The order of `Pending`. -/
def pendingLe (a b : Entry) : Prop :=
  a.updatedAt < b.updatedAt ∨ (a.updatedAt = b.updatedAt ∧ a.key cx ≤ b.key cx)

instance (a b : Entry) : Decidable (pendingLe cx a b) :=
  inferInstanceAs (Decidable (_ ∨ _))

/-- The completed entries, oldest first. -/
def completedEntries (entries : List Entry) : List Entry :=
  (entries.filter fun e => e.state == .completed && e.result.isSome).insertionSort (pendingLe cx)

def pending : StoreProg (List Entry) := do
  if ← .get Store.durabilityUnconfirmed then
    .fail "task result outbox durability is unconfirmed"
  else
    let entries ← readAll cx
    return completedEntries cx entries

def snapshot : StoreProg (List Entry) := readAll cx

def remove (e : Entry) : StoreProg Unit := do
  access Choice.remove fun s =>
    if (s.dir.visible.lookup (e.key cx)).isSome then
      (.ok (), (s.unlink (e.key cx)).record (.removed e.lease))
    else (.error "remove acknowledged task result: file does not exist", s)
  match ← confirmStep Choice.sync fun s => { s with dir := s.dir.sync } with
  | some err => .fail err
  | none => .ret ()

/-- `cleanupTemps`: a directory in which temporary files were found is synced. -/
def cleanupTemps : StoreProg Unit := do
  let stale ← .step fun c s => match c.read with
    | some e => (.error e, s)
    | none => (.ok c.stale, s)
  if stale then access Choice.sync fun s => (.ok (), { s with dir := s.dir.sync }) else .ret ()

/-- `Open`: a new store over the directory as it is, for a process that has just started. -/
def openStore : StoreProg Unit := do
  access Choice.read fun s => (.ok (), { s with durabilityUnconfirmed := false })
  cleanupTemps
  let _ ← readAll cx
  return ()

end store
end LatticeAgent.Outbox
