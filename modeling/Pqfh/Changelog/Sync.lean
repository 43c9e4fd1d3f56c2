import Pqfh.Changelog.Decode
import Pqfh.Foundation.Linked
import Pqfh.Handler.Dispatch

/-! # Synchronizing the files with the changelog

A program opens its files, registers each with `sync_add_table` and calls `sync_execute`, which
never returns as long as the database answers: pass after pass it takes the rows of the changelog
that are pending, executes each on the ISAM file, and marks it. The marks of a pass are one
transaction; the ISAM files know of none.
-/

namespace Pqfh

open Linked

/-! ## Registration -/

/-- `sync_fcds` and `sync_tables`. -/
structure Registry where
  fcds : Pointer Fcd
  tables : Pointer Table

/-- `sync_start`. -/
def syncStart : Registry := ⟨none, none⟩

/-- `sync_add_table`, with the fcd and the table opened last. -/
def syncAddTable (reg : Registry) : Option (Fcd × Table) → Registry
  | none => reg
  | some (fcd, tab) => ⟨append reg.fcds fcd, append reg.tables tab⟩

/-- Files registered one after the other. -/
def registered (files : List (Fcd × Table)) : Registry :=
  files.foldl (fun reg file => syncAddTable reg (some file)) syncStart

/-- What `sync_execute` does to the lists before its first pass. -/
def Registry.rewound (reg : Registry) : Registry := { reg with tables := first reg.tables }

/-- The loop that looks for the file of a name, through both lists together: how far it went, and
what it found. -/
def findFile (tabname : List Byte) : ℕ → List Fcd → List Table →
    Except Stop (Option (ℕ × Fcd × Table))
  | _, [], _ => .ok none
  | _, _ :: _, [] => .error .undefined
  | i, fcd :: fcds, tab :: tabs =>
      if baseName fcd.fileName = tabname then .ok (some (i, fcd, tab))
      else findFile tabname (i + 1) fcds tabs

/-- The size of `tabname`, without the NUL at the end. -/
def tabnameSize : ℕ := 32

/-- `tab->columns` of a registered copy of a table. CLOSE frees the list. -/
def Table.columnList (live : ℕ → Option Table) (tab : Table) : Except Stop (List Column) :=
  if (live tab.handle).isSome then .ok tab.columns else .error .undefined

/-- Where an entry of a table goes: the fcd, the table that goes with it, and its columns. -/
def Registry.target (reg : Registry) (live : ℕ → Option Table) (tabname : List Byte) :
    Except Stop (Option (ℕ × Fcd × Table × List Column)) :=
  if tabname.length ≤ tabnameSize then do
    match ← findFile tabname 0 (onward reg.fcds) (onward reg.tables) with
    | none => return none
    | some (i, fcd, tab) =>
        let cols ← tab.columnList live
        return some (i, fcd, tab, cols)
  else .error .undefined

/-! ## The changelog -/

/-- `TG_OP` in lower case. -/
inductive Action where
  | insert
  | update
  | delete
  deriving Repr, DecidableEq

def Action.opcode : Action → Opcode
  | .insert => .write
  | .update => .rewrite
  | .delete => .delete

/-- A row of the changelog. The status is kept without the blanks at its end. -/
structure Entry where
  status : List Byte
  id : ℕ
  tableName : List Byte
  action : Action
  oldData : List Byte
  newData : List Byte
  deriving DecidableEq

def pending : List Byte := ascii "PENDING"

/-- The text that is decoded for an entry. -/
def Entry.data (entry : Entry) : List Byte :=
  match entry.action with
  | .delete => entry.oldData
  | _ => entry.newData

/-- The changelog as the session of `sync_execute` has it, with the sequence of its ids. -/
structure Log where
  committed : List Entry
  working : List Entry
  aborted : Bool
  next : ℕ

/-- `new_status`. -/
def newStatus (status : Status) : List Byte :=
  if status.1 = 48 then ascii "SUCCESS"
  else cstr (ascii "ERROR_" ++ status.1 :: 95 :: (Decimal.canonical status.2.val).map digitByte)

/-- The length of the column `status` of the changelog. -/
def statusSize : ℕ := 10

/-- The UPDATE that marks an entry. A text too long for the column, or one that ends the literal it
stands in, is an error; `refuses` are the errors of other kinds. -/
def Log.mark (refuses : List Byte → Bool) (log : Log) (name : List Byte) (id : ℕ)
    (text : List Byte) : Log :=
  if log.aborted = true then log
  else if statusSize < text.length ∨ 39 ∈ text ∨ refuses text = true then
    { log with aborted := true }
  else
    { log with working := log.working.map fun entry =>
        if entry.status = pending ∧ entry.tableName = name ∧ entry.id = id then
          { entry with status := text }
        else entry }

/-- COMMIT, which rolls back a transaction that was aborted. -/
def Log.commit (log : Log) : Log :=
  if log.aborted = true then { log with working := log.committed, aborted := false }
  else { log with committed := log.working }

/-- A change made by another session, whose trigger puts an entry into the changelog. -/
def Log.insert (log : Log) (tableName : List Byte) (action : Action)
    (oldData newData : List Byte) : Log :=
  let entry : Entry := ⟨pending, log.next, tableName, action, oldData, newData⟩
  { log with
    committed := log.committed ++ [entry]
    working := log.working ++ [entry]
    next := log.next + 1 }

/-! ## sync_execute -/

section Execute

variable {σ : Type}

/-- The ISAM files, the registered files, the live tables of the process and the changelog. -/
structure Sync (σ : Type) where
  files : σ
  reg : Registry
  live : ℕ → Option Table
  log : Log

/-- An entry executed on a file: the name by which it is marked, and the status of `EXTFH`. -/
structure Applied where
  entry : Entry
  name : List Byte
  status : Status
  deriving DecidableEq

/-- An entry fetched: executed and marked, or passed over when its file is not found. -/
def Sync.entry (extfh : Extfh σ) (refuses : List Byte → Bool) (s : Sync σ) (entry : Entry) :
    Except Stop (Sync σ × Option Applied) := do
  match ← s.reg.target s.live entry.tableName with
  | none => return (s, none)
  | some (i, fcd, tab, cols) =>
      let record ← rebuildRecord cols fcd.record.length entry.data
      let (files, fcd) := extfh entry.action.opcode s.files { fcd with record := record }
      return ({ s with
          files := files
          reg := { s.reg with fcds := setOnward s.reg.fcds i fcd }
          log := s.log.mark refuses tab.name entry.id (newStatus fcd.status) },
        some ⟨entry, tab.name, fcd.status⟩)

/-- The loop that fetches the entries of a pass, and what it executed. In an aborted transaction
nothing is fetched. -/
def Sync.batch (extfh : Extfh σ) (refuses : List Byte → Bool) :
    List Entry → Sync σ → Except Stop (Sync σ × List Applied)
  | [], s => .ok (s, [])
  | entry :: entries, s =>
      if s.log.aborted = true then .ok (s, [])
      else do
        let (s, applied) ← s.entry extfh refuses entry
        let (s, later) ← Sync.batch extfh refuses entries s
        return (s, applied.toList ++ later)

/-- The rows that the cursor of a pass gives. -/
def Log.pendings (log : Log) : List Entry :=
  (log.working.filter fun entry => entry.status = pending).mergeSort fun a b => a.id ≤ b.id

/-- A pass. When the cursor cannot be declared `sync_execute` returns. -/
def Sync.pass (extfh : Extfh σ) (refuses : List Byte → Bool) (s : Sync σ) :
    Except Stop (Option (Sync σ × List Applied)) :=
  if s.log.aborted = true then .ok none
  else do
    let (s, applied) ← Sync.batch extfh refuses s.log.pendings s
    return some ({ s with log := s.log.commit }, applied)

/-- What happens from the first pass on: passes, and changes by other sessions between them. The
list is what the passes executed. -/
inductive SyncRun (extfh : Extfh σ) (refuses : List Byte → Bool) (start : Sync σ) :
    Sync σ → List Applied → Prop
  | start : SyncRun extfh refuses start start []
  | insert {s : Sync σ} {done : List Applied} (tableName : List Byte) (action : Action)
      (oldData newData : List Byte) (run : SyncRun extfh refuses start s done) :
      SyncRun extfh refuses start
        { s with log := s.log.insert tableName action oldData newData } done
  | pass {s s' : Sync σ} {done applied : List Applied} (run : SyncRun extfh refuses start s done)
      (passed : s.pass extfh refuses = .ok (some (s', applied))) :
      SyncRun extfh refuses start s' (done ++ applied)

end Execute

end Pqfh
