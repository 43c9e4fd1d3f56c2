import Pqfh.Handler.KeyedRuns

/-! # Whole sessions

A program opens its files, works on them, closes them and opens them again, with fcds of its own:
OPEN gives an fcd the address of a new table, and CLOSE takes the table away. In mode B a call does
what it does on indexed files (`Pqfh.callSession_refines`): OPEN OUTPUT empties a file, the other
OPENs leave it as it is, and a call on a file that is not open is refused and changes nothing.
-/

namespace Pqfh

open KeyedStore

variable {σ : Type}

/-- The calls of a session. -/
inductive SessionOp where
  | openFile (kind : OpenKind)
  | close
  | onFile (op : FileOp)
  deriving DecidableEq

def SessionOp.opcode : SessionOp → Opcode
  | .openFile kind => .openFile kind
  | .close => .close
  | .onFile op => op.opcode

/-- A call, with the fcd as the program leaves it and what the memory happens to hold. -/
structure SessionCall where
  op : SessionOp
  fcd : Fcd
  garbage : Garbage

/-- The tables that are kept as files, and what they look like. -/
structure Shelf where
  kept : ℕ → Prop
  layout : ℕ → Table

/-- The files that are open by the addresses in their fcds, the address that the next one gets, and
the records of the tables. -/
structure Desk where
  relation : ℕ → Option ℕ
  next : ℕ
  stores : ℕ → Records (List Byte) (List Byte)

def Shelf.files (shelf : Shelf) (desk : Desk) : FileSet :=
  ⟨desk.relation, shelf.kept, shelf.layout⟩

/-- The status of an operation on a file that is not open. -/
def FileOp.closedStatus : FileOp → Status
  | .read _ => stNotOpenedRead
  | .write => stNotOpenedWrite
  | .rewrite | .delete => stNotOpenedUpdel
  | .commit => stOk

/-- What a call returns and leaves. -/
def Shelf.serve (env : Env) (shelf : Shelf) (call : SessionCall) (desk : Desk) : Fcd × Desk :=
  match call.op with
  | .openFile kind =>
      if call.fcd.openMode ≠ 128 then ({ call.fcd with status := stAlreadyOpened }, desk)
      else
        let relation := env.pg.relation (baseName call.fcd.fileName)
        ({ call.fcd with
            isam := false
            fileId := desk.next
            openMode := kind.number
            status := stOk
            sign := true },
          { relation := Function.update desk.relation desk.next (some relation)
            next := desk.next + 1
            stores := if kind = .output then Function.update desk.stores relation fun _ => none
              else desk.stores })
  | .close =>
      if call.fcd.openMode = 128 then ({ call.fcd with status := stAlreadyClosed }, desk)
      else ({ call.fcd with openMode := 128, status := stOk },
        { desk with relation := Function.update desk.relation call.fcd.fileId none })
  | .onFile op =>
      if op ≠ .commit ∧ call.fcd.openMode = 128 then
        ({ call.fcd with status := op.closedStatus }, desk)
      else
        let on : FileCall := ⟨op, call.fcd, call.garbage⟩
        let (reply, stores) := (shelf.files desk).serve on desk.stores
        ((shelf.files desk).answer on reply, { desk with stores := stores })

/-- The file of an fcd is kept in a table of the database, from whose columns and the key definition
block of the fcd come the columns and the keys of the layout. -/
structure Shelf.Describes (shelf : Shelf) (env : Env) (fcd : Fcd) : Prop where
  short : (baseName fcd.fileName).length ≤ maxPrefixo
  converted : env.convertida (env.nomeDicionario (baseName fcd.fileName)) = true
  kept : shelf.kept (env.pg.relation (baseName fcd.fileName))
  found : ∃ columns, layColumns fcd.record.length 0
      (env.pg.catalog (env.pg.relation (baseName fcd.fileName))) = .ok columns ∧ columns ≠ [] ∧
    getkeys fcd.kdb columns = .ok
      ((shelf.layout (env.pg.relation (baseName fcd.fileName))).columns,
        (shelf.layout (env.pg.relation (baseName fcd.fileName))).keys)

/-- What is asked of a call: OPEN names a file of the shelf, the fcd of a file that is open is the
one that OPEN gave back, and the records are as a table can keep them. -/
def Shelf.Admits (env : Env) (shelf : Shelf) (call : SessionCall) (desk : Desk) : Prop :=
  match call.op with
  | .openFile _ =>
      if call.fcd.openMode ≠ 128 then call.fcd.isam = false
      else shelf.Describes env call.fcd ∧ call.garbage.buffers.bufs.length = maxCols * rowSize
  | .close => call.fcd.isam = false ∧ (call.fcd.openMode ≠ 128 →
      (desk.relation call.fcd.fileId).isSome ∧ call.fcd.sign = true)
  | .onFile op => call.fcd.isam = false ∧ (op ≠ .commit → call.fcd.openMode ≠ 128 →
      (shelf.files desk).Admits ⟨op, call.fcd, call.garbage⟩)

/-- The process stands for a desk, and no table is scanned. -/
structure Shelf.Stands (shelf : Shelf) (proc : Process) (desk : Desk) : Prop where
  files : (shelf.files desk).Stands proc desk.stores
  idle : ∀ file tab, proc.tables file = some tab → tab.cursor = false
  next : proc.free = desk.next
  fresh : ∀ file, (desk.relation file).isSome → file < desk.next

/-- What is asked of the server and the tables: nothing is refused that leaves the rows of a table
with distinct keys, and the layouts are those of well-formed tables. -/
structure Shelf.Serves (shelf : Shelf) (pg : Postgres) : Prop where
  server : ∀ relation, shelf.kept relation → KeyedServer pg relation (shelf.layout relation).keys
  truncates : ∀ relation db, shelf.kept relation → pg.refusesDdl (.truncate relation) db = false
  tables : ∀ relation, shelf.kept relation → KeyedTable (shelf.layout relation)

/-- A call of `pqfh`, with the fcd that it gives back. -/
def callSession (extfh : Extfh σ) (env : Env) (call : SessionCall) (sys : Sys σ) :
    Except Stop (Fcd × Sys σ) := do
  let sys ← pqfh extfh env call.garbage call.op.opcode { sys with fcd := call.fcd }
  return (sys.fcd, sys)

/-! ## OPEN -/

/-- A table with the columns and the keys of a well-formed table is well formed as it is opened. -/
theorem KeyedTable.opened {tab : Table} (table : KeyedTable tab) (handle relation oid : ℕ)
    (name : List Byte) (partialKey : ℕ) {buffers : Buffers}
    (size : buffers.bufs.length = maxCols * rowSize) :
    KeyedTable (Table.opened handle relation oid name tab.columns tab.keys partialKey buffers) where
  laid := table.laid
  few := table.few
  short := table.short
  size := size
  count := table.count
  primary := table.primary
  keys := table.keys
  once := table.once
  flags := table.flags
  whole := table.whole
  prepared := nofun

section Open

variable {extfh : Extfh σ} {env : Env} {shelf : Shelf} {desk : Desk} {sys : Sys σ} {fcd : Fcd}

/-- `table_info` finds the layout of the table. -/
theorem Shelf.Describes.tableInfo (describes : shelf.Describes env fcd) {proc : Process}
    (stands : shelf.Stands proc desk) (fileId : ℕ) (isam : Bool) :
    Pqfh.tableInfo env proc.conn { fcd with fileId := fileId, isam := isam }
        (baseName fcd.fileName) =
      .ok (.found (shelf.layout (env.pg.relation (baseName fcd.fileName))).columns
        (shelf.layout (env.pg.relation (baseName fcd.fileName))).keys) := by
  obtain ⟨columns, laid, some_, got⟩ := describes.found
  obtain ⟨records, present, _⟩ := stands.files.rows _ describes.kept
  have there : (proc.conn.aborted ||
      (proc.conn.working (env.pg.relation (baseName fcd.fileName))).isNone) = false := by
    rw [stands.files.running, present]
    rfl
  unfold Pqfh.tableInfo
  rw [if_neg (not_lt.mpr describes.short), describes.converted, there]
  dsimp only
  rw [laid, ok_bind, if_neg some_, got]
  rfl

/-- OPEN of a table that `table_info` finds. -/
theorem opOpen_found {kind : OpenKind} {buffers : Buffers} {proc : Process} {columns : List Column}
    {keys : List (List ℕ)} (closed : fcd.openMode = 128) (kept : fcd.isam = false)
    (short : (baseName fcd.fileName).length ≤ maxPrefixo)
    (found : Pqfh.tableInfo env proc.conn { fcd with fileId := proc.free } (baseName fcd.fileName) =
      .ok (.found columns keys)) :
    let relation := env.pg.relation (baseName fcd.fileName)
    let conn := if kind = .output then (proc.conn.execDdl env.pg (.truncate relation)).1
      else proc.conn
    opOpen env kind buffers proc fcd = .ok (({ proc with conn := conn } : Process).allocate
        (Table.opened proc.free relation (env.pg.oid relation) (baseName fcd.fileName) columns keys
          proc.ncomps buffers),
      { fcd with fileId := proc.free, openMode := kind.number, status := stOk, sign := true }) := by
  have name : ¬ maxNameLen < (baseName fcd.fileName).length := by
    unfold maxPrefixo at short
    unfold maxNameLen
    omega
  unfold opOpen
  dsimp only
  rw [if_neg (not_not.mpr closed), if_neg name, found, ok_bind]
  exact if_neg (by rw [kept]; exact Bool.false_ne_true)

/-- The tables after an OPEN. -/
theorem Shelf.Stands.opened {proc : Process} (stands : shelf.Stands proc desk) {relation : ℕ}
    {stores : ℕ → Records (List Byte) (List Byte)} {conn : Conn} {tab : Table}
    (kept : shelf.kept relation)
    (files : (shelf.files desk).Stands { proc with conn := conn } stores)
    (isOpen : (shelf.files desk).Open relation tab) (unread : tab.cursor = false) :
    shelf.Stands (({ proc with conn := conn } : Process).allocate tab)
      { relation := Function.update desk.relation desk.next (some relation)
        next := desk.next + 1
        stores := stores } where
  files := by
    refine ⟨files.running, ?_, files.rows⟩
    intro file other there
    change shelf.kept other ∧ ∃ tab', Function.update proc.tables proc.free (some tab) file =
      some tab' ∧ _
    change Function.update desk.relation desk.next (some relation) file = some other at there
    rw [stands.next]
    by_cases same : file = desk.next
    · subst same
      rw [Function.update_self, Option.some_inj] at there
      subst there
      rw [Function.update_self]
      exact ⟨kept, tab, rfl, isOpen.table, isOpen.named, isOpen.columns, isOpen.keys⟩
    · rw [Function.update_of_ne same] at there ⊢
      obtain ⟨kept', tab', live, isOpen'⟩ := stands.files.tables file other there
      exact ⟨kept', tab', live, isOpen'.table, isOpen'.named, isOpen'.columns, isOpen'.keys⟩
  idle := by
    intro file tab' there
    change Function.update proc.tables proc.free (some tab) file = some tab' at there
    by_cases same : file = proc.free
    · rw [same, Function.update_self, Option.some_inj] at there
      rw [← there]
      exact unread
    · rw [Function.update_of_ne same] at there
      exact stands.idle file tab' there
  next := by
    change proc.free + 1 = desk.next + 1
    rw [stands.next]
  fresh := by
    intro file there
    change (Function.update desk.relation desk.next (some relation) file).isSome = true at there
    by_cases same : file = desk.next
    · rw [same]
      exact Nat.lt_succ_self _
    · rw [Function.update_of_ne same] at there
      exact (stands.fresh file there).trans (Nat.lt_succ_self _)

/-- In mode B an OPEN goes to `op_open`. -/
theorem pqfh_opens {garbage : Garbage} {kind : OpenKind} (mode : env.mode = .B)
    (closed : sys.fcd.openMode = 128) : pqfh extfh env garbage (.openFile kind) sys =
      openBoth extfh env garbage.buffers kind (sys.setIsam false) := by
  simp [pqfh, direct, databaseOp, Opcode.updates, mode, closed, Sys.setIsam]

/-- An OPEN of a file that is open is refused. -/
theorem pqfh_opened {garbage : Garbage} {kind : OpenKind} (mode : env.mode = .B)
    (kept : sys.fcd.isam = false) (opened : sys.fcd.openMode ≠ 128) :
    pqfh extfh env garbage (.openFile kind) sys = .ok (sys.setStatus stAlreadyOpened) := by
  have refused : sys.onProcess (opOpen env kind garbage.buffers) =
      .ok (sys.setStatus stAlreadyOpened) := by
    unfold Sys.onProcess opOpen
    rw [if_pos opened]
    rfl
  rw [pqfh_database mode kept (by exact nofun)]
  change (if env.mode = .W then _ else openBoth extfh env garbage.buffers kind sys) = _
  rw [if_neg (by rw [mode]; exact nofun)]
  unfold openBoth
  rw [refused]
  refine (if_neg ?_).trans (if_pos mode)
  change ¬ sys.fcd.isam = true
  rw [kept]
  exact Bool.false_ne_true

/-- In mode B a CLOSE goes to `op_close`. -/
theorem pqfh_closes {garbage : Garbage} (mode : env.mode = .B)
    (kept : sys.fcd.isam = false) :
    pqfh extfh env garbage .close sys = sys.onProcess opClose := by
  rw [pqfh_database mode kept (by exact nofun)]
  change closeBoth extfh env sys = _
  unfold closeBoth
  rw [mode]

/-- OPEN of a file of the shelf. -/
theorem Shelf.Stands.open (stands : shelf.Stands sys.proc desk) (serves : shelf.Serves env.pg)
    (mode : env.mode = .B) {garbage : Garbage} (kind : OpenKind)
    (closed : sys.fcd.openMode = 128) (describes : shelf.Describes env sys.fcd)
    (size : garbage.buffers.bufs.length = maxCols * rowSize) :
    let served := shelf.serve env ⟨.openFile kind, sys.fcd, garbage⟩ desk
    ∃ sys', pqfh extfh env garbage (.openFile kind) sys = .ok sys' ∧ sys'.fcd = served.1 ∧
      shelf.Stands sys'.proc served.2 := by
  let relation := env.pg.relation (baseName sys.fcd.fileName)
  let conn := if kind = .output then (sys.proc.conn.execDdl env.pg (.truncate relation)).1
    else sys.proc.conn
  let tab := Table.opened sys.proc.free relation (env.pg.oid relation) (baseName sys.fcd.fileName)
    (shelf.layout relation).columns (shelf.layout relation).keys sys.proc.ncomps garbage.buffers
  let fcd : Fcd := { sys.fcd with
    isam := false, fileId := sys.proc.free, openMode := kind.number, status := stOk, sign := true }
  have table := serves.tables relation describes.kept
  have isOpen : (shelf.files desk).Open relation tab :=
    ⟨table.opened _ _ _ _ _ size, rfl, rfl, rfl⟩
  have opened : opOpen env kind garbage.buffers sys.proc { sys.fcd with isam := false } =
      .ok (({ sys.proc with conn := conn } : Process).allocate tab, fcd) :=
    opOpen_found closed rfl describes.short (describes.tableInfo stands sys.proc.free false)
  refine ⟨{ sys with proc := ({ sys.proc with conn := conn } : Process).allocate tab, fcd := fcd },
    ?_, ?_, ?_⟩
  · rw [pqfh_opens mode closed]
    unfold openBoth Sys.onProcess
    change (opOpen env kind garbage.buffers sys.proc { sys.fcd with isam := false } >>= _) >>= _ = _
    rw [opened]
    simp only [ok_bind, mode]
    rfl
  · unfold Shelf.serve
    dsimp only
    rw [if_neg (not_not.mpr closed), ← stands.next]
  · have files : (shelf.files desk).Stands { sys.proc with conn := conn }
        (if kind = .output then Function.update desk.stores relation fun _ => none
          else desk.stores) := by
      by_cases output : kind = .output
      · have truncated := stands.files.truncate describes.kept
          (serves.truncates relation sys.proc.conn.working describes.kept)
        simpa only [conn, output, ↓reduceIte] using truncated
      · simpa only [conn, output, ↓reduceIte] using stands.files
    have after := stands.opened describes.kept files isOpen rfl
    unfold Shelf.serve
    dsimp only
    rw [if_neg (not_not.mpr closed)]
    exact after

/-- CLOSE of a file that is open. -/
theorem Shelf.Stands.close (stands : shelf.Stands sys.proc desk) (mode : env.mode = .B)
    {garbage : Garbage} (opened : sys.fcd.openMode ≠ 128) (kept : sys.fcd.isam = false)
    (known : (desk.relation sys.fcd.fileId).isSome) (sign : sys.fcd.sign = true) :
    let served := shelf.serve env ⟨.close, sys.fcd, garbage⟩ desk
    ∃ sys', pqfh extfh env garbage .close sys = .ok sys' ∧ sys'.fcd = served.1 ∧
      shelf.Stands sys'.proc served.2 := by
  obtain ⟨relation, here⟩ := Option.isSome_iff_exists.mp known
  obtain ⟨_, tab, live, isOpen⟩ := stands.files.tables _ relation here
  let proc : Process := { sys.proc with
    weak := sys.proc.weak.erase tab.name
    pendingCommits := if 0 < tab.advisoryLock then sys.proc.pendingCommits + 1
      else sys.proc.pendingCommits
    tables := Function.update sys.proc.tables sys.fcd.fileId none }
  have closed : opClose sys.proc sys.fcd =
      .ok (proc, { sys.fcd with openMode := 128, status := stOk }) := by
    unfold opClose
    rw [if_neg opened, live]
    dsimp only
    rw [stands.idle _ _ live, sign]
    rfl
  refine ⟨{ sys with proc := proc, fcd := { sys.fcd with openMode := 128, status := stOk } },
    ?_, ?_, ?_⟩
  · rw [pqfh_closes mode kept]
    unfold Sys.onProcess
    rw [closed]
    rfl
  · unfold Shelf.serve
    dsimp only
    rw [if_neg opened]
  · unfold Shelf.serve
    dsimp only
    rw [if_neg opened]
    refine ⟨⟨stands.files.running, ?_, stands.files.rows⟩, ?_, stands.next, ?_⟩
    · intro file other there
      change Function.update desk.relation sys.fcd.fileId none file = some other at there
      change shelf.kept other ∧ ∃ tab', Function.update sys.proc.tables sys.fcd.fileId none file =
        some tab' ∧ _
      by_cases same : file = sys.fcd.fileId
      · rw [same, Function.update_self] at there
        cases there
      · rw [Function.update_of_ne same] at there ⊢
        obtain ⟨kept', tab', live', isOpen'⟩ := stands.files.tables file other there
        exact ⟨kept', tab', live', isOpen'.table, isOpen'.named, isOpen'.columns, isOpen'.keys⟩
    · intro file tab' there
      change Function.update sys.proc.tables sys.fcd.fileId none file = some tab' at there
      by_cases same : file = sys.fcd.fileId
      · rw [same, Function.update_self] at there
        cases there
      · rw [Function.update_of_ne same] at there
        exact stands.idle file tab' there
    · intro file there
      change (Function.update desk.relation sys.fcd.fileId none file).isSome = true at there
      by_cases same : file = sys.fcd.fileId
      · rw [same, Function.update_self] at there
        cases there
      · rw [Function.update_of_ne same] at there
        exact stands.fresh file there

end Open

/-! ## Calls -/

section Calls

variable {extfh : Extfh σ} {env : Env} {shelf : Shelf}

/-- An operation on a file that is not open is refused. -/
theorem pqfh_closed {sys : Sys σ} {garbage : Garbage} {op : FileOp} (mode : env.mode = .B)
    (kept : sys.fcd.isam = false) (other : op ≠ .commit) (closed : sys.fcd.openMode = 128) :
    pqfh extfh env garbage op.opcode sys = .ok (sys.setStatus op.closedStatus) := by
  have run : ∀ status op, sys.run status op = .ok (sys.setStatus status) := by
    intro status op
    unfold Sys.run
    rw [if_pos closed]
  have shadow : ∀ ran : Except Stop (Sys σ), unlessShadow env sys ran = ran := by
    intro ran
    unfold unlessShadow
    rw [mode, if_neg (by decide)]
  cases op with
  | read lock =>
      cases lock with
      | false => exact (pqfh_database mode kept (by exact nofun)).trans ((shadow _).trans (run _ _))
      | true => exact (pqfh_database mode kept (by exact nofun)).trans ((shadow _).trans (run _ _))
  | write =>
      refine (pqfh_database mode kept (by exact nofun)).trans ?_
      change writeBoth extfh env sys = _
      unfold writeBoth
      rw [run, mode]
      rfl
  | rewrite =>
      refine (pqfh_database mode kept (by exact nofun)).trans ?_
      change rewriteBoth extfh env [] sys = _
      unfold rewriteBoth Sys.opRewrite
      rw [if_pos closed, mode]
      rfl
  | delete =>
      refine (pqfh_database mode kept (by exact nofun)).trans ?_
      change deleteBoth extfh env sys = _
      unfold deleteBoth
      rw [run, mode]
      rfl
  | commit => exact absurd rfl other

/-- COMMIT asks for no file. -/
theorem Shelf.Stands.commit {sys : Sys σ} {desk : Desk} (stands : shelf.Stands sys.proc desk)
    (mode : env.mode = .B) {garbage : Garbage} (kept : sys.fcd.isam = false) :
    pqfh extfh env garbage .commit sys = .ok sys.pqfhCommit ∧
      shelf.Stands sys.pqfhCommit.proc desk := by
  refine ⟨?_, stands.files.commit, stands.idle, stands.next, stands.fresh⟩
  simp [pqfh, direct, databaseOp, Opcode.updates, mode, Sys.pqfhCommit, kept]

/-- A call of a session does what it does on indexed files. -/
theorem callSession_refines (mode : env.mode = .B) (serves : shelf.Serves env.pg)
    (call : SessionCall) (sys : Sys σ) (desk : Desk) (admits : shelf.Admits env call desk)
    (stands : shelf.Stands sys.proc desk) :
    ∃ sys', callSession extfh env call sys = .ok ((shelf.serve env call desk).1, sys') ∧
      shelf.Stands sys'.proc (shelf.serve env call desk).2 := by
  obtain ⟨op, fcd, garbage⟩ := call
  have stands' : shelf.Stands ({ sys with fcd := fcd } : Sys σ).proc desk := stands
  have answered : ∀ {answer : Fcd} {sys' : Sys σ},
      pqfh extfh env garbage op.opcode { sys with fcd := fcd } = .ok sys' → sys'.fcd = answer →
      callSession extfh env ⟨op, fcd, garbage⟩ sys = .ok (answer, sys') := by
    intro answer sys' called same
    unfold callSession
    rw [called, ok_bind, same]
    rfl
  cases op with
  | openFile kind =>
      by_cases closed : fcd.openMode = 128
      · unfold Shelf.Admits at admits
        dsimp only at admits
        rw [if_neg (not_not.mpr closed)] at admits
        obtain ⟨sys', called, same, after⟩ := @Shelf.Stands.open σ extfh env shelf desk
          { sys with fcd := fcd } stands' serves mode garbage kind closed admits.1 admits.2
        exact ⟨sys', answered called same, after⟩
      · unfold Shelf.Admits at admits
        dsimp only at admits
        rw [if_pos closed] at admits
        unfold Shelf.serve
        dsimp only
        rw [if_pos closed]
        exact ⟨_, answered (@pqfh_opened σ extfh env { sys with fcd := fcd } garbage kind mode
          admits closed) rfl, stands⟩
  | close =>
      obtain ⟨kept, known⟩ := admits
      by_cases closed : fcd.openMode = 128
      · unfold Shelf.serve
        dsimp only
        rw [if_pos closed]
        refine ⟨Sys.setStatus { sys with fcd := fcd } stAlreadyClosed, answered ?_ rfl, stands⟩
        refine (pqfh_closes mode kept).trans ?_
        unfold Sys.onProcess opClose
        rw [if_pos closed]
        rfl
      · obtain ⟨sys', called, same, after⟩ := @Shelf.Stands.close σ extfh env shelf desk
          { sys with fcd := fcd } stands' mode garbage closed kept (known closed).1 (known closed).2
        exact ⟨sys', answered called same, after⟩
  | onFile op =>
      obtain ⟨kept, admits⟩ := admits
      by_cases commit : op = .commit
      · subst commit
        obtain ⟨called, after⟩ :=
          @Shelf.Stands.commit σ extfh env shelf { sys with fcd := fcd } desk
          stands' mode garbage kept
        have served : shelf.serve env ⟨.onFile .commit, fcd, garbage⟩ desk = (fcd, desk) := by
          unfold Shelf.serve FileSet.serve
          cases here : desk.relation fcd.fileId with
          | none => simp [Shelf.files, here, FileSet.answer]
          | some relation => simp [Shelf.files, here, FileSet.answer, FileOp.request]
        rw [served]
        exact ⟨_, answered called rfl, after⟩
      · by_cases closed : fcd.openMode = 128
        · unfold Shelf.serve
          dsimp only
          rw [if_pos ⟨commit, closed⟩]
          exact ⟨_, answered (pqfh_closed mode kept commit closed) rfl, stands⟩
        · obtain ⟨sys', called, files, free, scans⟩ := @callFile_refines σ extfh env
            (shelf.files desk) mode (fun file relation there => serves.server relation
              (stands.files.tables file relation there).1) ⟨op, fcd, garbage⟩ sys desk.stores
              (admits commit closed) stands.files
          unfold Shelf.serve
          dsimp only
          rw [if_neg fun refused => closed refused.2]
          refine ⟨sys', called, files, ?_, free.trans stands.next, stands.fresh⟩
          intro file tab' there
          obtain ⟨tab, live, scanned⟩ := scans.tables file tab' there
          exact scanned.cursor.trans (stands.idle file tab live)

end Calls

/-- The key definition block of the people: a key of each column. -/
def peopleKeys : ℕ → Byte
  | 1 => 66
  | 7 => 2
  | 15 | 31 | 55 | 61 | 65 => 1
  | 17 => 46
  | 33 => 56
  | _ => 0

/-- A server whose catalog has the table of people. -/
def peopleServer : Env :=
  { plainServer with pg := { plainServer.pg with catalog := fun _ =>
      [⟨"codigo", .numeric 1 0 one_digit no_decimals_of_one⟩,
        ⟨"cidade", .character 1 one_digit⟩] } }

def peopleShelf : Shelf := ⟨(· = 1), fun _ => peopleTable⟩

theorem peopleShelf_serves : peopleShelf.Serves peopleServer.pg where
  server := fun _ _ => ⟨fun _ _ _ _ _ _ => rfl, fun _ _ => rfl⟩
  truncates := fun _ _ _ => rfl
  tables := fun _ _ => peopleTable_keyed

/-- The process before the program opens the people. -/
def peopleShut : Sys Unit :=
  { peopleOpen with proc := { peopleOpen.proc with tables := fun _ => none } }

def shutDesk : Desk :=
  ⟨fun _ => none, 1, fun _ => ofList (peopleTable.keyOf 0) [[49, 65], [50, 65]]⟩

theorem peopleShut_stands : peopleShelf.Stands peopleShut.proc shutDesk where
  files := ⟨rfl, nofun, peopleOpen_stands.rows⟩
  idle := nofun
  next := rfl
  fresh := nofun

/-- The fcd of a program that has the people open, and of one that has not. -/
def heldFcd (file openMode : ℕ) (record : List Byte) : Fcd :=
  { openedFcd 0 record with openMode := openMode, kdb := peopleKeys, fileId := file }

def shutFcd : Fcd := heldFcd 0 128 [0, 0]

def opens (kind : OpenKind) : SessionCall :=
  ⟨.openFile kind, shutFcd, ⟨fun _ => 0, fun _ => 0, clearBuffers maxCols⟩⟩

def works (op : FileOp) (file openMode : ℕ) (record : List Byte) : SessionCall :=
  ⟨.onFile op, heldFcd file openMode record, noGarbage⟩

def closes (file openMode : ℕ) : SessionCall := ⟨.close, heldFcd file openMode [0, 0], noGarbage⟩

theorem opens_admits (kind : OpenKind) (desk : Desk) :
    peopleShelf.Admits peopleServer (opens kind) desk := by
  refine ⟨⟨Nat.zero_le _, rfl, rfl, ?_⟩, List.length_replicate⟩
  have got : getkeys peopleKeys (peopleTable.columns.map fun col => { col with pk := false }) =
      .ok (peopleTable.columns, peopleTable.keys) := by decide +kernel
  exact ⟨_, rfl, by exact List.cons_ne_nil _ _, got⟩

theorem works_admits {op : FileOp} {file openMode : ℕ} {record : List Byte} {desk : Desk}
    (known : openMode ≠ 128 → desk.relation file = some 1) (room : 2 ≤ record.length)
    (probe : KeyOk peopleTable 0 record)
    (storable : op = .write ∨ op = .rewrite → Storable peopleTable record) :
    peopleShelf.Admits peopleServer (works op file openMode record) desk := by
  refine ⟨rfl, fun _ opened => ?_⟩
  exact ⟨Option.isSome_of_mem (known opened), opened, rfl, rfl, fun _ _ => room,
    fun _ _ => probe, fun changes _ _ => storable changes⟩

end Pqfh
