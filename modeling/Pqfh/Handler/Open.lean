import Pqfh.Handler.Scan

/-! # Opening and closing

`op_open` finds out what the catalog says of a table (`table_info`) and makes a table that
is missing (`create_table`). `op_close` gives the table back, and `op_delete_file` drops it.

The process has one connection and any number of open tables, each at an address that the
fcd keeps in `file_id`. The cache of the catalog, which is off unless a command turns it on,
is left out.
-/

namespace Pqfh

def stFileNotFound : Status := (51, 53)
def stAlreadyOpened : Status := (52, 49)
def stAlreadyClosed : Status := (52, 50)

/-- The connection, the variables of the process and its open tables. -/
structure Process where
  conn : Conn
  pendingCommits : ℕ
  inTransaction : Bool
  eofStart : Bool
  /-- The names of the tables accessed as weak entities. -/
  weak : List (List Byte)
  /-- `ncomps`, set for the next OPEN by the command PARTIAL. -/
  ncomps : ℕ
  /-- The live tables by their addresses. -/
  tables : ℕ → Option Table
  /-- The address that the next table gets. -/
  free : ℕ

/-- `MAX_NAME_LEN`. -/
def maxNameLen : ℕ := 50

/-- The name of a table: the name of the file up to a blank, without directories. -/
def baseName (fileName : List Byte) : List Byte :=
  (((cstr fileName).takeWhile (· ≠ 32)).reverse.takeWhile (· ≠ 47)).reverse

/-! ## table_info -/

/-- The loop of `table_info` over the columns, from an offset on. Columns past the record are
passed over. -/
def layColumns (reclen : ℕ) : ℕ → List CatalogColumn → Except Stop (List Column)
  | _, [] => .ok []
  | offset, col :: rest =>
      if maxNameLen < col.name.utf8ByteSize then .error .undefined
      else
        match col.type with
        | .other => .error .exit
        | .numeric len dec len_pos dec_le => do
            let later ← layColumns reclen (offset + len) rest
            return if offset < reclen then
              ⟨col.name, .numeric, len, dec, offset, false, len_pos, dec_le⟩ :: later else later
        | .character len len_pos => do
            let later ← layColumns reclen (offset + len) rest
            return if offset < reclen then
              ⟨col.name, .character, len, 0, offset, false, len_pos, Nat.zero_le _⟩ :: later
              else later

/-- The column that the loop makes at an offset, unless it does not know the type. -/
def CatalogColumn.laid (col : CatalogColumn) (offset : ℕ) : Option Column :=
  match col.type with
  | .other => none
  | .numeric len dec len_pos dec_le =>
      some ⟨col.name, .numeric, len, dec, offset, false, len_pos, dec_le⟩
  | .character len len_pos =>
      some ⟨col.name, .character, len, 0, offset, false, len_pos, Nat.zero_le _⟩

theorem CatalogColumn.laid_offset {col : CatalogColumn} {offset : ℕ} {first : Column}
    (laid : col.laid offset = some first) : first.offset = offset := by
  unfold CatalogColumn.laid at laid
  split at laid <;> cases laid <;> rfl

theorem CatalogColumn.exists_laid {col : CatalogColumn} {offset : ℕ} :
    (∃ first, col.laid offset = some first) ↔ col.type ≠ .other := by
  unfold CatalogColumn.laid
  cases col.type with
  | other => exact ⟨nofun, fun known => absurd rfl known⟩
  | numeric => exact ⟨fun _ => nofun, fun _ => ⟨_, rfl⟩⟩
  | character => exact ⟨fun _ => nofun, fun _ => ⟨_, rfl⟩⟩

/-- One step of the loop. -/
theorem layColumns_cons {reclen offset : ℕ} {col : CatalogColumn} {rest : List CatalogColumn}
    {columns : List Column} : layColumns reclen offset (col :: rest) = .ok columns ↔
      col.name.utf8ByteSize ≤ maxNameLen ∧ ∃ first later, col.laid offset = some first ∧
        layColumns reclen (offset + first.len) rest = .ok later ∧
          columns = if offset < reclen then first :: later else later := by
  unfold CatalogColumn.laid
  rw [layColumns]
  by_cases long : maxNameLen < col.name.utf8ByteSize
  · rw [if_pos long]
    exact ⟨nofun, fun fits => absurd fits.1 (Nat.not_le.mpr long)⟩
  · rw [if_neg long]
    have short := Nat.not_lt.mp long
    cases col.type with
    | other => exact ⟨nofun, by rintro ⟨_, _, _, made, _⟩; cases made⟩
    | numeric | character =>
        constructor
        · intro laid
          obtain ⟨later, more, ended⟩ := bind_eq_ok.mp laid
          cases ended
          exact ⟨short, _, later, rfl, more, rfl⟩
        · rintro ⟨_, _, later, made, more, rfl⟩
          cases made
          exact bind_eq_ok.mpr ⟨later, more, rfl⟩

theorem layColumns_past {reclen : ℕ} : ∀ {offset : ℕ} {catalog : List CatalogColumn}
    {columns : List Column}, layColumns reclen offset catalog = .ok columns → reclen ≤ offset →
    columns = [] := by
  intro offset catalog
  induction catalog generalizing offset with
  | nil =>
      intro columns laid _
      cases laid
      rfl
  | cons col rest ih =>
      intro columns laid past
      obtain ⟨_, first, later, _, more, rfl⟩ := layColumns_cons.mp laid
      rw [if_neg (Nat.not_lt.mpr past)]
      exact ih more (past.trans (Nat.le_add_right _ _))

/-- What `table_info` finds: a file that is not kept in the database, no table, or a table. -/
inductive TableInfo where
  | isam
  | missing
  | found (columns : List Column) (keys : List (List ℕ))

/-- The size of the buffer `prefixo` of `nome_dicionario` without its NUL. -/
def maxPrefixo : ℕ := 32

/-- `table_info`. -/
def tableInfo (env : Env) (conn : Conn) (fcd : Fcd) (name : List Byte) : Except Stop TableInfo :=
  if maxPrefixo < name.length then .error .undefined
  else if !env.convertida (env.nomeDicionario name) then .ok .isam
  else if conn.aborted || (conn.working (env.pg.relation name)).isNone then .ok .missing
  else do
    let columns ← layColumns fcd.record.length 0 (env.pg.catalog (env.pg.relation name))
    if columns = [] then return .missing
    else
      let (columns, keys) ← getkeys fcd.kdb columns
      return .found columns keys

/-! ## create_table -/

/-- The part of a text before the first place where another stands, and the part after it. -/
def strstr (pattern : List Byte) : List Byte → Option (List Byte × List Byte)
  | [] => if pattern = [] then some ([], []) else none
  | byte :: rest =>
      if pattern.isPrefixOf (byte :: rest) then some ([], (byte :: rest).drop pattern.length)
      else (strstr pattern rest).map fun parts => (byte :: parts.1, parts.2)

/-- A text in a buffer of 257 bytes. -/
def inBuffer (text : List Byte) : Except Stop (List Byte) :=
  if maxColLen < text.length then .error .undefined else .ok text

/-- The loop of `create_table` that puts the name of the new table for that of the
dictionary. There are fewer texts than the first argument at the start, so that a run that
uses it up has come to a text twice and does not end. -/
def replaceNames (dictname name : List Byte) : ℕ → List Byte → Except Stop (List Byte)
  | 0, _ => .error .undefined
  | n + 1, indexdef =>
      match strstr dictname indexdef with
      | none => .ok indexdef
      | some (before, after) => do
          let indexdef ← inBuffer (before ++ name ++ after)
          replaceNames dictname name n indexdef

/-- The definition of an index of the new table. -/
def renameIndex (dictname name indexname indexdef : List Byte) : Except Stop (List Byte) := do
  let indexname ← inBuffer indexname
  let indexdef ← inBuffer indexdef
  let indexdef ← match strstr indexname indexdef with
    | none => .ok indexdef
    | some (before, after) => inBuffer (before ++ indexname ++ 95 :: name ++ after)
  replaceNames dictname name (256 ^ 257) indexdef

/-- The loop of `create_table` over the indexes. The result of an index that is refused is
freed twice. -/
def createIndexes (env : Env) (dictname name : List Byte) :
    List (List Byte × List Byte) → Conn → Except Stop Conn
  | [], conn => .ok conn
  | (indexname, indexdef) :: rest, conn => do
      let indexdef ← renameIndex dictname name indexname indexdef
      match conn.execDdl env.pg (.index (env.pg.relation name) indexdef) with
      | (_, false) => .error .undefined
      | (conn, true) => createIndexes env dictname name rest conn

/-- `create_table`: the connection after, and whether it came to the COMMIT. -/
def createTable (env : Env) (conn : Conn) (dictname name : List Byte) : Except Stop (Conn × Bool) :=
  match conn.execDdl env.pg (.create (env.pg.relation name) (env.pg.relation dictname)) with
  | (conn, false) => .ok (conn, false)
  | (conn, true) => do
      let conn ← createIndexes env dictname name (env.pg.indexes (env.pg.relation dictname)) conn
      return (conn.commit, true)

/-! ## op_open -/

/-- The modes of an OPEN, in the order of their numbers. -/
inductive OpenKind where
  | input
  | output
  | io
  | extend
  deriving Repr, DecidableEq

/-- `opcode - 0xfa00`. -/
def OpenKind.number : OpenKind → ℕ
  | .input => 0
  | .output => 1
  | .io => 2
  | .extend => 3

/-- A table with the columns and keys that `table_info` found. -/
def TableInfo.table (info : TableInfo) (env : Env) (proc : Process) (name : List Byte)
    (buffers : Buffers) : Table :=
  let relation := env.pg.relation name
  match info with
  | .found columns keys =>
      Table.opened proc.free relation (env.pg.oid relation) name columns keys proc.ncomps buffers
  | _ => Table.opened proc.free relation 0 name [] [] proc.ncomps buffers

/-- Keep a new table at its address. -/
def Process.allocate (proc : Process) (table : Table) : Process :=
  { proc with
    tables := Function.update proc.tables proc.free (some table)
    free := proc.free + 1
    ncomps := 0 }

/-- The part of `op_open` for a table that `table_info` did not find. -/
def openMissing (env : Env) (kind : OpenKind) (buffers : Buffers) (name : List Byte)
    (proc : Process) (fcd : Fcd) : Except Stop (Process × Fcd) :=
  let fcd := { fcd with status := stFileNotFound }
  if !fcd.isam && kind ≠ .input && name ≠ env.nomeDicionario name then do
    let (conn, done) ← createTable env proc.conn (env.nomeDicionario name) name
    let info ← tableInfo env conn fcd name
    let proc := { proc with conn := conn }
    return (proc.allocate (info.table env proc name buffers),
      if done then { fcd with openMode := 0, status := stOk, sign := true }
      else { fcd with sign := true })
  else if fcd.isam then
    -- the table is freed at once
    return ({ proc with free := proc.free + 1, ncomps := 0 }, fcd)
  else return (proc.allocate (TableInfo.missing.table env proc name buffers),
    { fcd with sign := true })

/-- `op_open` on a file that is not the control file. -/
def opOpen (env : Env) (kind : OpenKind) (buffers : Buffers) (proc : Process) (fcd : Fcd) :
    Except Stop (Process × Fcd) :=
  if fcd.openMode ≠ 128 then .ok (proc, { fcd with status := stAlreadyOpened })
  else
    let name := baseName fcd.fileName
    if maxNameLen < name.length then .error .undefined
    else do
      let fcd := { fcd with fileId := proc.free }
      match ← tableInfo env proc.conn fcd name with
      | .isam =>
          return ({ proc with free := proc.free + 1, ncomps := 0 },
            { fcd with isam := true, status := stFileNotFound })
      | .missing => openMissing env kind buffers name proc fcd
      | .found columns keys =>
          let conn := if kind = .output then
            (proc.conn.execDdl env.pg (.truncate (env.pg.relation name))).1 else proc.conn
          let proc := { proc with conn := conn }
          let fcd := { fcd with openMode := kind.number, status := stOk }
          if fcd.isam then return ({ proc with free := proc.free + 1, ncomps := 0 }, fcd)
          else return (proc.allocate ((TableInfo.found columns keys).table env proc name buffers),
            { fcd with sign := true })

/-! ## op_close and op_delete_file -/

/-- `commit`. -/
def Process.commit (proc : Process) : Process :=
  { proc with
    conn := proc.conn.commit
    pendingCommits := 0 }

/-- `op_close` on a file that is not the control file. -/
def opClose (proc : Process) (fcd : Fcd) : Except Stop (Process × Fcd) :=
  if fcd.openMode = 128 then .ok (proc, { fcd with status := stAlreadyClosed })
  else
    match proc.tables fcd.fileId with
    | none => .error .undefined
    | some tab =>
        let conn := if tab.cursor then proc.conn.closeCursor tab.handle else proc.conn
        .ok ({ proc with
          conn := conn
          weak := proc.weak.erase tab.name
          pendingCommits := if 0 < tab.advisoryLock then proc.pendingCommits + 1
            else proc.pendingCommits
          tables := Function.update proc.tables fcd.fileId (if fcd.sign then none else
            some { tab with cursor := false, advisoryLock := 0 }) },
          { fcd with openMode := 128, status := stOk })

/-- `op_delete_file`. -/
def opDeleteFile (env : Env) (proc : Process) (fcd : Fcd) : Except Stop (Process × Fcd) :=
  let fcd := { fcd with status := stError }
  if fcd.openMode ≠ 128 then .ok (proc, fcd)
  else
    let name := baseName fcd.fileName
    if maxNameLen < name.length then .error .undefined
    else do
      match ← tableInfo env proc.conn fcd name with
      | .isam => return (proc, { fcd with isam := true, status := stOk })
      | .missing => return (proc, { fcd with status := stOk })
      | .found _ _ =>
          match proc.conn.execDdl env.pg (.drop (env.pg.relation name)) with
          | (conn, false) => return ({ proc with conn := conn }, fcd)
          | (conn, true) => return ({ proc with conn := conn }.commit, { fcd with status := stOk })

end Pqfh
