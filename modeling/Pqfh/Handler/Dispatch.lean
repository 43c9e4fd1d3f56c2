import Pqfh.Handler.Open

/-! # The dispatcher

`pqfh` is called for every operation of a COBOL program on a file. It works in one of four
modes: the native file handler `EXTFH` alone (I), `EXTFH` and then the database, whose
answer is only logged (W), both with the database deciding (A), and the database alone (B).
Files marked `isam` always go to `EXTFH`.

The native file handler is a function of its files and the fcd. `pqfh` is the handler of a data
file: by their names the control file, whose records are commands, and the JSON files are told
apart from these (`DataFile`, `pqfhNamed`). The files in memory are left out.
-/

namespace Pqfh

/-- The operations of a file. -/
inductive Opcode where
  | openFile (kind : OpenKind)
  | close
  | start (op : Comparison)
  | readNext
  | readPrevious
  | readRandom
  | readLock
  | unlock
  | write
  | rewrite
  | delete
  | deleteFile
  | commit
  | other
  deriving Repr, DecidableEq

/-- `EXTFH`: what a call makes of the files and of the fcd. -/
abbrev Extfh (σ : Type) := Opcode → σ → Fcd → σ × Fcd

/-- The files of `EXTFH`, the process and the fcd of the caller. -/
structure Sys (σ : Type) where
  files : σ
  proc : Process
  fcd : Fcd

/-- What the memory holds that a call uses without setting it. -/
structure Garbage where
  stack : ℕ → Byte
  inner : ℕ → Byte
  buffers : Buffers

variable {σ : Type}

/-- `EXTFH(opcode, fcd)`. -/
def Sys.extfh (extfh : Extfh σ) (opcode : Opcode) (sys : Sys σ) : Sys σ :=
  { sys with
    files := (extfh opcode sys.files sys.fcd).1
    fcd := (extfh opcode sys.files sys.fcd).2 }

def Sys.setStatus (sys : Sys σ) (status : Status) : Sys σ :=
  { sys with fcd := { sys.fcd with status := status } }

def Sys.setRecord (sys : Sys σ) (record : List Byte) : Sys σ :=
  { sys with fcd := { sys.fcd with record := record } }

def Sys.setOpenMode (sys : Sys σ) (openMode : ℕ) : Sys σ :=
  { sys with fcd := { sys.fcd with openMode := openMode } }

def Sys.setIsam (sys : Sys σ) (isam : Bool) : Sys σ :=
  { sys with fcd := { sys.fcd with isam := isam } }

/-- `pqfh_commit`. -/
def Sys.pqfhCommit (sys : Sys σ) : Sys σ :=
  { sys with proc := { sys.proc with inTransaction := false }.commit }

/-- The open table of the fcd with what an operation works on. -/
def Sys.state (sys : Sys σ) (tab : Table) : State :=
  ⟨sys.proc.conn, sys.proc.pendingCommits, sys.proc.eofStart, tab, sys.fcd⟩

/-- The system after an operation on the open table. -/
def Sys.put (sys : Sys σ) (st : State) : Sys σ :=
  { sys with
    proc := { sys.proc with
      conn := st.conn
      pendingCommits := st.pendingCommits
      eofStart := st.eofStart
      tables := Function.update sys.proc.tables sys.fcd.fileId (some st.tab) }
    fcd := st.fcd }

/-- An operation on the open table. -/
def Sys.onTable {α : Type} (sys : Sys σ) (op : State → Except Stop (α × State)) :
    Except Stop (α × Sys σ) :=
  match sys.proc.tables sys.fcd.fileId with
  | none => .error .undefined
  | some tab => do
      let (result, st) ← op (sys.state tab)
      return (result, sys.put st)

/-- An operation that returns nothing, on a file that may be closed. -/
def Sys.run (sys : Sys σ) (closed : Status) (op : State → Except Stop State) :
    Except Stop (Sys σ) :=
  if sys.fcd.openMode = 128 then .ok (sys.setStatus closed)
  else Prod.snd <$> sys.onTable fun st => ((), ·) <$> op st

/-- `op_rewrite` on a file that may be closed. -/
def Sys.opRewrite (env : Env) (sys : Sys σ) : Except Stop (Bool × Sys σ) :=
  if sys.fcd.openMode = 128 then .ok (false, sys.setStatus stNotOpenedUpdel)
  else sys.onTable (Pqfh.opRewrite env)

/-- An operation on the process. -/
def Sys.onProcess (sys : Sys σ) (op : Process → Fcd → Except Stop (Process × Fcd)) :
    Except Stop (Sys σ) := do
  let (proc, fcd) ← op sys.proc sys.fcd
  return { sys with proc := proc, fcd := fcd }

/-! ## The branches of the switch -/

/-- OPEN, outside mode W. -/
def openBoth (extfh : Extfh σ) (env : Env) (buffers : Buffers) (kind : OpenKind) (sys : Sys σ) :
    Except Stop (Sys σ) := do
  let sys ← sys.onProcess (opOpen env kind buffers)
  if sys.fcd.isam then return sys.extfh extfh (.openFile kind)
  else if env.mode = .B then return sys
  else if sys.fcd.status = stOk then
    let sys := (sys.setOpenMode 128).extfh extfh (.openFile kind)
    if sys.fcd.status ≠ stOk then
      -- the file is closed in the database, and the caller gets the status of EXTFH
      let closed ← sys.onProcess opClose
      return closed.setStatus sys.fcd.status
    else return sys
  else return sys

/-- OPEN in mode W. Only files opened I-O go on to the database. -/
def openShadow (env : Env) (buffers : Buffers) (kind : OpenKind) (sys : Sys σ) :
    Except Stop (Sys σ) :=
  if kind = .io then do
    let opened ← (sys.setOpenMode 128).onProcess (opOpen env kind buffers)
    return (opened.setOpenMode sys.fcd.openMode).setStatus sys.fcd.status
  else .ok (sys.setIsam true)

/-- CLOSE. -/
def closeBoth (extfh : Extfh σ) (env : Env) (sys : Sys σ) : Except Stop (Sys σ) :=
  match env.mode with
  | .W => do
      let closed ← (sys.setOpenMode 2).onProcess opClose
      return (closed.setOpenMode sys.fcd.openMode).setStatus sys.fcd.status
  | .B => sys.onProcess opClose
  | _ => do
      let closed ← sys.onProcess opClose
      return (closed.setOpenMode sys.fcd.openMode).extfh extfh .close

/-- The undoing of a WRITE in `EXTFH`. -/
def undoWrite (extfh : Extfh σ) (sys : Sys σ) : Sys σ :=
  (sys.extfh extfh .delete).setStatus sys.fcd.status

/-- The undoing of a REWRITE in `EXTFH`. -/
def undoRewrite (extfh : Extfh σ) (undo : List Byte) (sys : Sys σ) : Sys σ :=
  (((sys.setRecord undo).extfh extfh .rewrite).setRecord sys.fcd.record).setStatus sys.fcd.status

/-- The undoing of a DELETE in `EXTFH`. It inserts what is in the record area. -/
def undoDelete (extfh : Extfh σ) (sys : Sys σ) : Sys σ :=
  ((sys.extfh extfh .write).setRecord sys.fcd.record).setStatus sys.fcd.status

/-- WRITE. -/
def writeBoth (extfh : Extfh σ) (env : Env) (sys : Sys σ) : Except Stop (Sys σ) := do
  let written ← sys.run stNotOpenedWrite (opWrite env)
  match env.mode with
  | .W => return written.setStatus sys.fcd.status
  | .B => return written
  | _ => return if written.fcd.status ≠ stOk then undoWrite extfh written else written

/-- REWRITE. `undo` is the record that `EXTFH` had before. -/
def rewriteBoth (extfh : Extfh σ) (env : Env) (undo : List Byte) (sys : Sys σ) :
    Except Stop (Sys σ) := do
  let (ret, rewritten) ← sys.opRewrite env
  match env.mode with
  | .W => return rewritten.setStatus sys.fcd.status
  | .B => return rewritten
  | _ => return if !ret || rewritten.fcd.status ≠ stOk then undoRewrite extfh undo rewritten
      else rewritten

/-- DELETE. -/
def deleteBoth (extfh : Extfh σ) (env : Env) (sys : Sys σ) : Except Stop (Sys σ) := do
  let deleted ← sys.run stNotOpenedUpdel (opDelete env)
  match env.mode with
  | .W => return deleted.setStatus sys.fcd.status
  | .B => return deleted
  | _ => return if deleted.fcd.status ≠ stOk then undoDelete extfh deleted else deleted

/-- An operation that mode W leaves to `EXTFH`. -/
def unlessShadow (env : Env) (sys : Sys σ) (op : Except Stop (Sys σ)) : Except Stop (Sys σ) :=
  if env.mode = .W then .ok sys else op

/-- The switch of `pqfh`. -/
def databaseOp (extfh : Extfh σ) (env : Env) (garbage : Garbage) (undo : List Byte)
    (opcode : Opcode) (sys : Sys σ) : Except Stop (Sys σ) :=
  match opcode with
  | .openFile kind =>
      if env.mode = .W then openShadow env garbage.buffers kind sys
      else openBoth extfh env garbage.buffers kind sys
  | .close => closeBoth extfh env sys
  | .start op => unlessShadow env sys <| sys.run stNotOpenedRead fun st =>
      opStart env (sys.proc.weak.contains st.tab.name) garbage.stack garbage.inner op st
  | .readNext => unlessShadow env sys <| sys.run stNotOpenedRead (opNextPrev garbage.stack .n)
  | .readPrevious => unlessShadow env sys <| sys.run stNotOpenedRead (opNextPrev garbage.stack .p)
  | .readRandom => unlessShadow env sys <| sys.run stNotOpenedRead (opReadRandom env false false)
  | .readLock => unlessShadow env sys <| sys.run stNotOpenedRead (opReadRandom env false true)
  | .unlock => unlessShadow env sys <|
      Prod.snd <$> sys.onTable fun st => .ok ((), st.unlock)
  | .write => writeBoth extfh env sys
  | .rewrite => rewriteBoth extfh env undo sys
  | .delete => deleteBoth extfh env sys
  | .deleteFile => sys.onProcess (opDeleteFile env)
  | .commit | .other => .ok sys

/-! ## The parts before the switch -/

/-- What a mode A update does in `EXTFH` first, with the record to go back to. Without a
record the call ends there. -/
def updateFirst (extfh : Extfh σ) (opcode : Opcode) (sys : Sys σ) : Option (List Byte) × Sys σ :=
  if opcode = .write then
    let written := sys.extfh extfh opcode
    (if written.fcd.status = stOk then some [] else none, written)
  else
    let read := sys.extfh extfh .readRandom
    if read.fcd.status = stOk then
      let updated := (read.setRecord sys.fcd.record).extfh extfh opcode
      (if updated.fcd.status = stOk then some read.fcd.record else none, updated)
    else (none, read.setRecord sys.fcd.record)

/-- The operations that mode A does in `EXTFH` first. -/
def Opcode.updates : Opcode → Bool
  | .write | .rewrite | .delete => true
  | _ => false

/-- `EXTFH`, in the modes and for the files where it comes first. -/
def extfhFirst (extfh : Extfh σ) (opcode : Opcode) (sys : Sys σ) : Sys σ :=
  let called := sys.extfh extfh opcode
  if opcode = .unlock then called.pqfhCommit else called

/-- A call in mode W after `EXTFH`. `isam` is the flag that an OPEN I-O found. -/
def shadow (extfh : Extfh σ) (env : Env) (garbage : Garbage) (isam : Bool) (opcode : Opcode)
    (called : Sys σ) : Except Stop (Sys σ) :=
  if called.fcd.status.1 ≠ 48 then .ok (if isam then called.setIsam true else called)
  else if called.fcd.isam then .ok called
  else databaseOp extfh env garbage [] opcode called

/-- A call in mode A or B, on a file that is kept in the database. -/
def direct (extfh : Extfh σ) (env : Env) (garbage : Garbage) (opcode : Opcode) (sys : Sys σ) :
    Except Stop (Sys σ) :=
  if env.mode = .A ∧ opcode.updates then
    match updateFirst extfh opcode sys with
    | (none, updated) => .ok updated
    | (some undo, updated) => databaseOp extfh env garbage undo opcode updated
  else databaseOp extfh env garbage [] opcode sys

/-- `pqfh`, for a data file. -/
def pqfh (extfh : Extfh σ) (env : Env) (garbage : Garbage) (opcode : Opcode) (sys : Sys σ) :
    Except Stop (Sys σ) :=
  let opens := match opcode with | .openFile _ => true | _ => false
  let sys := if opens && sys.fcd.openMode = 128 then sys.setIsam false else sys
  let shadowOpen := env.mode = .W && opcode = .openFile .io
  let isam := shadowOpen && sys.fcd.isam
  let sys := if shadowOpen then sys.setIsam false else sys
  let sys := if env.mode ≠ .I && opcode = .commit then sys.pqfhCommit else sys
  match env.mode with
  | .I => .ok (extfhFirst extfh opcode sys)
  | .W => shadow extfh env garbage isam opcode (extfhFirst extfh opcode sys)
  | _ =>
      if sys.fcd.isam then .ok (extfhFirst extfh opcode sys)
      else direct extfh env garbage opcode sys

/-- The name of a data file: `pqfh` gives a name that begins with `JSON:` to `op_json`, and calls
`EXTFH` for no name that begins with `pqfh`; `op_open` makes no table of the name `pqfh`. -/
structure DataFile (fileName : List Byte) : Prop where
  json : ¬ (5 < fileName.length ∧ ascii "JSON:" <+: fileName)
  control : ¬ ascii "pqfh" <+: fileName
  table : baseName fileName ≠ ascii "pqfh"

instance (fileName : List Byte) : Decidable (DataFile fileName) :=
  decidable_of_iff
    (¬ (5 < fileName.length ∧ ascii "JSON:" <+: fileName) ∧ ¬ ascii "pqfh" <+: fileName ∧
      baseName fileName ≠ ascii "pqfh")
    ⟨fun ⟨json, control, table⟩ => ⟨json, control, table⟩,
      fun data => ⟨data.json, data.control, data.table⟩⟩

/-- `pqfh` for a name of any kind, with what it does for the names of no data file. -/
def pqfhNamed (others : Opcode → Sys σ → Except Stop (Sys σ)) (extfh : Extfh σ) (env : Env)
    (garbage : Garbage) (opcode : Opcode) (sys : Sys σ) : Except Stop (Sys σ) :=
  if DataFile sys.fcd.fileName then pqfh extfh env garbage opcode sys else others opcode sys

theorem pqfhNamed_data {others : Opcode → Sys σ → Except Stop (Sys σ)} {extfh : Extfh σ}
    {env : Env} {garbage : Garbage} {opcode : Opcode} {sys : Sys σ}
    (data : DataFile sys.fcd.fileName) :
    pqfhNamed others extfh env garbage opcode sys = pqfh extfh env garbage opcode sys :=
  if_pos data

/-! ## Calls on the open table -/

theorem Sys.onTable_ok {α : Type} {sys sys' : Sys σ} {op : State → Except Stop (α × State)}
    {result : α} (ran : sys.onTable op = .ok (result, sys')) :
    ∃ tab st, sys.proc.tables sys.fcd.fileId = some tab ∧ op (sys.state tab) = .ok (result, st) ∧
      sys' = sys.put st := by
  unfold Sys.onTable at ran
  split at ran
  · cases ran
  · rename_i tab live
    obtain ⟨⟨result', st⟩, operated, ended⟩ := bind_eq_ok.mp ran
    cases ended
    exact ⟨tab, st, live, operated, rfl⟩

/-- An operation that returned has found the file closed, or has run on its table. -/
theorem Sys.run_ok {sys sys' : Sys σ} {closed : Status} {op : State → Except Stop State}
    (ran : sys.run closed op = .ok sys') :
    (sys.fcd.openMode = 128 ∧ sys' = sys.setStatus closed) ∨
      (sys.fcd.openMode ≠ 128 ∧ ∃ tab st, sys.proc.tables sys.fcd.fileId = some tab ∧
        op (sys.state tab) = .ok st ∧ sys' = sys.put st) := by
  unfold Sys.run at ran
  split at ran
  · rename_i shut
    cases ran
    exact Or.inl ⟨shut, rfl⟩
  · rename_i opened
    obtain ⟨⟨_, sys''⟩, mapped, rfl⟩ := map_eq_ok.mp ran
    obtain ⟨tab, st, live, operated, rfl⟩ := Sys.onTable_ok mapped
    obtain ⟨st', operated', ended⟩ := map_eq_ok.mp operated
    cases ended
    exact Or.inr ⟨opened, tab, st, live, operated', rfl⟩

end Pqfh
