import Pqfh.Handler.Control

/-! # COPY and LOAD

COPY drops its destination before it looks for the source, and LOAD truncates the table opened
last before it opens the ISAM file. The commit of `command` makes permanent what they did before
they gave up (`Pqfh.failed_bulk_iff`).

With PQFH_FORCE_BD=S the handler does not ask the server whether a table is there. A COPY without a
source then drops its destination too, but the CREATE TABLE AS that follows fails, and the commit
takes the drop back.
-/

namespace Pqfh

/-! ## COPY -/

/-- The names in the record of a COPY. Without a second colon the end of the first is written
through a null pointer. -/
def copyNames (area : List Byte) (reclen : ℕ) : Except Stop (List Byte × List Byte) :=
  if maxColLen < reclen then .error .undefined
  else
    let text := cstr (((cutBlank area).take reclen).drop 5)
    if 58 ∈ text then .ok (text.takeWhile (· ≠ 58), (text.dropWhile (· ≠ 58)).drop 1)
    else .error .undefined

/-- `strrchr(name, '/') + 1`, or the name. -/
def lastPart (name : List Byte) : List Byte := (name.reverse.takeWhile (· ≠ 47)).reverse

/-- Whether `get_schema` gives a schema: the server has the table, or `force_bd` is set. -/
def Conn.sees (forceBd : Bool) (conn : Conn) (relation : ℕ) : Bool :=
  forceBd || (!conn.aborted && (conn.working relation).isSome)

/-- CREATE TABLE AS of all rows of a relation. -/
def Conn.createAs (refuses : ℕ → ℕ → Db → Bool) (conn : Conn) (relation source : ℕ) : Conn × Bool :=
  if conn.aborted then (conn, false)
  else
    match conn.working relation, conn.working source with
    | none, some rows =>
        if refuses relation source conn.working then (conn.fail, false)
        else ({ conn with working := Function.update conn.working relation (some rows) }, true)
    | _, _ => (conn.fail, false)

/-- The part of `copy_table` after the destination was dropped. -/
def createCopy (forceBd : Bool) (refuses : ℕ → ℕ → Db → Bool) (relation source : ℕ)
    (proc : Process) : Process :=
  if proc.conn.sees forceBd source then
    match proc.conn.createAs refuses relation source with
    | (conn, false) => { proc with conn := conn }
    | (conn, true) => { proc with conn := conn }.commit
  else proc

/-- `copy_table`. -/
def copyTable (forceBd : Bool) (env : Env) (refuses : ℕ → ℕ → Db → Bool) (source dest : List Byte)
    (proc : Process) : Process :=
  let relation := env.pg.relation (lastPart dest)
  let source := env.pg.relation (lastPart source)
  if proc.conn.sees forceBd relation then
    match proc.conn.execDdl env.pg (.drop relation) with
    | (conn, false) => { proc with conn := conn }
    | (conn, true) => createCopy forceBd refuses relation source { proc with conn := conn }
  else createCopy forceBd refuses relation source proc

/-- The branch COPY of `command`. -/
def copyCommand (forceBd : Bool) (env : Env) (refuses : ℕ → ℕ → Db → Bool) (area : List Byte)
    (reclen : ℕ) (proc : Process) : Except Stop Process := do
  let (source, dest) ← copyNames area reclen
  return (copyTable forceBd env refuses source dest proc).commit

/-! ## LOAD -/

/-- `truncate_table`. The statement for a table that is not there has an error, whatever schema
`get_schema` gives. -/
def truncateTable (env : Env) (name : List Byte) (proc : Process) : Process :=
  { proc with conn := (proc.conn.execDdl env.pg (.truncate (env.pg.relation (lastPart name)))).1 }

variable {σ : Type}

/-- The loop of `load_table` over the records of the ISAM file, for at most so many of them. -/
def loadLoop (extfh : Extfh σ) (env : Env) : ℕ → Sys σ → Except Stop (Sys σ)
  | 0, _ => .error .undefined
  | fuel + 1, sys =>
      if sys.fcd.status.1 = 48 then do
        let sys ← sys.run stNotOpenedWrite (opWrite env)
        loadLoop extfh env fuel (sys.extfh extfh .readNext)
      else .ok sys

/-- The copy of the fcd opened last with which `load_table` opens the ISAM file. -/
def loadFcd (fcd : Fcd) : Fcd :=
  { fcd with openMode := 128, record := List.replicate fcd.record.length 0 }

/-- The calls of `EXTFH` before the loop. -/
def loadStart (extfh : Extfh σ) (sys : Sys σ) : Sys σ :=
  ((sys.extfh extfh (.openFile .input)).extfh extfh (.start .gt)).extfh extfh .readNext

/-- `load_table`, with the name of the table opened last. The fcd is that of the last OPEN. -/
def loadTable (extfh : Extfh σ) (env : Env) (fuel : ℕ) (name : List Byte) (sys : Sys σ) :
    Except Stop (Sys σ) := do
  let truncated := { sys with proc := truncateTable env name sys.proc, fcd := loadFcd sys.fcd }
  let loaded ← loadLoop extfh { env with mode := .B } fuel (loadStart extfh truncated)
  return loaded.extfh extfh .close

/-- The branch LOAD of `command`. Without a table that was opened nothing is done. -/
def loadCommand (extfh : Extfh σ) (env : Env) (fuel : ℕ) (name : Option (List Byte)) (sys : Sys σ) :
    Except Stop (Sys σ) := do
  let loaded ← match name with
    | none => .ok sys
    | some name => loadTable extfh env fuel name sys
  return { loaded with proc := loaded.proc.commit }

/-! ## What a failure leaves -/

theorem working_commit_aborted {conn : Conn} (aborted : conn.aborted = true) :
    conn.commit.working = conn.committed := by
  unfold Conn.commit
  rw [if_pos aborted]

theorem working_commit_running {conn : Conn} (running : conn.aborted = false) :
    conn.commit.working = conn.working := by
  unfold Conn.commit
  rw [if_neg (Bool.eq_false_iff.mp running)]

theorem working_commit_changed {conn : Conn} (running : conn.aborted = false) (db : Db) :
    ({ conn with working := db } : Conn).commit.working = db :=
  working_commit_running running

/-- DROP and TRUNCATE of a table in a transaction that has not failed. -/
theorem execDdl_running {pg : Postgres} {conn : Conn} {ddl : Ddl} {db : Db}
    (running : conn.aborted = false) (applied : ddl.apply conn.working = some db) :
    conn.execDdl pg ddl =
      if pg.refusesDdl ddl conn.working then (conn.fail, false)
      else ({ conn with working := db }, true) := by
  unfold Conn.execDdl
  rw [if_neg (Bool.eq_false_iff.mp running), applied]

/-- A COPY without a source leaves the destination: the server is asked for it and it is not there,
or the drop is not done, or taken back, and the rows that are not committed are no others. -/
def CopyKeeps (forceBd : Bool) (env : Env) (conn : Conn) (relation : ℕ) : Prop :=
  (forceBd = false ∧ conn.aborted = false ∧ conn.working relation = none) ∨
    ((forceBd = true ∨ conn.aborted = true ∨
        env.pg.refusesDdl (.drop relation) conn.working = true) ∧
      conn.committed relation = conn.working relation)

/-- A LOAD that could not open its file leaves the table: it is truncated and was empty, or it is
not truncated and the rows that are not committed are no others. -/
def LoadKeeps (env : Env) (conn : Conn) (relation : ℕ) : Prop :=
  if conn.sees false relation && !env.pg.refusesDdl (.truncate relation) conn.working then
    conn.working relation = some []
  else conn.committed relation = conn.working relation

instance (env : Env) (conn : Conn) (relation : ℕ) : Decidable (LoadKeeps env conn relation) :=
  inferInstanceAs (Decidable
    (if conn.sees false relation && !env.pg.refusesDdl (.truncate relation) conn.working then
      conn.working relation = some []
    else conn.committed relation = conn.working relation))

theorem createCopy_missing {refuses : ℕ → ℕ → Db → Bool} {relation source : ℕ} {proc : Process}
    (missing : proc.conn.sees false source = false) :
    createCopy false refuses relation source proc = proc := by
  unfold createCopy
  rw [missing]
  rfl

/-- Without asking the server, the CREATE TABLE AS of a source that is not there has an error. -/
theorem createCopy_forced {refuses : ℕ → ℕ → Db → Bool} {relation source : ℕ} {proc : Process}
    (running : proc.conn.aborted = false) (missing : proc.conn.working source = none) :
    createCopy true refuses relation source proc = { proc with conn := proc.conn.fail } := by
  unfold createCopy Conn.sees Conn.createAs
  rw [running, missing]
  cases proc.conn.working relation <;> rfl

/-- The source is gone after the drop of the destination, if it was there at all. -/
theorem missing_after_drop {db : Db} {relation source : ℕ}
    (missing : db source = none ∨ source = relation) :
    Function.update db relation none source = none := by
  by_cases same : source = relation
  · rw [same, Function.update_self]
  · rw [Function.update_of_ne same, missing.resolve_right same]

/-- A COPY that the server is not asked about ends with its transaction rolled back. -/
theorem copyTable_forced {env : Env} {refuses : ℕ → ℕ → Db → Bool} {source dest : List Byte}
    {proc : Process} (missing : proc.conn.working (env.pg.relation (lastPart source)) = none ∨
      env.pg.relation (lastPart source) = env.pg.relation (lastPart dest)) :
    (copyTable true env refuses source dest proc).commit.conn.working = proc.conn.committed := by
  unfold copyTable
  dsimp only
  generalize env.pg.relation (lastPart dest) = relation at missing ⊢
  generalize env.pg.relation (lastPart source) = source at missing ⊢
  rw [if_pos (show proc.conn.sees true relation = true from rfl)]
  cases aborted : proc.conn.aborted with
  | true =>
      have same : proc.conn.execDdl env.pg (.drop relation) = (proc.conn, false) := by
        unfold Conn.execDdl
        rw [if_pos aborted]
      rw [same]
      exact working_commit_aborted aborted
  | false =>
      cases present : proc.conn.working relation with
      | none =>
          have failed : proc.conn.execDdl env.pg (.drop relation) = (proc.conn.fail, false) := by
            have refused : (Ddl.drop relation).apply proc.conn.working = none :=
              if_neg (by rw [present]; exact Bool.false_ne_true)
            unfold Conn.execDdl
            rw [if_neg (Bool.eq_false_iff.mp aborted), refused]
          rw [failed]
          exact working_commit_aborted rfl
      | some rows =>
          have applied : (Ddl.drop relation).apply proc.conn.working =
              some (Function.update proc.conn.working relation none) :=
            if_pos (by rw [present]; rfl)
          rw [execDdl_running aborted applied]
          cases env.pg.refusesDdl (.drop relation) proc.conn.working with
          | true => exact working_commit_aborted rfl
          | false =>
              rw [if_neg Bool.false_ne_true]
              dsimp only
              rw [createCopy_forced (by exact aborted) (by exact missing_after_drop missing)]
              exact working_commit_aborted rfl

/-- A COPY that asks the server. -/
theorem copyTable_asked {env : Env} {refuses : ℕ → ℕ → Db → Bool} {source dest : List Byte}
    {proc : Process} (missing : proc.conn.working (env.pg.relation (lastPart source)) = none ∨
      env.pg.relation (lastPart source) = env.pg.relation (lastPart dest)) :
    (copyTable false env refuses source dest proc).commit.conn.working
          (env.pg.relation (lastPart dest)) =
        proc.conn.working (env.pg.relation (lastPart dest)) ↔
      CopyKeeps false env proc.conn (env.pg.relation (lastPart dest)) := by
  unfold copyTable CopyKeeps
  dsimp only
  generalize env.pg.relation (lastPart dest) = relation at missing ⊢
  generalize env.pg.relation (lastPart source) = source at missing ⊢
  cases aborted : proc.conn.aborted with
  | true =>
      have unseen : ∀ relation, proc.conn.sees false relation = false := by
        intro relation
        unfold Conn.sees
        rw [aborted]
        rfl
      rw [unseen, if_neg Bool.false_ne_true, createCopy_missing (unseen _)]
      change proc.conn.commit.working relation = _ ↔ _
      rw [working_commit_aborted aborted]
      simp
  | false =>
      have sees : ∀ relation, proc.conn.sees false relation =
          (proc.conn.working relation).isSome := by
        intro relation
        unfold Conn.sees
        rw [aborted]
        rfl
      cases present : proc.conn.working relation with
      | none =>
          have unseen : proc.conn.sees false source = false := by
            rw [sees]
            rcases missing with none | rfl
            · rw [none]
              rfl
            · rw [present]
              rfl
          rw [sees, present, Option.isSome_none, if_neg Bool.false_ne_true,
            createCopy_missing unseen]
          change proc.conn.commit.working relation = _ ↔ _
          rw [working_commit_running aborted, present]
          simp
      | some rows =>
          have applied : (Ddl.drop relation).apply proc.conn.working =
              some (Function.update proc.conn.working relation none) :=
            if_pos (by rw [present]; rfl)
          rw [sees, present, Option.isSome_some, if_pos rfl, execDdl_running aborted applied]
          cases env.pg.refusesDdl (.drop relation) proc.conn.working with
          | true =>
              change proc.conn.fail.commit.working relation = _ ↔ _
              rw [working_commit_aborted rfl]
              simp [Conn.fail]
          | false =>
              -- the destination is gone before the source is missed
              have unseen : ({ proc.conn with
                  working := Function.update proc.conn.working relation none } : Conn).sees false
                    source = false := by
                unfold Conn.sees
                dsimp only
                rw [missing_after_drop missing]
                simp
              rw [if_neg Bool.false_ne_true]
              dsimp only
              rw [createCopy_missing unseen]
              change ({ proc.conn with
                working := Function.update proc.conn.working relation none } : Conn).commit.working
                  relation = _ ↔ _
              rw [working_commit_changed aborted, Function.update_self]
              simp

theorem copyTable_missing_iff {forceBd : Bool} {env : Env} {refuses : ℕ → ℕ → Db → Bool}
    {source dest : List Byte} {proc : Process}
    (missing : proc.conn.working (env.pg.relation (lastPart source)) = none ∨
      lastPart source = lastPart dest) :
    (copyTable forceBd env refuses source dest proc).commit.conn.working
          (env.pg.relation (lastPart dest)) =
        proc.conn.working (env.pg.relation (lastPart dest)) ↔
      CopyKeeps forceBd env proc.conn (env.pg.relation (lastPart dest)) := by
  have missing₀ : proc.conn.working (env.pg.relation (lastPart source)) = none ∨
      env.pg.relation (lastPart source) = env.pg.relation (lastPart dest) :=
    missing.imp_right fun same => by rw [same]
  cases forceBd with
  | false => exact copyTable_asked missing₀
  | true =>
      rw [copyTable_forced missing₀]
      unfold CopyKeeps
      simp

theorem truncateTable_iff {env : Env} {name : List Byte} {proc : Process} :
    (truncateTable env name proc).commit.conn.working (env.pg.relation (lastPart name)) =
        proc.conn.working (env.pg.relation (lastPart name)) ↔
      LoadKeeps env proc.conn (env.pg.relation (lastPart name)) := by
  unfold truncateTable LoadKeeps Conn.sees
  generalize env.pg.relation (lastPart name) = relation
  change (proc.conn.execDdl env.pg (.truncate relation)).1.commit.working relation = _ ↔ _
  cases aborted : proc.conn.aborted with
  | true =>
      have same : (proc.conn.execDdl env.pg (.truncate relation)).1 = proc.conn := by
        unfold Conn.execDdl
        rw [if_pos aborted]
      rw [same, working_commit_aborted aborted]
      simp
  | false =>
      cases present : proc.conn.working relation with
      | none =>
          have failed : (proc.conn.execDdl env.pg (.truncate relation)).1 = proc.conn.fail := by
            have refused : (Ddl.truncate relation).apply proc.conn.working = none :=
              if_neg (by rw [present]; exact Bool.false_ne_true)
            unfold Conn.execDdl
            rw [if_neg (Bool.eq_false_iff.mp aborted), refused]
          rw [failed, working_commit_aborted rfl]
          simp [Conn.fail]
      | some rows =>
          have applied : (Ddl.truncate relation).apply proc.conn.working =
              some (Function.update proc.conn.working relation (some [])) :=
            if_pos (by rw [present]; rfl)
          rw [execDdl_running aborted applied]
          cases env.pg.refusesDdl (.truncate relation) proc.conn.working with
          | true =>
              change proc.conn.fail.commit.working relation = _ ↔ _
              rw [working_commit_aborted rfl]
              simp [Conn.fail]
          | false =>
              rw [if_neg Bool.false_ne_true, working_commit_changed aborted, Function.update_self]
              simp [eq_comm]

/-- What the native file handler does with a file that it has not opened: it stays closed, and no
record is read. -/
structure ClosedFiles (extfh : Extfh σ) : Prop where
  opens : ∀ kind files fcd, (extfh (.openFile kind) files fcd).2.status.1 ≠ 48 →
    (extfh (.openFile kind) files fcd).2.openMode = fcd.openMode
  starts : ∀ op files fcd, fcd.openMode = 128 → (extfh (.start op) files fcd).2.openMode = 128
  reads : ∀ files fcd, fcd.openMode = 128 → (extfh .readNext files fcd).2.status.1 ≠ 48

/-- A LOAD that could not open its file has truncated the table. -/
theorem loadCommand_closed {extfh : Extfh σ} {env : Env} {fuel : ℕ} {name : List Byte} {sys : Sys σ}
    (closed : ClosedFiles extfh)
    (fails : (extfh (.openFile .input) sys.files (loadFcd sys.fcd)).2.status.1 ≠ 48) :
    ∃ loaded, loadCommand extfh env (fuel + 1) (some name) sys = .ok loaded ∧
      loaded.proc = (truncateTable env name sys.proc).commit := by
  have shut : (extfh (.openFile .input) sys.files (loadFcd sys.fcd)).2.openMode = 128 :=
    closed.opens _ _ _ fails
  have ends : (loadStart extfh { sys with
      proc := truncateTable env name sys.proc, fcd := loadFcd sys.fcd }).fcd.status.1 ≠ 48 :=
    closed.reads _ _ (closed.starts .gt _ _ shut)
  unfold loadCommand loadTable loadLoop
  dsimp only
  rw [if_neg ends]
  exact ⟨_, rfl, rfl⟩

/-- After a COPY without a source, and after a LOAD that could not open its file, the destination
has the rows it had exactly when nothing was dropped or truncated for good that was there, and
nothing is rolled back that was not committed. -/
theorem failed_bulk_iff (extfh : Extfh σ) (forceBd : Bool) (env : Env)
    (refuses : ℕ → ℕ → Db → Bool) (closed : ClosedFiles extfh) :
    (∀ area reclen source dest proc, copyNames area reclen = .ok (source, dest) →
      (proc.conn.working (env.pg.relation (lastPart source)) = none ∨
        lastPart source = lastPart dest) →
      ∃ proc', copyCommand forceBd env refuses area reclen proc = .ok proc' ∧
        (proc'.conn.working (env.pg.relation (lastPart dest)) =
            proc.conn.working (env.pg.relation (lastPart dest)) ↔
          CopyKeeps forceBd env proc.conn (env.pg.relation (lastPart dest)))) ∧
    (∀ fuel name sys,
      (extfh (.openFile .input) sys.files (loadFcd sys.fcd)).2.status.1 ≠ 48 →
      ∃ loaded, loadCommand extfh env (fuel + 1) (some name) sys = .ok loaded ∧
        (loaded.proc.conn.working (env.pg.relation (lastPart name)) =
            sys.proc.conn.working (env.pg.relation (lastPart name)) ↔
          LoadKeeps env sys.proc.conn (env.pg.relation (lastPart name)))) := by
  constructor
  · intro area reclen source dest proc named missing
    unfold copyCommand
    rw [named]
    exact ⟨_, rfl, copyTable_missing_iff missing⟩
  · intro fuel name sys fails
    obtain ⟨loaded, ran, proc⟩ := loadCommand_closed closed fails
    refine ⟨loaded, ran, ?_⟩
    rw [proc]
    exact truncateTable_iff

/-- The files of `EXTFH` when there are none. -/
def absentFiles : Extfh Unit := fun _ files fcd => (files, { fcd with status := stFileNotFound })

theorem absentFiles_closed : ClosedFiles absentFiles where
  opens _ _ _ _ := rfl
  starts _ _ _ shut := shut
  reads _ _ _ := (by decide : stFileNotFound.1 ≠ 48)

/-- A server that knows the tables `a`, `b` and no others. -/
def twoTables : Env :=
  { plainServer with pg := { plainServer.pg with relation := fun name =>
      if name = [97] then 1 else if name = [98] then 2 else 0 } }

/-- A process that sees the rows of the table `b`, with nothing left to commit. -/
def tableB (rows : Option (List Row)) : Process :=
  { ledger [] with conn := ⟨fun relation => if relation = 2 then rows else none,
      fun relation => if relation = 2 then rows else none, false, fun _ => none⟩ }

/-- A COPY from a table that is not there to another that is not there leaves it so. When the server
is not asked, the row of a destination that is there comes back. A LOAD without its file leaves an
empty table empty. -/
theorem failed_bulk_keeps :
    (∃ proc, copyCommand false twoTables (fun _ _ _ => false) (ascii "COPY:a:b ") 9 (tableB none) =
      .ok proc ∧ proc.conn.working 2 = none) ∧
    (∃ proc, copyCommand true twoTables (fun _ _ _ => false) (ascii "COPY:a:b ") 9
        (tableB (some [[.num 1, .num 7]])) = .ok proc ∧
      proc.conn.working 2 = some [[.num 1, .num 7]]) ∧
    ∃ loaded,
      loadCommand absentFiles twoTables 1 (some (ascii "b")) ⟨(), tableB (some []), firstBalance⟩ =
      .ok loaded ∧ loaded.proc.conn.working 2 = some [] := by
  have both := fun forceBd =>
    failed_bulk_iff absentFiles forceBd twoTables (fun _ _ _ => false) absentFiles_closed
  refine ⟨?_, ?_, ?_⟩
  · obtain ⟨proc, ran, keeps⟩ := (both false).1 (ascii "COPY:a:b ") 9 (ascii "a") (ascii "b")
      (tableB none) (by decide +kernel) (Or.inl rfl)
    exact ⟨proc, ran, keeps.mpr (Or.inl ⟨rfl, rfl, rfl⟩)⟩
  · obtain ⟨proc, ran, keeps⟩ := (both true).1 (ascii "COPY:a:b ") 9 (ascii "a") (ascii "b")
      (tableB (some [[.num 1, .num 7]])) (by decide +kernel) (Or.inl rfl)
    exact ⟨proc, ran, keeps.mpr (Or.inr ⟨Or.inl rfl, rfl⟩)⟩
  · obtain ⟨loaded, ran, keeps⟩ := (both false).2 0 (ascii "b")
      ⟨(), tableB (some []), firstBalance⟩ (by decide +kernel)
    exact ⟨loaded, ran, keeps.mpr (by decide +kernel)⟩

/-- A COPY from a table that is not there drops the destination with its row, and a LOAD without
its file empties the table. -/
theorem failed_bulk_loses :
    (∃ proc, copyCommand false twoTables (fun _ _ _ => false) (ascii "COPY:a:b ") 9
        (tableB (some [[.num 1, .num 7]])) = .ok proc ∧
      (tableB (some [[.num 1, .num 7]])).conn.working 1 = none ∧ proc.conn.working 2 = none) ∧
    ∃ loaded, loadCommand absentFiles twoTables 1 (some (ascii "b"))
        ⟨(), tableB (some [[.num 1, .num 7]]), firstBalance⟩ = .ok loaded ∧
      loaded.proc.conn.working 2 = some [] := by
  constructor
  · obtain ⟨proc, ran, rows⟩ := map_eq_ok.mp (by decide +kernel :
      (fun proc : Process => proc.conn.working 2) <$> copyCommand false twoTables
        (fun _ _ _ => false) (ascii "COPY:a:b ") 9 (tableB (some [[.num 1, .num 7]])) = .ok none)
    exact ⟨proc, ran, rfl, rows⟩
  · obtain ⟨loaded, ran, rows⟩ := map_eq_ok.mp (by decide +kernel :
      (fun sys : Sys Unit => sys.proc.conn.working 2) <$> loadCommand absentFiles twoTables 1
        (some (ascii "b")) ⟨(), tableB (some [[.num 1, .num 7]]), firstBalance⟩ = .ok (some []))
    exact ⟨loaded, ran, rows⟩

end Pqfh
