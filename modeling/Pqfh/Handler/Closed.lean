import Pqfh.Handler.Commits
import Pqfh.Handler.OpsFrame
import Pqfh.Handler.ScanSpec

/-! # Open files and closed files

In mode B an fcd that is open in the database has the address of a live table, and no other open
fcd has the same. An operation on a closed fcd sets a status and does not look at the address,
apart from UNLOCK, which does not ask whether the file is open.

A file that is not kept in the database is opened by `EXTFH`, after `op_open` has freed its table.
The address that is left in the fcd is not looked at while the fcd is marked.
-/

namespace Pqfh

variable {σ : Type}

/-! ## What reading on leaves of the fcd -/

/-- Two changes of the record area and of the status are one. -/
theorem Fcd.SameBut.trans {first second third : Fcd} {record record' : List Byte}
    (one : first.SameBut second record) (two : second.SameBut third record') :
    first.SameBut third record' := by
  unfold Fcd.SameBut at one two ⊢
  rw [two, one]

/-- READ NEXT and READ PREVIOUS change the record area and the status alone. -/
theorem fetchNextPrev_fcd {stack : ℕ → Byte} {dir : Dir} {st st' : State}
    (fetched : fetchNextPrev stack dir st = .ok st') : st.fcd.SameBut st'.fcd st'.fcd.record := by
  cases fetchNextPrev_iff.mp fetched with
  | ended => rfl
  | read => cases dir <;> rfl

/-- The operation changes the record area and the status alone. -/
theorem opNextPrev_fcd {stack : ℕ → Byte} {dir : Dir} {st st' : State}
    (read : opNextPrev stack dir st = .ok st') : st.fcd.SameBut st'.fcd st'.fcd.record := by
  cases opNextPrev_iff.mp read with
  | fetched _ _ _ _ fetched =>
      have kept := fetchNextPrev_fcd fetched
      exact kept
  | _ => rfl

/-- Closing a cursor changes nothing of the caller's block. -/
theorem State.closeCursor_fcd (st : State) : st.closeCursor.fcd = st.fcd := by
  unfold State.closeCursor
  split <;> rfl

/-- Declaring a scan changes the record area and the status alone. -/
theorem declareScan_fcd {env : Env} {weak : Bool} {stack : ℕ → Byte} {op : Comparison}
    {st st' : State} (declared : declareScan env weak stack op st = .ok st') :
    st.fcd.SameBut st'.fcd st'.fcd.record := by
  unfold declareScan at declared
  obtain ⟨⟨tokens, order⟩, _, declared⟩ := bind_eq_ok.mp declared
  dsimp only at declared
  split at declared
  · cases declared
  · obtain ⟨st₁, read, declared⟩ := bind_eq_ok.mp declared
    have kept := opNextPrev_fcd read
    change st.closeCursor.fcd.SameBut st₁.fcd st₁.fcd.record at kept
    rw [State.closeCursor_fcd] at kept
    split at declared
    · cases declared
      exact kept.trans rfl
    · cases declared
      exact kept

/-- START changes the record area and the status alone. -/
theorem opStart_fcd {env : Env} {weak : Bool} {stack inner : ℕ → Byte} {op : Comparison}
    {st st' : State} (started : opStart env weak stack inner op st = .ok st') :
    st.fcd.SameBut st'.fcd st'.fcd.record := by
  unfold opStart at started
  split at started
  · cases started
    rfl
  · obtain ⟨key, _, started⟩ := bind_eq_ok.mp started
    split at started
    · cases started
      cases op <;> rfl
    · split at started
      · obtain ⟨st₁, read, started⟩ := bind_eq_ok.mp started
        have kept := opReadRandom_fcd read
        change st.fcd.SameBut st₁.fcd st₁.fcd.record at kept
        split at started
        · cases started
          exact kept.trans rfl
        · exact kept.trans (declareScan_fcd started)
      · have kept := declareScan_fcd started
        exact kept

/-! ## Tables that are live -/

/-- The fcd is open in the database. -/
def Fcd.Opened (fcd : Fcd) : Prop := fcd.openMode ≠ 128 ∧ fcd.isam = false

/-- The marks of an fcd that belong to the handler are as before. -/
structure Fcd.SameFile (fcd fcd' : Fcd) : Prop where
  openMode : fcd'.openMode = fcd.openMode
  isam : fcd'.isam = fcd.isam
  fileId : fcd'.fileId = fcd.fileId

/-- A block that changed in its record area is of the same file. -/
theorem Fcd.SameBut.file {fcd fcd' : Fcd} {record : List Byte} (same : fcd.SameBut fcd' record) :
    fcd.SameFile fcd' := by
  rw [same]
  exact ⟨rfl, rfl, rfl⟩

/-- A block of the same file is open when the other one is. -/
theorem Fcd.SameFile.opened {fcd fcd' : Fcd} (same : fcd.SameFile fcd') :
    fcd'.Opened ↔ fcd.Opened := by
  unfold Fcd.Opened
  rw [same.openMode, same.isam]

/-- The fcd has the address of a live table if it is open in the database. -/
def Fcd.Holds (fcd : Fcd) (proc : Process) : Prop :=
  fcd.Opened → fcd.fileId < proc.free ∧ (proc.tables fcd.fileId).isSome

/-- A call on an fcd: its table is live if it is open, at the address it had or at a new one, and
the tables of the others stay. -/
structure Tended (proc : Process) (fcd : Fcd) (proc' : Process) (fcd' : Fcd) : Prop where
  holds : fcd'.Holds proc'
  address : fcd'.Opened → (fcd.Opened ∧ fcd'.fileId = fcd.fileId) ∨ proc.free ≤ fcd'.fileId
  others : ∀ a, (fcd.Opened → a ≠ fcd.fileId) → (proc.tables a).isSome → (proc'.tables a).isSome
  later : proc.free ≤ proc'.free

/-- A call that leaves the tables and the marks of the fcd. -/
theorem Tended.of_same {proc proc' : Process} {fcd fcd' : Fcd} (held : fcd.Holds proc)
    (same : fcd.SameFile fcd') (tables : proc'.tables = proc.tables)
    (free : proc'.free = proc.free) :
    Tended proc fcd proc' fcd' where
  holds opened := by
    rw [same.fileId, tables, free]
    exact held (same.opened.mp opened)
  address opened := Or.inl ⟨same.opened.mp opened, same.fileId⟩
  others a _ live := by rwa [tables]
  later := free.ge

/-- A call that leaves the tables and the fcd not open. -/
theorem Tended.of_shut {proc proc' : Process} {fcd fcd' : Fcd} (shut : ¬ fcd'.Opened)
    (tables : proc'.tables = proc.tables) (later : proc.free ≤ proc'.free) :
    Tended proc fcd proc' fcd' where
  holds opened := absurd opened shut
  address opened := absurd opened shut
  others a _ live := by rwa [tables]
  later := later

/-- A call that puts a table at the new address. -/
theorem Tended.of_new {proc proc' : Process} {fcd fcd' : Fcd} {table : Table}
    (tables : proc'.tables = Function.update proc.tables proc.free (some table))
    (free : proc'.free = proc.free + 1) (fileId : fcd'.fileId = proc.free) :
    Tended proc fcd proc' fcd' where
  holds _ := by
    rw [fileId, free, tables, Function.update_self]
    exact ⟨Nat.lt_succ_self _, rfl⟩
  address _ := Or.inr fileId.ge
  others a _ live := by
    rw [tables]
    by_cases new : a = proc.free
    · rw [new, Function.update_self]
      rfl
    · rwa [Function.update_of_ne new]
  later := free ▸ Nat.le_succ _

/-! ## The operations -/

/-- An operation on the table of the fcd. -/
theorem Sys.put_tended {sys : Sys σ} (held : sys.fcd.Holds sys.proc) {st : State}
    (same : sys.fcd.SameFile st.fcd) :
    Tended sys.proc sys.fcd (sys.put st).proc (sys.put st).fcd := by
  have tables : (sys.put st).proc.tables =
      Function.update sys.proc.tables sys.fcd.fileId (some st.tab) := rfl
  have fileId : (sys.put st).fcd.fileId = sys.fcd.fileId := same.fileId
  have opened : (sys.put st).fcd.Opened ↔ sys.fcd.Opened := same.opened
  refine ⟨fun now => ?_, fun now => Or.inl ⟨opened.mp now, fileId⟩, fun a _ live => ?_, le_rfl⟩
  · rw [fileId, tables, Function.update_self]
    exact ⟨(held (opened.mp now)).1, rfl⟩
  · rw [tables]
    by_cases own : a = sys.fcd.fileId
    · rw [own, Function.update_self]
      rfl
    · rwa [Function.update_of_ne own]

/-- An operation on one file leaves every file where the caller had it. -/
theorem Sys.run_tended {sys sys' : Sys σ} {closed : Status} {op : State → Except Stop State}
    (held : sys.fcd.Holds sys.proc)
    (keeps : ∀ {st st'}, op st = .ok st' → st.fcd.SameFile st'.fcd)
    (ran : sys.run closed op = .ok sys') : Tended sys.proc sys.fcd sys'.proc sys'.fcd := by
  obtain ⟨_, rfl⟩ | ⟨_, tab, st, _, operated, rfl⟩ := Sys.run_ok ran
  · exact .of_same held ⟨rfl, rfl, rfl⟩ rfl rfl
  · exact Sys.put_tended held (keeps operated)

/-- An operation on a table leaves every file where the caller had it. -/
theorem Sys.onTable_tended {α : Type} {sys sys' : Sys σ} {op : State → Except Stop (α × State)}
    {result : α} (held : sys.fcd.Holds sys.proc)
    (keeps : ∀ {st st' result}, op st = .ok (result, st') → st.fcd.SameFile st'.fcd)
    (ran : sys.onTable op = .ok (result, sys')) : Tended sys.proc sys.fcd sys'.proc sys'.fcd := by
  obtain ⟨tab, st, _, operated, rfl⟩ := Sys.onTable_ok ran
  exact Sys.put_tended held (keeps operated)

/-- The table that is made for a missing file is put at an address of its own. -/
theorem openMissing_tended {env : Env} {kind : OpenKind} {buffers : Buffers} {name : List Byte}
    {proc proc' : Process} {fcd fcd₁ fcd' : Fcd} (address : fcd₁.fileId = proc.free)
    (closed : fcd₁.openMode = 128)
    (missing : openMissing env kind buffers name proc fcd₁ = .ok (proc', fcd')) :
    Tended proc fcd proc' fcd' := by
  unfold openMissing at missing
  dsimp only at missing
  split at missing
  · obtain ⟨⟨conn, done⟩, _, missing⟩ := bind_eq_ok.mp missing
    obtain ⟨info, _, missing⟩ := bind_eq_ok.mp missing
    cases missing
    refine .of_new rfl rfl ?_
    dsimp only
    split <;> exact address
  · split at missing
    · cases missing
      exact .of_shut (fun opened => opened.1 closed) rfl (Nat.le_succ _)
    · cases missing
      exact .of_new rfl rfl address

/-- OPEN puts the file at an address of its own, or leaves it closed. -/
theorem opOpen_tended {env : Env} {kind : OpenKind} {buffers : Buffers} {proc proc' : Process}
    {fcd fcd' : Fcd} (held : fcd.Holds proc) (mark : fcd.openMode = 128 → fcd.isam = false)
    (opened : opOpen env kind buffers proc fcd = .ok (proc', fcd')) :
    Tended proc fcd proc' fcd' := by
  unfold opOpen at opened
  split at opened
  · cases opened
    exact .of_same held ⟨rfl, rfl, rfl⟩ rfl rfl
  · rename_i closed
    have closed : fcd.openMode = 128 := not_not.mp closed
    dsimp only at opened
    split at opened
    · cases opened
    · obtain ⟨info, _, opened⟩ := bind_eq_ok.mp opened
      cases info with
      | isam =>
          cases opened
          exact .of_shut (fun opened => nomatch opened.2) rfl (Nat.le_succ _)
      | missing =>
          dsimp only at opened
          exact openMissing_tended (by rfl) (by exact closed) opened
      | found columns keys =>
          dsimp only at opened
          rw [mark closed, if_neg Bool.false_ne_true] at opened
          cases opened
          exact .of_new rfl rfl rfl

/-- CLOSE takes the file away, and leaves the others alone. -/
theorem opClose_tended {proc proc' : Process} {fcd fcd' : Fcd}
    (closed : opClose proc fcd = .ok (proc', fcd')) (kept : fcd.isam = false) :
    Tended proc fcd proc' fcd' := by
  unfold opClose at closed
  split at closed
  · rename_i shut
    cases closed
    exact .of_shut (fun opened => opened.1 shut) rfl le_rfl
  · rename_i opened
    split at closed
    · cases closed
    · rename_i tab live
      cases closed
      refine ⟨fun opened => absurd rfl opened.1, fun opened => absurd rfl opened.1,
        fun a other live' => ?_, le_rfl⟩
      dsimp only
      rwa [Function.update_of_ne (other ⟨opened, kept⟩)]

/-- DELETE FILE leaves every file where the caller had it. -/
theorem opDeleteFile_tended {env : Env} {proc proc' : Process} {fcd fcd' : Fcd}
    (held : fcd.Holds proc) (deleted : opDeleteFile env proc fcd = .ok (proc', fcd')) :
    Tended proc fcd proc' fcd' := by
  unfold opDeleteFile at deleted
  dsimp only at deleted
  split at deleted
  · cases deleted
    exact .of_same held ⟨rfl, rfl, rfl⟩ rfl rfl
  · split at deleted
    · cases deleted
    · obtain ⟨info, _, deleted⟩ := bind_eq_ok.mp deleted
      cases info with
      | isam =>
          cases deleted
          exact .of_shut (fun opened => nomatch opened.2) rfl le_rfl
      | missing =>
          cases deleted
          exact .of_same held ⟨rfl, rfl, rfl⟩ rfl rfl
      | found columns keys =>
          dsimp only at deleted
          split at deleted
          · cases deleted
            exact .of_same held ⟨rfl, rfl, rfl⟩ rfl rfl
          · cases deleted
            exact .of_same held ⟨rfl, rfl, rfl⟩ rfl rfl

/-! ## A call -/

/-- The parts of `pqfh` before it asks for the mark, in mode B. -/
def Sys.readied (opcode : Opcode) (sys : Sys σ) : Sys σ :=
  match opcode with
  | .openFile _ => if sys.fcd.openMode = 128 then sys.setIsam false else sys
  | .commit => sys.pqfhCommit
  | _ => sys

/-- In mode B a file that is kept by EXTFH is left to it, and the others are served by the database.
-/
theorem pqfh_readied {extfh : Extfh σ} {env : Env} (mode : env.mode = .B) (garbage : Garbage)
    (opcode : Opcode) (sys : Sys σ) : pqfh extfh env garbage opcode sys =
      if (sys.readied opcode).fcd.isam then .ok (extfhFirst extfh opcode (sys.readied opcode))
      else databaseOp extfh env garbage [] opcode (sys.readied opcode) := by
  unfold pqfh
  rw [mode]
  cases opcode with
  | openFile kind =>
      by_cases closed : sys.fcd.openMode = 128
      · simp only [Sys.readied, direct, mode, closed, decide_true, Bool.and_true, ↓reduceIte]
        rfl
      · simp only [Sys.readied, direct, mode, closed, decide_false, Bool.and_false, ↓reduceIte]
        rfl
  | _ =>
      simp only [Sys.readied, direct, mode]
      rfl

/-- What an operation on a closed fcd answers. OPEN and DELETE FILE want it closed, UNLOCK does not
ask, and COMMIT has nothing to do with the file. -/
def Opcode.whenClosed : Opcode → Option Status
  | .close => some stAlreadyClosed
  | .start _ | .readNext | .readPrevious | .readRandom | .readLock => some stNotOpenedRead
  | .write => some stNotOpenedWrite
  | .rewrite | .delete => some stNotOpenedUpdel
  | _ => none

/-- An operation on a closed file is answered with its status and does nothing. -/
theorem Sys.run_closed {sys : Sys σ} (closed : sys.fcd.openMode = 128) (status : Status)
    (op : State → Except Stop State) : sys.run status op = .ok (sys.setStatus status) :=
  if_pos closed

/-- Every operation with a test answers a closed file with the status of that test. -/
theorem databaseOp_closed {extfh : Extfh σ} {env : Env} (mode : env.mode = .B) (garbage : Garbage)
    {opcode : Opcode} {status : Status} (answer : opcode.whenClosed = some status) {sys : Sys σ}
    (closed : sys.fcd.openMode = 128) :
    databaseOp extfh env garbage [] opcode sys = .ok (sys.setStatus status) := by
  have shadowless : ∀ op : Except Stop (Sys σ), unlessShadow env sys op = op := fun op =>
    if_neg (by rw [mode]; exact Mode.noConfusion)
  cases opcode with
  | close =>
      cases answer
      simp only [databaseOp, closeBoth, mode, Sys.onProcess, opClose, if_pos closed]
      rfl
  | write =>
      cases answer
      simp only [databaseOp, writeBoth, mode, Sys.run_closed closed]
      rfl
  | rewrite =>
      cases answer
      simp only [databaseOp, rewriteBoth, mode, Sys.opRewrite, if_pos closed]
      rfl
  | delete =>
      cases answer
      simp only [databaseOp, deleteBoth, mode, Sys.run_closed closed]
      rfl
  | start _ | readNext | readPrevious | readRandom | readLock =>
      cases answer
      exact (shadowless _).trans (Sys.run_closed closed _ _)
  | openFile _ | unlock | deleteFile | commit | other => cases answer

/-- A call on the database leaves every file where the caller had it. -/
theorem databaseOp_tended {extfh : Extfh σ} {env : Env} (mode : env.mode = .B) {garbage : Garbage}
    (marks : ∀ opcode files fcd, (extfh opcode files fcd).2.isam = fcd.isam) {opcode : Opcode}
    {sys sys' : Sys σ} (held : sys.fcd.Holds sys.proc) (kept : sys.fcd.isam = false)
    (called : databaseOp extfh env garbage [] opcode sys = .ok sys') :
    Tended sys.proc sys.fcd sys'.proc sys'.fcd := by
  have shadowless : ∀ op : Except Stop (Sys σ), unlessShadow env sys op = op := fun op =>
    if_neg (by rw [mode]; exact Mode.noConfusion)
  cases opcode with
  | openFile kind =>
      simp only [databaseOp, mode, openBoth] at called
      rw [if_neg Mode.noConfusion] at called
      obtain ⟨opened, first, called⟩ := bind_eq_ok.mp called
      obtain ⟨⟨proc, fcd⟩, done, ended⟩ := bind_eq_ok.mp first
      cases ended
      have tended := opOpen_tended held (fun _ => kept) done
      split at called
      · rename_i marked
        cases called
        refine ⟨fun opened => ?_, fun opened => ?_, tended.others, tended.later⟩
        · exact absurd ((marks _ _ _).symm.trans opened.2) (by rw [marked]; exact Bool.noConfusion)
        · exact absurd ((marks _ _ _).symm.trans opened.2) (by rw [marked]; exact Bool.noConfusion)
      · cases called
        exact tended
  | close =>
      simp only [databaseOp, closeBoth, mode] at called
      obtain ⟨⟨proc, fcd⟩, closed, ended⟩ := bind_eq_ok.mp called
      cases ended
      exact opClose_tended closed kept
  | start op =>
      exact Sys.run_tended held (fun done => (opStart_fcd done).file)
        ((shadowless _).symm.trans called)
  | readNext =>
      exact Sys.run_tended held (fun done => (opNextPrev_fcd done).file)
        ((shadowless _).symm.trans called)
  | readPrevious =>
      exact Sys.run_tended held (fun done => (opNextPrev_fcd done).file)
        ((shadowless _).symm.trans called)
  | readRandom =>
      exact Sys.run_tended held (fun done => (opReadRandom_fcd done).file)
        ((shadowless _).symm.trans called)
  | readLock =>
      exact Sys.run_tended held (fun done => (opReadRandom_fcd done).file)
        ((shadowless _).symm.trans called)
  | unlock =>
      obtain ⟨⟨_, sys''⟩, ran, rfl⟩ := map_eq_ok.mp ((shadowless _).symm.trans called)
      refine Sys.onTable_tended held (fun {st st' _} done => ?_) ran
      cases done
      exact ⟨rfl, rfl, rfl⟩
  | write =>
      simp only [databaseOp, writeBoth, mode] at called
      obtain ⟨written, ran, ended⟩ := bind_eq_ok.mp called
      cases ended
      refine Sys.run_tended held (fun done => ?_) ran
      obtain ⟨_, _, same⟩ := opWrite_fcd done
      exact same.file
  | rewrite =>
      simp only [databaseOp, rewriteBoth, mode] at called
      obtain ⟨⟨ret, rewritten⟩, ran, ended⟩ := bind_eq_ok.mp called
      cases ended
      unfold Sys.opRewrite at ran
      split at ran
      · cases ran
        exact .of_same held ⟨rfl, rfl, rfl⟩ rfl rfl
      · exact Sys.onTable_tended held (fun done => (opRewrite_fcd done).file) ran
  | delete =>
      simp only [databaseOp, deleteBoth, mode] at called
      obtain ⟨deleted, ran, ended⟩ := bind_eq_ok.mp called
      cases ended
      refine Sys.run_tended held (fun done => ?_) ran
      obtain ⟨_, _, same⟩ := opDelete_fcd done
      exact same.file
  | deleteFile =>
      obtain ⟨⟨proc, fcd⟩, deleted, ended⟩ := bind_eq_ok.mp called
      cases ended
      exact opDeleteFile_tended held deleted
  | commit | other =>
      cases called
      exact .of_same held ⟨rfl, rfl, rfl⟩ rfl rfl

/-- What comes before an operation leaves the tables, and takes the mark off a closed fcd that is
to be opened. -/
theorem Sys.readied_same (opcode : Opcode) (sys : Sys σ) :
    (sys.readied opcode).proc.tables = sys.proc.tables ∧
      (sys.readied opcode).proc.free = sys.proc.free ∧
      (sys.readied opcode).fcd.fileId = sys.fcd.fileId ∧
      ((sys.readied opcode).fcd.Opened ↔ sys.fcd.Opened) := by
  cases opcode with
  | openFile kind =>
      unfold Sys.readied
      dsimp only
      by_cases closed : sys.fcd.openMode = 128
      · rw [if_pos closed]
        exact ⟨rfl, rfl, rfl, fun opened => absurd closed opened.1,
          fun opened => absurd closed opened.1⟩
      · rw [if_neg closed]
        exact ⟨rfl, rfl, rfl, Iff.rfl⟩
  | _ => exact ⟨rfl, rfl, rfl, Iff.rfl⟩

/-- A call in mode B. -/
theorem pqfh_tended {extfh : Extfh σ} {env : Env} (mode : env.mode = .B)
    (marks : ∀ opcode files fcd, (extfh opcode files fcd).2.isam = fcd.isam) {garbage : Garbage}
    {opcode : Opcode} {sys sys' : Sys σ} (held : sys.fcd.Holds sys.proc)
    (called : pqfh extfh env garbage opcode sys = .ok sys') :
    Tended sys.proc sys.fcd sys'.proc sys'.fcd := by
  rw [pqfh_readied mode] at called
  obtain ⟨tables, free, fileId, opened⟩ := sys.readied_same opcode
  have held' : (sys.readied opcode).fcd.Holds (sys.readied opcode).proc := by
    unfold Fcd.Holds
    rw [tables, free, fileId, opened]
    exact held
  have tended : Tended (sys.readied opcode).proc (sys.readied opcode).fcd sys'.proc sys'.fcd := by
    split at called
    · rename_i marked
      cases called
      refine .of_shut (fun opened => ?_) ?_ ?_
      · have mark : (extfhFirst extfh opcode (sys.readied opcode)).fcd.isam = true := by
          unfold extfhFirst
          dsimp only
          split
          · exact (marks _ _ _).trans marked
          · exact (marks _ _ _).trans marked
        exact Bool.false_ne_true (opened.2.symm.trans mark)
      · unfold extfhFirst
        dsimp only
        split <;> rfl
      · unfold extfhFirst
        dsimp only
        split <;> exact le_rfl
    · rename_i unmarked
      exact databaseOp_tended mode marks held' (Bool.eq_false_iff.mpr unmarked) called
  refine ⟨tended.holds, fun now => ?_, fun a other live => ?_, free ▸ tended.later⟩
  · have address := tended.address now
    rwa [opened, fileId, free] at address
  · refine tended.others a (fun now => ?_) (by rwa [tables])
    rw [fileId]
    exact other (opened.mp now)

/-! ## Runs -/

/-- A process, the files of `EXTFH` and the fcds of a program. -/
structure Program (σ : Type) where
  files : σ
  proc : Process
  fcds : ℕ → Fcd

/-- The fcds that are open in the database have different live tables. -/
structure Program.Tidy (program : Program σ) : Prop where
  holds : ∀ i, (program.fcds i).Holds program.proc
  apart : ∀ i j, (program.fcds i).Opened → (program.fcds j).Opened →
    (program.fcds i).fileId = (program.fcds j).fileId → i = j

/-- The calls of a program on its fcds. It may set everything in an fcd except what belongs to the
handler. Whatever else goes on in the process (commits, commands) leaves the tables. -/
inductive FcdRun (extfh : Extfh σ) (env : Env) (first : Program σ) : Program σ → Prop where
  | start : FcdRun extfh env first first
  | call {program : Program σ} {i : ℕ} {fcd : Fcd} {garbage : Garbage} {opcode : Opcode}
      {sys' : Sys σ} (earlier : FcdRun extfh env first program)
      (prepared : (program.fcds i).SameFile fcd)
      (called : pqfh extfh env garbage opcode ⟨program.files, program.proc, fcd⟩ = .ok sys') :
      FcdRun extfh env first ⟨sys'.files, sys'.proc, Function.update program.fcds i sys'.fcd⟩
  | other {program : Program σ} {files : σ} {proc : Process}
      (earlier : FcdRun extfh env first program) (tables : proc.tables = program.proc.tables)
      (free : proc.free = program.proc.free) : FcdRun extfh env first { program with files, proc }

/-- The fcds stay tidy. -/
theorem FcdRun.tidy {extfh : Extfh σ} {env : Env} (mode : env.mode = .B)
    (marks : ∀ opcode files fcd, (extfh opcode files fcd).2.isam = fcd.isam)
    {first program : Program σ} (closed : ∀ i, (first.fcds i).openMode = 128)
    (run : FcdRun extfh env first program) : program.Tidy := by
  induction run with
  | start =>
      exact ⟨fun i opened => absurd (closed i) opened.1,
        fun i _ opened => absurd (closed i) opened.1⟩
  | @call program i fcd garbage opcode sys' earlier prepared called ih =>
      have held : fcd.Holds program.proc := by
        intro opened
        rw [prepared.fileId]
        exact ih.holds i (prepared.opened.mp opened)
      have tended := pqfh_tended mode marks held called
      -- the tables of the other fcds
      have stay : ∀ j ≠ i, (program.fcds j).Opened →
          (sys'.proc.tables (program.fcds j).fileId).isSome := by
        intro j other opened
        refine tended.others _ (fun now same => other ?_) (ih.holds j opened).2
        exact ih.apart j i opened (prepared.opened.mp now) (same.trans prepared.fileId)
      -- the address of this one is not that of another
      have different : ∀ j ≠ i, (program.fcds j).Opened → sys'.fcd.Opened →
          sys'.fcd.fileId ≠ (program.fcds j).fileId := by
        intro j other opened now same
        obtain ⟨before, address⟩ | fresh := tended.address now
        · exact other (ih.apart j i opened (prepared.opened.mp before)
            (same.symm.trans (address.trans prepared.fileId)))
        · exact absurd (ih.holds j opened).1 (Nat.not_lt.mpr (same ▸ fresh))
      refine ⟨fun j => ?_, fun j k => ?_⟩
      · dsimp only
        by_cases own : j = i
        · rw [own, Function.update_self]
          exact tended.holds
        · rw [Function.update_of_ne own]
          exact fun opened => ⟨(ih.holds j opened).1.trans_le tended.later, stay j own opened⟩
      · dsimp only
        by_cases own : j = i
        · by_cases own' : k = i
          · exact fun _ _ _ => own.trans own'.symm
          · rw [own, Function.update_self, Function.update_of_ne own']
            exact fun now opened same => absurd same (different k own' opened now)
        · by_cases own' : k = i
          · rw [own', Function.update_self, Function.update_of_ne own]
            exact fun opened now same => absurd same.symm (different j own opened now)
          · rw [Function.update_of_ne own, Function.update_of_ne own']
            exact ih.apart j k
  | @other program files proc earlier tables free ih =>
      refine ⟨fun i opened => ?_, ih.apart⟩
      dsimp only
      rw [tables, free]
      exact ih.holds i opened

/-- In mode B an fcd that is not closed has the address of a live table, unless it is marked as kept
outside the database. An operation on the records of a closed fcd, and a second CLOSE, answer 4x,
whatever the process and the address are, and change nothing. COMMIT only commits, and a code that
is not known does nothing. -/
theorem closed_files_guarded (extfh : Extfh σ) (env : Env) (mode : env.mode = .B)
    (marks : ∀ opcode files fcd, (extfh opcode files fcd).2.isam = fcd.isam)
    (first program : Program σ) (closed : ∀ i, (first.fcds i).openMode = 128)
    (run : FcdRun extfh env first program) :
    (∀ i, (program.fcds i).openMode ≠ 128 → (program.fcds i).isam = true ∨
      (program.proc.tables (program.fcds i).fileId).isSome) ∧
    ∀ (sys : Sys σ) (garbage : Garbage), sys.fcd.openMode = 128 → sys.fcd.isam = false →
      (∀ opcode status, opcode.whenClosed = some status →
        status.1 = 52 ∧ pqfh extfh env garbage opcode sys = .ok (sys.setStatus status)) ∧
      pqfh extfh env garbage .commit sys = .ok sys.pqfhCommit ∧
      pqfh extfh env garbage .other sys = .ok sys := by
  constructor
  · intro i opened
    by_cases marked : (program.fcds i).isam = true
    · exact Or.inl marked
    · exact Or.inr ((run.tidy mode marks closed).holds i ⟨opened, Bool.eq_false_iff.mpr marked⟩).2
  · intro sys garbage shut unmarked
    refine ⟨fun opcode status answer => ?_, ?_, ?_⟩
    · have same : sys.readied opcode = sys := by
        cases opcode with
        | openFile _ | commit => cases answer
        | _ => rfl
      refine ⟨?_, ?_⟩
      · cases opcode <;> cases answer <;> rfl
      · rw [pqfh_readied mode, same, unmarked, if_neg Bool.false_ne_true]
        exact databaseOp_closed mode garbage answer shut
    · rw [pqfh_readied mode]
      exact if_neg (by rw [Bool.not_eq_true]; exact unmarked)
    · rw [pqfh_readied mode]
      exact if_neg (by rw [Bool.not_eq_true]; exact unmarked)

/-- The file of balances, closed, in a process without tables. -/
def closedProgram : Program Unit where
  files := ()
  proc := { ledger [] with tables := fun _ => none }
  fcds _ := closedBalance

/-- After an OPEN I-O the file of balances has a table. -/
theorem closed_files_guarded_opened :
    ∃ program, FcdRun noFiles catalogServer closedProgram program ∧
      (program.fcds 0).openMode = 2 ∧ (program.proc.tables (program.fcds 0).fileId).isSome := by
  obtain ⟨sys, called, result⟩ := map_eq_ok.mp (by decide +kernel :
    (fun sys : Sys Unit => (sys.fcd.openMode, sys.fcd.isam)) <$>
      pqfh noFiles catalogServer noGarbage (.openFile .io)
        ⟨(), closedProgram.proc, closedProgram.fcds 0⟩ = .ok (2, false))
  obtain ⟨mode, mark⟩ := Prod.mk.inj result
  have run : FcdRun noFiles catalogServer closedProgram _ :=
    .call (i := 0) .start ⟨rfl, rfl, rfl⟩ called
  have guarded := (closed_files_guarded noFiles catalogServer rfl (fun _ _ _ => rfl) closedProgram _
    (fun _ => rfl) run).1 0
  have same : Function.update closedProgram.fcds 0 sys.fcd 0 = sys.fcd := Function.update_self ..
  refine ⟨_, run, (congrArg Fcd.openMode same).trans mode, ?_⟩
  refine (guarded ?_).resolve_left ?_
  · change (Function.update closedProgram.fcds 0 sys.fcd 0).openMode ≠ 128
    rw [same, mode]
    exact Nat.ne_of_lt (by omega)
  · change ¬ (Function.update closedProgram.fcds 0 sys.fcd 0).isam = true
    rw [same, mark]
    exact Bool.false_ne_true

/-- The call answers 4x and changes nothing. -/
def Refuses (extfh : Extfh σ) (env : Env) (garbage : Garbage) (opcode : Opcode) (sys : Sys σ) :
    Prop :=
  ∃ status : Status, status.1 = 52 ∧ pqfh extfh env garbage opcode sys = .ok (sys.setStatus status)

/-- An `EXTFH` that opens every file I-O. -/
def anyFile : Extfh Unit := fun _ files fcd => (files, { fcd with openMode := 2, status := stOk })

/-- A COMMIT on a closed file is not refused, and a file that is kept outside the database is open
without a table. -/
theorem closed_files_commit_and_native :
    (¬ ∀ opcode : Opcode, (∀ kind, opcode ≠ .openFile kind) → opcode ≠ .deleteFile →
      Refuses noFiles catalogServer noGarbage opcode
        ⟨(), closedProgram.proc, closedProgram.fcds 0⟩) ∧
    ∃ program, FcdRun anyFile { catalogServer with convertida := fun _ => false } closedProgram
        program ∧
      (program.fcds 0).openMode ≠ 128 ∧ program.proc.tables (program.fcds 0).fileId = none := by
  constructor
  · intro refused
    obtain ⟨status, four, called⟩ :=
      refused .commit (fun _ => Opcode.noConfusion) Opcode.noConfusion
    have stays : (fun sys : Sys Unit => sys.fcd.status) <$>
        pqfh noFiles catalogServer noGarbage .commit
          ⟨(), closedProgram.proc, closedProgram.fcds 0⟩ = .ok stOk := by
      decide +kernel
    rw [called] at stays
    cases stays
    exact absurd four (by decide)
  · obtain ⟨sys, called, result⟩ := map_eq_ok.mp (by decide +kernel :
      (fun sys : Sys Unit => (sys.fcd.openMode, (sys.proc.tables sys.fcd.fileId).isSome)) <$>
        pqfh anyFile { catalogServer with convertida := fun _ => false } noGarbage (.openFile .io)
          ⟨(), closedProgram.proc, closedProgram.fcds 0⟩ = .ok (2, false))
    obtain ⟨mode, dead⟩ := Prod.mk.inj result
    have same : Function.update closedProgram.fcds 0 sys.fcd 0 = sys.fcd := Function.update_self ..
    refine ⟨_, .call (i := 0) .start ⟨rfl, rfl, rfl⟩ called, ?_, ?_⟩
    · dsimp only
      rw [same, mode]
      exact Nat.ne_of_lt (by omega)
    · dsimp only
      rw [same]
      exact Option.not_isSome_iff_eq_none.mp (Bool.not_eq_true _ ▸ dead)

/-- UNLOCK looks at the address of a closed fcd. -/
theorem unlock_closed {extfh : Extfh σ} {env : Env} (mode : env.mode = .B) (garbage : Garbage)
    {sys : Sys σ} (unmarked : sys.fcd.isam = false) (dead : sys.proc.tables sys.fcd.fileId = none) :
    pqfh extfh env garbage .unlock sys = .error .undefined := by
  have plain : (sys.readied .unlock).fcd.isam = false := unmarked
  rw [pqfh_readied mode, plain, if_neg Bool.false_ne_true]
  simp only [databaseOp, unlessShadow, mode, Sys.readied, Sys.onTable, dead, reduceCtorEq,
    ↓reduceIte]
  rfl

end Pqfh
