import Pqfh.Handler.Commits
import Pqfh.Handler.Sessions

/-! # Crashes

All that a process has not committed is lost when it ends, be it by a signal or because the machine
fails. The thread of the handler commits meanwhile, when it likes. In mode B the files are on a
disk of which a call changes only a copy: COMMIT and the thread write the copy to the disk, and a
crash takes it away (`Pqfh.crashes_keep_commits`).
-/

namespace Pqfh

open KeyedStore

variable {σ : Type}

/-- What happens to a process: a call of the program, a commit by the thread of the handler, or an
end of the process, after which the program is started anew. -/
inductive Happening where
  | call (call : SessionCall)
  | thread
  | crash

/-- The process of a program that is started after another has ended. The server rolls back what
was not committed. -/
def Process.restarted (proc : Process) : Process where
  conn := ⟨proc.conn.committed, proc.conn.committed, false, fun _ => none⟩
  pendingCommits := 0
  inTransaction := false
  eofStart := false
  weak := []
  ncomps := 0
  tables := fun _ => none
  free := 1

/-- A call returns its fcd. -/
def happen (extfh : Extfh σ) (env : Env) (happening : Happening) (sys : Sys σ) :
    Except Stop (Option Fcd × Sys σ) :=
  match happening with
  | .call call => (fun called => (some called.1, called.2)) <$> callSession extfh env call sys
  | .thread => .ok (none, { sys with proc := sys.proc.commit })
  | .crash => .ok (none, { sys with proc := sys.proc.restarted })

/-- The files that a program works on, and what is on the disk. -/
structure Disk where
  desk : Desk
  written : ℕ → Records (List Byte) (List Byte)

/-- What a happening returns and leaves. -/
def Shelf.undergo (env : Env) (shelf : Shelf) (happening : Happening) (disk : Disk) :
    Option Fcd × Disk :=
  match happening with
  | .call call =>
      let (fcd, desk) := shelf.serve env call disk.desk
      (some fcd, ⟨desk, if call.op = .onFile .commit then disk.desk.stores else disk.written⟩)
  | .thread => (none, { disk with written := disk.desk.stores })
  | .crash => (none, ⟨⟨fun _ => none, 1, disk.written⟩, disk.written⟩)

/-- Crashes and the thread come at any time. -/
def Shelf.Bears (env : Env) (shelf : Shelf) (happening : Happening) (disk : Disk) : Prop :=
  match happening with
  | .call call => shelf.Admits env call disk.desk
  | .thread | .crash => True

/-- The rows of a database are the records of the stores. -/
def Shelf.Holds (shelf : Shelf) (db : Db) (stores : ℕ → Records (List Byte) (List Byte)) : Prop :=
  ∀ relation, shelf.kept relation → ∃ records,
    db relation = some (records.map (rowOf (shelf.layout relation).columns)) ∧
      (∀ record ∈ records, RecordOf (shelf.layout relation).columns record) ∧
      (records.map ((shelf.layout relation).keyOf 0)).Nodup ∧
      stores relation = ofList ((shelf.layout relation).keyOf 0) records

/-- The process stands for what the program works on, and the committed database for the disk. -/
structure Shelf.Outlives (shelf : Shelf) (proc : Process) (disk : Disk) : Prop where
  stands : shelf.Stands proc disk.desk
  written : shelf.Holds proc.conn.committed disk.written

section Committed

variable {extfh : Extfh σ} {env : Env} {shelf : Shelf} {desk : Desk}

/-- OPEN of a file of the shelf creates nothing. -/
theorem Shelf.Describes.openEntries {fcd : Fcd} (describes : shelf.Describes env fcd)
    {proc : Process} (stands : shelf.Stands proc desk) (kind : OpenKind) :
    .commit ∉ Pqfh.openEntries env kind proc.conn { fcd with isam := false } := by
  have found := describes.tableInfo stands fcd.fileId false
  unfold Pqfh.openEntries
  dsimp only
  split
  · exact List.not_mem_nil
  · rw [found]
    dsimp only
    split
    · exact fun member => nomatch List.mem_singleton.mp member
    · exact List.not_mem_nil

/-- An operation on a table does not commit. -/
theorem tableEntries_uncommitted {entries : State → List (Transaction.Entry Change)}
    (rows : ∀ st, ∃ statement, entries st = rowEntry statement) (sys : Sys σ) :
    .commit ∉ tableEntries entries sys := by
  have row : ∀ statement, .commit ∉ rowEntry statement := by
    intro statement member
    obtain ⟨_, _, made⟩ := List.mem_map.mp member
    cases made
  unfold tableEntries
  split
  · exact List.not_mem_nil
  · split
    · exact List.not_mem_nil
    · obtain ⟨statement, same⟩ := rows _
      rw [same]
      exact row statement

/-- No operation of a session but COMMIT commits. -/
theorem FileOp.uncommitted (op : FileOp) (sys : Sys σ) :
    .commit ∉ databaseEntries env op.opcode sys := by
  cases op with
  | read lock => cases lock <;> exact List.not_mem_nil
  | write =>
      apply tableEntries_uncommitted
      intro st
      unfold writeEntries
      split
      · exact ⟨none, rfl⟩
      · split
        · exact ⟨_, rfl⟩
        · exact ⟨none, rfl⟩
  | rewrite =>
      apply tableEntries_uncommitted
      intro st
      unfold rewriteEntries
      split
      · split
        · exact ⟨_, rfl⟩
        · exact ⟨none, rfl⟩
      · exact ⟨none, rfl⟩
  | delete =>
      apply tableEntries_uncommitted
      intro st
      unfold deleteEntries
      split
      · exact ⟨none, rfl⟩
      · split
        · exact ⟨_, rfl⟩
        · exact ⟨none, rfl⟩
  | commit => exact List.not_mem_nil

/-- A call other than COMMIT leaves the committed database. -/
theorem pqfh_committed (mode : env.mode = .B) {call : SessionCall} {sys sys' : Sys σ}
    (admits : shelf.Admits env call desk) (stands : shelf.Stands sys.proc desk)
    (other : call.op ≠ .onFile .commit)
    (called : pqfh extfh env call.garbage call.op.opcode { sys with fcd := call.fcd } = .ok sys') :
    sys'.proc.conn.committed = sys.proc.conn.committed := by
  obtain ⟨op, fcd, garbage⟩ := call
  have switch : ∀ {opcode : Opcode} {fcd : Fcd},
      databaseOp extfh env garbage [] opcode { sys with fcd := fcd } = .ok sys' →
      .commit ∉ databaseEntries env opcode { sys with fcd := fcd } →
      sys'.proc.conn.committed = sys.proc.conn.committed :=
    fun called none => (databaseOp_accounted called).run.committed none
  cases op with
  | openFile kind =>
      unfold Shelf.Admits at admits
      dsimp only at admits
      by_cases closed : fcd.openMode = 128
      · rw [if_neg (not_not.mpr closed)] at admits
        have outside : env.mode ≠ .W := by
          rw [mode]
          exact nofun
        have opened := (pqfh_opens mode closed).symm.trans called
        refine @switch (.openFile kind) { fcd with isam := false }
          ((if_neg outside).trans opened) ?_
        unfold databaseEntries
        dsimp only
        rw [if_neg outside]
        exact admits.1.openEntries stands kind
      · rw [if_pos closed] at admits
        change pqfh extfh env garbage (.openFile kind) { sys with fcd := fcd } = _ at called
        rw [pqfh_opened mode admits closed] at called
        cases called
        rfl
  | close =>
      exact switch ((pqfh_database mode admits.1 (by exact nofun)).symm.trans called)
        List.not_mem_nil
  | onFile op =>
      have other' : op.opcode ≠ .commit := by
        cases op with
        | read lock => cases lock <;> exact nofun
        | commit => exact absurd rfl other
        | _ => exact nofun
      exact switch ((pqfh_database mode admits.1 other').symm.trans called) (op.uncommitted _)

end Committed

/-! ## Runs -/

section Runs

variable {extfh : Extfh σ} {env : Env} {shelf : Shelf}

/-- A commit writes the files to the disk. -/
theorem Shelf.Stands.committed {proc proc' : Process} {desk : Desk}
    (stands : shelf.Stands proc desk) (conn : proc'.conn = proc.conn.commit)
    (tables : proc'.tables = proc.tables) (free : proc'.free = proc.free) :
    shelf.Outlives proc' ⟨desk, desk.stores⟩ := by
  have commit : proc.conn.commit.committed = proc.conn.working ∧
      proc.conn.commit.working = proc.conn.working ∧ proc.conn.commit.aborted = false := by
    unfold Conn.commit
    rw [stands.files.running]
    exact ⟨rfl, rfl, rfl⟩
  rw [← conn] at commit
  refine ⟨⟨⟨commit.2.2, ?_, ?_⟩, ?_, free.trans stands.next, stands.fresh⟩, ?_⟩
  · rw [tables]
    exact stands.files.tables
  · rw [commit.2.1]
    exact stands.files.rows
  · rw [tables]
    exact stands.idle
  · rw [commit.1]
    exact stands.files.rows

/-- What a happening does to the process it does to the disk. -/
theorem happen_refines (mode : env.mode = .B) (serves : shelf.Serves env.pg)
    (happening : Happening) (sys : Sys σ) (disk : Disk) (bears : shelf.Bears env happening disk)
    (outlives : shelf.Outlives sys.proc disk) :
    ∃ sys', happen extfh env happening sys = .ok ((shelf.undergo env happening disk).1, sys') ∧
      shelf.Outlives sys'.proc (shelf.undergo env happening disk).2 := by
  obtain ⟨stands, written⟩ := outlives
  cases happening with
  | call call =>
      obtain ⟨sys', called, after⟩ :=
        callSession_refines mode serves call sys disk.desk bears stands
      refine ⟨sys', map_eq_ok.mpr ⟨_, called, rfl⟩, after, ?_⟩
      obtain ⟨sys'', ran, ended⟩ := bind_eq_ok.mp called
      obtain rfl : sys'' = sys' := congrArg Prod.snd (Except.ok.inj ended)
      change shelf.Holds _ (if call.op = .onFile .commit then disk.desk.stores else disk.written)
      by_cases commits : call.op = .onFile .commit
      · obtain ⟨op, fcd, garbage⟩ := call
        obtain rfl : op = .onFile .commit := commits
        have committed := (@Shelf.Stands.commit σ extfh env shelf { sys with fcd := fcd } disk.desk
          stands mode garbage bears.1).1
        obtain rfl := Except.ok.inj (committed.symm.trans ran)
        rw [if_pos rfl]
        have outlives : shelf.Outlives (Sys.pqfhCommit { sys with fcd := fcd }).proc
            ⟨disk.desk, disk.desk.stores⟩ := stands.committed rfl rfl rfl
        exact outlives.written
      · rw [if_neg commits, pqfh_committed mode bears stands commits ran]
        exact written
  | thread => exact ⟨_, rfl, stands.committed rfl rfl rfl⟩
  | crash => exact ⟨_, rfl, ⟨⟨rfl, nofun, written⟩, nofun, rfl, nofun⟩, written⟩

/-- **Mode B.** In every run of calls, of commits by the thread and of crashes the program sees what
it would see of files that COMMIT and the thread write to a disk, and from which a crash takes what
was not written. Afterwards the tables hold these files, and the committed database what is on the
disk. -/
theorem crashes_keep_commits (extfh : Extfh σ) (env : Env) (mode : env.mode = .B) (shelf : Shelf)
    (serves : shelf.Serves env.pg) (happenings : List Happening) (sys : Sys σ) (disk : Disk)
    (borne : Admitted (shelf.undergo env) (shelf.Bears env) happenings disk)
    (outlives : shelf.Outlives sys.proc disk) :
    ∃ sys', run (happen extfh env) happenings sys =
        .ok ((runSpec (shelf.undergo env) happenings disk).1, sys') ∧
      shelf.Outlives sys'.proc (runSpec (shelf.undergo env) happenings disk).2 := by
  obtain ⟨sys', ran, after⟩ := @run_refines _ _ _ _ _ _ (happen extfh env) (shelf.undergo env)
    (shelf.Bears env) (fun sys disk => shelf.Outlives sys.proc disk) (fun _ answer => answer)
    (happen_refines mode serves) happenings sys disk borne outlives
  refine ⟨sys', ?_, after⟩
  rw [ran, zipWith_runSpec]

end Runs

theorem peopleShut_outlives : peopleShelf.Outlives peopleShut.proc ⟨shutDesk, shutDesk.stores⟩ :=
  ⟨peopleShut_stands, peopleOpen_stands.rows⟩

/-- A READ comes before the OPEN. A third person is written and committed, a fourth is only written,
and OPEN OUTPUT leaves nobody. After a crash all are there again but the fourth. -/
def peopleCrash : List Happening :=
  [.call (works (.read false) 0 128 [51, 0]), .call (opens .io), .call (works .write 1 2 [51, 66]),
    .thread, .call (works .write 1 2 [52, 66]), .call (closes 1 2), .call (opens .output),
    .call (works (.read true) 2 1 [51, 0]), .crash, .call (opens .input),
    .call (works (.read false) 1 0 [51, 0]), .call (works (.read false) 1 0 [52, 0])]

theorem peopleCrash_borne : Admitted (peopleShelf.undergo peopleServer)
    (peopleShelf.Bears peopleServer) peopleCrash ⟨shutDesk, shutDesk.stores⟩ := by
  have works : ∀ {op : FileOp} {file openMode : ℕ} {record : List Byte} {disk : Disk},
      (openMode ≠ 128 → disk.desk.relation file = some 1) → 2 ≤ record.length →
      KeyOk peopleTable 0 record →
      (op = .write ∨ op = .rewrite → Storable peopleTable record) →
      peopleShelf.Bears peopleServer (.call (works op file openMode record)) disk := works_admits
  refine ⟨works nofun ?_ ?_ ?_, opens_admits .io shutDesk, works ?_ ?_ ?_ ?_, trivial,
    works ?_ ?_ ?_ ?_, ⟨rfl, ?_⟩, opens_admits .output shutDesk, works ?_ ?_ ?_ ?_, trivial,
    opens_admits .input shutDesk, works ?_ ?_ ?_ ?_, works ?_ ?_ ?_ ?_, trivial⟩
  all_goals
    decide +kernel

/-- What the program sees. -/
theorem crashes_keep_commits_people : ∃ replies sys',
    run (happen noFiles peopleServer) peopleCrash peopleShut = .ok (replies, sys') ∧
      replies.map (fun reply => reply.map fun fcd => (fcd.status, fcd.record)) =
        [some (stNotOpenedRead, [51, 0]), some (stOk, [0, 0]), some (stOk, [51, 66]), none,
          some (stOk, [52, 66]), some (stOk, [0, 0]), some (stOk, [0, 0]),
          some (stRecNotFound, [51, 0]), none, some (stOk, [0, 0]), some (stOk, [51, 66]),
          some (stRecNotFound, [52, 0])] := by
  obtain ⟨sys', ran, _⟩ := crashes_keep_commits noFiles peopleServer rfl peopleShelf
    peopleShelf_serves peopleCrash peopleShut _ peopleCrash_borne peopleShut_outlives
  exact ⟨_, sys', ran, by decide +kernel⟩

end Pqfh
