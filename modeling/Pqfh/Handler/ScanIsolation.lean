import Pqfh.Foundation.Interleave
import Pqfh.Handler.Dispatch
import Pqfh.Handler.ScanLocal
import Pqfh.Handler.WholeKey

/-! # Scans of several tables

START, READ NEXT, READ PREVIOUS and random reads on the open tables of a process. The place of a
scan is kept in its table, but `eof_start` is one flag for all of them, and so is whether the
transaction is aborted. A START clears the flag whichever table was found empty before, and sets it
when a weak table has no record of the partial key; a READ that fails on one table makes the
statements of all fail.

`Pqfh.scans_isolated` says when the scans are isolated: a READ that looks at the flag must find it
as the calls on its own table left it, and a call that sends a statement must find the transaction
so.
-/

namespace Pqfh

open Interleave

/-! ## Calls -/

/-- The operations of a scan. -/
inductive ScanOp where
  | start (op : Comparison)
  | next (dir : Dir)
  | random (withLock : Bool)

/-- A call, with what the stack frames of the operation hold. -/
structure ScanCall where
  op : ScanOp
  fcd : Fcd
  stack : ℕ → Byte
  inner : ℕ → Byte

/-- The address of the table that a call is on. -/
def ScanCall.file (call : ScanCall) : ℕ := call.fcd.fileId

/-- What a call does on its open table. -/
def ScanCall.on (call : ScanCall) (env : Env) (weak : Bool) (st : State) : Except Stop State :=
  match call.op with
  | .start op => opStart env weak call.stack call.inner op st
  | .next dir => opNextPrev call.stack dir st
  | .random withLock => opReadRandom env false withLock st

/-- An open table of a process with an fcd. -/
def Process.state (proc : Process) (tab : Table) (fcd : Fcd) : State :=
  (Sys.mk () proc fcd).state tab

/-- A call on a process, with the fcd that it gives back. -/
def scanStep (env : Env) (proc : Process) (call : ScanCall) (answer : Fcd) (proc' : Process) :
    Prop :=
  (Sys.mk () proc call.fcd).run stNotOpenedRead
    (fun st => call.on env (proc.weak.contains st.tab.name) st) = .ok ⟨(), proc', answer⟩

/-- The operation that the caller of `pqfh` asks for. -/
def ScanOp.opcode : ScanOp → Opcode
  | .start op => .start op
  | .next .n => .readNext
  | .next .p => .readPrevious
  | .random false => .readRandom
  | .random true => .readLock

/-- The dispatcher makes these calls, except in mode W. -/
theorem databaseOp_scan {σ : Type} (extfh : Extfh σ) {env : Env} (reads : env.mode ≠ .W)
    (buffers : Buffers) (undo : List Byte) (call : ScanCall) (sys : Sys σ) :
    databaseOp extfh env ⟨call.stack, call.inner, buffers⟩ undo call.op.opcode sys =
      sys.run stNotOpenedRead fun st => call.on env (sys.proc.weak.contains st.tab.name) st := by
  obtain ⟨op, fcd, stack, inner⟩ := call
  cases op with
  | start op => exact if_neg reads
  | next dir => cases dir <;> exact if_neg reads
  | random withLock => cases withLock <;> exact if_neg reads

/-- Whether a call sends a statement to the server. -/
def ScanCall.sends (call : ScanCall) (st : State) : Bool :=
  match call.op with
  | .start op =>
      match getkbuf st.tab st.fcd.keyId st.fcd.record with
      | .error _ => false
      | .ok key => !shortcut op (stackCopy call.stack key) st
  | .next dir => !st.tab.first && !st.eofStart && st.tab.restart ≠ some dir
  | .random _ => true

/-- Whether a call looks at `eof_start`. -/
def ScanCall.looks (call : ScanCall) (st : State) : Bool :=
  match call.op with
  | .next _ => !st.tab.first
  | _ => false

/-- Whether a call is a START. -/
def ScanCall.starts (call : ScanCall) : Bool :=
  match call.op with
  | .start _ => true
  | _ => false

/-! ## Tables that are alike -/

/-- The same table, fcd, cursor and rows, on two connections. -/
structure State.Alike (st other : State) : Prop where
  tab : other.tab = st.tab
  fcd : other.fcd = st.fcd
  working : other.conn.working = st.conn.working
  cursor : other.conn.cursors st.tab.handle = st.conn.cursors st.tab.handle

/-- What stays of a state when `eof_start` is set otherwise. -/
def State.flag (st : State) (eofStart : Bool) : State := { st with eofStart := eofStart }

/-- A state that is alike is the reader's, over the connection of the other. -/
theorem State.Alike.eq_over {st other : State} (alike : st.Alike other)
    (aborted : other.conn.aborted = st.conn.aborted) :
    other = (st.over other.conn other.pendingCommits).flag other.eofStart := by
  obtain ⟨conn, pending, eofStart, tab, fcd⟩ := other
  obtain ⟨rfl, rfl, working, cursor⟩ := alike
  have back : conn = conn.over st.tab.handle st.conn := by
    obtain ⟨committed, working', dead, cursors⟩ := conn
    dsimp only at aborted cursor
    simp only [Conn.over, ← aborted, ← cursor, Function.update_eq_self]
  dsimp only [State.over, State.flag]
  rw [← back]

/-- A state over another connection is alike. -/
theorem State.alike_over {st : State} {back : Conn} (same : back.working = st.conn.working)
    (pending : ℕ) : st.Alike (st.over back pending) :=
  ⟨rfl, rfl, same, Conn.over_cursor⟩

/-! ## The flag in a random read -/

/-- A READ is prepared alike whatever the flag `eof_start` was. -/
theorem prepareRandom_flag {env : Env} {weak withLock : Bool} {kbuf : List Byte} {st st' : State}
    {cols : Option (List ℕ)} (prepared : prepareRandom env weak withLock kbuf st = .ok (cols, st'))
    (flag : Bool) :
    prepareRandom env weak withLock kbuf (st.flag flag) = .ok (cols, st'.flag flag) := by
  refine prepareRandom_iff.mpr ?_
  cases prepareRandom_iff.mp prepared with
  | found found => exact .found found
  | refused missing chosen asks busy => exact .refused missing chosen asks busy
  | prepared missing chosen granted done => exact .prepared missing chosen granted done

/-- A READ by key fetches alike whatever the flag `eof_start` was. -/
theorem fetchRandom_flag {env : Env} {weak : Bool} {cols : List ℕ} {st st' : State}
    (fetched : fetchRandom env weak cols st = .ok st') (flag : Bool) :
    fetchRandom env weak cols (st.flag flag) = .ok (st'.flag flag) := by
  obtain ⟨⟨bufs, texts⟩, bound, _⟩ := bind_eq_ok.mp fetched
  rw [fetchRandom_eq env weak bound] at fetched
  rw [@fetchRandom_eq env weak cols (st.flag flag) bufs texts bound]
  dsimp only [State.flag]
  generalize st.conn.select st.tab.relation (st.tab.condition env.pg cols texts) =
    selected at fetched ⊢
  obtain ⟨conn, rows⟩ := selected
  rcases rows with - | - | ⟨row, rest⟩
  · cases fetched
    rfl
  · cases fetched
    rfl
  · simp only [State.deliver] at fetched ⊢
    split at fetched
    · rename_i probe
      cases fetched
      exact if_pos probe
    · rename_i reads
      obtain ⟨record, decoded, ended⟩ := bind_eq_ok.mp fetched
      cases ended
      exact (if_neg reads).trans (bind_eq_ok.mpr ⟨record, decoded, rfl⟩)

/-- A random read does not look at the flag. -/
theorem opReadRandom_flag {env : Env} {weak withLock : Bool} {st st' : State}
    (read : opReadRandom env weak withLock st = .ok st') (flag : Bool) :
    opReadRandom env weak withLock (st.flag flag) = .ok (st'.flag flag) := by
  have unlocks : (st.flag flag).released = st.released.flag flag := by
    unfold State.released
    by_cases held : 0 < st.tab.advisoryLock
    · rw [if_pos held]
      exact if_pos held
    · rw [if_neg held]
      exact if_neg held
  refine opReadRandom_iff.mpr ?_
  cases opReadRandom_iff.mp read with
  | closed closed => exact .closed closed
  | @locked kbuf st₂ opened built prepared =>
      have prepared := prepareRandom_flag prepared flag
      rw [← unlocks] at prepared
      have reads : ReadsRandom env weak withLock (st.flag flag)
          ((st₂.flag flag).setStatus stLocked) := .locked opened built prepared
      exact reads
  | fetched opened built prepared fetched =>
      refine .fetched opened built ?_ (fetchRandom_flag fetched flag)
      rw [unlocks]
      exact prepareRandom_flag prepared flag

/-- A START does not look at the flag. -/
theorem opStart_flag {env : Env} {weak : Bool} {stack inner : ℕ → Byte} {op : Comparison}
    {st : State}
    (opened : st.fcd.openMode ≠ 128) (flag : Bool) :
    opStart env weak stack inner op (st.flag flag) = opStart env weak stack inner op st := by
  unfold opStart
  rw [if_neg opened]
  exact if_neg opened

/-! ## One call on tables that are alike -/

/-- The outcome of a call on a table that is alike: the flag is as the call sets it, and so is
whether the transaction is aborted, when the call sends a statement. -/
structure ScanCall.Repeats (call : ScanCall) (env : Env) (weak : Bool)
    (st st' other other' : State) :
    Prop where
  done : call.on env weak other = .ok other'
  alike : st'.Alike other'
  aborted : other'.conn.aborted = if call.sends st then st'.conn.aborted else other.conn.aborted
  eofStart : other'.eofStart = if call.starts then st'.eofStart else other.eofStart

/-- A call that sends nothing does the same without a look at the connection. -/
theorem ScanCall.repeats_quiet {call : ScanCall} {env : Env} {weak : Bool} {st st' other : State}
    (opened : st.fcd.openMode ≠ 128) (done : call.on env weak st = .ok st')
    (alike : st.Alike other) (quiet : call.sends st = false)
    (flag : call.looks st = true → other.eofStart = st.eofStart) :
    ∃ other', call.Repeats env weak st st' other other' := by
  obtain ⟨conn, pending, eofStart, tab, fcd⟩ := other
  obtain ⟨rfl, rfl, working, cursor⟩ := alike
  obtain ⟨op, area, stack, inner⟩ := call
  cases op with
  | start op =>
      obtain ⟨key, built, started⟩ := bind_eq_ok.mp ((if_neg opened).symm.trans done)
      have same : shortcut op (stackCopy stack key) st = true := by
        simpa only [ScanCall.sends, built, Bool.not_eq_false'] using quiet
      have ended := (if_pos same).symm.trans started
      cases ended
      refine ⟨_, (if_neg opened).trans (bind_eq_ok.mpr ⟨key, built, if_pos same⟩), ?_, ?_, ?_⟩
      · cases op <;> exact ⟨rfl, rfl, working, cursor⟩
      · rw [quiet]
        cases op <;> rfl
      · cases op <;> rfl
  | next dir =>
      by_cases first : st.tab.first = true
      · have ended := (if_pos first).symm.trans ((if_neg opened).symm.trans done)
        cases ended
        refine ⟨_, (if_neg opened).trans (if_pos first), ⟨rfl, rfl, working, cursor⟩, ?_, rfl⟩
        rw [quiet]
        rfl
      · have looks : eofStart = st.eofStart := flag (by
          simp only [ScanCall.looks, Bool.not_eq_true', Bool.not_eq_true _ ▸ first])
        subst looks
        have going := (if_neg first).symm.trans ((if_neg opened).symm.trans done)
        by_cases past : st.eofStart = true
        · have ended := (if_pos past).symm.trans going
          cases ended
          refine ⟨_, (if_neg opened).trans ((if_neg first).trans (if_pos past)),
            ⟨rfl, rfl, working, cursor⟩, ?_, rfl⟩
          rw [quiet]
          rfl
        · have again : st.tab.restart = some dir := by
            simpa [ScanCall.sends, first, past] using quiet
          have ended := (if_pos again).symm.trans ((if_neg past).symm.trans going)
          cases ended
          refine ⟨_,
            (if_neg opened).trans ((if_neg first).trans ((if_neg past).trans (if_pos again))),
            ⟨rfl, rfl, working, cursor⟩, ?_, rfl⟩
          rw [quiet]
          rfl
  | random withLock => cases quiet

/-- A call does the same on a table that is alike, when the connection has failed on neither or on
both, and the flag is the same, as far as the call looks at them. -/
theorem ScanCall.repeats {call : ScanCall} {env : Env} {weak : Bool} {st st' other : State}
    (opened : st.fcd.openMode ≠ 128) (done : call.on env weak st = .ok st')
    (alike : st.Alike other)
    (failed : call.sends st = true → other.conn.aborted = st.conn.aborted)
    (flag : call.looks st = true → other.eofStart = st.eofStart) :
    ∃ other', call.Repeats env weak st st' other other' := by
  by_cases quiet : call.sends st = false
  · exact call.repeats_quiet opened done alike quiet flag
  · rw [Bool.not_eq_false] at quiet
    have back := alike.eq_over (failed quiet)
    obtain ⟨op, area, stack, inner⟩ := call
    cases op with
    | start op =>
        obtain ⟨covers, handle, working⟩ := opStart_local done
        obtain ⟨pending', again⟩ := covers other.conn other.pendingCommits alike.working
        refine ⟨st'.over other.conn pending', ?_,
          State.alike_over (alike.working.trans working.symm) _,
          (if_pos quiet).symm, rfl⟩
        exact (congrArg (opStart env weak stack inner op) back).trans
          ((opStart_flag (by exact opened) _).trans again)
    | next dir =>
        have looks : other.eofStart = st.eofStart := by
          apply flag
          simp only [ScanCall.sends, Bool.and_eq_true] at quiet
          exact quiet.1.1
        obtain ⟨covers, handle, working⟩ := opNextPrev_local done
        obtain ⟨pending', again⟩ := covers other.conn other.pendingCommits alike.working
        have kept : st'.eofStart = st.eofStart := (opNextPrev_same done).2
        refine ⟨st'.over other.conn pending', ?_,
          State.alike_over (alike.working.trans working.symm) _,
          (if_pos quiet).symm, kept.trans looks.symm⟩
        exact (congrArg (opNextPrev stack dir) (back.trans (congrArg _ looks))).trans again
    | random withLock =>
        obtain ⟨covers, handle, working⟩ := opReadRandom_local done
        obtain ⟨pending', again⟩ := covers other.conn other.pendingCommits alike.working
        refine ⟨(st'.over other.conn pending').flag other.eofStart, ?_, ?_,
          (if_pos quiet).symm, rfl⟩
        · exact (congrArg (opReadRandom env false withLock) back).trans (opReadRandom_flag again _)
        · exact ⟨rfl, rfl, alike.working.trans working.symm, Conn.over_cursor⟩

/-- A call of a scan depends on its own table and on the rows alone. -/
theorem ScanCall.on_local {call : ScanCall} {env : Env} {weak : Bool} {st st' : State}
    (done : call.on env weak st = .ok st') : Local (call.on env weak) st st' := by
  obtain ⟨op, fcd, stack, inner⟩ := call
  cases op with
  | start op => exact opStart_local done
  | next dir => exact opNextPrev_local done
  | random withLock => exact opReadRandom_local done

/-- A call changes only its own cursor, and whether the transaction is aborted. -/
theorem ScanCall.on_conn {call : ScanCall} {env : Env} {weak : Bool} {st st' : State}
    (done : call.on env weak st = .ok st') : st'.conn = st.conn.over st.tab.handle st'.conn := by
  obtain ⟨covers, handle, _⟩ := ScanCall.on_local done
  obtain ⟨pending', again⟩ := covers st.conn st.pendingCommits rfl
  have back : st.over st.conn st.pendingCommits = st := by
    dsimp only [State.over]
    rw [Conn.over_self]
  rw [back, done] at again
  exact (congrArg State.conn (Except.ok.inj again)).trans (by rw [State.over_conn, handle])

/-! ## Calls on a process -/

/-- Cursors are named after the addresses of their tables. -/
def Process.Named (proc : Process) : Prop :=
  ∀ file tab, proc.tables file = some tab → tab.handle = file

/-- `op_open` names the cursor of a new table after its address. -/
theorem Process.Named.allocate {proc : Process} (named : proc.Named) {tab : Table}
    (handle : tab.handle = proc.free) : (proc.allocate tab).Named := by
  intro file tab' live
  by_cases new : file = proc.free
  · subst new
    cases (Function.update_self proc.free _ proc.tables).symm.trans live
    exact handle
  · exact named file tab' ((Function.update_of_ne new _ proc.tables).symm.trans live)

/-- The process after a call on an open table. -/
def Process.put (proc : Process) (file : ℕ) (st : State) : Process :=
  { proc with
    conn := st.conn
    pendingCommits := st.pendingCommits
    eofStart := st.eofStart
    tables := Function.update proc.tables file (some st.tab) }

/-- The table that was put is the one found there. -/
theorem Process.put_tables (proc : Process) (file : ℕ) (st : State) :
    (proc.put file st).tables file = some st.tab := Function.update_self ..

/-- A step answers for a closed file, or runs the call on its table. -/
theorem scanStep_cases {env : Env} {proc proc' : Process} {call : ScanCall} {answer : Fcd}
    (stepped : scanStep env proc call answer proc') :
    (call.fcd.openMode = 128 ∧ answer = { call.fcd with status := stNotOpenedRead } ∧
    proc' = proc) ∨
      (call.fcd.openMode ≠ 128 ∧ ∃ tab st, proc.tables call.file = some tab ∧
        call.on env (proc.weak.contains tab.name) (proc.state tab call.fcd) = .ok st ∧
        answer = st.fcd ∧ proc' = proc.put call.file st) := by
  rcases Sys.run_ok stepped with ⟨closed, same⟩ | ⟨opened, tab, st, live, done, same⟩
  · cases same
    exact .inl ⟨closed, rfl, rfl⟩
  · cases same
    exact .inr ⟨opened, tab, st, live, done, rfl, rfl⟩

/-- A closed file is answered with its status. -/
theorem scanStep_closed {env : Env} {proc : Process} {call : ScanCall}
    (closed : call.fcd.openMode = 128) :
    scanStep env proc call { call.fcd with status := stNotOpenedRead } proc := if_pos closed

/-- A call on an open file is run on its table. -/
theorem scanStep_open {env : Env} {proc : Process} {call : ScanCall} {tab : Table} {st : State}
    (opened : call.fcd.openMode ≠ 128) (live : proc.tables call.file = some tab)
    (done : call.on env (proc.weak.contains tab.name) (proc.state tab call.fcd) = .ok st) :
    scanStep env proc call st.fcd (proc.put call.file st) := by
  refine (if_neg opened).trans (map_eq_ok.mpr ⟨((), ⟨(), proc.put call.file st, st.fcd⟩), ?_, rfl⟩)
  simp only [Sys.onTable]
  rw [show proc.tables call.fcd.fileId = some tab from live]
  exact bind_eq_ok.mpr ⟨((), st), map_eq_ok.mpr ⟨st, done, rfl⟩, rfl⟩

/-- A call has one outcome. -/
theorem scanStep_functional {env : Env} (proc : Process) (call : ScanCall) (answer : Fcd)
    (proc' : Process) (answer' : Fcd) (proc'' : Process) (_ : True)
    (stepped : scanStep env proc call answer proc')
    (stepped' : scanStep env proc call answer' proc'') : answer = answer' ∧ proc' = proc'' := by
  cases stepped.symm.trans stepped'
  exact ⟨rfl, rfl⟩

/-- A step leaves each table under its own name. -/
theorem scanStep_named {env : Env} {proc proc' : Process} {call : ScanCall} {answer : Fcd}
    (named : proc.Named) (stepped : scanStep env proc call answer proc') : proc'.Named := by
  rcases scanStep_cases stepped with ⟨_, _, rfl⟩ | ⟨_, tab, st, live, done, _, rfl⟩
  · exact named
  · intro file tab' live'
    by_cases same : file = call.file
    · subst same
      cases (Function.update_self call.file _ proc.tables).symm.trans live'
      exact (ScanCall.on_local done).handle.trans (named _ _ live)
    · exact named file tab' ((Function.update_of_ne same _ proc.tables).symm.trans live')

/-- Every run leaves each table under its own name. -/
theorem scans_named {env : Env} {initial proc : Process} {trace : List (ScanCall × Fcd)}
    (named : initial.Named) (run : Run (scanStep env) always initial trace proc) : proc.Named := by
  induction run with
  | begin => exact named
  | called _ _ stepped ih => exact scanStep_named ih stepped

/-- The table at an address, its cursor and the rows are the same in two processes. -/
structure Process.Alike (file : ℕ) (proc alone : Process) : Prop where
  tables : alone.tables file = proc.tables file
  weak : alone.weak = proc.weak
  working : alone.conn.working = proc.conn.working
  cursor : alone.conn.cursors file = proc.conn.cursors file

/-- Processes that are alike for a file give it states that are alike. -/
theorem Process.Alike.state {proc alone : Process} {file : ℕ} (alike : proc.Alike file alone)
    (named : proc.Named) {tab : Table} (live : proc.tables file = some tab) (fcd : Fcd) :
    (proc.state tab fcd).Alike (alone.state tab fcd) := by
  refine ⟨rfl, rfl, alike.working, ?_⟩
  have handle : (proc.state tab fcd).tab.handle = file := named file tab live
  rw [handle]
  exact alike.cursor

/-- A call leaves the other tables as they are. -/
theorem scanStep_other {env : Env} {proc proc' : Process} {call : ScanCall} {answer : Fcd}
    {file : ℕ}
    (named : proc.Named) (other : call.file ≠ file)
    (stepped : scanStep env proc call answer proc') :
    proc'.Alike file proc := by
  rcases scanStep_cases stepped with ⟨_, _, rfl⟩ | ⟨_, tab, st, live, done, _, rfl⟩
  · exact ⟨rfl, rfl, rfl, rfl⟩
  · refine ⟨(Function.update_of_ne (Ne.symm other) _ _).symm, rfl,
      (ScanCall.on_local done).working.symm, ?_⟩
    have handle : (proc.state tab call.fcd).tab.handle = call.file := named _ _ live
    have conn := ScanCall.on_conn done
    rw [handle] at conn
    change proc.conn.cursors file = st.conn.cursors file
    rw [conn]
    exact (Function.update_of_ne (Ne.symm other) _ _).symm

/-! ## Runs -/

/-- Whether a call on a process sends a statement. -/
def ScanCall.sendsIn (call : ScanCall) (proc : Process) : Bool :=
  call.fcd.openMode ≠ 128 && (proc.tables call.file).any fun tab =>
    call.sends (proc.state tab call.fcd)

/-- Whether a call on a process looks at `eof_start`. -/
def ScanCall.looksIn (call : ScanCall) (proc : Process) : Bool :=
  call.fcd.openMode ≠ 128 && (proc.tables call.file).any fun tab =>
    call.looks (proc.state tab call.fcd)

/-- Whether a call is a START on an open table. -/
def ScanCall.startsIn (call : ScanCall) : Bool := call.fcd.openMode ≠ 128 && call.starts

/-- What the calls on one table make of `eof_start`, and of the transaction. -/
structure View where
  eofStart : Bool
  aborted : Bool

/-- The view of the table of a call after it: a START leaves a new flag, and a statement may fail.
-/
def View.after (view : View) (call : ScanCall) (proc proc' : Process) : View where
  eofStart := if call.startsIn then proc'.eofStart else view.eofStart
  aborted := if call.sendsIn proc then proc'.conn.aborted else view.aborted

/-- A process with the views of its tables, which nothing looks at. -/
structure Watched where
  proc : Process
  view : ℕ → View

/-- A process to be watched. -/
def Watched.start (proc : Process) : Watched := ⟨proc, fun _ => ⟨proc.eofStart, proc.conn.aborted⟩⟩

/-- A call on a process that is watched. -/
def watchedStep (env : Env) (sys : Watched) (call : ScanCall) (answer : Fcd) (sys' : Watched) :
    Prop :=
  scanStep env sys.proc call answer sys'.proc ∧
    sys'.view = Function.update sys.view call.file
      ((sys.view call.file).after call sys.proc sys'.proc)

/-- A call finds what it looks at as the calls on its own table left it: `eof_start`, and whether
the transaction is aborted. -/
structure Unmixed (trace : List (ScanCall × Fcd)) (sys : Watched) (call : ScanCall) : Prop where
  flag : call.looksIn sys.proc = true → sys.proc.eofStart = (sys.view call.file).eofStart
  failed : call.sendsIn sys.proc = true → sys.proc.conn.aborted = (sys.view call.file).aborted

/-- The calls on each table get the answers that they get alone. The next call is answered when it
is alone. -/
structure ScansIsolated (env : Env) (initial : Process) (trace : List (ScanCall × Fcd))
    (sys : Watched) :
    Prop where
  alone : ∀ file, ∃ proc, Run (scanStep env) always initial (own ScanCall.file file trace) proc
  only : ∀ file trace' proc, Run (scanStep env) always initial trace' proc →
    (own ScanCall.file file trace).map Prod.fst = trace'.map Prod.fst →
    own ScanCall.file file trace = trace'
  answered : ∀ call proc, Unmixed trace sys call →
    Run (scanStep env) always initial (own ScanCall.file call.file trace) proc →
    ((∃ answer proc', scanStep env sys.proc call answer proc') ↔
      ∃ answer proc', scanStep env proc call answer proc')

/-- A table in a process, and in one that takes the calls on it alone. -/
structure Unshared (file : ℕ) (sys : Watched) (alone : Process) : Prop where
  named : sys.proc.Named
  alike : sys.proc.Alike file alone
  eofStart : alone.eofStart = (sys.view file).eofStart
  aborted : alone.conn.aborted = (sys.view file).aborted

/-- A call does the same on a table that is alike in another process. -/
theorem scanStep_repeats {env : Env} {proc proc' alone : Process} {call : ScanCall} {answer : Fcd}
    (named : proc.Named) (alike : proc.Alike call.file alone)
    (flag : call.looksIn proc = true → alone.eofStart = proc.eofStart)
    (failed : call.sendsIn proc = true → alone.conn.aborted = proc.conn.aborted)
    (stepped : scanStep env proc call answer proc') :
    ∃ alone', scanStep env alone call answer alone' ∧ proc'.Alike call.file alone' ∧
      alone'.eofStart = (if call.startsIn then proc'.eofStart else alone.eofStart) ∧
      alone'.conn.aborted = if call.sendsIn proc then proc'.conn.aborted
          else alone.conn.aborted := by
  rcases scanStep_cases stepped with ⟨closed, rfl, rfl⟩ | ⟨opened, tab, st, live, done, rfl, rfl⟩
  · refine ⟨alone, scanStep_closed closed, alike, ?_, ?_⟩
    · simp [ScanCall.startsIn, closed]
    · simp [ScanCall.sendsIn, closed]
  · have sends : call.sendsIn proc = call.sends (proc.state tab call.fcd) := by
      simp [ScanCall.sendsIn, opened, live]
    have looks : call.looksIn proc = call.looks (proc.state tab call.fcd) := by
      simp [ScanCall.looksIn, opened, live]
    have starts : call.startsIn = call.starts := by simp [ScanCall.startsIn, opened]
    rw [sends] at failed ⊢
    rw [looks] at flag
    rw [starts]
    obtain ⟨st', again⟩ := ScanCall.repeats (by exact opened) done (alike.state named live call.fcd)
      failed flag
    refine ⟨alone.put call.file st', ?_, ?_, again.eofStart, again.aborted⟩
    · rw [← again.alike.fcd]
      exact scanStep_open opened (alike.tables.trans live) (by rw [alike.weak]; exact again.done)
    · refine ⟨?_, alike.weak, again.alike.working, ?_⟩
      · rw [Process.put_tables, Process.put_tables, again.alike.tab]
      · have handle : st.tab.handle = call.file :=
          (ScanCall.on_local done).handle.trans (named _ _ live)
        have cursor := again.alike.cursor
        rw [handle] at cursor
        exact cursor

/-- A call on another table. -/
theorem Unshared.other {env : Env} {file : ℕ} {sys sys' : Watched} {alone : Process}
    {call : ScanCall}
    {answer : Fcd} (unshared : Unshared file sys alone) (other : call.file ≠ file)
    (stepped : watchedStep env sys call answer sys') : Unshared file sys' alone := by
  obtain ⟨stepped, views⟩ := stepped
  obtain ⟨tables, weak, working, cursor⟩ := scanStep_other unshared.named other stepped
  have view : sys'.view file = sys.view file := by
    rw [views]
    exact Function.update_of_ne (Ne.symm other) _ _
  obtain ⟨named, alike, eofStart, aborted⟩ := unshared
  rw [← view] at eofStart aborted
  exact ⟨scanStep_named named stepped, ⟨alike.tables.trans tables, alike.weak.trans weak,
    alike.working.trans working, alike.cursor.trans cursor⟩, eofStart, aborted⟩

/-- A call on the table. -/
theorem Unshared.same {env : Env} {trace : List (ScanCall × Fcd)} {sys sys' : Watched}
    {alone : Process} {call : ScanCall} {answer : Fcd} (unshared : Unshared call.file sys alone)
    (unmixed : Unmixed trace sys call) (stepped : watchedStep env sys call answer sys') :
    ∃ alone', scanStep env alone call answer alone' ∧ Unshared call.file sys' alone' := by
  obtain ⟨stepped, views⟩ := stepped
  obtain ⟨alone', again, alike, eofStart, aborted⟩ := scanStep_repeats unshared.named unshared.alike
    (fun looks => unshared.eofStart.trans (unmixed.flag looks).symm)
    (fun sends => unshared.aborted.trans (unmixed.failed sends).symm) stepped
  have view : sys'.view call.file = (sys.view call.file).after call sys.proc sys'.proc := by
    rw [views]
    exact Function.update_self ..
  refine ⟨alone', again, scanStep_named unshared.named stepped, alike, ?_, ?_⟩
  · rw [eofStart, view, unshared.eofStart]
    rfl
  · rw [aborted, view, unshared.aborted]
    rfl

/-- What a call looks at is the same on a table that is alike. -/
theorem ScanCall.sends_alike {call : ScanCall} {st other : State} (alike : st.Alike other)
    (flag : call.looks st = true → other.eofStart = st.eofStart) :
    call.looks other = call.looks st ∧ call.sends other = call.sends st := by
  obtain ⟨conn, pending, eofStart, tab, fcd⟩ := other
  obtain ⟨rfl, rfl, _, _⟩ := alike
  obtain ⟨op, area, stack, inner⟩ := call
  refine ⟨rfl, ?_⟩
  cases op with
  | start op => rfl
  | next dir =>
      by_cases first : st.tab.first = true
      · simp [ScanCall.sends, first]
      · have same : eofStart = st.eofStart := flag (by simp [ScanCall.looks, first])
        subst same
        rfl
  | random withLock => rfl

/-- What a call sends for a file is the same in a process that is alike. -/
theorem ScanCall.sendsIn_alike {call : ScanCall} {proc alone : Process} (named : proc.Named)
    (alike : proc.Alike call.file alone)
    (flag : call.looksIn proc = true → alone.eofStart = proc.eofStart) :
    call.looksIn alone = call.looksIn proc ∧ call.sendsIn alone = call.sendsIn proc := by
  unfold ScanCall.looksIn ScanCall.sendsIn at *
  rw [alike.tables]
  by_cases closed : call.fcd.openMode = 128
  · simp [closed]
  · cases live : proc.tables call.file with
    | none => exact ⟨rfl, rfl⟩
    | some tab =>
        rw [live] at flag
        obtain ⟨looks, sends⟩ := call.sends_alike (alike.state named live call.fcd) fun looks =>
          flag (by simpa [closed] using looks)
        exact ⟨congrArg _ looks, congrArg _ sends⟩

/-- In a run in which every call finds `eof_start` and the transaction, as far as it looks at them,
as the calls on its own table left them, the scans are isolated. -/
theorem scans_isolated {env : Env} {initial : Process} {trace : List (ScanCall × Fcd)}
    {sys : Watched}
    (named : initial.Named) (run : Run (watchedStep env) Unmixed (.start initial) trace sys) :
    ScansIsolated env initial trace sys := by
  have related : ∀ file, ∃ alone,
      Run (scanStep env) always initial (own ScanCall.file file trace) alone ∧
        Unshared file sys alone := by
    intro file
    refine run.isolated ScanCall.file file (fun _ => Unshared file)
      ⟨named, ⟨rfl, rfl, rfl, rfl⟩, rfl, rfl⟩ ?_ ?_
    · intro _ _ _ _ _ _ other _ stepped unshared
      exact unshared.other other stepped
    · intro _ _ _ call _ _ same unmixed stepped unshared
      subst same
      exact unshared.same unmixed stepped
  have only : ∀ file trace' proc, Run (scanStep env) always initial trace' proc →
      (own ScanCall.file file trace).map Prod.fst = trace'.map Prod.fst →
      ∀ alone, Run (scanStep env) always initial (own ScanCall.file file trace) alone →
      own ScanCall.file file trace = trace' ∧ alone = proc := by
    intro file trace' proc run' same alone runs
    exact runs.deterministic (fun _ => True) scanStep_functional run' (fun _ _ => trivial) same
  refine ⟨fun file => ?_, fun file trace' proc run' same => ?_, fun call proc unmixed run' => ?_⟩
  · obtain ⟨alone, runs, _⟩ := related file
    exact ⟨alone, runs⟩
  · obtain ⟨alone, runs, _⟩ := related file
    exact (only file trace' proc run' same alone runs).1
  · obtain ⟨alone, runs, unshared⟩ := related call.file
    obtain rfl : alone = proc := (only call.file _ proc run' rfl alone runs).2
    have flag := fun looks => unshared.eofStart.trans (unmixed.flag looks).symm
    have failed := fun sends => unshared.aborted.trans (unmixed.failed sends).symm
    constructor
    · rintro ⟨answer, proc', stepped⟩
      obtain ⟨alone', again, _⟩ :=
        scanStep_repeats unshared.named unshared.alike flag failed stepped
      exact ⟨answer, alone', again⟩
    · rintro ⟨answer, alone', stepped⟩
      have alike := unshared.alike
      have sames := call.sendsIn_alike unshared.named alike flag
      have namedAlone := scans_named named runs
      obtain ⟨proc', again, _⟩ := scanStep_repeats namedAlone
        ⟨alike.tables.symm, alike.weak.symm, alike.working.symm, alike.cursor.symm⟩
        (fun looks => (flag (sames.1.symm.trans looks)).symm)
        (fun sends => (failed (sames.2.symm.trans sends)).symm) stepped
      exact ⟨answer, proc', again⟩

/-! ## Two tables -/

/-- A call as a function. -/
def scanned (env : Env) (proc : Process) (call : ScanCall) : Option (Fcd × Process) :=
  match (Sys.mk () proc call.fcd).run stNotOpenedRead
      (fun st => call.on env (proc.weak.contains st.tab.name) st) with
  | .ok sys => some (sys.fcd, sys.proc)
  | .error _ => none

/-- A scanned call is a step. -/
theorem scanned_step {env : Env} (proc : Process) (call : ScanCall) (answer : Fcd) (proc' : Process)
    (called : scanned env proc call = some (answer, proc')) :
    scanStep env proc call answer proc' := by
  unfold scanned at called
  split at called
  · rename_i done
    cases called
    exact done
  · cases called

/-- A call on a process that is watched, as a function. -/
def watched (env : Env) (sys : Watched) (call : ScanCall) : Option (Fcd × Watched) :=
  (scanned env sys.proc call).map fun outcome => (outcome.1, ⟨outcome.2, Function.update sys.view
    call.file ((sys.view call.file).after call sys.proc outcome.2)⟩)

/-- A watched call is a step. -/
theorem watched_step {env : Env} (sys : Watched) (call : ScanCall) (answer : Fcd) (sys' : Watched)
    (called : watched env sys call = some (answer, sys')) :
    watchedStep env sys call answer sys' := by
  obtain ⟨⟨answer', proc'⟩, scans, outcome⟩ := Option.map_eq_some_iff.mp called
  cases outcome
  exact ⟨scanned_step _ _ _ _ scans, rfl⟩

instance (trace : List (ScanCall × Fcd)) (sys : Watched) (call : ScanCall) :
    Decidable (Unmixed trace sys call) :=
  decidable_of_iff
    ((call.looksIn sys.proc = true → sys.proc.eofStart = (sys.view call.file).eofStart) ∧
    (call.sendsIn sys.proc = true → sys.proc.conn.aborted = (sys.view call.file).aborted))
    ⟨fun both => ⟨both.1, both.2⟩, fun unmixed => ⟨unmixed.flag, unmixed.failed⟩⟩

/-- A process with two tables, of which the second is weak and has no rows. -/
def openTables : Process :=
  let connected : Process :=
    { conn := ⟨fun _ => none, Function.update (fun _ => some []) 1
        (some [[.num 1, .chr [65]], [.num 2, .chr [66]]]), false, fun _ => none⟩
      pendingCommits := 0
      inTransaction := false
      eofStart := false
      weak := [[98]]
      ncomps := 0
      tables := fun _ => none
      free := 1 }
  (connected.allocate (Table.opened 1 1 0 [97] lineColumns [[0, 1]] 0 (clearBuffers 2))).allocate
    (Table.opened 2 2 0 [98] lineColumns [[0, 1]] 0 (clearBuffers 2))

/-- The open tables stand under their own names. -/
theorem openTables_named : openTables.Named := by
  have connected : ∀ proc : Process, (proc.tables = fun _ => none) → proc.Named := by
    intro proc none file tab live
    cases (congrFun none file).symm.trans live
  exact ((connected _ rfl).allocate rfl).allocate rfl

/-- A call on one of the two tables. -/
def scanOn (op : ScanOp) (file : ℕ) (record : List Byte) : ScanCall :=
  ⟨op, { openedFcd 0 record with fileId := file }, fun _ => 0, fun _ => 0⟩

/-- A START on each table, and READ NEXT on the first. -/
def mixedCalls : List ScanCall :=
  [scanOn (.start .ge) 1 [49, 65], scanOn (.next .n) 1 [49, 65], scanOn (.start .ge) 2 [49, 65],
    scanOn (.next .n) 1 [49, 65]]

/-- A START on the weak table before the scan of the other. -/
theorem scans_isolated_before :
    ∃ trace sys, trace.map (fun entry => (entry.2.status : Status)) =
        [stOk, stOk, stOk, stRecNotFound] ∧
      Run (watchedStep plainServer) Unmixed (.start openTables) trace sys ∧
      ScansIsolated plainServer openTables trace sys := by
  obtain ⟨⟨trace, sys⟩, made, statuses⟩ := Option.map_eq_some_iff.mp (by decide +kernel :
    (execute (watched plainServer) (fun trace sys call => decide (Unmixed trace sys call))
      [scanOn (.start .ge) 2 [49, 65], scanOn (.start .ge) 1 [49, 65], scanOn (.next .n) 1 [49, 65],
        scanOn (.next .n) 1 [49, 65]] ([], .start openTables)).map
      (fun result => result.1.map fun entry => (entry.2.status : Status)) =
      some [stOk, stOk, stOk, stRecNotFound])
  have run := (execute_run _ _ watched_step
    (fun _ _ _ allowed => of_decide_eq_true allowed) _ .begin made).1
  exact ⟨trace, sys, statuses, run, scans_isolated openTables_named run⟩

/-- A START that finds no record of a weak table ends the scan of another. -/
theorem scans_start_of_other :
    ¬ ∀ (env : Env) (initial proc : Process) (trace : List (ScanCall × Fcd)), initial.Named →
      Run (scanStep env) always initial trace proc →
      ∀ file, ∃ alone, Run (scanStep env) always initial (own ScanCall.file file trace) alone := by
  intro claimed
  obtain ⟨⟨trace, proc⟩, made, statuses⟩ := Option.map_eq_some_iff.mp (by decide +kernel :
    (execute (scanned plainServer) (fun _ _ _ => true) mixedCalls ([], openTables)).map
      (fun result => (own ScanCall.file 1 result.1).map fun entry => (entry.2.status : Status)) =
      some [stEof, stOk, stOk])
  obtain ⟨⟨trace', proc'⟩, made', statuses'⟩ := Option.map_eq_some_iff.mp (by decide +kernel :
    (execute (scanned plainServer) (fun _ _ _ => true)
      (mixedCalls.filter fun call => call.file = 1) ([], openTables)).map
      (fun result => result.1.map fun entry => (entry.2.status : Status)) =
      some [stOk, stOk, stOk])
  obtain ⟨run, calls⟩ := execute_run _ _ scanned_step (fun _ _ _ _ => trivial) _ .begin made
  obtain ⟨run', calls'⟩ := execute_run _ _ scanned_step (fun _ _ _ _ => trivial) _ .begin made'
  obtain ⟨alone, runs⟩ := claimed plainServer openTables proc trace openTables_named run 1
  have same : (own ScanCall.file 1 trace).map Prod.fst = trace'.map Prod.fst := by
    rw [calls', own_calls, calls]
    simp [mixedCalls, scanOn, ScanCall.file]
  obtain ⟨rfl, _⟩ := runs.deterministic (fun _ => True) scanStep_functional run'
    (fun _ _ => trivial) same
  cases statuses.symm.trans statuses'

end Pqfh
