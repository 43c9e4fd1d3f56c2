import Pqfh.Handler.WholeKey
import Pqfh.Handler.ScanLocal
import Pqfh.Handler.Closed

/-! # Locked reads of two sessions

`op_read_random` asks the server for an advisory lock with the number that the text of the key
begins with, and the next read of the table gives it back. Two processes have the same table open,
and the server lets a process have a lock unless the other one holds it.

The lock is asked for in the branch that prepares the statement of the key. A READ WITH LOCK by a
key that was read before answers 00 without a lock, so that the other process reads the record with
lock too.
-/

namespace Pqfh

/-! ## The locks of the server -/

/-- The advisory locks of the two sessions: how often each is held. -/
abbrev Locks := Bool → ℕ → ℤ → ℕ

def Locks.set (locks : Locks) (side : Bool) (oid : ℕ) (key : ℤ) (count : ℕ) : Locks :=
  fun side' oid' key' => if side' = side ∧ oid' = oid ∧ key' = key then count
    else locks side' oid' key'

/-- The lock that was set is the one found there. -/
theorem Locks.set_self (locks : Locks) (side : Bool) (oid : ℕ) (key : ℤ) (count : ℕ) :
    locks.set side oid key count side oid key = count :=
  if_pos ⟨rfl, rfl, rfl⟩

/-- The locks of the other session are as they were. -/
theorem Locks.set_other (locks : Locks) {side side' : Bool} (other : side' ≠ side) (oid : ℕ)
    (key : ℤ)
    (count : ℕ) : locks.set side oid key count side' = locks side' := by
  funext oid' key'
  exact if_neg fun same => other same.1

/-- The commands on locks. -/
inductive LockCommand where
  | unlock (oid : ℕ) (key : ℤ)
  | tryLock (oid : ℕ) (key : ℤ)

/-- What the server does. A command in an aborted transaction fails. -/
def LockCommand.apply (side aborted : Bool) (locks : Locks) : LockCommand → Locks
  | .unlock oid key =>
      if aborted then locks else locks.set side oid key (locks side oid key - 1)
  | .tryLock oid key =>
      if aborted || 0 < locks (!side) oid key then locks
      else locks.set side oid key (locks side oid key + 1)

/-- The locks after some commands of a session. -/
def Locks.after (locks : Locks) (side aborted : Bool) (commands : List LockCommand) : Locks :=
  commands.foldl (LockCommand.apply side aborted) locks

/-- A command of one session leaves the locks of the other alone. -/
theorem LockCommand.apply_other {side side' : Bool} (other : side' ≠ side) (aborted : Bool)
    (locks : Locks) (command : LockCommand) : command.apply side aborted locks side' =
    locks side' := by
  cases command with
  | unlock oid key =>
      rw [LockCommand.apply]
      split
      · rfl
      · exact locks.set_other other oid key _
  | tryLock oid key =>
      rw [LockCommand.apply]
      split
      · rfl
      · exact locks.set_other other oid key _

/-- A session changes its own locks. -/
theorem Locks.after_other {side side' : Bool} (other : side' ≠ side) (aborted : Bool)
    (commands : List LockCommand) (locks : Locks) :
    locks.after side aborted commands side' = locks side' := by
  unfold Locks.after
  induction commands generalizing locks with
  | nil => rfl
  | cons command commands ih =>
      exact (ih _).trans (command.apply_other other aborted locks)

/-- A lock that the other session does not hold is granted. -/
theorem Locks.after_tryLock {side : Bool} {oid : ℕ} {key : ℤ} {locks : Locks}
    (free : locks (!side) oid key = 0) (commands : List LockCommand) :
    0 < locks.after side false (commands ++ [.tryLock oid key]) side oid key := by
  have other : locks.after side false commands (!side) = locks (!side) :=
    locks.after_other (Bool.not_ne_self side) false commands
  unfold Locks.after at other ⊢
  rw [List.foldl_append, List.foldl_cons, List.foldl_nil, LockCommand.apply, other, free,
    if_neg (by rw [Bool.false_or, decide_eq_true_iff]; exact lt_irrefl 0), Locks.set_self]
  exact Nat.succ_pos _

/-- What the server says to one session while the other holds some locks. -/
def Env.facing (env : Env) (held : ℕ → ℤ → ℕ) : Env :=
  { env with pg := { env.pg with tryLock := fun oid key => held oid key = 0 } }

/-! ## The commands of the operations -/

/-- The commands of `op_read_random`. -/
def readLocks (env : Env) (withLock : Bool) (st : State) : List LockCommand :=
  if st.fcd.openMode = 128 then []
  else (if 0 < st.tab.advisoryLock then [.unlock st.tab.oid st.tab.advisoryLock] else []) ++
    match getkbuf st.tab st.fcd.keyId st.fcd.record with
    | .error _ => []
    | .ok kbuf =>
        if (st.tab.readPrepared st.fcd.keyId).isNone && wantsLock env withLock (cstr kbuf) st then
          [.tryLock st.tab.oid (atoi (cstr kbuf))]
        else []

/-- The commands of `op_start`: those of the read that probes a weak table. -/
def startLocks (env : Env) (weak : Bool) (stack : ℕ → Byte) (op : Comparison) (st : State) :
    List LockCommand :=
  if st.fcd.openMode = 128 then []
  else
    match getkbuf st.tab st.fcd.keyId st.fcd.record with
    | .error _ => []
    | .ok kbuf =>
        if shortcut op (stackCopy stack kbuf) st then []
        else if weak then readLocks env false { st with eofStart := false } else []

/-- The calls that read, and those that give a lock back. -/
inductive LockCall where
  | readLock
  | readRandom
  | readNext (stack : ℕ → Byte)
  | readPrevious (stack : ℕ → Byte)
  | start (op : Comparison) (stack inner : ℕ → Byte)
  | unlock
  | close

/-- The branches of the switch. In mode A, a CLOSE goes on to `EXTFH`, which knows nothing of the
locks of the server. -/
def LockCall.on (env : Env) (sys : Sys Unit) : LockCall → Except Stop (Sys Unit)
  | .readLock => sys.run stNotOpenedRead (opReadRandom env false true)
  | .readRandom => sys.run stNotOpenedRead (opReadRandom env false false)
  | .readNext stack => sys.run stNotOpenedRead (opNextPrev stack .n)
  | .readPrevious stack => sys.run stNotOpenedRead (opNextPrev stack .p)
  | .start op stack inner => sys.run stNotOpenedRead fun st =>
      opStart env (sys.proc.weak.contains st.tab.name) stack inner op st
  | .unlock => Prod.snd <$> sys.onTable fun st => .ok ((), st.unlock)
  | .close => sys.onProcess opClose

/-- The commands of a call on an open table. -/
def LockCall.locks (env : Env) (weak : List (List Byte)) (st : State) : LockCall → List LockCommand
  | .readLock => readLocks env true st
  | .readRandom => readLocks env false st
  | .readNext _ | .readPrevious _ => []
  | .start op stack _ => startLocks env (weak.contains st.tab.name) stack op st
  | .unlock => [.unlock st.tab.oid st.tab.advisoryLock]
  | .close =>
      if st.fcd.openMode ≠ 128 ∧ 0 < st.tab.advisoryLock then
        [.unlock st.tab.oid st.tab.advisoryLock]
      else []

/-- The commands of a call. -/
def LockCall.commands (env : Env) (sys : Sys Unit) (call : LockCall) : List LockCommand :=
  match sys.proc.tables sys.fcd.fileId with
  | none => []
  | some tab => call.locks env sys.proc.weak (sys.state tab)

/-- The calls are those of the switch. -/
theorem LockCall.on_databaseOp {env : Env} (mode : env.mode = .B) (garbage : Garbage)
    (sys : Sys Unit) :
    LockCall.on env sys .readLock = databaseOp noFiles env garbage [] .readLock sys ∧
      LockCall.on env sys .readRandom = databaseOp noFiles env garbage [] .readRandom sys ∧
      LockCall.on env sys (.readNext garbage.stack) =
        databaseOp noFiles env garbage [] .readNext sys ∧
      LockCall.on env sys (.readPrevious garbage.stack) =
        databaseOp noFiles env garbage [] .readPrevious sys ∧
      (∀ op, LockCall.on env sys (.start op garbage.stack garbage.inner) =
        databaseOp noFiles env garbage [] (.start op) sys) ∧
      LockCall.on env sys .unlock = databaseOp noFiles env garbage [] .unlock sys ∧
      LockCall.on env sys .close = databaseOp noFiles env garbage [] .close sys := by
  have shadowless : ∀ op : Except Stop (Sys Unit), unlessShadow env sys op = op := fun op =>
    if_neg (by rw [mode]; exact Mode.noConfusion)
  refine ⟨(shadowless _).symm, (shadowless _).symm, (shadowless _).symm, (shadowless _).symm,
    fun _ => (shadowless _).symm, (shadowless _).symm, ?_⟩
  simp only [databaseOp, closeBoth, mode]
  rfl

/-! ## What an operation leaves of the lock -/

/-- The table remembers a lock that the session holds. -/
def Backed (locks : ℕ → ℤ → ℕ) (tab : Table) : Prop :=
  0 < tab.advisoryLock → 0 < locks tab.oid tab.advisoryLock

/-- The lock that a table remembers stays. -/
def Table.SameLock (tab tab' : Table) : Prop :=
  tab'.oid = tab.oid ∧ tab'.advisoryLock = tab.advisoryLock

/-- A table that holds the same lock is backed as before. -/
theorem Table.SameLock.backed {tab tab' : Table} (same : tab.SameLock tab') {locks : ℕ → ℤ → ℕ}
    (backed : Backed locks tab) : Backed locks tab' := by
  unfold Backed
  rwa [same.1, same.2]

/-- READ by key holds the lock it held. -/
theorem fetchRandom_lock {env : Env} {weak : Bool} {cols : List ℕ} {st st' : State}
    (fetched : fetchRandom env weak cols st = .ok st') : st.tab.SameLock st'.tab := by
  cases fetchRandom_cases fetched <;> exact ⟨rfl, rfl⟩

/-- READ NEXT and READ PREVIOUS fetch with the lock they held. -/
theorem fetchNextPrev_lock {stack : ℕ → Byte} {dir : Dir} {st st' : State}
    (fetched : fetchNextPrev stack dir st = .ok st') : st.tab.SameLock st'.tab := by
  cases fetchNextPrev_iff.mp fetched with
  | ended => exact ⟨rfl, rfl⟩
  | read => cases dir <;> exact ⟨rfl, rfl⟩

/-- READ NEXT and READ PREVIOUS hold the lock they held. -/
theorem opNextPrev_lock {stack : ℕ → Byte} {dir : Dir} {st st' : State}
    (read : opNextPrev stack dir st = .ok st') : st.tab.SameLock st'.tab := by
  cases opNextPrev_iff.mp read with
  | fetched _ _ _ _ fetched =>
      have kept := fetchNextPrev_lock fetched
      exact kept
  | _ => exact ⟨rfl, rfl⟩

/-- Declaring a scan holds the lock it held. -/
theorem declareScan_lock {env : Env} {weak : Bool} {stack : ℕ → Byte} {op : Comparison}
    {st st' : State} (declared : declareScan env weak stack op st = .ok st') :
    st.tab.SameLock st'.tab := by
  unfold declareScan at declared
  obtain ⟨⟨tokens, order⟩, _, declared⟩ := bind_eq_ok.mp declared
  dsimp only at declared
  have shut : st.closeCursor.tab.oid = st.tab.oid ∧
      st.closeCursor.tab.advisoryLock = st.tab.advisoryLock := by
    unfold State.closeCursor
    split <;> exact ⟨rfl, rfl⟩
  split at declared
  · cases declared
  · obtain ⟨st₁, read, declared⟩ := bind_eq_ok.mp declared
    obtain ⟨oid, lock⟩ := opNextPrev_lock read
    have same : st.tab.SameLock st₁.tab := by
      refine ⟨oid.trans (Eq.trans ?_ shut.1), lock.trans (Eq.trans ?_ shut.2)⟩
      · cases op.dir <;> rfl
      · cases op.dir <;> rfl
    split at declared
    · cases declared
      exact same
    · cases declared
      exact same

/-- A released table holds no lock. -/
theorem State.released_lock (st : State) : ¬ 0 < st.released.tab.advisoryLock := by
  unfold State.released
  split
  · exact lt_irrefl _
  · assumption

/-- What becomes of the lock when the statement of a key is prepared. -/
theorem prepareRandom_lock {env : Env} {weak withLock : Bool} {kbuf : List Byte} {st st' : State}
    {cols : Option (List ℕ)}
    (prepared : prepareRandom env weak withLock kbuf st = .ok (cols, st')) :
    st'.tab.oid = st.tab.oid ∧
      (st'.tab.advisoryLock = st.tab.advisoryLock ∨
        st'.tab.advisoryLock = atoi kbuf ∧ st.tab.readPrepared st.fcd.keyId = none ∧
          wantsLock env withLock kbuf st = true ∧ st.conn.aborted = false ∧
          env.pg.tryLock st.tab.oid (atoi kbuf) = true) := by
  cases prepareRandom_iff.mp prepared with
  | found => exact ⟨rfl, Or.inl rfl⟩
  | refused => exact ⟨rfl, Or.inl rfl⟩
  | prepared fresh _ granted =>
      refine ⟨rfl, ?_⟩
      by_cases asks : wantsLock env withLock kbuf st = true
      · exact Or.inr ⟨if_pos asks, fresh, asks, granted asks⟩
      · exact Or.inl (if_neg asks)

/-- A read of an open table asks for the lock when it prepares its statement. -/
theorem opReadRandom_asks {env : Env} {weak withLock : Bool} {st st' : State}
    (opened : st.fcd.openMode ≠ 128) (read : opReadRandom env weak withLock st = .ok st') :
    ∃ kbuf cols st₂, getkbuf st.tab st.fcd.keyId st.fcd.record = .ok kbuf ∧
      prepareRandom env weak withLock (cstr kbuf) st.released = .ok (cols, st₂) ∧
      st₂.tab.SameLock st'.tab := by
  cases opReadRandom_iff.mp read with
  | closed closed => exact absurd closed opened
  | locked _ built prepared => exact ⟨_, _, _, built, prepared, rfl, rfl⟩
  | fetched _ built prepared fetched =>
      exact ⟨_, _, _, built, prepared, fetchRandom_lock fetched⟩

/-- After a read, the session holds the lock that its table remembers. -/
theorem opReadRandom_backed {env : Env} {locks : Locks} {side weak withLock : Bool} {st st' : State}
    (read : opReadRandom (env.facing (locks (!side))) weak withLock st = .ok st')
    (backed : Backed (locks side) st.tab) :
    Backed (locks.after side st.conn.aborted (readLocks env withLock st) side) st'.tab := by
  unfold readLocks
  by_cases closed : st.fcd.openMode = 128
  · obtain rfl : st.setStatus stNotOpenedRead = st' :=
      Except.ok.inj ((if_pos closed).symm.trans read)
    rw [if_pos closed]
    exact backed
  · rw [if_neg closed]
    obtain ⟨kbuf, cols, st₂, built, prepared, last⟩ := opReadRandom_asks closed read
    obtain ⟨oid₂, kept | ⟨lock, fresh, asks, running, free⟩⟩ := prepareRandom_lock prepared
    · intro some
      rw [last.2, kept] at some
      exact absurd some st.released_lock
    · have asks : wantsLock env withLock (cstr kbuf) st = true :=
        (wantsLock_released st env withLock (cstr kbuf)).symm.trans asks
      rw [st.released_readPrepared, st.released_fcd] at fresh
      rw [st.released_conn] at running
      rw [st.released_oid] at free oid₂
      rw [built, running]
      dsimp only
      rw [fresh, asks, Option.isNone_none, Bool.and_self, if_pos rfl]
      intro _
      rw [last.1, last.2, oid₂, lock]
      exact Locks.after_tryLock (of_decide_eq_true free) _

/-- START holds no lock that the server does not. -/
theorem opStart_backed {env : Env} {locks : Locks} {side weak : Bool} {stack inner : ℕ → Byte}
    {op : Comparison} {st st' : State}
    (started : opStart (env.facing (locks (!side))) weak stack inner op st = .ok st')
    (backed : Backed (locks side) st.tab) :
    Backed (locks.after side st.conn.aborted (startLocks env weak stack op st) side) st'.tab := by
  unfold startLocks
  by_cases closed : st.fcd.openMode = 128
  · obtain rfl : st.setStatus stNotOpenedRead = st' :=
      Except.ok.inj ((if_pos closed).symm.trans started)
    rw [if_pos closed]
    exact backed
  · unfold opStart at started
    rw [if_neg closed] at started ⊢
    obtain ⟨kbuf, built, started⟩ := bind_eq_ok.mp started
    change getkbuf st.tab st.fcd.keyId st.fcd.record = .ok kbuf at built
    rw [built]
    dsimp only at started ⊢
    have eof : shortcut op (stackCopy stack kbuf) { st with eofStart := false } =
        shortcut op (stackCopy stack kbuf) st := rfl
    rw [eof] at started
    split at started
    · rename_i resumed
      cases started
      rw [if_pos resumed]
      have same : st.tab.SameLock (restartScan op { st with eofStart := false }).tab := by
        cases op <;> exact ⟨rfl, rfl⟩
      exact same.backed backed
    · rename_i fresh
      rw [if_neg fresh]
      split at started
      · rename_i probes
        rw [if_pos probes]
        obtain ⟨st₁, read, started⟩ := bind_eq_ok.mp started
        have probed := opReadRandom_backed read backed
        split at started
        · cases started
          exact probed
        · exact (declareScan_lock started).backed probed
      · rename_i strong
        rw [if_neg strong]
        have same := declareScan_lock started
        exact Table.SameLock.backed same backed

/-! ## A call -/

/-- The session holds the lock that the table of its file remembers. -/
def Sys.Backs (sys : Sys Unit) (locks : ℕ → ℤ → ℕ) : Prop :=
  ∀ tab, sys.proc.tables sys.fcd.fileId = some tab → Backed locks tab

/-- No operation leaves a lock that the server does not hold. -/
theorem Sys.run_backed {env : Env} {locks : Locks} {side : Bool} {call : LockCall}
    {op : State → Except Stop State} {sys sys' : Sys Unit}
    (ran : sys.run stNotOpenedRead op = .ok sys')
    (shut : ∀ st, st.fcd.openMode = 128 → call.locks env sys.proc.weak st = [])
    (file : ∀ {st st'}, op st = .ok st' → st.fcd.SameFile st'.fcd)
    (keeps : ∀ {tab st'}, op (sys.state tab) = .ok st' → Backed (locks side) tab →
      Backed (locks.after side sys.proc.conn.aborted (call.locks env sys.proc.weak (sys.state tab))
        side) st'.tab) (backed : sys.Backs (locks side)) :
    sys'.Backs (locks.after side sys.proc.conn.aborted (call.commands env sys) side) := by
  unfold LockCall.commands
  obtain ⟨closed, rfl⟩ | ⟨_, tab, st, live, operated, rfl⟩ := Sys.run_ok ran
  · intro tab live
    change sys.proc.tables sys.fcd.fileId = some tab at live
    rw [live]
    dsimp only
    rw [shut (sys.state tab) closed]
    exact backed tab live
  · intro tab' live'
    have same := (file operated).fileId
    change Function.update sys.proc.tables sys.fcd.fileId (some st.tab) st.fcd.fileId = some tab'
      at live'
    rw [same] at live'
    change Function.update sys.proc.tables sys.fcd.fileId (some st.tab) sys.fcd.fileId = some tab'
      at live'
    rw [Function.update_self] at live'
    obtain rfl := Option.some.inj live'
    rw [live]
    exact keeps operated (backed tab live)

/-- After a call, the session holds the lock that its table remembers. -/
theorem LockCall.on_backed {env : Env} {locks : Locks} {side : Bool} {call : LockCall}
    {sys sys' : Sys Unit} (called : call.on (env.facing (locks (!side))) sys = .ok sys')
    (backed : sys.Backs (locks side)) :
    sys'.Backs (locks.after side sys.proc.conn.aborted (call.commands env sys) side) := by
  cases call with
  | readLock =>
      exact Sys.run_backed called (fun _ closed => if_pos closed)
        (fun done => (opReadRandom_fcd done).file) (fun done => opReadRandom_backed done) backed
  | readRandom =>
      exact Sys.run_backed called (fun _ closed => if_pos closed)
        (fun done => (opReadRandom_fcd done).file) (fun done => opReadRandom_backed done) backed
  | readNext stack =>
      exact Sys.run_backed called (fun _ _ => rfl) (fun done => (opNextPrev_fcd done).file)
        (fun done => (opNextPrev_lock done).backed) backed
  | readPrevious stack =>
      exact Sys.run_backed called (fun _ _ => rfl) (fun done => (opNextPrev_fcd done).file)
        (fun done => (opNextPrev_lock done).backed) backed
  | start op stack inner =>
      exact Sys.run_backed called (fun _ closed => if_pos closed)
        (fun done => (opStart_fcd done).file) (fun done => opStart_backed done) backed
  | unlock =>
      obtain ⟨⟨_, sys''⟩, ran, rfl⟩ := map_eq_ok.mp called
      obtain ⟨tab, st, live, done, rfl⟩ := Sys.onTable_ok ran
      cases done
      intro tab' live'
      change Function.update sys.proc.tables sys.fcd.fileId _ sys.fcd.fileId = some tab' at live'
      rw [Function.update_self] at live'
      obtain rfl := Option.some.inj live'
      exact fun some => absurd some (lt_irrefl _)
  | close =>
      obtain ⟨⟨proc, fcd⟩, closed, ended⟩ := bind_eq_ok.mp called
      cases ended
      unfold LockCall.commands
      unfold opClose at closed
      split at closed
      · rename_i shut
        cases closed
        intro tab live
        change sys.proc.tables sys.fcd.fileId = some tab at live
        rw [live]
        dsimp only [LockCall.locks]
        rw [if_neg fun both => both.1 shut]
        exact backed tab live
      · split at closed
        · cases closed
        · cases closed
          intro tab' live'
          dsimp only at live'
          rw [Function.update_self] at live'
          split at live'
          · cases live'
          · obtain rfl := Option.some.inj live'
            exact fun some => absurd some (lt_irrefl _)

/-! ## Two sessions -/

/-- Two processes that have the table open, the locks of the server, and what each has locked: the
record that it got 00 for from a READ WITH LOCK, until it unlocks, closes or reads another. -/
structure World (ρ : Type) where
  sessions : Bool → Sys Unit
  locks : Locks
  claims : Bool → Option ρ

variable {ρ : Type}

/-- The record that the key fields of the record area designate. `record` says which record has a
number at the beginning of a key. -/
def Sys.designated (record : ℕ → ℤ → ρ) (sys : Sys Unit) : Option ρ :=
  match sys.proc.tables sys.fcd.fileId with
  | none => none
  | some tab =>
      match getkbuf tab sys.fcd.keyId sys.fcd.record with
      | .error _ => none
      | .ok kbuf => some (record sys.fcd.keyId (atoi (cstr kbuf)))

/-- No record is locked by both sessions. -/
def World.Exclusive (world : World ρ) : Prop :=
  ∀ wanted, ¬ (world.claims false = some wanted ∧ world.claims true = some wanted)

/-- The sessions hold the locks that their tables remember. -/
def World.Backed (world : World ρ) : Prop :=
  ∀ side, (world.sessions side).Backs (world.locks side)

/-- A read with lock of a record that the other session has locked: the statement of its key is not
prepared yet, so that it asks for a lock, and the table of the other session remembers the lock of
the same number. -/
def World.Guarded (record : ℕ → ℤ → ρ) (env : Env) (world : World ρ) (side : Bool)
    (sys : Sys Unit) :
    Prop :=
  ∀ tab kbuf, sys.proc.tables sys.fcd.fileId = some tab →
    getkbuf tab sys.fcd.keyId sys.fcd.record = .ok kbuf →
    world.claims (!side) = some (record sys.fcd.keyId (atoi (cstr kbuf))) →
    tab.readPrepared sys.fcd.keyId = none ∧ wantsLock env true (cstr kbuf) (sys.state tab) = true ∧
      ∃ held, (world.sessions (!side)).proc.tables (world.sessions (!side)).fcd.fileId = some held ∧
        held.oid = tab.oid ∧ held.advisoryLock = atoi (cstr kbuf)

/-- Exclusion is the same seen from either side. -/
theorem World.Exclusive.sides {world : World ρ} (side : Bool) :
    world.Exclusive ↔
      ∀ wanted, ¬ (world.claims side = some wanted ∧ world.claims (!side) = some wanted) := by
  cases side with
  | false => exact Iff.rfl
  | true => exact forall_congr' fun wanted => not_congr and_comm

/-- A guarded READ WITH LOCK that answers 00 is of a record that the other session has not locked.
-/
theorem World.Guarded.free {record : ℕ → ℤ → ρ} {env : Env} {world : World ρ} {side : Bool}
    {sys sys' : Sys Unit} (backed : world.Backed) (guarded : world.Guarded record env side sys)
    (called : LockCall.on (env.facing (world.locks (!side))) sys .readLock = .ok sys')
    (found : sys'.fcd.status = stOk) {wanted : ρ} (sought : sys.designated record = some wanted) :
    world.claims (!side) ≠ some wanted := by
  intro locked
  obtain ⟨_, rfl⟩ | ⟨opened, tab, st, live, operated, rfl⟩ := Sys.run_ok called
  · exact absurd found (by decide : stNotOpenedRead ≠ stOk)
  · unfold Sys.designated at sought
    rw [live] at sought
    dsimp only at sought
    cases built : getkbuf tab sys.fcd.keyId sys.fcd.record with
    | error _ =>
        rw [built] at sought
        cases sought
    | ok kbuf =>
        rw [built] at sought
        obtain rfl := Option.some.inj sought
        obtain ⟨fresh, asks, held, there, oid, lock⟩ := guarded tab kbuf live built locked
        have positive : 0 < atoi (cstr kbuf) := by
          unfold wantsLock at asks
          rw [Bool.and_eq_true] at asks
          exact of_decide_eq_true asks.2
        have taken := backed (!side) held there (by rwa [lock])
        rw [oid, lock] at taken
        have busy : decide (world.locks (!side) tab.oid (atoi (cstr kbuf)) = 0) = false :=
          decide_eq_false (Nat.ne_of_gt taken)
        have refused := opReadRandom_refused opened fresh built (by exact asks) (by exact busy)
          operated
        exact absurd (found.symm.trans refused) (by decide)

variable [DecidableEq ρ]

/-- What a session has locked after a call, by its answer. A random read is of the record that is
asked for, a READ NEXT or PREVIOUS of the one that is delivered. -/
def LockCall.claim (record : ℕ → ℤ → ρ) (call : LockCall) (sys sys' : Sys Unit) (old : Option ρ) :
    Option ρ :=
  match call with
  | .readLock => if sys'.fcd.status = stOk then sys.designated record else old
  | .readRandom =>
      if sys'.fcd.status = stOk ∧ sys.designated record ≠ old then none else old
  | .readNext _ | .readPrevious _ =>
      if sys'.fcd.status = stOk ∧ sys'.designated record ≠ old then none else old
  | .start .. => old
  | .unlock | .close => none

/-- The world after a call of one session. -/
def World.after (record : ℕ → ℤ → ρ) (env : Env) (world : World ρ) (side : Bool) (call : LockCall)
    (sys sys' : Sys Unit) : World ρ where
  sessions := Function.update world.sessions side sys'
  locks := world.locks.after side sys.proc.conn.aborted (call.commands env sys)
  claims := Function.update world.claims side (call.claim record sys sys' (world.claims side))

/-- The world after a session that has closed the table has opened it again. -/
def World.reopened (world : World ρ) (side : Bool) (sys : Sys Unit) : World ρ :=
  { world with sessions := Function.update world.sessions side sys }

/-- Between two calls a program sets the key and the record area, and its connection may have done
other work. -/
structure Sys.Prepared (sys sys' : Sys Unit) : Prop where
  tables : sys'.proc.tables = sys.proc.tables
  file : sys.fcd.SameFile sys'.fcd

/-- The calls of two sessions, in any order. A session may open the table again; a new table
remembers no lock. -/
inductive LockRun (record : ℕ → ℤ → ρ) (env : Env)
    (allowed : World ρ → Bool → Sys Unit → LockCall → Prop) (first : World ρ) : World ρ → Prop where
  | start : LockRun record env allowed first first
  | call {world : World ρ} {side : Bool} {call : LockCall} {sys sys' : Sys Unit}
      (earlier : LockRun record env allowed first world)
      (prepared : (world.sessions side).Prepared sys) (permitted : allowed world side sys call)
      (called : call.on (env.facing (world.locks (!side))) sys = .ok sys') :
      LockRun record env allowed first (world.after record env side call sys sys')
  | reopen {world : World ρ} {side : Bool} {sys : Sys Unit}
      (earlier : LockRun record env allowed first world)
      (closed : (world.sessions side).fcd.openMode = 128)
      (fresh : ∀ tab, sys.proc.tables sys.fcd.fileId = some tab → tab.advisoryLock = 0) :
      LockRun record env allowed first (world.reopened side sys)

/-- A call of one session leaves the other where it was. -/
theorem World.after_other (record : ℕ → ℤ → ρ) (env : Env) (world : World ρ) {side side' : Bool}
    (other : side' ≠ side) (call : LockCall) (sys sys' : Sys Unit) :
    (world.after record env side call sys sys').sessions side' = world.sessions side' ∧
      (world.after record env side call sys sys').locks side' = world.locks side' ∧
      (world.after record env side call sys sys').claims side' = world.claims side' :=
  ⟨Function.update_of_ne other _ _, Locks.after_other other _ _ _, Function.update_of_ne other _ _⟩

/-- The session that called is where the call left it. -/
theorem World.after_own (record : ℕ → ℤ → ρ) (env : Env) (world : World ρ) (side : Bool)
    (call : LockCall) (sys sys' : Sys Unit) :
    (world.after record env side call sys sys').sessions side = sys' ∧
      (world.after record env side call sys sys').claims side =
        call.claim record sys sys' (world.claims side) :=
  ⟨Function.update_self _ _ _, Function.update_self _ _ _⟩

/-- In every run the sessions hold the locks that their tables remember. -/
theorem LockRun.backed {record : ℕ → ℤ → ρ} {env : Env}
    {allowed : World ρ → Bool → Sys Unit → LockCall → Prop} {first world : World ρ}
    (run : LockRun record env allowed first world) (backed : first.Backed) : world.Backed := by
  induction run with
  | start => exact backed
  | @call world side call sys sys' earlier prepared permitted called ih =>
      intro side'
      by_cases own : side' = side
      · subst own
        have held : sys.Backs (world.locks side') := by
          intro tab live
          rw [prepared.tables, prepared.file.fileId] at live
          exact ih side' tab live
        have after := LockCall.on_backed called held
        rw [(world.after_own record env side' call sys sys').1]
        exact after
      · obtain ⟨sessions, locks, _⟩ := world.after_other record env own call sys sys'
        rw [sessions, locks]
        exact ih side'
  | @reopen world side sys earlier closed fresh ih =>
      intro side'
      by_cases own : side' = side
      · subst own
        have same : (world.reopened side' sys).sessions side' = sys := Function.update_self ..
        rw [same]
        intro tab live some
        rw [fresh tab live] at some
        exact absurd some (lt_irrefl _)
      · have same : (world.reopened side sys).sessions side' = world.sessions side' :=
          Function.update_of_ne own _ _
        rw [same]
        exact ih side'


/-- No call breaks the exclusion. -/
theorem World.after_exclusive {record : ℕ → ℤ → ρ} {env : Env} {world : World ρ} {side : Bool}
    {call : LockCall} {sys sys' : Sys Unit} (exclusive : world.Exclusive)
    (free : call = .readLock → sys'.fcd.status = stOk → ∀ wanted,
      sys.designated record = some wanted → world.claims (!side) ≠ some wanted) :
    (world.after record env side call sys sys').Exclusive := by
  rw [World.Exclusive.sides side] at exclusive ⊢
  intro wanted
  obtain ⟨_, _, other⟩ := world.after_other record env (Bool.not_ne_self side) call sys sys'
  have own := (world.after_own record env side call sys sys').2
  rw [other, own]
  rintro ⟨mine, theirs⟩
  have kept : ∀ {p : Prop} [Decidable p], (if p then none else world.claims side) = some wanted →
      False := by
    intro p _ mine
    split at mine
    · cases mine
    · exact exclusive wanted ⟨mine, theirs⟩
  cases call with
  | readLock =>
      unfold LockCall.claim at mine
      dsimp only at mine
      split at mine
      · rename_i found
        exact free rfl found wanted mine theirs
      · exact exclusive wanted ⟨mine, theirs⟩
  | readRandom | readNext _ | readPrevious _ => exact kept mine
  | start _ _ _ => exact exclusive wanted ⟨mine, theirs⟩
  | unlock | close => cases mine

/-- In a run in which every READ WITH LOCK is guarded, no record is ever locked by both sessions. In
any run, a READ WITH LOCK that answers 00 keeps it so exactly when it is guarded. -/
theorem locked_reads_exclude (record : ℕ → ℤ → ρ) (env : Env) (first : World ρ)
    (backed : first.Backed) (unclaimed : ∀ side, first.claims side = none) :
    (∀ world, LockRun record env (fun world side sys call => call = .readLock →
        world.Guarded record env side sys) first world → world.Exclusive) ∧
    ∀ world side sys sys', LockRun record env (fun _ _ _ _ => True) first world → world.Exclusive →
      (world.sessions side).Prepared sys →
      LockCall.on (env.facing (world.locks (!side))) sys .readLock = .ok sys' →
      sys'.fcd.status = stOk →
      ((world.after record env side .readLock sys sys').Exclusive ↔
        world.Guarded record env side sys) := by
  refine ⟨fun world run => ?_, fun world side sys sys' run exclusive _ called found => ?_⟩
  · induction run with
    | start =>
        rintro wanted ⟨mine, _⟩
        rw [unclaimed] at mine
        cases mine
    | call earlier prepared permitted called ih =>
        refine World.after_exclusive ih fun locks found wanted sought => ?_
        subst locks
        exact (permitted rfl).free (earlier.backed backed) called found sought
    | reopen earlier closed fresh ih => exact ih
  · constructor
    · intro after tab kbuf live built locked
      have sought : sys.designated record = some (record sys.fcd.keyId (atoi (cstr kbuf))) := by
        unfold Sys.designated
        rw [live]
        dsimp only
        rw [built]
      refine ((World.Exclusive.sides side).mp after (record sys.fcd.keyId (atoi (cstr kbuf)))
        ⟨?_, ?_⟩).elim
      · rw [(world.after_own record env side .readLock sys sys').2, LockCall.claim, if_pos found]
        exact sought
      · obtain ⟨_, _, other⟩ :=
          world.after_other record env (Bool.not_ne_self side) .readLock sys sys'
        rw [other]
        exact locked
    · intro guarded
      exact World.after_exclusive exclusive fun _ _ _ sought =>
        guarded.free (run.backed backed) called found sought

/-- Some calls one after the other, each with what the program puts in the record area. -/
def World.play (record : ℕ → ℤ → ρ) (env : Env) :
    List (Bool × List Byte × LockCall) → World ρ → Except Stop (World ρ)
  | [], world => .ok world
  | (side, area, call) :: rest, world => do
      let sys := (world.sessions side).setRecord area
      let sys' ← call.on (env.facing (world.locks (!side))) sys
      World.play record env rest (world.after record env side call sys sys')

/-- Calls that are played make a run. -/
theorem LockRun.play {record : ℕ → ℤ → ρ} {env : Env} {first : World ρ} :
    ∀ {calls : List (Bool × List Byte × LockCall)} {world world' : World ρ},
      LockRun record env (fun _ _ _ _ => True) first world →
      World.play record env calls world = .ok world' →
      LockRun record env (fun _ _ _ _ => True) first world' := by
  intro calls
  induction calls with
  | nil =>
      intro world world' run played
      cases played
      exact run
  | cons next calls ih =>
      intro world world' run played
      obtain ⟨side, area, call⟩ := next
      obtain ⟨sys', called, played⟩ := bind_eq_ok.mp played
      have prepared : (world.sessions side).Prepared ((world.sessions side).setRecord area) :=
        ⟨rfl, ⟨rfl, rfl, rfl⟩⟩
      exact ih (.call run prepared trivial called) played

/-- Two sessions that have just opened the table of balances, with two accounts. -/
def twoSessions : World ℤ where
  sessions _ :=
    { files := ()
      proc := { ledger [[.num 1, .num 7], [.num 2, .num 7]] with
        tables := fun _ => some { (balances [] []).tab with oid := 5 } }
      fcd := openedFcd 0 [49, 48, 48, 48] }
  locks _ _ _ := 0
  claims _ := none

/-- The first session reads the account 1 with lock, and the second is refused. -/
theorem locked_reads_exclude_refused :
    ∃ world : World ℤ, LockRun (fun _ number => number) plainServer (fun world side sys call =>
        call = .readLock → world.Guarded (fun _ number => number) plainServer side sys)
          twoSessions world ∧
      world.claims false = some 1 ∧ (world.sessions true).fcd.status = stLocked ∧
      world.Exclusive := by
  obtain ⟨one, first, result⟩ := map_eq_ok.mp (by decide +kernel :
    (fun sys : Sys Unit => (sys.fcd.status, (sys.proc.tables sys.fcd.fileId).map fun tab =>
        (tab.oid, tab.advisoryLock))) <$>
      LockCall.on (plainServer.facing (twoSessions.locks true)) (twoSessions.sessions false)
        .readLock = .ok (stOk, some (5, 1)))
  obtain ⟨found, remembered⟩ := Prod.mk.inj result
  obtain ⟨held, there, lock⟩ := Option.map_eq_some_iff.mp remembered
  obtain ⟨oid, number⟩ := Prod.mk.inj lock
  obtain ⟨two, second, refused⟩ := map_eq_ok.mp (by decide +kernel :
    (fun sys : Sys Unit => sys.fcd.status) <$>
      LockCall.on (plainServer.facing (twoSessions.locks.after false false
        (LockCall.readLock.commands plainServer (twoSessions.sessions false)) false))
          (twoSessions.sessions true) .readLock = .ok stLocked)
  let record : ℕ → ℤ → ℤ := fun _ number => number
  let world := twoSessions.after record plainServer false .readLock (twoSessions.sessions false) one
  obtain ⟨same, claimed⟩ := twoSessions.after_own record plainServer false .readLock
    (twoSessions.sessions false) one
  have run : LockRun record plainServer (fun world side sys call =>
      call = .readLock → world.Guarded record plainServer side sys) twoSessions world :=
    .call .start ⟨rfl, ⟨rfl, rfl, rfl⟩⟩ (fun _ _ _ _ _ locked => nomatch locked) first
  have guarded : world.Guarded record plainServer true (twoSessions.sessions true) := by
    intro tab kbuf live built _
    obtain rfl := Option.some.inj live
    have key : Except.ok kbuf = Except.ok [49] := built.symm.trans (by decide +kernel)
    obtain rfl := Except.ok.inj key
    refine ⟨rfl, by decide +kernel, held, ?_, oid, number⟩
    change (world.sessions false).proc.tables (world.sessions false).fcd.fileId = some held
    rw [same]
    exact there
  have backed : twoSessions.Backed := by
    intro side tab live
    obtain rfl := Option.some.inj live
    exact fun some => absurd some (lt_irrefl _)
  have twice := LockRun.call run ⟨rfl, ⟨rfl, rfl, rfl⟩⟩ (fun _ => guarded) second
  refine ⟨_, twice, ?_, ?_, ?_⟩
  · rw [(world.after_other record plainServer Bool.false_ne_true .readLock _ two).2.2, claimed,
      LockCall.claim, if_pos found]
    decide +kernel
  · rw [(world.after_own record plainServer true .readLock _ two).1]
    exact refused
  · exact (locked_reads_exclude record plainServer twoSessions backed fun _ => rfl).1 _ twice

/-- The first session reads with lock the account 1 and then the account 2, by a statement that is
prepared; the second session reads the account 2 with lock. -/
theorem locked_reads_both :
    ¬ ∀ world : World ℤ, LockRun (fun _ number => number) plainServer (fun _ _ _ _ => True)
      twoSessions world → world.Exclusive := by
  intro exclusive
  obtain ⟨world, played, claims⟩ := map_eq_ok.mp (by decide +kernel :
    (fun world : World ℤ => (world.claims false, world.claims true)) <$>
      World.play (fun _ number => number) plainServer
        [(false, [49, 48, 48, 48], .readLock), (false, [50, 48, 48, 48], .readLock),
          (true, [50, 48, 48, 48], .readLock)] twoSessions = .ok (some 2, some 2))
  obtain ⟨mine, theirs⟩ := Prod.mk.inj claims
  exact exclusive world (LockRun.play .start played) 2 ⟨mine, theirs⟩

end Pqfh
