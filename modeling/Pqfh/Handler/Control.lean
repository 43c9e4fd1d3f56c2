import Pqfh.Handler.Commits

/-! # The control file and the background thread

A WRITE to the file `pqfh` gives a command. Its record is cut at the first blank before it is
compared with the names of the commands, so that BEGIN TRANSACTION is never recognised
(`Pqfh.decode_ne_begin`), and the mutex that `pqfh` holds meanwhile is asked for again by
ROLLBACK. What is left of the transactions of a program is that COMMIT commits, and that the
background thread leaves a transaction alone in which nothing was counted
(`Pqfh.transaction_commands`).

The thread and the program are a machine of two parties that share the mutex, the flag
`in_transaction`, the counter and the connection.
-/

namespace Pqfh

/-! ## Commands -/

/-- `*strchr(text, ' ') = 0`, if there is a blank before the end of the text. -/
def cutBlank : List Byte → List Byte
  | [] => []
  | byte :: rest =>
      if byte = 0 then byte :: rest else if byte = 32 then 0 :: rest else byte :: cutBlank rest

/-- The commands that work on whole tables. -/
inductive BulkCommand where
  | copy
  | load
  | cmpIsam
  | cmp
  | sync
  deriving DecidableEq

/-- The commands. `other` stands for those that set a variable which nothing here uses, and for
a text that is no command. -/
inductive Command where
  | weak (name : List Byte)
  | bulk (command : BulkCommand)
  | beginTransaction
  | commit
  | rollback
  | partialKey (ncomps : ℕ)
  | other
  deriving DecidableEq

/-- The command in a record area. No name is the beginning of another but CMP of CMPISAM, so
that the tests of `command` are one choice. -/
def decode (area : List Byte) : Command :=
  let text := cutBlank area
  if (ascii "WEAK:").isPrefixOf text then .weak (cstr (text.drop 5))
  else if (ascii "COPY:").isPrefixOf text then .bulk .copy
  else if (ascii "LOAD").isPrefixOf text then .bulk .load
  else if (ascii "CMPISAM").isPrefixOf text then .bulk .cmpIsam
  else if (ascii "CMP").isPrefixOf text then .bulk .cmp
  else if (ascii "SYNC").isPrefixOf text then .bulk .sync
  else if (ascii "BEGIN TRANSACTION").isPrefixOf text then .beginTransaction
  else if (ascii "COMMIT").isPrefixOf text then .commit
  else if (ascii "ROLLBACK").isPrefixOf text then .rollback
  else if (ascii "PARTIAL:").isPrefixOf text then .partialKey (atoi (cstr (text.drop 8))).toNat
  else .other

/-- What COPY, LOAD, CMPISAM, CMP and SYNC do with the process, with the commit at the end of
some of them. None of them changes `in_transaction` or takes the mutex. -/
structure Bulk where
  run : BulkCommand → Process → Except Stop Process
  keeps : ∀ command proc proc', run command proc = .ok proc' →
    proc'.inTransaction = proc.inTransaction

/-- What a command does with the process, and whether it asks for the mutex then. -/
def Command.run (bulk : Bulk) : Command → Process → Except Stop (Process × Bool)
  | .weak name, proc => .ok ({ proc with weak := proc.weak ++ [name] }, false)
  | .bulk command, proc => (·, false) <$> bulk.run command proc
  | .beginTransaction, proc => .ok ({ proc with inTransaction := true }, true)
  | .commit, proc => .ok (proc.commit, false)
  | .rollback, proc => .ok ({ proc with inTransaction := false }, true)
  | .partialKey ncomps, proc => .ok ({ proc with ncomps := ncomps }, false)
  | .other, proc => .ok (proc, false)

/-- What the text of a record says about transactions: one begins, or one ends. -/
def asks (area : List Byte) : Option Bool :=
  if (ascii "BEGIN TRANSACTION").isPrefixOf area then some true
  else if (ascii "COMMIT").isPrefixOf area || (ascii "ROLLBACK").isPrefixOf area then some false
  else none

/-- A text with a blank in it is not found in a record that was cut. -/
theorem isPrefixOf_cutBlank_blank {front : List Byte} (plain : ∀ byte ∈ front, byte ≠ 0 ∧ byte ≠ 32)
    (back area : List Byte) : (front ++ 32 :: back).isPrefixOf (cutBlank area) = false := by
  induction front generalizing area with
  | nil =>
      cases area with
      | nil => rfl
      | cons byte rest =>
          unfold cutBlank
          split
          · rename_i zero
            simp [List.isPrefixOf, zero]
          · split
            · simp [List.isPrefixOf]
            · rename_i other
              simp [List.isPrefixOf, Ne.symm other]
  | cons byte front ih =>
      obtain ⟨noZero, noBlank⟩ := plain byte List.mem_cons_self
      cases area with
      | nil => rfl
      | cons byte' rest =>
          unfold cutBlank
          split
          · rename_i zero
            simp [List.isPrefixOf, zero, noZero]
          · split
            · simp [List.isPrefixOf, noZero]
            · have later :=
                ih (fun other member => plain other (List.mem_cons_of_mem _ member)) rest
              simp only [List.cons_append, List.isPrefixOf, later, Bool.and_false]

/-- A text without a blank is found in a record that was cut as it was before. -/
theorem isPrefixOf_cutBlank {text : List Byte} (plain : ∀ byte ∈ text, byte ≠ 0 ∧ byte ≠ 32)
    (area : List Byte) : text.isPrefixOf (cutBlank area) = text.isPrefixOf area := by
  induction text generalizing area with
  | nil => simp [List.isPrefixOf]
  | cons byte text ih =>
      obtain ⟨noZero, noBlank⟩ := plain byte List.mem_cons_self
      cases area with
      | nil => rfl
      | cons byte' rest =>
          unfold cutBlank
          split
          · rfl
          · split
            · rename_i blank
              have zero : (byte == 0) = false := beq_eq_false_iff_ne.mpr noZero
              have blank' : (byte == 32) = false := beq_eq_false_iff_ne.mpr noBlank
              simp [List.isPrefixOf, blank, zero, blank']
            · simp only [List.isPrefixOf,
                ih (fun other member => plain other (List.mem_cons_of_mem _ member)) rest]

/-- BEGIN TRANSACTION is not recognised in any record. -/
theorem decode_ne_begin (area : List Byte) : decode area ≠ .beginTransaction := by
  have cut : (ascii "BEGIN TRANSACTION").isPrefixOf (cutBlank area) = false :=
    isPrefixOf_cutBlank_blank (by decide +kernel : ∀ byte ∈ ascii "BEGIN", byte ≠ 0 ∧ byte ≠ 32)
      (ascii "TRANSACTION") area
  unfold decode
  simp only [cut, Bool.false_eq_true, ↓reduceIte]
  split_ifs <;> exact nofun

/-- A COMMIT is recognised. -/
theorem decode_commit {area : List Byte} (text : (ascii "COMMIT").isPrefixOf area = true) :
    decode area = .commit := by
  obtain ⟨rest, rfl⟩ := List.isPrefixOf_iff_prefix.mp text
  rfl

/-! ## The program and the thread -/

/-- What the program asks `pqfh` for: an operation of the switch, the commit of a COMMIT or an
UNLOCK, or a command, with the memory from the record area on. -/
inductive Job (σ : Type) where
  | operation (files : σ) (fcd : Fcd) (garbage : Garbage) (undo : List Byte) (opcode : Opcode)
  | commit
  | command (area : List Byte)

/-- Where the program is: outside the handler, waiting for the mutex, doing its job with the
mutex, about to give it back, or waiting for the mutex that it holds itself. -/
inductive MainAt (σ : Type) where
  | idle
  | waiting (job : Job σ)
  | inside (job : Job σ)
  | leaving
  | blocked

/-- Where `thread_commit` is. -/
inductive ThreadAt where
  | test
  | lock
  | commit
  | unlock
  deriving DecidableEq

/-- The holder of the mutex. -/
inductive Party where
  | main
  | thread
  deriving DecidableEq

/-- The process with its two threads. `asked` says that BEGIN TRANSACTION was the last command
about transactions. -/
structure Machine (σ : Type) where
  proc : Process
  holder : Option Party
  main : MainAt σ
  thread : ThreadAt
  asked : Bool

/-- A step of the program, or of the thread. -/
inductive Act (σ : Type) where
  | call (job : Job σ)
  | enter
  | work
  | leave
  | test
  | lock
  | commit
  | unlock

/-- What does not change during a run. -/
structure Setting (σ : Type) where
  extfh : Extfh σ
  env : Env
  bulk : Bulk

variable {σ : Type}

/-- The job of the program, done with the mutex. The process may end in it. -/
def Machine.perform (setting : Setting σ) (m : Machine σ) : Job σ → Option (Machine σ)
  | .operation files fcd garbage undo opcode =>
      match databaseOp setting.extfh setting.env garbage undo opcode ⟨files, m.proc, fcd⟩ with
      | .error _ => none
      | .ok sys => some { m with proc := sys.proc, main := .leaving }
  | .commit => some { m with proc := m.proc.commit, main := .leaving }
  | .command area =>
      match (decode area).run setting.bulk m.proc with
      | .error _ => none
      | .ok (proc, relocks) => some { m with
          proc := proc
          main := if relocks then .blocked else .leaving
          asked := (asks area).getD m.asked }

/-- A step, if it can be taken. -/
def Machine.step (setting : Setting σ) (m : Machine σ) (act : Act σ) : Option (Machine σ) :=
  match act, m.main with
  -- `pqfh_commit` clears the flag before it takes the mutex
  | .call .commit, .idle =>
      some { m with proc := { m.proc with inTransaction := false }, main := .waiting .commit }
  | .call job, .idle => some { m with main := .waiting job }
  | .enter, .waiting job =>
      if m.holder = none then some { m with holder := some .main, main := .inside job } else none
  | .work, .inside job => m.perform setting job
  | .leave, .leaving => some { m with holder := none, main := .idle }
  | .test, _ =>
      if m.thread = .test then
        some (if 0 < m.proc.pendingCommits && !m.proc.inTransaction then { m with thread := .lock }
          else m)
      else none
  | .lock, _ =>
      if m.thread = .lock ∧ m.holder = none then
        some { m with holder := some .thread, thread := .commit } else none
  | .commit, _ =>
      if m.thread = .commit then some { m with proc := m.proc.commit, thread := .unlock } else none
  | .unlock, _ =>
      if m.thread = .unlock then some { m with holder := none, thread := .test } else none
  | _, _ => none

/-- The machine when the handler has connected. -/
def Machine.connected (proc : Process) : Machine σ :=
  ⟨proc, none, .idle, .test, false⟩

/-- The machine takes steps that are allowed. -/
inductive MachineRun (setting : Setting σ) (allowed : Machine σ → Act σ → Prop) :
    Machine σ → Machine σ → Prop where
  | start (m : Machine σ) : MachineRun setting allowed m m
  | step {first m m' : Machine σ} {act : Act σ} (earlier : MachineRun setting allowed first m)
      (permitted : allowed m act) (taken : m.step setting act = some m') :
      MachineRun setting allowed first m'

/-! ## Transactions -/

/-- A step keeps to the transactions that the program asks for. -/
structure Obeys (m : Machine σ) (act : Act σ) (m' : Machine σ) : Prop where
  /-- The thread does not commit a transaction of the program. -/
  background : act = .commit → m.asked = false
  /-- COMMIT and ROLLBACK end the transaction, and the handler commits by itself again. -/
  ends : ∀ area, m.main = .inside (.command area) → act = .work → asks area = some false →
    m'.main = .leaving ∧ m'.proc.conn.working = m'.proc.conn.committed ∧
      m'.proc.conn.aborted = false ∧ m'.proc.pendingCommits = 0 ∧ m'.proc.inTransaction = false
  /-- No command asks for the mutex that the program holds. -/
  mutex : m'.main ≠ .blocked

/-- What the program has to take care of: it gives no ROLLBACK, and nothing is counted from a
BEGIN TRANSACTION, when the thread must be at its test, to the COMMIT after it. -/
structure Careful (setting : Setting σ) (m : Machine σ) (act : Act σ) : Prop where
  rollback : ∀ area, m.main = .inside (.command area) → act = .work →
    (ascii "ROLLBACK").isPrefixOf area = false
  begins : ∀ area, m.main = .inside (.command area) → act = .work → asks area = some true →
    m.proc.pendingCommits = 0 ∧ m.thread = .test
  uncounted : m.asked = true → act = .work → ∀ m', m.step setting act = some m' →
    m'.proc.pendingCommits = 0

/-- What holds of a machine whose program takes care. -/
structure Calm (m : Machine σ) : Prop where
  auto : m.proc.inTransaction = false
  free : m.main ≠ .blocked
  asked : m.asked = true → m.proc.pendingCommits = 0 ∧ m.thread = .test

/-- A command that asks for the mutex is a ROLLBACK, and none sets the flag. -/
theorem Command.run_decode {bulk : Bulk} {area : List Byte} {proc proc' : Process} {relocks : Bool}
    (ran : (decode area).run bulk proc = .ok (proc', relocks)) (auto : proc.inTransaction = false) :
    proc'.inTransaction = false ∧ (relocks = true → decode area = .rollback) := by
  have noBegin := decode_ne_begin area
  generalize decode area = command at ran noBegin
  cases command with
  | beginTransaction => exact absurd rfl noBegin
  | bulk command =>
      obtain ⟨proc'', worked, ended⟩ := map_eq_ok.mp ran
      cases ended
      exact ⟨(bulk.keeps command proc proc' worked).trans auto, nofun⟩
  | rollback =>
      cases ran
      exact ⟨rfl, fun _ => rfl⟩
  | _ =>
      cases ran
      exact ⟨auto, nofun⟩

/-- Only the text ROLLBACK is recognised as a ROLLBACK. -/
theorem rollback_of_decode {area : List Byte} (command : decode area = .rollback) :
    (ascii "ROLLBACK").isPrefixOf area = true := by
  rw [← isPrefixOf_cutBlank (by decide +kernel : ∀ byte ∈ ascii "ROLLBACK", byte ≠ 0 ∧ byte ≠ 32)]
  unfold decode at command
  dsimp only at command
  split_ifs at command
  assumption

/-- BEGIN TRANSACTION does nothing. -/
theorem decode_begin {area : List Byte} (begins : asks area = some true) :
    decode area = .other := by
  unfold asks at begins
  split at begins
  · rename_i text
    obtain ⟨rest, rfl⟩ := List.isPrefixOf_iff_prefix.mp text
    rfl
  · split at begins <;> cases begins

/-- A commit leaves nothing to commit. -/
theorem Conn.commit_settles (conn : Conn) :
    conn.commit.working = conn.commit.committed ∧ conn.commit.aborted = false := by
  unfold Conn.commit
  split
  · exact ⟨rfl, rfl⟩
  · rename_i running
    exact ⟨rfl, Bool.eq_false_iff.mpr running⟩

theorem asks_false {area : List Byte} (ends : asks area = some false)
    (other : (ascii "ROLLBACK").isPrefixOf area = false) :
    (ascii "COMMIT").isPrefixOf area = true := by
  unfold asks at ends
  split at ends
  · cases ends
  · split at ends
    · rename_i either
      rwa [other, Bool.or_false] at either
    · cases ends

/-- The job of a careful program. -/
theorem Calm.perform {setting : Setting σ} {m m' : Machine σ} {job : Job σ} (calm : Calm m)
    (careful : Careful setting m .work) (inside : m.main = .inside job)
    (performed : m.perform setting job = some m') : Calm m' ∧ Obeys m .work m' := by
  have uncounted : m.asked = true → m'.proc.pendingCommits = 0 := fun asked =>
    careful.uncounted asked rfl m' (by unfold Machine.step; rw [inside]; exact performed)
  cases job with
  | operation files fcd garbage undo opcode =>
      simp only [Machine.perform] at performed
      split at performed
      · cases performed
      · rename_i sys called
        cases performed
        have flag := (databaseOp_accounted called).inTransaction
        refine ⟨⟨flag.trans calm.auto, nofun, fun asked => ⟨uncounted asked, (calm.asked asked).2⟩⟩,
          nofun, fun area here => ?_, nofun⟩
        cases inside.symm.trans here
  | commit =>
      cases performed
      refine ⟨⟨calm.auto, nofun, fun asked => ⟨rfl, (calm.asked asked).2⟩⟩, nofun,
        fun area here => ?_, nofun⟩
      cases inside.symm.trans here
  | command area =>
      simp only [Machine.perform] at performed
      split at performed
      · cases performed
      · rename_i proc relocks ran
        cases performed
        have noRollback := careful.rollback area inside rfl
        obtain ⟨auto, relock⟩ := Command.run_decode ran calm.auto
        have free : relocks = false := by
          by_contra held
          have text := rollback_of_decode (relock (Bool.eq_true_of_not_eq_false held))
          rw [noRollback] at text
          exact absurd text Bool.false_ne_true
        subst free
        refine ⟨⟨auto, nofun, fun asked => ?_⟩, nofun, fun area' here _ ends => ?_, nofun⟩
        · cases text : asks area with
          | none =>
              have asked' : m.asked = true := by
                dsimp only at asked
                rwa [text] at asked
              exact ⟨uncounted asked', (calm.asked asked').2⟩
          | some begins =>
              dsimp only at asked
              rw [text] at asked
              obtain rfl : begins = true := asked
              obtain ⟨none, testing⟩ := careful.begins area inside rfl text
              rw [decode_begin text] at ran
              cases ran
              exact ⟨none, testing⟩
        · cases inside.symm.trans here
          rw [decode_commit (asks_false ends noRollback)] at ran
          cases ran
          obtain ⟨settled, running⟩ := m.proc.conn.commit_settles
          exact ⟨rfl, settled, running, rfl, auto⟩

/-- Every step of a careful program, and every step of the thread beside it. -/
theorem Calm.step {setting : Setting σ} {m m' : Machine σ} {act : Act σ} (calm : Calm m)
    (careful : Careful setting m act) (taken : m.step setting act = some m') :
    Calm m' ∧ Obeys m act m' := by
  unfold Machine.step at taken
  split at taken
  · cases taken
    exact ⟨⟨rfl, nofun, calm.asked⟩, nofun, nofun, nofun⟩
  · cases taken
    exact ⟨⟨calm.auto, nofun, calm.asked⟩, nofun, nofun, nofun⟩
  · split at taken
    · cases taken
      exact ⟨⟨calm.auto, nofun, calm.asked⟩, nofun, nofun, nofun⟩
    · cases taken
  · rename_i job inside
    exact calm.perform careful inside taken
  · cases taken
    exact ⟨⟨calm.auto, nofun, calm.asked⟩, nofun, nofun, nofun⟩
  · split at taken
    · cases taken
      split
      · rename_i pending
        refine ⟨⟨calm.auto, calm.free, fun asked => ?_⟩, nofun, nofun, calm.free⟩
        -- with the counter at 0 the test fails
        rw [(calm.asked asked).1] at pending
        exact absurd pending Bool.false_ne_true
      · exact ⟨calm, nofun, nofun, calm.free⟩
    · cases taken
  · split at taken
    · rename_i locking
      cases taken
      refine ⟨⟨calm.auto, calm.free, fun asked => ?_⟩, nofun, nofun, calm.free⟩
      rw [(calm.asked asked).2] at locking
      exact absurd locking.1 nofun
    · cases taken
  · split at taken
    · rename_i committing
      cases taken
      have background : m.asked = false := by
        by_contra asked
        rw [(calm.asked (Bool.eq_true_of_not_eq_false asked)).2] at committing
        exact absurd committing nofun
      refine ⟨⟨calm.auto, calm.free, fun asked => ?_⟩, fun _ => background, nofun, calm.free⟩
      exact absurd (background.symm.trans asked) Bool.false_ne_true
    · cases taken
  · split at taken
    · rename_i unlocking
      cases taken
      refine ⟨⟨calm.auto, calm.free, fun asked => ?_⟩, nofun, nofun, calm.free⟩
      exact ⟨(calm.asked asked).1, rfl⟩
    · cases taken
  · cases taken

theorem MachineRun.calm {setting : Setting σ} {first m : Machine σ}
    (run : MachineRun setting (Careful setting) first m) (calm : Calm first) : Calm m := by
  induction run with
  | start => exact calm
  | step earlier permitted taken ih => exact (ih.step permitted taken).1

/-- In every interleaving of a careful program with the thread, every step keeps to the
transactions that the program asks for. -/
theorem transaction_commands (setting : Setting σ) (proc : Process)
    (auto : proc.inTransaction = false) (m m' : Machine σ) (act : Act σ)
    (run : MachineRun setting (Careful setting) (.connected proc) m)
    (careful : Careful setting m act) (taken : m.step setting act = some m') : Obeys m act m' := by
  have calm : Calm (Machine.connected proc : Machine σ) := ⟨auto, nofun, nofun⟩
  exact ((run.calm calm).step careful taken).2

/-- Several steps. -/
def Machine.take (setting : Setting σ) : List (Act σ) → Machine σ → Option (Machine σ)
  | [], m => some m
  | act :: acts, m => (m.step setting act).bind (Machine.take setting acts)

theorem MachineRun.of_take {setting : Setting σ} {first : Machine σ} {acts : List (Act σ)} :
    ∀ {m m' : Machine σ}, MachineRun setting (fun _ _ => True) first m →
      m.take setting acts = some m' → MachineRun setting (fun _ _ => True) first m' := by
  induction acts with
  | nil =>
      intro m m' run taken
      cases taken
      exact run
  | cons act acts ih =>
      intro m m' run taken
      obtain ⟨middle, stepped, later⟩ := Option.bind_eq_some_iff.mp taken
      exact ih (run.step trivial stepped) later

/-- A server with the table of balances, and commands on whole tables that do nothing. -/
def plainSetting : Setting Unit := ⟨noFiles, plainServer, ⟨fun _ proc => .ok proc, by
  intro _ proc proc' ran
  cases ran
  rfl⟩⟩

/-- What the program does to write a record of the control file. -/
def writesCommand (text : String) : List (Act Unit) :=
  [.call (.command (ascii text ++ [32])), .enter, .work]

/-- Only the work of the program needs care. -/
theorem Careful.of_ne_work {setting : Setting σ} {m : Machine σ} {act : Act σ}
    (other : act ≠ .work) : Careful setting m act :=
  ⟨fun _ _ works => absurd works other, fun _ _ works => absurd works other,
    fun _ works => absurd works other⟩

/-- The program about to give the command COMMIT. -/
def givesCommit (main : MainAt Unit) (holder : Option Party) : Machine Unit :=
  ⟨ledger [], holder, main, .test, false⟩

/-- A COMMIT ends the transaction. -/
theorem transaction_commands_commit :
    ∃ m' : Machine Unit, (givesCommit (.inside (.command (ascii "COMMIT "))) (some .main)).step
        plainSetting .work = some m' ∧ m'.main = .leaving ∧
      m'.proc.conn.working = m'.proc.conn.committed ∧ m'.proc.inTransaction = false := by
  have called : (Machine.connected (ledger [])).step plainSetting
      (.call (.command (ascii "COMMIT "))) =
      some (givesCommit (.waiting (.command (ascii "COMMIT "))) none) := rfl
  have entered : (givesCommit (.waiting (.command (ascii "COMMIT "))) none).step plainSetting
      .enter = some (givesCommit (.inside (.command (ascii "COMMIT "))) (some .main)) := rfl
  have run : MachineRun plainSetting (Careful plainSetting) (.connected (ledger []))
      (givesCommit (.inside (.command (ascii "COMMIT "))) (some .main)) :=
    .step (.step (.start _) (.of_ne_work (by exact nofun)) called)
      (.of_ne_work (by exact nofun)) entered
  have other : (ascii "ROLLBACK").isPrefixOf (ascii "COMMIT ") = false := by decide +kernel
  have ends : asks (ascii "COMMIT ") = some false := by decide +kernel
  have careful : Careful plainSetting
      (givesCommit (.inside (.command (ascii "COMMIT "))) (some .main)) .work := by
    refine ⟨fun area here _ => ?_, fun area here _ begins => ?_, nofun⟩
    · cases here
      exact other
    · cases here
      cases ends.symm.trans begins
  have obeys := transaction_commands plainSetting (ledger []) rfl _ _ .work run careful rfl
  obtain ⟨leaving, settled, _, _, auto⟩ := obeys.ends _ rfl rfl ends
  exact ⟨_, rfl, leaving, settled, auto⟩

/-- After a BEGIN TRANSACTION and a WRITE the thread commits; and a ROLLBACK blocks the
program. -/
theorem transaction_commands_fail :
    (∃ m m' : Machine Unit,
      MachineRun plainSetting (fun _ _ => True) (.connected (ledger [])) m ∧
      m.asked = true ∧ m.step plainSetting .commit = some m' ∧
      m'.proc.conn.committed 1 = some [[.num 1, .num (-5 / 2)]]) ∧
    ∃ m : Machine Unit, MachineRun plainSetting (fun _ _ => True) (.connected (ledger [])) m ∧
      m.main = .blocked := by
  constructor
  · obtain ⟨m, taken, asked⟩ := Option.map_eq_some_iff.mp (by decide +kernel :
      ((Machine.connected (ledger []) : Machine Unit).take plainSetting
        (writesCommand "BEGIN TRANSACTION" ++ [.leave,
          .call (.operation () firstBalance noGarbage [] .write), .enter, .work, .leave, .test,
          .lock])).map (fun m => (m.asked,
            (m.step plainSetting .commit).map fun m => m.proc.conn.committed 1)) =
        some (true, some (some [[.num 1, .num (-5 / 2)]])))
    obtain ⟨asked, committed⟩ := Prod.mk.inj asked
    obtain ⟨m', stepped, committed⟩ := Option.map_eq_some_iff.mp committed
    exact ⟨m, m', .of_take (.start _) taken, asked, stepped, committed⟩
  · obtain ⟨m, taken, blocked⟩ := Option.map_eq_some_iff.mp (by decide +kernel :
      ((Machine.connected (ledger []) : Machine Unit).take plainSetting
        (writesCommand "ROLLBACK")).map (fun m => match m.main with
          | .blocked => true
          | _ => false) = some true)
    refine ⟨m, .of_take (.start _) taken, ?_⟩
    split at blocked
    · assumption
    · cases blocked

end Pqfh
