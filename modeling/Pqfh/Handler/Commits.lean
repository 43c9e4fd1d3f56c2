import Pqfh.Handler.DualWrite
import Pqfh.Handler.Ledger
import Pqfh.Table.KeyFlags

/-! # Commits

The updates of a process are committed by the thread of `pqfh`, once a second while
`pending_commits` is not 0, and by some calls. An update that was answered with 00 is in the
committed database after the next commit just when no statement has failed since the commit
before (`Pqfh.acknowledged_kept_iff`). The counter misses the truncation of an OPEN OUTPUT,
and is set to 0 by a commit that rolls back; it covers every other change
(`Pqfh.pending_commits_cover`).
-/

namespace Pqfh

open Transaction

variable {σ : Type}

/-! ## Calls -/

/-- What `pqfh` does before it looks at the mode, with the flag `isam` that an OPEN I-O of mode W
found. -/
def entering (env : Env) (opcode : Opcode) (sys : Sys σ) : Bool × Sys σ :=
  let opens := match opcode with | .openFile _ => true | _ => false
  let sys := if opens && sys.fcd.openMode = 128 then sys.setIsam false else sys
  let shadowOpen := env.mode = .W && opcode = .openFile .io
  let isam := shadowOpen && sys.fcd.isam
  let sys := if shadowOpen then sys.setIsam false else sys
  (isam, if env.mode ≠ .I && opcode = .commit then sys.pqfhCommit else sys)

/-- Where a call comes to: it ends before the switch, or it enters the switch with the record
that an undoing would go back to. -/
def arrives (extfh : Extfh σ) (env : Env) (opcode : Opcode) (sys : Sys σ) :
    Sys σ ⊕ List Byte × Sys σ :=
  let (isam, sys) := entering env opcode sys
  match env.mode with
  | .I => .inl (extfhFirst extfh opcode sys)
  | .W =>
      let called := extfhFirst extfh opcode sys
      if called.fcd.status.1 ≠ 48 then .inl (if isam then called.setIsam true else called)
      else if called.fcd.isam then .inl called
      else .inr ([], called)
  | _ =>
      if sys.fcd.isam then .inl (extfhFirst extfh opcode sys)
      else if env.mode = .A ∧ opcode.updates then
        match updateFirst extfh opcode sys with
        | (none, updated) => .inl updated
        | (some undo, updated) => .inr (undo, updated)
      else .inr ([], sys)

theorem pqfh_arrives (extfh : Extfh σ) (env : Env) (garbage : Garbage) (opcode : Opcode)
    (sys : Sys σ) :
    pqfh extfh env garbage opcode sys = match arrives extfh env opcode sys with
      | .inl ended => .ok ended
      | .inr (undo, called) => databaseOp extfh env garbage undo opcode called := by
  have enters : pqfh extfh env garbage opcode sys =
      match env.mode with
      | .I => .ok (extfhFirst extfh opcode (entering env opcode sys).2)
      | .W => shadow extfh env garbage (entering env opcode sys).1 opcode
          (extfhFirst extfh opcode (entering env opcode sys).2)
      | _ => if (entering env opcode sys).2.fcd.isam then
            .ok (extfhFirst extfh opcode (entering env opcode sys).2)
          else direct extfh env garbage opcode (entering env opcode sys).2 := rfl
  rw [enters]
  unfold arrives shadow direct
  generalize entering env opcode sys = entered
  obtain ⟨isam, sys⟩ := entered
  dsimp only
  cases mode : env.mode with
  | I => rfl
  | W =>
      dsimp only
      split
      · rfl
      · split <;> rfl
  | A =>
      dsimp only
      split
      · rfl
      · split
        · obtain ⟨_ | undo, updated⟩ := updateFirst extfh opcode sys <;> rfl
        · rfl
  | B =>
      dsimp only
      split
      · rfl
      · split
        · obtain ⟨_ | undo, updated⟩ := updateFirst extfh opcode sys <;> rfl
        · rfl

/-- Whether a call commits before it does anything else in the database: COMMIT does outside
mode I, and UNLOCK after a call of `EXTFH`. -/
def commitsFirst (env : Env) (opcode : Opcode) (fcd : Fcd) : Bool :=
  match opcode with
  | .commit => env.mode ≠ .I
  | .unlock => env.mode = .I || env.mode = .W || fcd.isam
  | _ => false

/-- What a call changes in the database. -/
def pqfhEntries (extfh : Extfh σ) (env : Env) (opcode : Opcode) (sys : Sys σ) :
    List (Transaction.Entry Change) :=
  (if commitsFirst env opcode sys.fcd then [.commit] else []) ++
    match arrives extfh env opcode sys with
    | .inl _ => []
    | .inr (_, called) => databaseEntries env opcode called

theorem Sys.pqfhCommit_proc {sys sys' : Sys σ} (same : sys.proc = sys'.proc) :
    sys.pqfhCommit.proc = sys'.pqfhCommit.proc := by
  unfold Sys.pqfhCommit
  rw [same]

theorem entering_proc (env : Env) (opcode : Opcode) (sys : Sys σ) :
    (entering env opcode sys).2.proc =
      if env.mode ≠ .I && opcode = .commit then sys.pqfhCommit.proc else sys.proc := by
  have flag : ∀ (sys : Sys σ) (cleared : Bool),
      (if cleared then sys.setIsam false else sys).proc = sys.proc := by
    intro sys cleared
    cases cleared <;> rfl
  unfold entering
  dsimp only
  split
  · exact Sys.pqfhCommit_proc ((flag _ _).trans (flag _ _))
  · exact (flag _ _).trans (flag _ _)

theorem entering_unlock (env : Env) (sys : Sys σ) : (entering env .unlock sys).2 = sys := by
  simp [entering]

theorem extfhFirst_proc (extfh : Extfh σ) (opcode : Opcode) (sys : Sys σ) :
    (extfhFirst extfh opcode sys).proc =
      if opcode = .unlock then sys.pqfhCommit.proc else sys.proc := by
  unfold extfhFirst
  split <;> rfl

theorem updateFirst_proc (extfh : Extfh σ) (opcode : Opcode) (sys : Sys σ) :
    (updateFirst extfh opcode sys).2.proc = sys.proc := by
  unfold updateFirst
  split
  · rfl
  · dsimp only
    split <;> rfl

/-- The process with which a call ends before the switch, or enters it. -/
def arrivedProc (arrived : Sys σ ⊕ List Byte × Sys σ) : Process :=
  match arrived with
  | .inl ended => ended.proc
  | .inr (_, called) => called.proc

/-- UNLOCK commits where `EXTFH` is called for it, and no other call does after it entered. -/
theorem arrivedProc_entering (extfh : Extfh σ) (env : Env) (opcode : Opcode) (sys : Sys σ) :
    arrivedProc (arrives extfh env opcode sys) =
      if opcode = .unlock ∧ (env.mode = .I ∨ env.mode = .W ∨ (entering env opcode sys).2.fcd.isam)
      then (entering env opcode sys).2.pqfhCommit.proc else (entering env opcode sys).2.proc := by
  unfold arrives
  generalize entering env opcode sys = entered
  obtain ⟨isam, sys⟩ := entered
  have first := extfhFirst_proc extfh opcode sys
  have update := updateFirst_proc extfh opcode sys
  have flag : (if isam then (extfhFirst extfh opcode sys).setIsam true
      else extfhFirst extfh opcode sys).proc = (extfhFirst extfh opcode sys).proc := by
    cases isam <;> rfl
  dsimp only
  cases mode : env.mode with
  | I => simpa [arrivedProc] using first
  | W =>
      dsimp only
      split
      · simpa [arrivedProc, flag] using first
      · split <;> simpa [arrivedProc] using first
  | A =>
      dsimp only
      split
      · rename_i kept
        simpa [arrivedProc, kept] using first
      · rename_i kept
        simp only [kept, reduceCtorEq, or_self, and_false, if_false]
        split
        · split <;> rename_i updated <;> rw [updated] at update <;> exact update
        · rfl
  | B =>
      dsimp only
      split
      · rename_i kept
        simpa [arrivedProc, kept] using first
      · rename_i kept
        simp [arrivedProc, kept]

/-- Before the switch a call commits, or leaves the process as it is. -/
theorem arrives_proc (extfh : Extfh σ) (env : Env) (opcode : Opcode) (sys : Sys σ) :
    arrivedProc (arrives extfh env opcode sys) =
      if commitsFirst env opcode sys.fcd then sys.pqfhCommit.proc else sys.proc := by
  rw [arrivedProc_entering]
  unfold commitsFirst
  have entered := entering_proc env opcode sys
  cases opcode with
  | unlock =>
      rw [entering_unlock]
      simp [or_assoc]
  | commit => simpa using entered
  | _ => simpa using entered

/-- A call goes through its entries. It commits first only where `commitsFirst` says so. -/
theorem pqfh_accounted {extfh : Extfh σ} {env : Env} {garbage : Garbage} {opcode : Opcode}
    {sys sys' : Sys σ} (called : pqfh extfh env garbage opcode sys = .ok sys') :
    Accounted (match arrives extfh env opcode sys with
      | .inl _ => []
      | .inr (_, entered) => databaseEntries env opcode entered)
      (if commitsFirst env opcode sys.fcd then sys.pqfhCommit.proc else sys.proc) sys'.proc := by
  rw [pqfh_arrives] at called
  rw [← arrives_proc extfh]
  generalize arrives extfh env opcode sys = arrived at called
  obtain ended | ⟨undo, entered⟩ := arrived
  · cases called
    exact Accounted.refl _
  · exact databaseOp_accounted called

/-! ## Runs -/

/-- A step of the process: a call with any files and any fcd, or a commit by the thread. -/
inductive Step (σ : Type) where
  | call (files : σ) (fcd : Fcd) (garbage : Garbage) (opcode : Opcode)
  | commit

/-- What a step makes of the process. -/
def Step.take (extfh : Extfh σ) (env : Env) (proc : Process) : Step σ → Except Stop Process
  | .call files fcd garbage opcode => Sys.proc <$> pqfh extfh env garbage opcode ⟨files, proc, fcd⟩
  | .commit => .ok proc.commit

/-- The changes that a step acknowledges, and its commits. -/
def Step.entries (extfh : Extfh σ) (env : Env) (proc : Process) :
    Step σ → List (Transaction.Entry Change)
  | .call files fcd _ opcode => pqfhEntries extfh env opcode ⟨files, proc, fcd⟩
  | .commit => [.commit]

/-- Whether a step begins with a commit. -/
def Step.commits (env : Env) : Step σ → Bool
  | .call _ fcd _ opcode => commitsFirst env opcode fcd
  | .commit => true

/-- The process goes through steps that are allowed where they are taken. -/
inductive HandlerRun (extfh : Extfh σ) (env : Env) (allowed : Process → Step σ → Prop) :
    Process → List (Transaction.Entry Change) → Process → Prop where
  | start (proc : Process) : HandlerRun extfh env allowed proc [] proc
  | step {first proc proc' : Process} {entries : List (Transaction.Entry Change)} {step : Step σ}
      (earlier : HandlerRun extfh env allowed first entries proc) (permitted : allowed proc step)
      (taken : step.take extfh env proc = .ok proc') :
      HandlerRun extfh env allowed first (entries ++ step.entries extfh env proc) proc'

/-- The commit at the beginning of a step. -/
theorem Process.commit_run (proc : Process) (inTransaction commits : Bool) :
    Run Change.apply proc.conn.session (if commits then [.commit] else [])
      (!(commits && proc.conn.aborted))
      (if commits then { proc with inTransaction := inTransaction }.commit
      else proc).conn.session := by
  cases commits with
  | false => exact .done (Quiet.refl _)
  | true => exact proc.conn.commit_run

/-- A step goes through its entries, and finds the transaction running if it commits first. -/
theorem Step.take_run {extfh : Extfh σ} {env : Env} {proc proc' : Process} {step : Step σ}
    (taken : step.take extfh env proc = .ok proc') :
    Run Change.apply proc.conn.session (step.entries extfh env proc)
      (!(step.commits env && proc.conn.aborted)) proc'.conn.session := by
  cases step with
  | call files fcd garbage opcode =>
      obtain ⟨sys', called, rfl⟩ := map_eq_ok.mp taken
      have first := proc.commit_run false (commitsFirst env opcode fcd)
      have run := first.trans (pqfh_accounted called).run
      rwa [Bool.and_true] at run
  | commit =>
      cases taken
      exact proc.conn.commit_run

/-- A run goes through its entries. When every commit finds its transaction running, the run is
clean. -/
theorem HandlerRun.run {extfh : Extfh σ} {env : Env} {allowed : Process → Step σ → Prop}
    {first proc : Process} {entries : List (Transaction.Entry Change)}
    (run : HandlerRun extfh env allowed first entries proc) :
    ∃ clean, Run Change.apply first.conn.session entries clean proc.conn.session ∧
      ((∀ proc step, allowed proc step → step.commits env = true → proc.conn.aborted = false) →
        clean = true) := by
  induction run with
  | start => exact ⟨true, .done (Quiet.refl _), fun _ => rfl⟩
  | @step proc proc' entries step earlier permitted taken ih =>
      obtain ⟨clean, run, kept⟩ := ih
      refine ⟨_, run.trans (Step.take_run taken), fun running => ?_⟩
      rw [kept running, Bool.true_and, Bool.not_eq_true', Bool.and_eq_false_imp]
      exact running proc step permitted

/-! ## Acknowledged updates -/

/-- In every run, the next commit keeps the changes acknowledged since the commit before it just
when no statement has failed meanwhile, or when they leave the database as it was. In a run in
which that holds at every commit, the database has all the changes acknowledged. -/
theorem acknowledged_kept_iff (extfh : Extfh σ) (env : Env) (first proc : Process)
    (entries : List (Transaction.Entry Change))
    (fresh : first.conn.working = first.conn.committed) :
    (HandlerRun extfh env (fun _ _ => True) first entries proc →
      (replay Change.apply (Transaction.pending [] entries) proc.conn.committed =
          some proc.commit.conn.committed ↔
        proc.conn.aborted = false ∨ proc.conn.working = proc.conn.committed)) ∧
    (HandlerRun extfh env (fun proc step => step.commits env = true → proc.conn.aborted = false)
        first entries proc →
      replay Change.apply (changes entries) first.conn.committed = some proc.conn.working) := by
  constructor
  · intro run
    obtain ⟨clean, run, _⟩ := run.run
    have replays :
      replay Change.apply (Transaction.pending [] entries) proc.conn.session.committed =
        some proc.conn.session.working := run.replay (congrArg some fresh.symm)
    have kept := commit_keeps_iff replays
    rwa [← Conn.commit_session] at kept
  · intro run
    obtain ⟨clean, run, kept⟩ := run.run
    rw [← fresh]
    exact run.replay_changes (kept fun _ _ running => running)

/-- Files of which `EXTFH` knows nothing. -/
def noFiles : Extfh Unit := fun _ files fcd => (files, fcd)

/-- A process that has opened the table of balances. -/
def ledger (rows : List Row) : Process where
  conn := (balances rows []).conn
  pendingCommits := 0
  inTransaction := false
  eofStart := false
  weak := []
  ncomps := 0
  tables := fun _ => some (balances rows []).tab
  free := 1

/-- The balance of a first account. -/
def firstBalance : Fcd := openedFcd 0 [49, 48, 50, 117]

/-- A WRITE of a balance is committed. -/
theorem acknowledged_kept_write :
    ∃ entries proc, HandlerRun noFiles plainServer (fun _ _ => True) (ledger []) entries proc ∧
      Transaction.pending [] entries = [.row (.insert 1 [.num 1, .num (-5 / 2)])] ∧
      replay Change.apply (Transaction.pending [] entries) proc.conn.committed =
        some proc.commit.conn.committed := by
  obtain ⟨sys, called, running⟩ := map_eq_ok.mp (by decide +kernel :
    (fun sys : Sys Unit => sys.proc.conn.aborted) <$>
      pqfh noFiles plainServer noGarbage .write ⟨(), ledger [], firstBalance⟩ = .ok false)
  have taken : (Step.call () firstBalance noGarbage .write).take noFiles plainServer (ledger []) =
      .ok sys.proc := map_eq_ok.mpr ⟨sys, called, rfl⟩
  have run : HandlerRun noFiles plainServer (fun _ _ => True) (ledger []) _ sys.proc :=
    .step (.start _) trivial taken
  refine ⟨_, sys.proc, run, by decide +kernel, ?_⟩
  exact ((acknowledged_kept_iff noFiles plainServer _ _ _ rfl).1 run).mpr (Or.inl running)

/-- A WRITE returns 00, a READ NEXT without a START returns 10, and the commit after them loses
the row. -/
theorem acknowledged_lost :
    ∃ written read, pqfh noFiles plainServer noGarbage .write ⟨(), ledger [], firstBalance⟩ =
        .ok written ∧ written.fcd.status = stOk ∧
      pqfh noFiles plainServer noGarbage .readNext ⟨(), written.proc, firstBalance⟩ = .ok read ∧
      read.fcd.status = stEof ∧
      read.proc.conn.working 1 = some [[.num 1, .num (-5 / 2)]] ∧
      read.proc.commit.conn.committed 1 = some [] := by
  obtain ⟨written, called, status⟩ := map_eq_ok.mp (by decide +kernel :
    (fun sys : Sys Unit => sys.fcd.status) <$>
      pqfh noFiles plainServer noGarbage .write ⟨(), ledger [], firstBalance⟩ = .ok stOk)
  have both : (pqfh noFiles plainServer noGarbage .write ⟨(), ledger [], firstBalance⟩ >>=
      fun written => (fun read : Sys Unit => (read.fcd.status, read.proc.conn.working 1,
        read.proc.commit.conn.committed 1)) <$>
          pqfh noFiles plainServer noGarbage .readNext ⟨(), written.proc, firstBalance⟩) =
      .ok (stEof, some [[.num 1, .num (-5 / 2)]], some []) := by decide +kernel
  obtain ⟨written', called', later⟩ := bind_eq_ok.mp both
  obtain rfl : written = written' := Except.ok.inj (called.symm.trans called')
  obtain ⟨read, reads, result⟩ := map_eq_ok.mp later
  obtain ⟨eof, result⟩ := Prod.mk.inj result
  obtain ⟨working, lost⟩ := Prod.mk.inj result
  exact ⟨written, read, called, status, reads, eof, working, lost⟩

/-! ## The counter of pending commits -/

/-- Whether a step truncates a table. -/
def Step.Truncates (extfh : Extfh σ) (env : Env) (proc : Process) (step : Step σ) : Prop :=
  ∃ relation, .made (.table (.truncate relation)) ∈ step.entries extfh env proc

/-- A call that commits first changes nothing after it. -/
theorem databaseEntries_of_commitsFirst {env : Env} {opcode : Opcode} {fcd : Fcd} (sys : Sys σ)
    (commits : commitsFirst env opcode fcd = true) : databaseEntries env opcode sys = [] := by
  cases opcode with
  | commit => rfl
  | unlock => rfl
  | _ => exact absurd commits Bool.false_ne_true

/-- What is not committed after changes that end with a commit. -/
theorem pending_snoc_commit (changes : List Change) (entries : List (Transaction.Entry Change)) :
    Transaction.pending changes (entries ++ [.commit]) = [] := by
  rw [pending_append]
  rfl

/-- Unless a step truncates a table with the counter at 0, a counter at 0 after it says that
nothing is left to commit, if it did before. -/
theorem Step.take_covered {extfh : Extfh σ} {env : Env} {proc proc' : Process} {step : Step σ}
    (taken : step.take extfh env proc = .ok proc')
    (truncates : step.Truncates extfh env proc → 0 < proc.pendingCommits)
    (none : proc'.pendingCommits = 0) {changes : List Change}
    (covered : proc.pendingCommits = 0 → changes = []) :
    Transaction.pending changes (step.entries extfh env proc) = [] := by
  cases step with
  | commit => rfl
  | call files fcd garbage opcode =>
      obtain ⟨sys', called, rfl⟩ := map_eq_ok.mp taken
      have accounted := pqfh_accounted called
      simp only [Step.Truncates, Step.entries, pqfhEntries] at truncates ⊢
      rw [pending_append]
      generalize inner : (match arrives extfh env opcode ⟨files, proc, fcd⟩ with
        | .inl _ => []
        | .inr (_, entered) => databaseEntries env opcode entered) =
            entries at accounted truncates ⊢
      cases commits : commitsFirst env opcode fcd with
      | true =>
          have empty : entries = [] := by
            rw [← inner]
            split
            · rfl
            · exact databaseEntries_of_commitsFirst _ commits
          rw [empty]
          rfl
      | false =>
          rw [commits] at accounted truncates
          obtain ⟨empty, counted⟩ | ⟨before, ended⟩ :=
            accounted.covered (fun relation truncated => truncates ⟨relation, truncated⟩) none
          · rw [empty]
            exact covered counted
          · rw [ended]
            exact pending_snoc_commit _ _

/-- In a run in which every commit finds its transaction running and no OPEN OUTPUT truncates a
table with the counter at 0, a counter at 0 says that all the changes acknowledged so far are
committed. -/
theorem pending_commits_cover (extfh : Extfh σ) (env : Env) (first proc : Process)
    (entries : List (Transaction.Entry Change)) (fresh : first.conn.working = first.conn.committed)
    (run : HandlerRun extfh env (fun proc step =>
        (step.commits env = true → proc.conn.aborted = false) ∧
          (step.Truncates extfh env proc → 0 < proc.pendingCommits)) first entries proc)
    (none : proc.pendingCommits = 0) :
    replay Change.apply (changes entries) first.conn.committed = some proc.conn.committed := by
  obtain ⟨clean, session, kept⟩ := run.run
  have replays : replay Change.apply (Transaction.pending [] entries) proc.conn.session.committed =
      some proc.conn.session.working := session.replay (congrArg some fresh.symm)
  have covered : Transaction.pending [] entries = [] := by
    clear fresh session kept replays
    induction run with
    | start => rfl
    | step earlier permitted taken ih =>
        rw [pending_append]
        exact Step.take_covered taken permitted.2 none ih
  rw [covered] at replays
  have committed : proc.conn.committed = proc.conn.working := Option.some.inj replays
  rw [committed, ← fresh]
  exact session.replay_changes (kept fun _ _ permitted => permitted.1)

/-- After a WRITE and a commit the counter is 0, and the row is committed. -/
theorem pending_commits_cover_write :
    ∃ (entries : List (Transaction.Entry Change)) (proc : Process), proc.pendingCommits = 0 ∧
      changes entries = [.row (.insert 1 [.num 1, .num (-5 / 2)])] ∧
      replay Change.apply (changes entries) (ledger []).conn.committed =
        some proc.conn.committed := by
  obtain ⟨sys, called, running⟩ := map_eq_ok.mp (by decide +kernel :
    (fun sys : Sys Unit => sys.proc.conn.aborted) <$>
      pqfh noFiles plainServer noGarbage .write ⟨(), ledger [], firstBalance⟩ = .ok false)
  have taken : (Step.call () firstBalance noGarbage .write).take noFiles plainServer (ledger []) =
      .ok sys.proc := map_eq_ok.mpr ⟨sys, called, rfl⟩
  have entries : (Step.call () firstBalance noGarbage .write).entries noFiles plainServer
      (ledger []) = [.made (.row (.insert 1 [.num 1, .num (-5 / 2)]))] := by decide +kernel
  have keeps : ¬ (Step.call () firstBalance noGarbage .write).Truncates noFiles plainServer
      (ledger []) := by
    unfold Step.Truncates
    simp [entries]
  have keeps' : ¬ (Step.commit : Step Unit).Truncates noFiles plainServer sys.proc := by
    simp [Step.Truncates, Step.entries]
  have committed : (Step.commit : Step Unit).take noFiles plainServer sys.proc =
      .ok sys.proc.commit := rfl
  refine ⟨_, sys.proc.commit, rfl, ?_, pending_commits_cover noFiles plainServer _ _ _ rfl
    (.step (.step (.start _) ⟨fun _ => rfl, fun truncated => absurd truncated keeps⟩ taken)
      ⟨fun _ => running, fun truncated => absurd truncated keeps'⟩ committed) rfl⟩
  rw [entries]
  rfl

/-- A server whose catalog has the table of balances. -/
def catalogServer : Env :=
  { plainServer with pg := { plainServer.pg with catalog := fun _ =>
      [⟨"codigo", .numeric 1 0 one_digit no_decimals_of_one⟩,
        ⟨"saldo", .numeric 3 1 three_digits one_decimal_of_three⟩] } }

/-- The fcd of the file of balances before it is opened. -/
def closedBalance : Fcd :=
  { firstBalance with openMode := 128, fileName := [115], kdb := singleKey 0 1 }

/-- OPEN OUTPUT truncates a table with the counter at 0, and the thread does not commit it. -/
theorem pending_commits_miss_truncation :
    ∃ sys, pqfh noFiles catalogServer noGarbage (.openFile .output)
        ⟨(), ledger [[.num 1, .num 7]], closedBalance⟩ = .ok sys ∧
      sys.fcd.status = stOk ∧ sys.proc.pendingCommits = 0 ∧ sys.proc.conn.working 1 = some [] ∧
      sys.proc.conn.committed 1 = some [[.num 1, .num 7]] := by
  obtain ⟨sys, called, result⟩ := map_eq_ok.mp (by decide +kernel :
    (fun sys : Sys Unit => ((sys.fcd.status, sys.proc.pendingCommits), sys.proc.conn.working 1,
        sys.proc.conn.committed 1)) <$>
      pqfh noFiles catalogServer noGarbage (.openFile .output)
        ⟨(), ledger [[.num 1, .num 7]], closedBalance⟩ =
      .ok ((stOk, 0), some [], some [[.num 1, .num 7]]))
  obtain ⟨before, after⟩ := Prod.mk.inj result
  obtain ⟨status, counter⟩ := Prod.mk.inj before
  obtain ⟨working, committed⟩ := Prod.mk.inj after
  exact ⟨sys, called, status, counter, working, committed⟩

end Pqfh
