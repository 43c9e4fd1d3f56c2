import Mathlib.Data.Option.Basic
import Mathlib.Data.List.Basic

/-! # Sessions with one open transaction

A session works on a database in one transaction after the other. Changes are made to a
working copy; a commit makes the working copy the committed database, unless the
transaction was aborted, and then the working copy is thrown away.

Replayed on the committed database, the changes made since the last commit give the working
copy (`Transaction.Run.replay`), and a commit keeps them just when the transaction is not
aborted or they change nothing (`Transaction.commit_keeps_iff`). When no commit finds its
transaction aborted, the working copy has all the changes of the run
(`Transaction.Run.replay_changes`).
-/

namespace Transaction

variable {D C : Type}

/-- A database and the transaction open on it. -/
structure Session (D : Type) where
  committed : D
  working : D
  aborted : Bool

/-- End the transaction and open the next. -/
def Session.commit (session : Session D) : Session D :=
  if session.aborted then ⟨session.committed, session.committed, false⟩
  else ⟨session.working, session.working, false⟩

/-- Nothing is changed, though the transaction may have been aborted. -/
structure Quiet (before after : Session D) : Prop where
  committed : after.committed = before.committed
  working : after.working = before.working
  aborted : before.aborted = true → after.aborted = true

theorem Quiet.refl (session : Session D) : Quiet session session := ⟨rfl, rfl, id⟩

theorem Quiet.trans {first second third : Session D} (one : Quiet first second)
    (two : Quiet second third) : Quiet first third where
  committed := two.committed.trans one.committed
  working := two.working.trans one.working
  aborted := two.aborted ∘ one.aborted

/-- What a session can go through besides failing statements. -/
inductive Entry (C : Type) where
  | made (change : C)
  | commit
  deriving DecidableEq

/-- A session goes through entries, and whether every commit found its transaction running. -/
inductive Run (apply : C → D → Option D) :
    Session D → List (Entry C) → Bool → Session D → Prop where
  | done {before after : Session D} (quiet : Quiet before after) : Run apply before [] true after
  | made {before middle after : Session D} {change : C} {db : D} {entries : List (Entry C)}
      {clean : Bool} (quiet : Quiet before middle) (running : middle.aborted = false)
      (changes : apply change middle.working = some db)
      (later : Run apply ⟨middle.committed, db, false⟩ entries clean after) :
      Run apply before (.made change :: entries) clean after
  | commit {before middle after : Session D} {entries : List (Entry C)} {clean : Bool}
      (quiet : Quiet before middle) (later : Run apply middle.commit entries clean after) :
      Run apply before (.commit :: entries) (!middle.aborted && clean) after

/-- Changes made one after the other. -/
def replay (apply : C → D → Option D) : List C → D → Option D
  | [], db => some db
  | change :: changes, db => (apply change db).bind (replay apply changes)

/-- The changes among entries. -/
def changes : List (Entry C) → List C
  | [] => []
  | .made change :: entries => change :: changes entries
  | .commit :: entries => changes entries

/-- The changes made since the last commit, after those made before. -/
def pending : List C → List (Entry C) → List C
  | before, [] => before
  | before, .made change :: entries => pending (before ++ [change]) entries
  | _, .commit :: entries => pending [] entries

variable {apply : C → D → Option D}

theorem replay_append (first second : List C) (db : D) :
    replay apply (first ++ second) db = (replay apply first db).bind (replay apply second) := by
  induction first generalizing db with
  | nil => rfl
  | cons change changes ih =>
      rw [List.cons_append, replay, replay, Option.bind_assoc]
      congr 1
      funext middle
      exact ih middle

theorem pending_append (before : List C) (first second : List (Entry C)) :
    pending before (first ++ second) = pending (pending before first) second := by
  induction first generalizing before with
  | nil => rfl
  | cons entry entries ih =>
      cases entry with
      | made change => exact ih _
      | commit => exact ih _

/-- The changes made since the last commit lead from the committed database to the working
copy. -/
theorem Run.replay {before after : Session D} {entries : List (Entry C)} {clean : Bool}
    (run : Run apply before entries clean after) :
    ∀ {changes : List C}, Transaction.replay apply changes before.committed = some before.working →
      Transaction.replay apply (pending changes entries) after.committed = some after.working := by
  induction run with
  | done quiet =>
      intro changes replays
      rw [pending, quiet.committed, quiet.working]
      exact replays
  | made quiet running changed later ih =>
      intro changes replays
      rw [pending]
      apply ih
      rw [replay_append, quiet.committed, replays, Option.bind_some, Transaction.replay,
        ← quiet.working, changed, Option.bind_some]
      rfl
  | commit quiet later ih =>
      intro changes replays
      rw [pending]
      apply ih
      unfold Session.commit
      split <;> rfl

/-- When no commit rolls back, all the changes lead from the working copy at the start to the
working copy at the end. -/
theorem Run.replay_changes {before after : Session D} {entries : List (Entry C)} {clean : Bool}
    (run : Run apply before entries clean after) (kept : clean = true) :
    Transaction.replay apply (changes entries) before.working = some after.working := by
  induction run with
  | done quiet => rw [changes, Transaction.replay, quiet.working]
  | made quiet running changed later ih =>
      rw [changes, Transaction.replay, ← quiet.working, changed, Option.bind_some]
      exact ih kept
  | commit quiet later ih =>
      obtain ⟨running, kept⟩ := Bool.and_eq_true_iff.mp kept
      rw [Bool.not_eq_true'] at running
      rw [changes, ← ih kept, ← quiet.working]
      unfold Session.commit
      rw [running]
      rfl

theorem Run.quiet_first {before middle after : Session D} {entries : List (Entry C)}
    {clean : Bool} (quiet : Quiet before middle) (run : Run apply middle entries clean after) :
    Run apply before entries clean after := by
  cases run with
  | done later => exact .done (quiet.trans later)
  | made later running changes rest => exact .made (quiet.trans later) running changes rest
  | commit later rest => exact .commit (quiet.trans later) rest

/-- One run after another. -/
theorem Run.trans {first second third : Session D} {entries entries' : List (Entry C)}
    {clean clean' : Bool} (one : Run apply first entries clean second)
    (two : Run apply second entries' clean' third) :
    Run apply first (entries ++ entries') (clean && clean') third := by
  induction one with
  | done quiet => exact two.quiet_first quiet
  | made quiet running changes _ ih => exact .made quiet running changes (ih two)
  | commit quiet _ ih =>
      rw [Bool.and_assoc]
      exact .commit quiet (ih two)

/-- Entries with no commit among them leave the committed database. -/
theorem Run.committed {before after : Session D} {entries : List (Entry C)} {clean : Bool}
    (run : Run apply before entries clean after) (none : .commit ∉ entries) :
    after.committed = before.committed := by
  induction run with
  | done quiet => exact quiet.committed
  | made quiet _ _ _ ih =>
      exact (ih (List.not_mem_of_not_mem_cons none)).trans quiet.committed
  | commit => exact absurd List.mem_cons_self none

/-- A commit keeps what was changed just when the transaction is not aborted, or when nothing
was changed. -/
theorem commit_keeps_iff {session : Session D} {changes : List C}
    (replays : Transaction.replay apply changes session.committed = some session.working) :
    Transaction.replay apply changes session.committed = some session.commit.committed ↔
      session.aborted = false ∨ session.working = session.committed := by
  rw [replays, Option.some_inj]
  unfold Session.commit
  cases session.aborted with
  | false => exact ⟨fun _ => Or.inl rfl, fun _ => rfl⟩
  | true => exact ⟨Or.inr, fun kept => kept.resolve_left nofun⟩

end Transaction
