import Pqfh.Handler.Delete
import Pqfh.Handler.Dispatch
import Pqfh.Handler.OpsFrame

/-! # Updates of both files in mode A

In mode A an update is made in the native file first, then in the database. When the
database refuses it, the native file is to be brought back to what it was: a WRITE by a
DELETE, a REWRITE by a REWRITE of the record read before, a DELETE by a WRITE.

The calls that undo share the record area with the database, whose read overwrites it, and
the undoing of a DELETE does not use the record read before.
`Pqfh.dual_write_atomic_iff` says when the file is what it was.
-/

namespace Pqfh

variable {σ : Type}

/-- The records of an indexed file by their primary keys. -/
abbrev Contents := List Byte → Option (List Byte)

/-- The answer of an indexed file to an update: it is made, with a status of class 0, or not
allowed. -/
def Answers (contents : σ → Contents) (files : σ) (answer : σ × Fcd) (allowed : Prop)
    (after : Contents) : Prop :=
  (allowed ∧ answer.2.status.1 = 48 ∧ contents answer.1 = after) ∨
    (¬ allowed ∧ answer.2.status.1 ≠ 48 ∧ contents answer.1 = contents files)

/-- `EXTFH` is an indexed file: WRITE, REWRITE and DELETE act on the primary key of the record
area, and READ reads by the key in use into the record area. `key` gives the keys of a
record, and `admits` says which contents the alternate keys allow. -/
structure IndexedFile (extfh : Extfh σ) (contents : σ → Contents)
    (key : ℕ → List Byte → List Byte) (admits : Contents → Prop) : Prop where
  keyed : ∀ files primary record, contents files primary = some record → key 0 record = primary
  admitted : ∀ files, admits (contents files)
  write : ∀ files fcd,
    let after := Function.update (contents files) (key 0 fcd.record) (some fcd.record)
    Answers contents files (extfh .write files fcd)
      (contents files (key 0 fcd.record) = none ∧ admits after) after
  rewrite : ∀ files fcd,
    let after := Function.update (contents files) (key 0 fcd.record) (some fcd.record)
    Answers contents files (extfh .rewrite files fcd)
      (contents files (key 0 fcd.record) ≠ none ∧ admits after) after
  delete : ∀ files fcd,
    Answers contents files (extfh .delete files fcd) (contents files (key 0 fcd.record) ≠ none)
      (Function.update (contents files) (key 0 fcd.record) none)
  read : ∀ files fcd, contents (extfh .readRandom files fcd).1 = contents files
  found : ∀ files fcd, (extfh .readRandom files fcd).2.status = stOk →
    let record := (extfh .readRandom files fcd).2.record
    contents files (key 0 record) = some record ∧
      key fcd.keyId record = key fcd.keyId fcd.record
  update_fcd : ∀ (opcode : Opcode) files (fcd : Fcd), opcode.updates = true →
    fcd.SameBut (extfh opcode files fcd).2 fcd.record
  read_fcd : ∀ files (fcd : Fcd),
    fcd.SameBut (extfh .readRandom files fcd).2 (extfh .readRandom files fcd).2.record

/-! ## When an update is undone -/

/-- The record area after an operation on the database whose read is `read`. -/
def Sys.areaAfter (read : State → Except Stop State) (sys : Sys σ) : List Byte :=
  if sys.fcd.openMode = 128 then sys.fcd.record
  else
    match sys.proc.tables sys.fcd.fileId with
    | none => sys.fcd.record
    | some tab =>
        match read (sys.state tab) with
        | .error _ => sys.fcd.record
        | .ok st => st.fcd.record

/-- The record area after the read of `op_write`, by key 0. -/
def writeArea (env : Env) (sys : Sys σ) : List Byte :=
  sys.areaAfter fun st => opReadRandom env false false (st.setKeyId 0)

/-- The record area after the read of `op_delete`, by the key in use. -/
def deleteArea (env : Env) (sys : Sys σ) : List Byte :=
  sys.areaAfter fun st => opReadRandom env false false st.resetScan

/-- The answer of `EXTFH` to the update itself. -/
def updateAnswer (extfh : Extfh σ) (opcode : Opcode) (sys : Sys σ) : Status :=
  if opcode = .write then (sys.extfh extfh .write).fcd.status
  else (((sys.extfh extfh .readRandom).setRecord sys.fcd.record).extfh extfh opcode).fcd.status

/-- When a call that does not return 00 leaves the native file as it was. Either `EXTFH` did not
make the update, or it answered 00 (and not 02, for a duplicate of an alternate key) and the
undoing meets the right record:
* for a WRITE, the row that the database has under the key has the primary key of the record;
* for a REWRITE, the record read by the key in use has the primary key of the record, unless
  the REWRITE changed nothing;
* for a DELETE, the record area after the read in the database holds the record deleted. -/
def Undone (extfh : Extfh σ) (contents : σ → Contents) (key : ℕ → List Byte → List Byte)
    (env : Env) (opcode : Opcode) (sys : Sys σ) : Prop :=
  let answer := updateAnswer extfh opcode sys
  let primary := key 0 sys.fcd.record
  let read := sys.extfh extfh .readRandom
  match opcode with
  | .write => answer.1 ≠ 48 ∨
      answer = stOk ∧ key 0 (writeArea env (sys.setStatus stOk)) = primary
  | .rewrite => read.fcd.status ≠ stOk ∨ answer.1 ≠ 48 ∨
      answer = stOk ∧ key 0 read.fcd.record = primary ∨
      contents sys.files primary = some sys.fcd.record
  | _ => read.fcd.status ≠ stOk ∨ answer.1 ≠ 48 ∨
      answer = stOk ∧ contents sys.files primary = some (deleteArea env (sys.setStatus stOk))

/-! ## Calls on the database -/

/-- An operation whose record area is that of its read. -/
theorem Sys.run_area {sys sys' : Sys σ} {closed : Status} {op read : State → Except Stop State}
    (ran : sys.run closed op = .ok sys')
    (area : ∀ {st st'}, op st = .ok st' → ∃ st₁, read st = .ok st₁ ∧
      st.fcd.SameBut st'.fcd st₁.fcd.record) :
    sys'.files = sys.files ∧ sys.fcd.SameBut sys'.fcd (sys.areaAfter read) := by
  unfold Sys.areaAfter
  obtain ⟨shut, rfl⟩ | ⟨opened, tab, st, live, operated, rfl⟩ := Sys.run_ok ran
  · rw [if_pos shut]
    exact ⟨rfl, rfl⟩
  · obtain ⟨st₁, reads, same⟩ := area operated
    rw [if_neg opened]
    simp only [live, reads]
    exact ⟨rfl, same⟩

theorem Sys.opRewrite_files {env : Env} {sys sys' : Sys σ} {done : Bool}
    (ran : sys.opRewrite env = .ok (done, sys')) :
    sys'.files = sys.files ∧ sys.fcd.SameBut sys'.fcd sys.fcd.record := by
  unfold Sys.opRewrite at ran
  split at ran
  · cases ran
    exact ⟨rfl, rfl⟩
  · obtain ⟨tab, st, live, rewrote, rfl⟩ := Sys.onTable_ok ran
    exact ⟨rfl, opRewrite_fcd rewrote⟩

/-! ## The three updates -/

section Updates

variable {extfh : Extfh σ} {contents : σ → Contents} {key : ℕ → List Byte → List Byte}
  {admits : Contents → Prop} {env : Env} {garbage : Garbage} {sys sys' : Sys σ}

/-- A mode A update that returned: it ended with `EXTFH`, or went on to the database. -/
theorem pqfh_updates {opcode : Opcode} (mode : env.mode = .A) (update : opcode.updates = true)
    (kept : sys.fcd.isam = false) (returned : pqfh extfh env garbage opcode sys = .ok sys') :
    ∃ undo updated, updateFirst extfh opcode sys = (undo, updated) ∧
      ((undo = none ∧ sys' = updated) ∨ ∃ record, undo = some record ∧
        databaseOp extfh env garbage record opcode updated = .ok sys') := by
  have called : direct extfh env garbage opcode sys = .ok sys' := by
    cases opcode <;> first
      | exact absurd update Bool.false_ne_true
      | simpa [pqfh, mode, kept] using returned
  unfold direct at called
  rw [if_pos ⟨mode, update⟩] at called
  rcases first : updateFirst extfh opcode sys with ⟨_ | undo, updated⟩
  · rw [first] at called
    cases called
    exact ⟨_, _, rfl, Or.inl ⟨rfl, rfl⟩⟩
  · rw [first] at called
    exact ⟨_, _, rfl, Or.inr ⟨undo, rfl, called⟩⟩

/-- The fcd after `EXTFH` has answered 00 to an update. -/
theorem IndexedFile.answered (indexed : IndexedFile extfh contents key admits) {opcode : Opcode}
    (update : opcode.updates = true) (answer : (sys.extfh extfh opcode).fcd.status = stOk) :
    (sys.extfh extfh opcode).fcd = (sys.setStatus stOk).fcd := by
  have same := indexed.update_fcd opcode sys.files sys.fcd update
  unfold Fcd.SameBut at same
  change (extfh opcode sys.files sys.fcd).2 = _
  rw [same]
  change (extfh opcode sys.files sys.fcd).2.status = stOk at answer
  rw [answer]
  rfl

theorem update_ne_self {contents : Contents} {primary : List Byte} {value : Option (List Byte)}
    (changed : contents primary ≠ value) : Function.update contents primary value ≠ contents := by
  intro same
  exact changed (by rw [← same, Function.update_self])

/-- What a DELETE makes of the contents. -/
theorem IndexedFile.deletes (indexed : IndexedFile extfh contents key admits) {before : Contents}
    {record : List Byte} (holds : contents sys.files = before) (area : sys.fcd.record = record) :
    (before (key 0 record) ≠ none ∧
        contents (sys.extfh extfh .delete).files = Function.update before (key 0 record) none) ∨
      (before (key 0 record) = none ∧ contents (sys.extfh extfh .delete).files = before) := by
  subst holds area
  obtain ⟨present, _, after⟩ | ⟨absent, _, same⟩ := indexed.delete sys.files sys.fcd
  · exact Or.inl ⟨present, after⟩
  · exact Or.inr ⟨not_not.mp absent, same⟩

/-- What a REWRITE makes of the contents. -/
theorem IndexedFile.rewrites (indexed : IndexedFile extfh contents key admits) {before : Contents}
    {record : List Byte} (holds : contents sys.files = before) (area : sys.fcd.record = record) :
    (before (key 0 record) ≠ none ∧ contents (sys.extfh extfh .rewrite).files =
        Function.update before (key 0 record) (some record)) ∨
      (¬ (before (key 0 record) ≠ none ∧
          admits (Function.update before (key 0 record) (some record))) ∧
        contents (sys.extfh extfh .rewrite).files = before) := by
  subst holds area
  obtain ⟨⟨present, _⟩, _, after⟩ | ⟨refused, _, same⟩ := indexed.rewrite sys.files sys.fcd
  · exact Or.inl ⟨present, after⟩
  · exact Or.inr ⟨refused, same⟩

/-- What a WRITE makes of the contents. -/
theorem IndexedFile.writes (indexed : IndexedFile extfh contents key admits) {before : Contents}
    {record : List Byte} (holds : contents sys.files = before) (area : sys.fcd.record = record) :
    (before (key 0 record) = none ∧ contents (sys.extfh extfh .write).files =
        Function.update before (key 0 record) (some record)) ∨
      (¬ (before (key 0 record) = none ∧
          admits (Function.update before (key 0 record) (some record))) ∧
        contents (sys.extfh extfh .write).files = before) := by
  subst holds area
  obtain ⟨⟨absent, _⟩, _, after⟩ | ⟨refused, _, same⟩ := indexed.write sys.files sys.fcd
  · exact Or.inl ⟨absent, after⟩
  · exact Or.inr ⟨refused, same⟩

/-- A WRITE that the database refused is undone. -/
theorem writeBoth_refused (mode : env.mode = .A) (returned : writeBoth extfh env sys = .ok sys')
    (failed : sys'.fcd.status ≠ stOk) :
    ∃ written : Sys σ, sys' = undoWrite extfh written ∧ written.files = sys.files ∧
      written.fcd.record = writeArea env sys := by
  obtain ⟨written, ran, ended⟩ := bind_eq_ok.mp returned
  rw [mode] at ended
  have refused : written.fcd.status ≠ stOk := by
    intro accepted
    rw [if_neg (not_not.mpr accepted)] at ended
    cases ended
    exact failed accepted
  rw [if_pos refused] at ended
  cases ended
  obtain ⟨files, same⟩ := Sys.run_area ran opWrite_fcd
  exact ⟨written, rfl, files, same.record⟩

/-- A REWRITE that the database refused is undone. -/
theorem rewriteBoth_refused {undo : List Byte} (mode : env.mode = .A)
    (returned : rewriteBoth extfh env undo sys = .ok sys') (failed : sys'.fcd.status ≠ stOk) :
    ∃ rewritten : Sys σ, sys' = undoRewrite extfh undo rewritten ∧ rewritten.files = sys.files := by
  obtain ⟨⟨ret, rewritten⟩, ran, ended⟩ := bind_eq_ok.mp returned
  rw [mode] at ended
  have refused : (!ret || rewritten.fcd.status ≠ stOk) = true := by
    by_contra accepted
    dsimp only at ended
    rw [if_neg accepted] at ended
    cases ended
    simp [failed] at accepted
  dsimp only at ended
  rw [if_pos refused] at ended
  cases ended
  exact ⟨rewritten, rfl, (Sys.opRewrite_files ran).1⟩

/-- A DELETE that the database refused is undone. -/
theorem deleteBoth_refused (mode : env.mode = .A) (returned : deleteBoth extfh env sys = .ok sys')
    (failed : sys'.fcd.status ≠ stOk) :
    ∃ deleted : Sys σ, sys' = undoDelete extfh deleted ∧ deleted.files = sys.files ∧
      deleted.fcd.record = deleteArea env sys := by
  obtain ⟨deleted, ran, ended⟩ := bind_eq_ok.mp returned
  rw [mode] at ended
  have refused : deleted.fcd.status ≠ stOk := by
    intro accepted
    rw [if_neg (not_not.mpr accepted)] at ended
    cases ended
    exact failed accepted
  rw [if_pos refused] at ended
  cases ended
  obtain ⟨files, same⟩ := Sys.run_area ran opDelete_fcd
  exact ⟨deleted, rfl, files, same.record⟩

/-- A WRITE that did not return 00. -/
theorem write_undone_iff (indexed : IndexedFile extfh contents key admits) (mode : env.mode = .A)
    (kept : sys.fcd.isam = false) (returned : pqfh extfh env garbage .write sys = .ok sys')
    (failed : sys'.fcd.status ≠ stOk) :
    contents sys'.files = contents sys.files ↔ Undone extfh contents key env .write sys := by
  change _ ↔ (sys.extfh extfh .write).fcd.status.1 ≠ 48 ∨
    (sys.extfh extfh .write).fcd.status = stOk ∧
    key 0 (writeArea env (sys.setStatus stOk)) = key 0 sys.fcd.record
  have answers := indexed.write sys.files sys.fcd
  obtain ⟨undo, updated, first, ended⟩ := pqfh_updates mode rfl kept returned
  obtain ⟨answered, rfl⟩ := Prod.mk.inj first
  obtain ⟨rfl, rfl⟩ | ⟨_, rfl, database⟩ := ended
  · obtain ⟨⟨absent, _⟩, made, after⟩ | ⟨_, notMade, same⟩ := answers
    · -- made, but not answered with 00
      change contents (sys.extfh extfh .write).files = _ at after
      rw [after]
      constructor
      · intro same
        exact absurd same (update_ne_self (by rw [absent]; exact nofun))
      · rintro (notMade | ⟨ok, _⟩)
        · exact absurd made notMade
        · exact absurd ok failed
    · exact ⟨fun _ => Or.inl notMade, fun _ => same⟩
  · have ok : (sys.extfh extfh .write).fcd.status = stOk := by
      by_contra other
      rw [if_neg other] at answered
      cases answered
    obtain ⟨⟨absent, _⟩, made, after⟩ | ⟨_, notMade, _⟩ := answers
    · change contents (sys.extfh extfh .write).files = _ at after
      obtain ⟨written, rfl, files, area⟩ := writeBoth_refused mode database failed
      have area' : writeArea env (sys.extfh extfh .write) = writeArea env (sys.setStatus stOk) := by
        unfold writeArea Sys.areaAfter Sys.state
        rw [indexed.answered rfl ok]
        rfl
      rw [area'] at area
      change contents (written.extfh extfh .delete).files = _ ↔ _
      have undone := indexed.deletes (by rw [files, after] : contents written.files = _) area
      by_cases same : key 0 (writeArea env (sys.setStatus stOk)) = key 0 sys.fcd.record
      · obtain ⟨_, restored⟩ | ⟨missing, _⟩ := undone
        · rw [same, Function.update_idem, ← absent, Function.update_eq_self] at restored
          exact ⟨fun _ => Or.inr ⟨ok, same⟩, fun _ => restored⟩
        · rw [same, Function.update_self] at missing
          cases missing
      · have there : contents (written.extfh extfh .delete).files (key 0 sys.fcd.record) =
            some sys.fcd.record := by
          obtain ⟨_, other⟩ | ⟨_, other⟩ := undone
          · rw [other, Function.update_of_ne (Ne.symm same), Function.update_self]
          · rw [other, Function.update_self]
        constructor
        · intro restored
          rw [restored, absent] at there
          cases there
        · rintro (notMade | ⟨_, here⟩)
          · exact absurd made notMade
          · exact absurd here same
    · exact absurd (congrArg Prod.fst ok) notMade

/-- The system after `EXTFH` has answered the update of a record read before. -/
def afterUpdate (extfh : Extfh σ) (opcode : Opcode) (sys : Sys σ) : Sys σ :=
  ((sys.extfh extfh .readRandom).setRecord sys.fcd.record).extfh extfh opcode

/-- A REWRITE or DELETE that returned: `EXTFH` did not find the record, or did not answer 00 to
the update, or the call went on to the database. -/
theorem pqfh_reads_first {opcode : Opcode} (mode : env.mode = .A) (update : opcode.updates = true)
    (other : opcode ≠ .write) (kept : sys.fcd.isam = false)
    (returned : pqfh extfh env garbage opcode sys = .ok sys') :
    let read := sys.extfh extfh .readRandom
    let updated := afterUpdate extfh opcode sys
    (read.fcd.status ≠ stOk ∧ sys' = read.setRecord sys.fcd.record) ∨
      (read.fcd.status = stOk ∧ updated.fcd.status ≠ stOk ∧ sys' = updated) ∨
      (read.fcd.status = stOk ∧ updated.fcd.status = stOk ∧
        databaseOp extfh env garbage read.fcd.record opcode updated = .ok sys') := by
  obtain ⟨undo, updated, first, ended⟩ := pqfh_updates mode update kept returned
  unfold updateFirst at first
  rw [if_neg other] at first
  dsimp only at first ⊢
  by_cases found : (sys.extfh extfh .readRandom).fcd.status = stOk
  · rw [if_pos found] at first
    obtain ⟨rfl, rfl⟩ := Prod.mk.inj first
    change (_ = none ∧ sys' = afterUpdate extfh opcode sys) ∨ _ at ended
    by_cases ok : (afterUpdate extfh opcode sys).fcd.status = stOk
    · obtain ⟨none, _⟩ | ⟨record, some, database⟩ := ended
      · exact absurd none (by rw [if_pos (by exact ok)]; exact nofun)
      · rw [if_pos (by exact ok)] at some
        cases some
        exact Or.inr (Or.inr ⟨found, ok, database⟩)
    · obtain ⟨_, ended⟩ | ⟨record, some, _⟩ := ended
      · exact Or.inr (Or.inl ⟨found, ok, ended⟩)
      · rw [if_neg (by exact ok)] at some
        cases some
  · rw [if_neg found] at first
    obtain ⟨rfl, rfl⟩ := Prod.mk.inj first
    obtain ⟨_, ended⟩ | ⟨_, impossible, _⟩ := ended
    · exact Or.inl ⟨found, ended⟩
    · cases impossible

/-- The fcd when `EXTFH` has found the record and answered 00 to its update. -/
theorem IndexedFile.afterUpdate_fcd (indexed : IndexedFile extfh contents key admits)
    {opcode : Opcode} (update : opcode.updates = true)
    (answer : (afterUpdate extfh opcode sys).fcd.status = stOk) :
    (afterUpdate extfh opcode sys).fcd = (sys.setStatus stOk).fcd := by
  have read := indexed.read_fcd sys.files sys.fcd
  refine (indexed.answered update answer).trans ?_
  unfold Fcd.SameBut at read
  unfold Sys.setStatus Sys.setRecord Sys.extfh
  dsimp only
  rw [read]

/-- A REWRITE that did not return 00. -/
theorem rewrite_undone_iff (indexed : IndexedFile extfh contents key admits) (mode : env.mode = .A)
    (kept : sys.fcd.isam = false) (returned : pqfh extfh env garbage .rewrite sys = .ok sys')
    (failed : sys'.fcd.status ≠ stOk) :
    contents sys'.files = contents sys.files ↔ Undone extfh contents key env .rewrite sys := by
  change _ ↔ (sys.extfh extfh .readRandom).fcd.status ≠ stOk ∨
    (afterUpdate extfh .rewrite sys).fcd.status.1 ≠ 48 ∨
    (afterUpdate extfh .rewrite sys).fcd.status = stOk ∧
      key 0 (sys.extfh extfh .readRandom).fcd.record = key 0 sys.fcd.record ∨
    contents sys.files (key 0 sys.fcd.record) = some sys.fcd.record
  have unread : contents (sys.extfh extfh .readRandom).files = contents sys.files :=
    indexed.read sys.files sys.fcd
  have answers := indexed.rewrite (sys.extfh extfh .readRandom).files
    ((sys.extfh extfh .readRandom).setRecord sys.fcd.record).fcd
  obtain ⟨missing, rfl⟩ | ⟨found, notOk, rfl⟩ | ⟨found, ok, database⟩ :=
    pqfh_reads_first mode rfl (by decide) kept returned
  · exact ⟨fun _ => Or.inl missing, fun _ => unread⟩
  · obtain ⟨_, made, after⟩ | ⟨_, notMade, same⟩ := answers
    · -- made, but not answered with 00
      change contents (afterUpdate extfh .rewrite sys).files =
        Function.update (contents (sys.extfh extfh .readRandom).files) (key 0 sys.fcd.record)
          (some sys.fcd.record) at after
      rw [unread] at after
      rw [after, Function.update_eq_self_iff, eq_comm]
      refine ⟨fun same => Or.inr (Or.inr (Or.inr same)), ?_⟩
      rintro (missing | notMade | ⟨ok, _⟩ | same)
      · exact absurd found missing
      · exact absurd made notMade
      · exact absurd ok notOk
      · exact same
    · exact ⟨fun _ => Or.inr (Or.inl notMade), fun _ => same.trans unread⟩
  · obtain ⟨_, made, after⟩ | ⟨_, notMade, _⟩ := answers
    · change contents (afterUpdate extfh .rewrite sys).files =
        Function.update (contents (sys.extfh extfh .readRandom).files) (key 0 sys.fcd.record)
          (some sys.fcd.record) at after
      rw [unread] at after
      obtain ⟨stored, _⟩ := indexed.found sys.files sys.fcd found
      change contents sys.files (key 0 (sys.extfh extfh .readRandom).fcd.record) =
        some (sys.extfh extfh .readRandom).fcd.record at stored
      obtain ⟨rewritten, rfl, files⟩ := rewriteBoth_refused mode database failed
      change contents ((rewritten.setRecord (sys.extfh extfh .readRandom).fcd.record).extfh extfh
        .rewrite).files = _ ↔ _
      generalize (sys.extfh extfh .readRandom).fcd.record = undo at stored ⊢
      have area : (rewritten.setRecord undo).fcd.record = undo := rfl
      have undone := indexed.rewrites
        (by exact files ▸ after : contents (rewritten.setRecord undo).files = _) area
      by_cases same : key 0 undo = key 0 sys.fcd.record
      · rw [same, Function.update_idem, Function.update_self, ← same, ← stored,
          Function.update_eq_self] at undone
        obtain ⟨_, restored⟩ | ⟨refused, _⟩ := undone
        · exact ⟨fun _ => Or.inr (Or.inr (Or.inl ⟨ok, same⟩)), fun _ => restored⟩
        · exact absurd ⟨nofun, indexed.admitted _⟩ refused
      · -- the REWRITE of another record, which is stored as it is, changes nothing
        have unchanged : contents ((rewritten.setRecord undo).extfh extfh .rewrite).files =
            Function.update (contents sys.files) (key 0 sys.fcd.record) (some sys.fcd.record) := by
          obtain ⟨_, other⟩ | ⟨_, other⟩ := undone
          · rw [other, ← stored, ← Function.update_of_ne same (some sys.fcd.record)
              (contents sys.files), Function.update_eq_self]
          · exact other
        rw [unchanged, Function.update_eq_self_iff, eq_comm]
        refine ⟨fun stored => Or.inr (Or.inr (Or.inr stored)), ?_⟩
        rintro (missing | notMade | ⟨_, here⟩ | stored)
        · exact absurd found missing
        · exact absurd made notMade
        · exact absurd here same
        · exact stored
    · exact absurd (congrArg Prod.fst ok) notMade

/-- A DELETE that did not return 00. -/
theorem delete_undone_iff (indexed : IndexedFile extfh contents key admits) (mode : env.mode = .A)
    (kept : sys.fcd.isam = false) (returned : pqfh extfh env garbage .delete sys = .ok sys')
    (failed : sys'.fcd.status ≠ stOk) :
    contents sys'.files = contents sys.files ↔ Undone extfh contents key env .delete sys := by
  change _ ↔ (sys.extfh extfh .readRandom).fcd.status ≠ stOk ∨
    (afterUpdate extfh .delete sys).fcd.status.1 ≠ 48 ∨
    (afterUpdate extfh .delete sys).fcd.status = stOk ∧
      contents sys.files (key 0 sys.fcd.record) = some (deleteArea env (sys.setStatus stOk))
  have unread : contents (sys.extfh extfh .readRandom).files = contents sys.files :=
    indexed.read sys.files sys.fcd
  have answers : Answers contents (sys.extfh extfh .readRandom).files _
      (contents (sys.extfh extfh .readRandom).files (key 0 sys.fcd.record) ≠ none)
      (Function.update (contents (sys.extfh extfh .readRandom).files)
      (key 0 sys.fcd.record) none) :=
    indexed.delete (sys.extfh extfh .readRandom).files
      ((sys.extfh extfh .readRandom).setRecord sys.fcd.record).fcd
  rw [unread] at answers
  obtain ⟨missing, rfl⟩ | ⟨found, notOk, rfl⟩ | ⟨found, ok, database⟩ :=
    pqfh_reads_first mode rfl (by decide) kept returned
  · exact ⟨fun _ => Or.inl missing, fun _ => unread⟩
  · obtain ⟨present, made, after⟩ | ⟨_, notMade, same⟩ := answers
    · -- made, but not answered with 00
      change contents (afterUpdate extfh .delete sys).files = _ at after
      rw [after]
      refine ⟨fun same => absurd same (update_ne_self present), ?_⟩
      rintro (missing | notMade | ⟨ok, _⟩)
      · exact absurd found missing
      · exact absurd made notMade
      · exact absurd ok notOk
    · exact ⟨fun _ => Or.inr (Or.inl notMade), fun _ => same.trans unread⟩
  · obtain ⟨present, made, after⟩ | ⟨_, notMade, _⟩ := answers
    · change contents (afterUpdate extfh .delete sys).files = _ at after
      obtain ⟨deleted, rfl, files, area⟩ := deleteBoth_refused mode database failed
      have area' : deleteArea env (afterUpdate extfh .delete sys) =
          deleteArea env (sys.setStatus stOk) := by
        unfold deleteArea Sys.areaAfter Sys.state
        rw [indexed.afterUpdate_fcd rfl ok]
        rfl
      rw [area'] at area
      generalize deleteArea env (sys.setStatus stOk) = inserted at area ⊢
      change contents (deleted.extfh extfh .write).files = _ ↔ _
      have undone := indexed.writes (by rw [files, after] : contents deleted.files = _) area
      constructor
      · intro restored
        refine Or.inr (Or.inr ⟨ok, ?_⟩)
        rw [restored] at undone
        obtain ⟨_, same⟩ | ⟨_, same⟩ := undone
        · by_cases here : key 0 sys.fcd.record = key 0 inserted
          · rw [same, here, Function.update_self]
          · rw [same, Function.update_of_ne here, Function.update_self] at present
            exact absurd rfl present
        · exact absurd same.symm (update_ne_self present)
      · rintro (missing | notMade | ⟨_, stored⟩)
        · exact absurd found missing
        · exact absurd made notMade
        · rw [indexed.keyed _ _ _ stored, Function.update_self, Function.update_idem, ← stored,
            Function.update_eq_self] at undone
          obtain ⟨_, restored⟩ | ⟨refused, _⟩ := undone
          · exact restored
          · exact absurd ⟨rfl, indexed.admitted _⟩ refused
    · exact absurd (congrArg Prod.fst ok) notMade

end Updates

/-- A mode A update that does not return 00 leaves the native file as it was just when its
undoing meets the right record. -/
theorem dual_write_atomic_iff (extfh : Extfh σ) (contents : σ → Contents)
    (key : ℕ → List Byte → List Byte) (admits : Contents → Prop)
    (indexed : IndexedFile extfh contents key admits) (env : Env) (mode : env.mode = .A)
    (garbage : Garbage) (opcode : Opcode) (update : opcode.updates = true) (sys sys' : Sys σ)
    (kept : sys.fcd.isam = false) (returned : pqfh extfh env garbage opcode sys = .ok sys')
    (failed : sys'.fcd.status ≠ stOk) :
    contents sys'.files = contents sys.files ↔ Undone extfh contents key env opcode sys := by
  cases opcode with
  | write => exact write_undone_iff indexed mode kept returned failed
  | rewrite => exact rewrite_undone_iff indexed mode kept returned failed
  | delete => exact delete_undone_iff indexed mode kept returned failed
  | _ => exact absurd update Bool.false_ne_true

/-- A native file whose only key is the first byte. -/
structure SmallFile where
  records : Contents
  keyed : ∀ primary record, records primary = some record → record.take 1 = primary

/-- The file without records. -/
def SmallFile.empty : SmallFile where
  records := fun _ => none
  keyed := by
    intro primary record present
    cases present

/-- The file with a record stored. -/
def SmallFile.store (file : SmallFile) (record : List Byte) : SmallFile where
  records := Function.update file.records (record.take 1) (some record)
  keyed := by
    intro primary stored present
    by_cases here : primary = record.take 1
    · rw [here, Function.update_self] at present
      rw [here, Option.some.inj present]
    · rw [Function.update_of_ne here] at present
      exact file.keyed primary stored present

/-- The file without a record. -/
def SmallFile.remove (file : SmallFile) (primary : List Byte) : SmallFile where
  records := Function.update file.records primary none
  keyed := by
    intro other stored present
    by_cases here : other = primary
    · rw [here, Function.update_self] at present
      cases present
    · rw [Function.update_of_ne here] at present
      exact file.keyed other stored present

/-- The operations on the file. -/
def smallFile : Extfh SmallFile
  | .write, file, fcd => match file.records (fcd.record.take 1) with
      | none => (file.store fcd.record, { fcd with status := stOk })
      | some _ => (file, { fcd with status := stDuplKey })
  | .rewrite, file, fcd => match file.records (fcd.record.take 1) with
      | none => (file, { fcd with status := stRecNotFound })
      | some _ => (file.store fcd.record, { fcd with status := stOk })
  | .delete, file, fcd => match file.records (fcd.record.take 1) with
      | none => (file, { fcd with status := stRecNotFound })
      | some _ => (file.remove (fcd.record.take 1), { fcd with status := stOk })
  | .readRandom, file, fcd => match file.records (fcd.record.take 1) with
      | none => (file, { fcd with status := stRecNotFound })
      | some record => (file, { fcd with status := stOk, record := record })
  | _, file, fcd => (file, fcd)

theorem smallFile_indexed :
    IndexedFile smallFile SmallFile.records (fun _ record => record.take 1) fun _ => True where
  keyed := fun file => file.keyed
  admitted := fun _ => trivial
  write := by
    intro file fcd
    cases present : file.records (fcd.record.take 1) with
    | none =>
        refine Or.inl ⟨⟨rfl, trivial⟩, ?_⟩
        simp only [smallFile, present]
        exact ⟨rfl, rfl⟩
    | some _ =>
        refine Or.inr ⟨fun allowed => (nomatch allowed.1), ?_⟩
        simp only [smallFile, present, and_true]
        decide
  rewrite := by
    intro file fcd
    cases present : file.records (fcd.record.take 1) with
    | none =>
        refine Or.inr ⟨fun allowed => allowed.1 rfl, ?_⟩
        simp only [smallFile, present, and_true]
        decide
    | some _ =>
        refine Or.inl ⟨⟨nofun, trivial⟩, ?_⟩
        simp only [smallFile, present]
        exact ⟨rfl, rfl⟩
  delete := by
    intro file fcd
    cases present : file.records (fcd.record.take 1) with
    | none =>
        refine Or.inr ⟨fun allowed => allowed rfl, ?_⟩
        simp only [smallFile, present, and_true]
        decide
    | some _ =>
        refine Or.inl ⟨nofun, ?_⟩
        simp only [smallFile, present]
        exact ⟨rfl, rfl⟩
  read := by
    intro file fcd
    cases present : file.records (fcd.record.take 1) <;> simp only [smallFile, present]
  found := by
    intro file fcd
    cases present : file.records (fcd.record.take 1) with
    | none =>
        simp only [smallFile, present]
        exact fun missing => absurd missing (by decide)
    | some record =>
        simp only [smallFile, present]
        intro _
        have primary := file.keyed _ _ present
        exact ⟨by rw [primary]; exact present, primary⟩
  update_fcd := by
    intro opcode file fcd update
    unfold Fcd.SameBut
    cases opcode with
    | write => cases present : file.records (fcd.record.take 1) <;> simp only [smallFile, present]
    | rewrite => cases present : file.records (fcd.record.take 1) <;> simp only [smallFile, present]
    | delete => cases present : file.records (fcd.record.take 1) <;> simp only [smallFile, present]
    | _ => exact absurd update Bool.false_ne_true
  read_fcd := by
    intro file fcd
    unfold Fcd.SameBut
    cases present : file.records (fcd.record.take 1) <;> simp only [smallFile, present]

/-- Mode A. -/
def dualServer : Env := { plainServer with mode := .A }

/-- Nothing in the memory that a call does not set. -/
def noGarbage : Garbage := ⟨fun _ => 0, fun _ => 0, clearBuffers 4⟩

/-- The native file holds a third person, of city B, who is not in the database; the record
area says that the city is A. -/
def thirdPerson : Sys SmallFile where
  files := SmallFile.store ⟨fun _ => none, nofun⟩ [51, 66]
  proc :=
    { conn := (people 0).conn
      pendingCommits := 0
      inTransaction := false
      eofStart := false
      weak := []
      ncomps := 0
      tables := fun _ => some { peopleTable with bufs := (clearBuffers 2).bufs }
      free := 1 }
  fcd := openedFcd 0 [51, 65]

/-- A REWRITE of the third person is undone. -/
theorem dual_write_undoes_rewrite :
    ∃ sys', pqfh smallFile dualServer noGarbage .rewrite thirdPerson = .ok sys' ∧
      sys'.fcd.status = stRecNotFound ∧ sys'.files.records = thirdPerson.files.records := by
  obtain ⟨sys', returned, status⟩ := map_eq_ok.mp (by decide +kernel :
    (fun sys' : Sys SmallFile => sys'.fcd.status) <$>
      pqfh smallFile dualServer noGarbage .rewrite thirdPerson = .ok stRecNotFound)
  refine ⟨sys', returned, status, ?_⟩
  apply (dual_write_atomic_iff smallFile SmallFile.records _ _ smallFile_indexed dualServer rfl
    noGarbage .rewrite rfl thirdPerson sys' rfl returned (by rw [status]; decide)).mpr
  exact Or.inr (Or.inr (Or.inl (by decide +kernel)))

/-- A DELETE of the third person returns 23, and puts the record area into the native file. -/
theorem dual_write_reinserts_area :
    ∃ sys', pqfh smallFile dualServer noGarbage .delete thirdPerson = .ok sys' ∧
      sys'.fcd.status = stRecNotFound ∧ thirdPerson.files.records [51] = some [51, 66] ∧
      sys'.files.records [51] = some [51, 65] ∧
      sys'.files.records ≠ thirdPerson.files.records := by
  obtain ⟨sys', returned, result⟩ := map_eq_ok.mp (by decide +kernel :
    (fun sys' : Sys SmallFile => (sys'.fcd.status, sys'.files.records [51])) <$>
      pqfh smallFile dualServer noGarbage .delete thirdPerson =
        .ok (stRecNotFound, some [51, 65]))
  obtain ⟨status, inserted⟩ := Prod.mk.inj result
  have before : thirdPerson.files.records [51] = some [51, 66] := by decide +kernel
  refine ⟨sys', returned, status, before, inserted, fun same => ?_⟩
  rw [same, before] at inserted
  exact absurd inserted (by decide)

end Pqfh
