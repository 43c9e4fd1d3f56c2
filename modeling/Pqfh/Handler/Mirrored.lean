import Pqfh.Handler.KeyedRuns

/-! # Two copies of a file

In the modes A and W a file is kept twice, by the native file handler and in the database. A call
goes to one of them first and to the other only when that one has done it, and nothing compares the
copies afterwards. `Pqfh.copies_stay_equal`: as long as the program keeps to the primary key and to
records that the table can keep, and the native file answers 00 to what it does, the two copies
hold the same records after every call, and the program cannot tell the mode from what its calls
return.
-/

namespace Pqfh

open KeyedStore

variable {σ : Type}

/-- A native file without alternate keys to refuse an update for. It answers 00 to what it does,
and finds what it has. -/
structure PlainFile (extfh : Extfh σ) (contents : σ → Contents) (key : ℕ → List Byte → List Byte) :
    Prop where
  indexed : IndexedFile extfh contents key fun _ => True
  exact : ∀ (opcode : Opcode) files fcd, opcode.updates = true →
    (extfh opcode files fcd).2.status.1 = 48 → (extfh opcode files fcd).2.status = stOk
  finds : ∀ files (fcd : Fcd), fcd.keyId = 0 → contents files (key 0 fcd.record) ≠ none →
    (extfh .readRandom files fcd).2.status = stOk
  fails : ∀ files (fcd : Fcd), (extfh .readRandom files fcd).2.status.1 = 48 →
    (extfh .readRandom files fcd).2.status = stOk
  commits : ∀ files fcd, contents (extfh .commit files fcd).1 = contents files

/-- What a program sees of a call: the record area, when the call returned 00. -/
def Fcd.seen (fcd : Fcd) : Option (List Byte) :=
  if fcd.status = stOk then some fcd.record else none

/-- A call of `pqfh`, with what the program sees of it. COMMIT shows nothing. -/
def callSeen (extfh : Extfh σ) (env : Env) (call : FileCall) (sys : Sys σ) :
    Except Stop (Option (List Byte) × Sys σ) := do
  let sys ← pqfh extfh env call.garbage call.op.opcode { sys with fcd := call.fcd }
  return (if call.op = .commit then none else sys.fcd.seen, sys)

/-- What a program sees of a call of an indexed file. -/
def FileCall.sees (call : FileCall) (reply : Reply (List Byte)) : Option (List Byte) :=
  if call.op = .commit then none
  else
    match reply with
    | .done => some call.fcd.record
    | .found record => some record
    | .refused _ | .missing => none

/-- A call by the primary key, without READ WITH LOCK, on a record area of the size of the
columns. -/
structure FileSet.AdmitsPlain (files : FileSet) (relation : ℕ) (call : FileCall) : Prop where
  admits : files.Admits call
  here : files.relation call.fcd.fileId = some relation
  unlocked : call.op ≠ .read true
  full : call.fcd.record.length = totalLen (files.layout relation).columns

/-- The native file and the database hold the same records. -/
structure FileSet.Mirrors (files : FileSet) (relation : ℕ) (contents : σ → Contents)
    (sys : Sys σ) (stores : ℕ → Records (List Byte) (List Byte)) : Prop where
  stands : files.Stands sys.proc stores
  native : contents sys.files = stores relation

/-! ## The native file -/

section Native

variable {extfh : Extfh σ} {contents : σ → Contents} {key : ℕ → List Byte → List Byte}
  {store : Records (List Byte) (List Byte)} {sys : Sys σ}

/-- What READ of the native file returns. -/
theorem PlainFile.reads (plain : PlainFile extfh contents key) (primary : sys.fcd.keyId = 0) :
    match contents sys.files (key 0 sys.fcd.record) with
    | some record => (sys.extfh extfh .readRandom).fcd =
        { sys.fcd with status := stOk, record := record }
    | none => (sys.extfh extfh .readRandom).fcd.status.1 ≠ 48 := by
  cases stored : contents sys.files (key 0 sys.fcd.record) with
  | some record =>
      have status := plain.finds sys.files sys.fcd primary (by rw [stored]; exact nofun)
      obtain ⟨there, same⟩ := plain.indexed.found sys.files sys.fcd status
      rw [primary] at same
      rw [same, stored, Option.some_inj] at there
      have fcd := plain.indexed.read_fcd sys.files sys.fcd
      unfold Fcd.SameBut at fcd
      rw [status, ← there] at fcd
      exact fcd
  | none =>
      intro class₀
      have status := plain.fails sys.files sys.fcd class₀
      obtain ⟨there, same⟩ := plain.indexed.found sys.files sys.fcd status
      rw [primary] at same
      rw [same, stored] at there
      cases there

/-- What an update of the native file does. -/
theorem PlainFile.updates (plain : PlainFile extfh contents key) {opcode : Opcode}
    (update : opcode.updates = true) {allowed : Prop} {after : Contents}
    (answers : Answers contents sys.files (extfh opcode sys.files sys.fcd) allowed after) :
    (allowed ∧ (sys.extfh extfh opcode).fcd = { sys.fcd with status := stOk } ∧
        contents (sys.extfh extfh opcode).files = after) ∨
      (¬ allowed ∧ (sys.extfh extfh opcode).fcd.status.1 ≠ 48 ∧
        contents (sys.extfh extfh opcode).files = contents sys.files) := by
  rcases answers with ⟨allowed, class₀, made⟩ | ⟨refused, other, same⟩
  · refine Or.inl ⟨allowed, ?_, made⟩
    have fcd := plain.indexed.update_fcd opcode sys.files sys.fcd update
    unfold Fcd.SameBut at fcd
    rw [plain.exact opcode sys.files sys.fcd update class₀] at fcd
    exact fcd
  · exact Or.inr ⟨refused, other, same⟩

end Native

/-! ## Calls -/

section Calls

variable {extfh : Extfh σ} {contents : σ → Contents} {key : ℕ → List Byte → List Byte}
  {env : Env} {files : FileSet} {relation : ℕ} {stores : ℕ → Records (List Byte) (List Byte)}

/-- The operations that change a file. -/
def FileOp.changes : FileOp → Bool
  | .write | .rewrite | .delete => true
  | .read _ | .commit => false

/-- In mode A the database is asked to make an update that the native file has made. -/
theorem pqfh_both {garbage : Garbage} {op : FileOp} {sys updated : Sys σ}
    {undo : Option (List Byte)} (mode : env.mode = .A) (kept : sys.fcd.isam = false)
    (changes : op.changes = true) (first : updateFirst extfh op.opcode sys = (undo, updated)) :
    pqfh extfh env garbage op.opcode sys =
      match undo with
      | none => .ok updated
      | some undo => databaseOp extfh env garbage undo op.opcode updated := by
  cases op with
  | write =>
      simp only [FileOp.opcode] at first
      cases undo <;> simp [pqfh, direct, FileOp.opcode, Opcode.updates, mode, kept, first]
  | rewrite =>
      simp only [FileOp.opcode] at first
      cases undo <;> simp [pqfh, direct, FileOp.opcode, Opcode.updates, mode, kept, first]
  | delete =>
      simp only [FileOp.opcode] at first
      cases undo <;> simp [pqfh, direct, FileOp.opcode, Opcode.updates, mode, kept, first]
  | read lock => cases changes
  | commit => cases changes

/-- In mode W the database follows a call that the native file has answered. -/
theorem pqfh_followed {garbage : Garbage} {op : FileOp} {sys : Sys σ} (mode : env.mode = .W)
    (other : op ≠ .commit) :
    ((sys.extfh extfh op.opcode).fcd.status.1 = 48 →
      (sys.extfh extfh op.opcode).fcd.isam = false → pqfh extfh env garbage op.opcode sys =
        databaseOp extfh env garbage [] op.opcode (sys.extfh extfh op.opcode)) ∧
    ((sys.extfh extfh op.opcode).fcd.status.1 ≠ 48 → pqfh extfh env garbage op.opcode sys =
      .ok (sys.extfh extfh op.opcode)) := by
  have called : pqfh extfh env garbage op.opcode sys =
      shadow extfh env garbage false op.opcode (sys.extfh extfh op.opcode) := by
    cases op with
    | commit => exact absurd rfl other
    | read lock => cases lock <;> simp [pqfh, extfhFirst, FileOp.opcode, mode]
    | write => simp [pqfh, extfhFirst, FileOp.opcode, mode]
    | rewrite => simp [pqfh, extfhFirst, FileOp.opcode, mode]
    | delete => simp [pqfh, extfhFirst, FileOp.opcode, mode]
  rw [called]
  unfold shadow
  refine ⟨?_, ?_⟩
  · intro class₀ kept
    rw [if_neg (not_not.mpr class₀), kept, if_neg Bool.false_ne_true]
  · intro failed
    rw [if_pos failed, if_neg Bool.false_ne_true]

/-- The native file does what an indexed file does. -/
theorem PlainFile.changes (plain : PlainFile extfh contents key) {op : FileOp} {sys : Sys σ}
    (changes : op.changes = true) {tab : Table} (same : key 0 = tab.keyOf 0)
    (full : sys.fcd.record.length = totalLen tab.columns)
    {request : Call (List Byte) (List Byte)}
    (requested : op.request tab sys.fcd.record = some request) :
    let reply := (perform (tab.keyOf 0) request (contents sys.files)).1
    (reply.succeeds = true ∧
        (sys.extfh extfh op.opcode).fcd = { sys.fcd with status := stOk } ∧
        contents (sys.extfh extfh op.opcode).files =
          (perform (tab.keyOf 0) request (contents sys.files)).2) ∨
      (reply.succeeds = false ∧ (sys.extfh extfh op.opcode).fcd.status.1 ≠ 48 ∧
        contents (sys.extfh extfh op.opcode).files = contents sys.files) := by
  have whole : sys.fcd.record.take (totalLen tab.columns) = sys.fcd.record :=
    List.take_of_length_le full.le
  cases op with
  | read lock => cases changes
  | commit => cases changes
  | write =>
      unfold FileOp.request at requested
      rw [whole, Option.some_inj] at requested
      subst requested
      have answers := plain.indexed.write sys.files sys.fcd
      rw [same] at answers
      have done := plain.updates rfl answers
      cases stored : contents sys.files (tab.keyOf 0 sys.fcd.record) with
      | none => simpa [perform, stored, Reply.succeeds, FileOp.opcode] using done
      | some old => simpa [perform, stored, Reply.succeeds, FileOp.opcode] using done
  | rewrite =>
      unfold FileOp.request at requested
      rw [whole, Option.some_inj] at requested
      subst requested
      have answers := plain.indexed.rewrite sys.files sys.fcd
      rw [same] at answers
      have done := plain.updates rfl answers
      cases stored : contents sys.files (tab.keyOf 0 sys.fcd.record) with
      | none => simpa [perform, stored, Reply.succeeds, FileOp.opcode] using done
      | some old => simpa [perform, stored, Reply.succeeds, FileOp.opcode] using done
  | delete =>
      unfold FileOp.request at requested
      rw [Option.some_inj] at requested
      subst requested
      have answers := plain.indexed.delete sys.files sys.fcd
      rw [same] at answers
      have done := plain.updates rfl answers
      cases stored : contents sys.files (tab.keyOf 0 sys.fcd.record) with
      | none => simpa [perform, stored, Reply.succeeds, FileOp.opcode] using done
      | some old => simpa [perform, stored, Reply.succeeds, FileOp.opcode] using done

/-- An update by a key without a record is not done. -/
theorem FileOp.request_missing {op : FileOp} {tab : Table} {area : List Byte}
    (full : area.length = totalLen tab.columns) {request : Call (List Byte) (List Byte)}
    (requested : op.request tab area = some request) (old : op = .rewrite ∨ op = .delete)
    {store : Records (List Byte) (List Byte)} (missing : store (tab.keyOf 0 area) = none) :
    (perform (tab.keyOf 0) request store).1.succeeds = false := by
  rcases old with rfl | rfl
  · unfold FileOp.request at requested
    rw [List.take_of_length_le full.le, Option.some_inj] at requested
    subst requested
    simp only [perform, missing, Reply.succeeds]
  · unfold FileOp.request at requested
    rw [Option.some_inj] at requested
    subst requested
    simp only [perform, missing, Reply.succeeds]

/-- What mode A has done before it turns to the database. -/
theorem PlainFile.first (plain : PlainFile extfh contents key) {op : FileOp} {sys : Sys σ}
    (changes : op.changes = true) {tab : Table} (same : key 0 = tab.keyOf 0)
    (full : sys.fcd.record.length = totalLen tab.columns) (primary : sys.fcd.keyId = 0)
    {request : Call (List Byte) (List Byte)}
    (requested : op.request tab sys.fcd.record = some request) :
    let (reply, store) := perform (tab.keyOf 0) request (contents sys.files)
    ∃ undo updated, updateFirst extfh op.opcode sys = (undo, updated) ∧
      updated.proc = sys.proc ∧
      ((reply.succeeds = true ∧ undo.isSome ∧ updated.fcd = { sys.fcd with status := stOk } ∧
          contents updated.files = store) ∨
        (reply.succeeds = false ∧ undo = none ∧ updated.fcd.status.1 ≠ 48 ∧
          contents updated.files = contents sys.files)) := by
  by_cases new : op.opcode = .write
  · refine ⟨_, sys.extfh extfh op.opcode, by unfold updateFirst; rw [if_pos new], rfl, ?_⟩
    rcases plain.changes changes same full requested with
      ⟨succeeds, fcd, made⟩ | ⟨fails, status, kept⟩
    · refine Or.inl ⟨succeeds, ?_, fcd, made⟩
      rw [fcd, if_pos rfl]
      rfl
    · refine Or.inr ⟨fails, ?_, status, kept⟩
      rw [if_neg]
      intro done
      rw [done] at status
      exact status rfl
  have old : op = .rewrite ∨ op = .delete := by
    cases op with
    | read lock => cases changes
    | commit => cases changes
    | write => exact absurd rfl new
    | rewrite => exact Or.inl rfl
    | delete => exact Or.inr rfl
  have reads := plain.reads primary
  have unread : contents (sys.extfh extfh .readRandom).files = contents sys.files :=
    plain.indexed.read sys.files sys.fcd
  cases stored : contents sys.files (tab.keyOf 0 sys.fcd.record) with
  | none =>
      rw [same, stored] at reads
      have failed : (sys.extfh extfh .readRandom).fcd.status ≠ stOk := by
        intro done
        rw [done] at reads
        exact reads rfl
      refine ⟨none, (sys.extfh extfh .readRandom).setRecord sys.fcd.record, ?_, rfl, ?_⟩
      · unfold updateFirst
        rw [if_neg new]
        dsimp only
        rw [if_neg failed]
      · exact Or.inr ⟨FileOp.request_missing full requested old stored, rfl, reads, unread⟩
  | some record =>
      rw [same, stored] at reads
      have status : (sys.extfh extfh .readRandom).fcd.status = stOk := by rw [reads]
      have back : ((sys.extfh extfh .readRandom).setRecord sys.fcd.record).fcd =
          { sys.fcd with status := stOk } := by
        unfold Sys.setRecord
        rw [reads]
      have area : ((sys.extfh extfh .readRandom).setRecord sys.fcd.record).fcd.record =
          sys.fcd.record := rfl
      have unread' : contents ((sys.extfh extfh .readRandom).setRecord sys.fcd.record).files =
          contents sys.files := unread
      refine ⟨_, ((sys.extfh extfh .readRandom).setRecord sys.fcd.record).extfh extfh op.opcode,
        by unfold updateFirst; rw [if_neg new]; dsimp only; rw [if_pos status], rfl, ?_⟩
      have made := @PlainFile.changes σ extfh contents key plain op
        ((sys.extfh extfh .readRandom).setRecord sys.fcd.record) changes tab same full request
        requested
      rw [unread', back] at made
      rcases made with ⟨succeeds, fcd, made⟩ | ⟨fails, status, kept⟩
      · refine Or.inl ⟨succeeds, ?_, fcd, made⟩
        rw [fcd, if_pos rfl]
        rfl
      · refine Or.inr ⟨fails, ?_, status, kept⟩
        rw [if_neg]
        intro done
        rw [done] at status
        exact status rfl

theorem FileSet.Does.status {sys sys' : Sys σ} {request : Call (List Byte) (List Byte)}
    (does : files.Does relation stores request sys sys')
    (succeeds : (perform ((files.layout relation).keyOf 0) request
      (stores relation)).1.succeeds = true) : sys'.fcd.status = stOk := by
  rw [does.fcd]
  cases reply : (perform ((files.layout relation).keyOf 0) request (stores relation)).1 with
  | done => rfl
  | found record => rfl
  | refused record =>
      rw [reply] at succeeds
      cases succeeds
  | missing =>
      rw [reply] at succeeds
      cases succeeds

/-- The database does the update that the native file has done. -/
theorem FileSet.Stands.follows {garbage : Garbage} {undo : List Byte} {op : FileOp} {sys : Sys σ}
    (stands : files.Stands sys.proc stores) (usable : files.Usable env relation sys.fcd)
    (mode : env.mode = .A ∨ env.mode = .W) (changes : op.changes = true)
    (done : sys.fcd.status = stOk) (probe : KeyOk (files.layout relation) 0 sys.fcd.record)
    (storable : op = .write ∨ op = .rewrite → Storable (files.layout relation) sys.fcd.record)
    {request : Call (List Byte) (List Byte)}
    (requested : op.request (files.layout relation) sys.fcd.record = some request)
    (succeeds : (perform ((files.layout relation).keyOf 0) request
      (stores relation)).1.succeeds = true) :
    ∃ sys', databaseOp extfh env garbage undo op.opcode sys = .ok sys' ∧
      files.Does relation stores request sys sys' := by
  have shadowed : ∀ sys' : Sys σ, files.Does relation stores request sys sys' →
      sys'.setStatus sys.fcd.status = sys' := by
    intro sys' does
    rw [done, ← does.status succeeds]
    rfl
  cases op with
  | read lock => cases changes
  | commit => cases changes
  | write =>
      obtain ⟨sys', wrote, does⟩ := stands.write usable (storable (Or.inl rfl))
      cases requested
      refine ⟨sys', ?_, does⟩
      change writeBoth extfh env sys = _
      unfold writeBoth
      rw [wrote, ok_bind]
      rcases mode with mode | mode
      · rw [mode]
        dsimp only
        rw [if_neg (not_not.mpr (does.status succeeds))]
        rfl
      · rw [mode]
        exact congrArg Except.ok (shadowed sys' does)
  | rewrite =>
      obtain ⟨ret, sys', rewrote, told, does⟩ := stands.rewrite usable (storable (Or.inr rfl))
      cases requested
      refine ⟨sys', ?_, does⟩
      change rewriteBoth extfh env undo sys = _
      unfold rewriteBoth
      rw [rewrote, ok_bind]
      have status := does.status succeeds
      rcases mode with mode | mode
      · rw [mode, told.mpr status]
        dsimp only
        rw [if_neg]
        · rfl
        · simp [status]
      · rw [mode]
        exact congrArg Except.ok (shadowed sys' does)
  | delete =>
      obtain ⟨sys', deleted, does⟩ := stands.delete usable probe
      cases requested
      refine ⟨sys', ?_, does⟩
      change deleteBoth extfh env sys = _
      unfold deleteBoth
      rw [deleted, ok_bind]
      rcases mode with mode | mode
      · rw [mode]
        dsimp only
        rw [if_neg (not_not.mpr (does.status succeeds))]
        rfl
      · rw [mode]
        exact congrArg Except.ok (shadowed sys' does)

/-- What a program sees of an answer. -/
theorem FileCall.seen_answered {call : FileCall} {size : ℕ} (other : call.op ≠ .commit)
    (full : call.fcd.record.length = size) (reply : Reply (List Byte)) {fcd : Fcd}
    (answered : fcd = call.fcd.answered size reply) : fcd.seen = call.sees reply := by
  subst answered
  unfold Fcd.seen FileCall.sees
  rw [if_neg other]
  cases reply with
  | done => rfl
  | found record =>
      have area : record ++ call.fcd.record.drop size = record := by
        rw [List.drop_eq_nil_of_le full.le, List.append_nil]
      exact congrArg some area
  | refused record => rfl
  | missing => rfl

/-- What a program sees of a call that failed. -/
theorem FileCall.seen_failed {call : FileCall} {reply : Reply (List Byte)} {fcd : Fcd}
    (failed : fcd.status.1 ≠ 48) (fails : reply.succeeds = false) :
    fcd.seen = call.sees reply := by
  unfold Fcd.seen FileCall.sees
  rw [if_neg]
  · cases reply with
    | done => cases fails
    | found record => cases fails
    | refused record => simp
    | missing => simp
  · intro done
    rw [done] at failed
    exact failed rfl

/-- A call that the database has done as the native file did. -/
theorem FileSet.Does.mirrored {call : FileCall} {sys sys₁ sys' : Sys σ}
    (plain : files.AdmitsPlain relation call) {request : Call (List Byte) (List Byte)}
    (requested : call.op.request (files.layout relation) call.fcd.record = some request)
    (other : call.op ≠ .commit)
    (called : pqfh extfh env call.garbage call.op.opcode { sys with fcd := call.fcd } = .ok sys')
    (area : sys₁.fcd = { call.fcd with status := sys₁.fcd.status })
    (does : files.Does relation stores request sys₁ sys')
    (native : contents sys₁.files =
      (perform ((files.layout relation).keyOf 0) request (stores relation)).2) :
    ∃ sys', callSeen extfh env call sys =
        .ok (call.sees (files.serve call stores).1, sys') ∧
      files.Mirrors relation contents sys' (files.serve call stores).2 := by
  have performed := files.serve_open plain.here requested stores
  refine ⟨sys', ?_, ?_⟩
  · unfold callSeen
    rw [called, ok_bind, if_neg other, performed]
    have answered := does.fcd
    rw [area] at answered
    refine congrArg (fun seen => Except.ok (seen, sys')) (call.seen_answered other plain.full _ ?_)
    rw [answered]
    cases (perform ((files.layout relation).keyOf 0) request (stores relation)).1 <;> rfl
  · rw [performed]
    refine ⟨does.stands, ?_⟩
    rw [does.native]
    dsimp only
    rw [native, Function.update_self]

/-- A call that has changed nothing. -/
theorem FileSet.Mirrors.unchanged {call : FileCall} {sys sys' : Sys σ}
    (mirrors : files.Mirrors relation contents sys stores)
    (plain : files.AdmitsPlain relation call) {request : Call (List Byte) (List Byte)}
    (requested : call.op.request (files.layout relation) call.fcd.record = some request)
    (other : call.op ≠ .commit)
    (called : pqfh extfh env call.garbage call.op.opcode { sys with fcd := call.fcd } = .ok sys')
    (proc : sys'.proc = sys.proc) (native : contents sys'.files = contents sys.files)
    (same : (perform ((files.layout relation).keyOf 0) request (stores relation)).2 =
      stores relation)
    (seen : sys'.fcd.seen =
      call.sees (perform ((files.layout relation).keyOf 0) request (stores relation)).1) :
    ∃ sys', callSeen extfh env call sys =
        .ok (call.sees (files.serve call stores).1, sys') ∧
      files.Mirrors relation contents sys' (files.serve call stores).2 := by
  have performed := files.serve_open plain.here requested stores
  refine ⟨sys', ?_, ?_⟩
  · unfold callSeen
    rw [called, ok_bind, if_neg other, performed]
    exact congrArg (fun seen => Except.ok (seen, sys')) seen
  · rw [performed, same, Function.update_eq_self]
    refine ⟨?_, ?_⟩
    · rw [proc]
      exact mirrors.stands
    · rw [native]
      exact mirrors.native

/-- READ in mode A goes to the database. -/
theorem pqfh_reads {garbage : Garbage} {sys : Sys σ} (mode : env.mode = .A)
    (kept : sys.fcd.isam = false) : pqfh extfh env garbage .readRandom sys =
      sys.run stNotOpenedRead (opReadRandom env false false) := by
  have other : unlessShadow env sys (sys.run stNotOpenedRead (opReadRandom env false false)) =
      sys.run stNotOpenedRead (opReadRandom env false false) := by
    unfold unlessShadow
    rw [mode, if_neg (by decide)]
  rw [← other]
  simp [pqfh, direct, databaseOp, Opcode.updates, mode, kept]

/-- READ in mode W is left to the native file. -/
theorem pqfh_shadow_reads {garbage : Garbage} {sys : Sys σ} (mode : env.mode = .W) :
    pqfh extfh env garbage .readRandom sys = .ok (sys.extfh extfh .readRandom) := by
  have called : pqfh extfh env garbage .readRandom sys =
      shadow extfh env garbage false .readRandom (sys.extfh extfh .readRandom) := by
    simp [pqfh, extfhFirst, mode]
  rw [called]
  simp [shadow, databaseOp, unlessShadow, mode]

end Calls

/-! ## Runs -/

section Runs

variable {extfh : Extfh σ} {contents : σ → Contents} {key : ℕ → List Byte → List Byte}
  {env : Env} {files : FileSet} {relation : ℕ}

/-- READ, in both modes. -/
theorem FileSet.Mirrors.read (plainFile : PlainFile extfh contents key)
    (same : key 0 = (files.layout relation).keyOf 0) (mode : env.mode = .A ∨ env.mode = .W)
    (server : KeyedServer env.pg relation (files.layout relation).keys) {call : FileCall}
    {sys : Sys σ} {stores : ℕ → Records (List Byte) (List Byte)}
    (op : call.op = .read false) (plain : files.AdmitsPlain relation call)
    (mirrors : files.Mirrors relation contents sys stores) :
    ∃ sys', callSeen extfh env call sys =
        .ok (call.sees (files.serve call stores).1, sys') ∧
      files.Mirrors relation contents sys' (files.serve call stores).2 := by
  have requested : call.op.request (files.layout relation) call.fcd.record =
      some (.read ((files.layout relation).keyOf 0 call.fcd.record)) := by rw [op]; rfl
  have other : call.op ≠ .commit := by rw [op]; exact nofun
  have still : (perform ((files.layout relation).keyOf 0)
      (.read ((files.layout relation).keyOf 0 call.fcd.record)) (stores relation)).2 =
      stores relation := by
    cases stored : stores relation ((files.layout relation).keyOf 0 call.fcd.record) <;>
      simp only [perform, stored]
  rcases mode with mode | mode
  · have usable : files.Usable env relation ({ sys with fcd := call.fcd } : Sys σ).fcd :=
      ⟨plain.here, server, plain.admits.opened, plain.admits.primary,
        plain.admits.room relation plain.here⟩
    have stands : files.Stands ({ sys with fcd := call.fcd } : Sys σ).proc stores :=
      mirrors.stands
    obtain ⟨sys', read, does⟩ :=
      stands.readRandom usable (plain.admits.probe relation plain.here) false
    refine does.mirrored plain requested other ?_ rfl ?_
    · rw [op]
      exact (pqfh_reads mode plain.admits.kept).trans read
    · exact mirrors.native.trans still.symm
  · refine @FileSet.Mirrors.unchanged σ extfh contents env files relation stores call sys
      (({ sys with fcd := call.fcd } : Sys σ).extfh extfh .readRandom) mirrors plain _ requested
      other (by rw [op]; exact pqfh_shadow_reads mode) rfl
      (plainFile.indexed.read sys.files call.fcd) still ?_
    have reads := @PlainFile.reads σ extfh contents key { sys with fcd := call.fcd } plainFile
      plain.admits.primary
    have native : contents ({ sys with fcd := call.fcd } : Sys σ).files = stores relation :=
      mirrors.native
    rw [same, native] at reads
    change match stores relation ((files.layout relation).keyOf 0 call.fcd.record) with
      | some record => _
      | none => _ at reads
    cases stored : stores relation ((files.layout relation).keyOf 0 call.fcd.record) with
    | some record =>
        rw [stored] at reads
        dsimp only at reads
        rw [reads]
        simp only [perform, stored]
        unfold FileCall.sees
        rw [if_neg other]
        rfl
    | none =>
        rw [stored] at reads
        apply call.seen_failed reads
        simp only [perform, stored, Reply.succeeds]

/-- WRITE, REWRITE and DELETE, in both modes. -/
theorem FileSet.Mirrors.change (plainFile : PlainFile extfh contents key)
    (same : key 0 = (files.layout relation).keyOf 0) (mode : env.mode = .A ∨ env.mode = .W)
    (server : KeyedServer env.pg relation (files.layout relation).keys) {call : FileCall}
    {sys : Sys σ} {stores : ℕ → Records (List Byte) (List Byte)}
    (changes : call.op.changes = true) (plain : files.AdmitsPlain relation call)
    (mirrors : files.Mirrors relation contents sys stores) :
    ∃ sys', callSeen extfh env call sys =
        .ok (call.sees (files.serve call stores).1, sys') ∧
      files.Mirrors relation contents sys' (files.serve call stores).2 := by
  have other : call.op ≠ .commit := by
    intro commit
    rw [commit] at changes
    cases changes
  obtain ⟨request, requested⟩ : ∃ request,
      call.op.request (files.layout relation) call.fcd.record = some request := by
    cases op : call.op with
    | read lock => exact ⟨_, rfl⟩
    | write => exact ⟨_, rfl⟩
    | rewrite => exact ⟨_, rfl⟩
    | delete => exact ⟨_, rfl⟩
    | commit => exact absurd op other
  have native : contents sys.files = stores relation := mirrors.native
  have storable := fun update => plain.admits.storable update relation plain.here
  -- the database comes to a call that the native file has done
  have follow : ∀ {sys₁ : Sys σ} {undo : List Byte}, sys₁.proc = sys.proc →
      sys₁.fcd = { call.fcd with status := stOk } →
      (perform ((files.layout relation).keyOf 0) request (stores relation)).1.succeeds = true →
      ∃ sys', databaseOp extfh env call.garbage undo call.op.opcode sys₁ = .ok sys' ∧
        files.Does relation stores request sys₁ sys' := by
    intro sys₁ undo proc fcd succeeds
    have usable : files.Usable env relation sys₁.fcd := by
      rw [fcd]
      exact ⟨plain.here, server, plain.admits.opened, plain.admits.primary,
        plain.admits.room relation plain.here⟩
    apply FileSet.Stands.follows (proc ▸ mirrors.stands) usable mode changes
    · rw [fcd]
    · rw [fcd]
      exact plain.admits.probe relation plain.here
    · rw [fcd]
      exact storable
    · rw [fcd]
      exact requested
    · exact succeeds
  rcases mode with mode | mode
  · obtain ⟨undo, updated, first, proc, made⟩ := @PlainFile.first σ extfh contents key plainFile
      call.op { sys with fcd := call.fcd } changes (files.layout relation) same plain.full
      plain.admits.primary request requested
    have both := @pqfh_both σ extfh env call.garbage call.op _ _ undo mode plain.admits.kept
      changes first
    dsimp only at made
    rw [native] at made
    rcases made with ⟨succeeds, done, fcd, made⟩ | ⟨fails, none, status, kept⟩
    · obtain ⟨undo, rfl⟩ := Option.isSome_iff_exists.mp done
      obtain ⟨sys', followed, does⟩ := @follow updated undo proc fcd succeeds
      refine does.mirrored plain requested other (both.trans followed) ?_ made
      rw [fcd]
    · subst none
      exact mirrors.unchanged plain requested other both proc (kept.trans native.symm)
        (perform_fails fails) (call.seen_failed status fails)
  · have followed := @pqfh_followed σ extfh env call.garbage call.op { sys with fcd := call.fcd }
      mode other
    rcases @PlainFile.changes σ extfh contents key plainFile call.op { sys with fcd := call.fcd }
      changes (files.layout relation) same plain.full request requested with
      ⟨succeeds, fcd, made⟩ | ⟨fails, status, kept⟩
    · dsimp only at succeeds made
      rw [native] at succeeds made
      obtain ⟨sys', ran, does⟩ := @follow
        (({ sys with fcd := call.fcd } : Sys σ).extfh extfh call.op.opcode) [] rfl fcd succeeds
      refine does.mirrored plain requested other ((followed.1 ?_ ?_).trans ran) ?_ made
      · rw [fcd]
        rfl
      · rw [fcd]
        exact plain.admits.kept
      · rw [fcd]
    · dsimp only at fails
      rw [native] at fails
      exact mirrors.unchanged plain requested other (followed.2 status) rfl kept
        (perform_fails fails) (call.seen_failed status fails)

/-- COMMIT, in both modes. -/
theorem FileSet.Mirrors.commit (plainFile : PlainFile extfh contents key)
    (mode : env.mode = .A ∨ env.mode = .W) {call : FileCall} {sys : Sys σ}
    {stores : ℕ → Records (List Byte) (List Byte)} (op : call.op = .commit)
    (plain : files.AdmitsPlain relation call)
    (mirrors : files.Mirrors relation contents sys stores) :
    ∃ sys', callSeen extfh env call sys =
        .ok (call.sees (files.serve call stores).1, sys') ∧
      files.Mirrors relation contents sys' (files.serve call stores).2 := by
  have served : (files.serve call stores).2 = stores := by
    unfold FileSet.serve
    rw [plain.here, op]
    rfl
  have stands : files.Stands ({ sys with fcd := call.fcd } : Sys σ).proc stores :=
    mirrors.stands
  rcases mode with mode | mode
  · refine ⟨Sys.pqfhCommit { sys with fcd := call.fcd }, ?_, ?_⟩
    · have committed : pqfh extfh env call.garbage call.op.opcode { sys with fcd := call.fcd } =
          .ok (Sys.pqfhCommit { sys with fcd := call.fcd }) := by
        rw [op]
        simp [pqfh, direct, databaseOp, FileOp.opcode, Opcode.updates, mode, Sys.pqfhCommit,
          plain.admits.kept]
      unfold callSeen FileCall.sees
      rw [committed, ok_bind, if_pos op, if_pos op]
      rfl
    · rw [served]
      exact ⟨stands.commit, mirrors.native⟩
  · refine ⟨(Sys.pqfhCommit { sys with fcd := call.fcd }).extfh extfh .commit, ?_, ?_⟩
    · have committed : pqfh extfh env call.garbage call.op.opcode { sys with fcd := call.fcd } =
          .ok ((Sys.pqfhCommit { sys with fcd := call.fcd }).extfh extfh .commit) := by
        rw [op]
        simp only [pqfh, FileOp.opcode, mode]
        simp [shadow, extfhFirst, databaseOp]
      unfold callSeen FileCall.sees
      rw [committed, ok_bind, if_pos op, if_pos op]
      rfl
    · rw [served]
      exact ⟨stands.commit, (plainFile.commits _ _).trans mirrors.native⟩

theorem callSeen_refines (plainFile : PlainFile extfh contents key)
    (same : key 0 = (files.layout relation).keyOf 0) (mode : env.mode = .A ∨ env.mode = .W)
    (server : KeyedServer env.pg relation (files.layout relation).keys) (call : FileCall)
    (sys : Sys σ) (stores : ℕ → Records (List Byte) (List Byte))
    (plain : files.AdmitsPlain relation call)
    (mirrors : files.Mirrors relation contents sys stores) :
    ∃ sys', callSeen extfh env call sys =
        .ok (call.sees (files.serve call stores).1, sys') ∧
      files.Mirrors relation contents sys' (files.serve call stores).2 := by
  cases op : call.op with
  | read lock =>
      cases lock with
      | false => exact mirrors.read plainFile same mode server op plain
      | true => exact absurd op plain.unlocked
  | write => exact mirrors.change plainFile same mode server (by rw [op]; rfl) plain
  | rewrite => exact mirrors.change plainFile same mode server (by rw [op]; rfl) plain
  | delete => exact mirrors.change plainFile same mode server (by rw [op]; rfl) plain
  | commit => exact mirrors.commit plainFile mode op plain

/-- **Modes A and W.** After any run of calls by the primary key the native file and the table hold
the same records, those that one file would have, and the program has seen what that file would
have shown it. -/
theorem copies_stay_equal (extfh : Extfh σ) (contents : σ → Contents)
    (key : ℕ → List Byte → List Byte) (plainFile : PlainFile extfh contents key) (env : Env)
    (mode : env.mode = .A ∨ env.mode = .W) (files : FileSet) (relation : ℕ)
    (same : key 0 = (files.layout relation).keyOf 0)
    (server : KeyedServer env.pg relation (files.layout relation).keys)
    (calls : List FileCall) (sys : Sys σ) (stores : ℕ → Records (List Byte) (List Byte))
    (plain : ∀ call ∈ calls, files.AdmitsPlain relation call)
    (mirrors : files.Mirrors relation contents sys stores) :
    ∃ sys', run (callSeen extfh env) calls sys =
        .ok (List.zipWith FileCall.sees calls (runSpec files.serve calls stores).1, sys') ∧
      files.Mirrors relation contents sys' (runSpec files.serve calls stores).2 :=
  @run_refines _ _ _ _ _ _ (callSeen extfh env) files.serve
    (fun call _ => files.AdmitsPlain relation call)
    (fun sys stores => files.Mirrors relation contents sys stores) FileCall.sees
    (callSeen_refines plainFile same mode server) calls sys stores
    (admitted_of_forall stores plain) mirrors

end Runs

theorem smallFile_plain :
    PlainFile smallFile SmallFile.records fun _ record => record.take 1 where
  indexed := smallFile_indexed
  exact := by
    intro opcode file fcd update
    cases opcode with
    | write =>
        cases present : file.records (fcd.record.take 1) with
        | none => simp [smallFile, present]
        | some _ => simp [smallFile, present, stDuplKey]
    | rewrite =>
        cases present : file.records (fcd.record.take 1) with
        | none => simp [smallFile, present, stRecNotFound]
        | some _ => simp [smallFile, present]
    | delete =>
        cases present : file.records (fcd.record.take 1) with
        | none => simp [smallFile, present, stRecNotFound]
        | some _ => simp [smallFile, present]
    | _ => cases update
  finds := by
    intro file fcd _ there
    obtain ⟨record, present⟩ := Option.ne_none_iff_exists'.mp there
    simp only [smallFile, present]
  fails := by
    intro file fcd
    cases present : file.records (fcd.record.take 1) with
    | none => simp [smallFile, present, stRecNotFound]
    | some _ => simp [smallFile, present]
  commits := fun _ _ => rfl

/-- The process that has the file of people open, with its native copy. -/
def peopleTwice : Sys SmallFile where
  files := (SmallFile.empty.store [49, 65]).store [50, 65]
  proc := peopleOpen.proc
  fcd := peopleOpen.fcd

theorem peopleTwice_mirrors : peopleFiles.Mirrors 1 SmallFile.records peopleTwice fun _ =>
    ofList (peopleTable.keyOf 0) [[49, 65], [50, 65]] where
  stands := peopleOpen_stands
  native := by
    have first := @ofList_append (List Byte) (List Byte) _ (peopleTable.keyOf 0) [] [49, 65] rfl
    have second := @ofList_append (List Byte) (List Byte) _ (peopleTable.keyOf 0) [[49, 65]]
      [50, 65] (by decide)
    exact (second.trans (congrArg (Function.update · _ _) first)).symm

theorem people_plain : ∀ call ∈ peopleCalls false, peopleFiles.AdmitsPlain 1 call := by
  intro call member
  have admits := people_admitted false call member
  revert call
  unfold peopleCalls
  simp only [List.forall_mem_cons]
  refine ⟨fun admits => ⟨admits, rfl, nofun, rfl⟩, fun admits => ⟨admits, rfl, nofun, rfl⟩,
    fun admits => ⟨admits, rfl, nofun, rfl⟩, fun admits => ⟨admits, rfl, nofun, rfl⟩,
    fun admits => ⟨admits, rfl, nofun, rfl⟩, fun admits => ⟨admits, rfl, nofun, rfl⟩,
    fun admits => ⟨admits, rfl, nofun, rfl⟩, nofun⟩

/-- What a program sees of the calls on the people. -/
theorem copies_stay_equal_people : ∃ seen sys',
    run (callSeen smallFile dualServer) (peopleCalls false) peopleTwice = .ok (seen, sys') ∧
      seen = [some [51, 66], none, none, some [49, 66], some [50, 65], none, some [49, 66]] := by
  have key : (fun record : List Byte => record.take 1) = (peopleFiles.layout 1).keyOf 0 := by
    funext record
    exact (List.append_nil _).symm
  obtain ⟨sys', ran, _⟩ := copies_stay_equal smallFile SmallFile.records _ smallFile_plain
    dualServer (Or.inl rfl) peopleFiles 1 key (plainServer_keyed _ _) (peopleCalls false)
    peopleTwice _ people_plain peopleTwice_mirrors
  exact ⟨_, sys', ran, by decide⟩

end Pqfh
