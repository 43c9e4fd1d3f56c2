import Pqfh.Changelog.Once
import Pqfh.Foundation.KeyedStore
import Pqfh.Handler.DualWrite

/-! # The file that follows its table

Sessions change a table, and the trigger of the table puts each change into the changelog. Pass
after pass `sync_execute` executes on the ISAM file what is pending. At any time the entries that
are pending make of the file what the table is (`Pqfh.Followed.Trails`); so a pass that finds
nothing refused brings the file to the table, whatever order changes and passes came in, and marks
every entry with SUCCESS (`Pqfh.changelog_follows`).
-/

namespace Pqfh

open KeyedStore Linked

variable {σ : Type}

/-- A change of one row. -/
inductive TableChange where
  | insert (row : Row)
  | update (old new : Row)
  | delete (row : Row)

/-- `TG_OP`. -/
def TableChange.action : TableChange → Action
  | .insert _ => .insert
  | .update _ _ => .update
  | .delete _ => .delete

/-- A table with its trigger function, and the file that has its records: the key of the records
of the file, and their length. -/
structure Followed where
  name : List Byte
  columns : List Column
  expr : ChangelogExpr
  reclen : ℕ
  key : List Byte → List Byte

namespace Followed

variable (f : Followed)

/-- The record that a text of the changelog is decoded to. -/
def decode (text : List Byte) : List Byte :=
  ((rebuildRecord f.columns f.reclen text).toOption).getD []

/-- The record of the file for a row. -/
def image (row : Row) : List Byte := f.decode (f.expr.eval f.columns row)

/-- The key of the file for a row. -/
def primary (row : Row) : List Byte := f.key (f.image row)

/-- A row that comes through the changelog. -/
def Safe (row : Row) : Prop := RowFits f.columns row ∧ List.Forall₂ ValueSafe f.columns row

/-- A change that the table allows, and that leaves the key of a row. -/
def Allows (rows : List Row) : TableChange → Prop
  | .insert row => f.Safe row ∧ f.primary row ∉ rows.map f.primary
  | .update old new => old ∈ rows ∧ f.primary new = f.primary old ∧ f.Safe new
  | .delete row => row ∈ rows

/-- The rows after a change. -/
def changed (rows : List Row) : TableChange → List Row
  | .insert row => rows ++ [row]
  | .update _ new => replace f.primary new rows
  | .delete row => remove f.primary (f.primary row) rows

/-- `old_data` and `new_data` of the trigger function. What is NULL is read as an empty text. -/
def oldData : TableChange → List Byte
  | .insert _ => []
  | .update old _ => f.expr.eval f.columns old
  | .delete row => f.expr.eval f.columns row

def newData : TableChange → List Byte
  | .insert row => f.expr.eval f.columns row
  | .update _ new => f.expr.eval f.columns new
  | .delete _ => []

/-- The changelog with the entry that the trigger puts for a change. -/
def logged (log : Log) (change : TableChange) : Log :=
  log.insert f.name change.action (f.oldData change) (f.newData change)

/-- The call that an entry is on the file. -/
def call (entry : Entry) : Call (List Byte) (List Byte) :=
  match entry.action with
  | .insert => .write (f.decode entry.data)
  | .update => .rewrite (f.decode entry.data)
  | .delete => .delete (f.key (f.decode entry.data))

/-- The entries of the table. -/
def ours (entries : List Entry) : List Entry := entries.filter fun entry => entry.tableName = f.name

/-- The file stands for the rows of the table. -/
def Equals (contents : Contents) (rows : List Row) : Prop :=
  contents = ofList f.key (rows.map f.image)

end Followed

/-- What happens from the first pass on: changes of the table and of other tables by other
sessions, and passes. -/
inductive Follows (f : Followed) (extfh : Extfh σ) (refuses : List Byte → Bool) (rows₀ : List Row)
    (start : Sync σ) : List Row → Sync σ → Prop
  | start : Follows f extfh refuses rows₀ start rows₀ start
  | change {rows : List Row} {s : Sync σ} (change : TableChange) (allowed : f.Allows rows change)
      (run : Follows f extfh refuses rows₀ start rows s) :
      Follows f extfh refuses rows₀ start (f.changed rows change)
        { s with log := f.logged s.log change }
  | other {rows : List Row} {s : Sync σ} (tableName : List Byte) (different : tableName ≠ f.name)
      (short : tableName.length ≤ tabnameSize) (action : Action) (oldData newData : List Byte)
      (run : Follows f extfh refuses rows₀ start rows s) :
      Follows f extfh refuses rows₀ start rows
        { s with log := s.log.insert tableName action oldData newData }
  | pass {rows : List Row} {s s' : Sync σ} {applied : List Applied}
      (run : Follows f extfh refuses rows₀ start rows s)
      (passed : s.pass extfh refuses = .ok (some (s', applied))) :
      Follows f extfh refuses rows₀ start rows s'

/-! ## The record of a row -/

/-- Writing fields does not change the length of the record. -/
theorem length_writeAll :
    ∀ {writes : List Written} {record record' : List Byte},
      writeAll writes record = .ok record' → record'.length = record.length
  | [], _, _, written => by
      cases written
      rfl
  | first :: writes, record, record', written => by
      obtain ⟨between, here, later⟩ := bind_eq_ok.mp written
      obtain ⟨room, rfl⟩ := writeAt_eq_ok.mp here
      rw [length_writeAll later]
      simp only [List.length_append, List.length_take, List.length_drop]
      omega

section Images

variable {f : Followed}

/-- The text of a safe row is decoded to its record. -/
theorem Followed.Safe.rebuilds {row : Row} (safe : f.Safe row) (laid : Contiguous 0 f.columns)
    (sizes : ∀ col ∈ f.columns, ColumnSize col) (created : createChangelogFunction f.columns =
      .ok f.expr) (room : totalLen f.columns ≤ f.reclen) :
    rebuildRecord f.columns f.reclen (f.expr.eval f.columns row) = .ok (f.image row) ∧
      (f.image row).length = f.reclen ∧
      List.Forall₂ (fun col value => rowField col value =
        .ok (slice (f.image row) col.offset col.len)) f.columns row := by
  obtain ⟨writes, decoded, _, rebuilt⟩ := (rebuilds_iff laid sizes safe.1 created).mpr safe.2
  obtain ⟨record, made, fields⟩ := rebuilt f.reclen room
  have image : f.image row = record := by
    unfold Followed.image Followed.decode
    rw [made]
    rfl
  rw [image]
  refine ⟨made, ?_, fields⟩
  unfold rebuildRecord at made
  rw [decoded, ok_bind] at made
  rw [length_writeAll made, List.length_replicate]

/-- The image of a replaced row replaces the image. -/
theorem Followed.map_image_replace (new : Row) (rows : List Row) :
    (replace f.primary new rows).map f.image =
      replace f.key (f.image new) (rows.map f.image) := by
  unfold replace
  rw [List.map_map, List.map_map]
  apply List.map_congr_left
  intro row _
  rw [Function.comp_apply, Function.comp_apply, apply_ite f.image]
  rfl

/-- The images left are those of the rows left. -/
theorem Followed.map_image_remove (k : List Byte) (rows : List Row) :
    (remove f.primary k rows).map f.image = remove f.key k (rows.map f.image) := by
  unfold remove
  rw [List.filter_map]
  rfl

/-- The images have the keys of the rows. -/
theorem Followed.map_primary (rows : List Row) :
    (rows.map f.image).map f.key = rows.map f.primary := by
  rw [List.map_map]
  rfl

end Images

/-! ## Changes of the table -/

section Changes

variable {f : Followed} {rows : List Row} {change : TableChange}

/-- What the entry of a change is decoded from comes from a safe row. -/
theorem Followed.Allows.data (allowed : f.Allows rows change) (safe : ∀ row ∈ rows, f.Safe row)
    (status : List Byte) (id : ℕ) :
    ∃ row, f.Safe row ∧ (⟨status, id, f.name, change.action, f.oldData change,
      f.newData change⟩ : Entry).data = f.expr.eval f.columns row := by
  cases change with
  | insert row => exact ⟨row, allowed.1, rfl⟩
  | update old new => exact ⟨new, allowed.2.2, rfl⟩
  | delete row => exact ⟨row, safe row allowed, rfl⟩

/-- A change that is allowed leaves safe rows. -/
theorem Followed.Allows.safe (allowed : f.Allows rows change) (safe : ∀ row ∈ rows, f.Safe row) :
    ∀ row ∈ f.changed rows change, f.Safe row := by
  intro row member
  cases change with
  | insert new =>
      rcases List.mem_append.mp member with old | added
      · exact safe row old
      · rw [List.mem_singleton.mp added]
        exact allowed.1
  | update old new =>
      rcases mem_replace member with rfl | old
      · exact allowed.2.2
      · exact safe row old
  | delete gone => exact safe row (List.mem_of_mem_filter member)

/-- A change that is allowed leaves distinct keys. -/
theorem Followed.Allows.distinct (allowed : f.Allows rows change)
    (distinct : (rows.map f.primary).Nodup) :
    ((f.changed rows change).map f.primary).Nodup := by
  cases change with
  | insert new =>
      apply nodup_append new distinct
      rw [ofList_eq_none_iff]
      intro row member same
      exact allowed.2 (List.mem_map.mpr ⟨row, member, same⟩)
  | update old new =>
      unfold Followed.changed
      rw [map_key_replace]
      exact distinct
  | delete gone => exact nodup_remove _ distinct

/-- On a file that stands for the table, the call of a change is done, and the file stands for the
table after the change. -/
theorem Followed.Allows.performed (allowed : f.Allows rows change)
    (distinct : (rows.map f.primary).Nodup) (status : List Byte) (id : ℕ) :
    let call := f.call ⟨status, id, f.name, change.action, f.oldData change, f.newData change⟩
    (perform f.key call (ofList f.key (rows.map f.image))).1.succeeds = true ∧
      f.Equals (perform f.key call (ofList f.key (rows.map f.image))).2
        (f.changed rows change) := by
  unfold Followed.Equals
  cases change with
  | insert row =>
      change (perform f.key (.write (f.image row)) _).1.succeeds = true ∧
        (perform f.key (.write (f.image row)) _).2 = ofList f.key ((rows ++ [row]).map f.image)
      have absent : f.key (f.image row) ∉ (rows.map f.image).map f.key := by
        rw [Followed.map_primary]
        exact allowed.2
      rw [perform_write absent, List.map_append]
      exact ⟨rfl, rfl⟩
  | update old new =>
      change (perform f.key (.rewrite (f.image new)) _).1.succeeds = true ∧
        (perform f.key (.rewrite (f.image new)) _).2 =
          ofList f.key ((replace f.primary new rows).map f.image)
      have present : f.key (f.image new) ∈ (rows.map f.image).map f.key := by
        rw [Followed.map_primary]
        exact List.mem_map.mpr ⟨old, allowed.1, allowed.2.1.symm⟩
      rw [perform_rewrite (by rw [Followed.map_primary]; exact distinct) present,
        Followed.map_image_replace]
      exact ⟨rfl, rfl⟩
  | delete row =>
      change (perform f.key (.delete (f.primary row)) _).1.succeeds = true ∧
        (perform f.key (.delete (f.primary row)) _).2 =
          ofList f.key ((remove f.primary (f.primary row) rows).map f.image)
      have present : f.primary row ∈ (rows.map f.image).map f.key := by
        rw [Followed.map_primary]
        exact List.mem_map_of_mem allowed
      rw [Followed.map_image_remove]
      exact perform_delete present

end Changes

/-! ## An entry -/

/-- The file registered last and the table registered first are those of a table that is followed,
and the table has not been closed. -/
structure Serves (f : Followed) (live : ℕ → Option Table) (reg : Registry) : Prop where
  short : f.name.length ≤ tabnameSize
  file : ∃ fcd, onward reg.fcds = [fcd] ∧ baseName fcd.fileName = f.name ∧
    fcd.record.length = f.reclen
  table : ∃ tab rest, onward reg.tables = tab :: rest ∧ tab.name = f.name ∧
    tab.columns = f.columns ∧ (live tab.handle).isSome

/-- An entry is decoded, when it is one of the table. -/
def Followed.Decodes (f : Followed) (entry : Entry) : Prop :=
  entry.tableName = f.name → rebuildRecord f.columns f.reclen entry.data = .ok (f.decode entry.data)
    ∧ (f.decode entry.data).length = f.reclen

/-- The row of the changelog after a pass that has executed the entries of the table with these
ids. -/
def Followed.settle (f : Followed) (ids : List ℕ) (row : Entry) : Entry :=
  if row.status = pending ∧ row.tableName = f.name ∧ row.id ∈ ids then
    { row with status := ascii "SUCCESS" }
  else row

/-- A mark of success. -/
theorem Log.mark_success {refuses : List Byte → Bool} (taken : refuses (ascii "SUCCESS") = false)
    {log : Log} (running : log.aborted = false) (f : Followed) (id : ℕ) :
    log.mark refuses f.name id (ascii "SUCCESS") =
      { log with working := log.working.map (f.settle [id]) } := by
  unfold Log.mark
  rw [if_neg (by rw [running]; exact Bool.false_ne_true), if_neg]
  · congr 1
    apply List.map_congr_left
    intro row _
    unfold Followed.settle
    simp only [List.mem_singleton]
  · rw [taken]
    decide

/-- Entries that are settled one after the other are settled together. -/
theorem Followed.settle_settle (f : Followed) (id : ℕ) (ids : List ℕ) (row : Entry) :
    f.settle ids (f.settle [id] row) = f.settle (id :: ids) row := by
  unfold Followed.settle
  by_cases first : row.status = pending ∧ row.tableName = f.name ∧ row.id ∈ [id]
  · have settled : ascii "SUCCESS" ≠ pending := by decide
    rw [if_pos first, if_neg fun more => settled more.1, if_pos]
    exact ⟨first.1, first.2.1, List.mem_cons.mpr (Or.inl (List.mem_singleton.mp first.2.2))⟩
  · rw [if_neg first]
    apply if_congr _ rfl rfl
    rw [List.mem_cons]
    rw [List.mem_singleton] at first
    tauto

section Entries

variable {f : Followed} {extfh : Extfh σ} {contents : σ → Contents}
  {key : ℕ → List Byte → List Byte} {refuses : List Byte → Bool}

/-- The native file does what the entry asks for, when an indexed file would do it. -/
theorem Followed.executes (indexed : IndexedFile extfh contents key fun _ => True)
    (same : key 0 = f.key) {entry : Entry} (files : σ) {fcd : Fcd}
    (area : fcd.record = f.decode entry.data)
    (done : (perform f.key (f.call entry) (contents files)).1.succeeds = true) :
    (extfh entry.action.opcode files fcd).2.status.1 = 48 ∧
      contents (extfh entry.action.opcode files fcd).1 =
        (perform f.key (f.call entry) (contents files)).2 := by
  unfold Followed.call at done ⊢
  cases action : entry.action with
  | insert =>
      rw [action] at done
      have answers := indexed.write files fcd
      rw [same, area] at answers
      cases stored : contents files (f.key (f.decode entry.data)) with
      | some old =>
          simp only [perform, stored, Reply.succeeds] at done
          cases done
      | none =>
          rcases answers with ⟨_, status, made⟩ | ⟨refused, _⟩
          · refine ⟨status, made.trans ?_⟩
            simp only [perform, stored]
          · exact absurd ⟨stored, trivial⟩ refused
  | update =>
      rw [action] at done
      have answers := indexed.rewrite files fcd
      rw [same, area] at answers
      cases stored : contents files (f.key (f.decode entry.data)) with
      | none =>
          simp only [perform, stored, Reply.succeeds] at done
          cases done
      | some old =>
          rcases answers with ⟨_, status, made⟩ | ⟨refused, _⟩
          · refine ⟨status, made.trans ?_⟩
            simp only [perform, stored]
          · exact absurd ⟨by rw [stored]; exact Option.some_ne_none _, trivial⟩ refused
  | delete =>
      rw [action] at done
      have answers := indexed.delete files fcd
      rw [same, area] at answers
      cases stored : contents files (f.key (f.decode entry.data)) with
      | none =>
          simp only [perform, stored, Reply.succeeds] at done
          cases done
      | some old =>
          rcases answers with ⟨_, status, made⟩ | ⟨refused, _⟩
          · refine ⟨status, made.trans ?_⟩
            simp only [perform, stored]
          · exact absurd (by rw [stored]; exact Option.some_ne_none _) refused

/-- An entry of the table is executed and marked. -/
theorem Serves.entry {s : Sync σ} (serves : Serves f s.live s.reg)
    (indexed : IndexedFile extfh contents key fun _ => True) (same : key 0 = f.key)
    (taken : refuses (ascii "SUCCESS") = false) (running : s.log.aborted = false) {entry : Entry}
    (named : entry.tableName = f.name) (decodes : f.Decodes entry)
    (done : (perform f.key (f.call entry) (contents s.files)).1.succeeds = true) :
    ∃ s' status, s.entry extfh refuses entry = .ok (s', some ⟨entry, f.name, status⟩) ∧
      status.1 = 48 ∧ Serves f s'.live s'.reg ∧
      contents s'.files = (perform f.key (f.call entry) (contents s.files)).2 ∧
      s'.log = { s.log with working := s.log.working.map (f.settle [entry.id]) } := by
  obtain ⟨fcd, fcds, base, length⟩ := serves.file
  obtain ⟨tab, rest, tables, name, columns, live⟩ := serves.table
  obtain ⟨decoded, whole⟩ := decodes named
  have target : s.reg.target s.live entry.tableName = .ok (some (0, fcd, tab, f.columns)) := by
    unfold Registry.target
    rw [named, if_pos serves.short, fcds, tables]
    simp only [findFile, base, ↓reduceIte, ok_bind, Table.columnList, live, columns]
    rfl
  obtain ⟨status, made⟩ := Followed.executes indexed same s.files
    (rfl : ({ fcd with record := f.decode entry.data } : Fcd).record = _) done
  have fcd' := indexed.update_fcd entry.action.opcode s.files
    { fcd with record := f.decode entry.data } (by cases entry.action <;> rfl)
  have success : newStatus (extfh entry.action.opcode s.files
      { fcd with record := f.decode entry.data }).2.status = ascii "SUCCESS" := by
    unfold newStatus
    rw [if_pos status]
  let answer := extfh entry.action.opcode s.files { fcd with record := f.decode entry.data }
  refine ⟨{ s with
    files := answer.1
    reg := { s.reg with fcds := setOnward s.reg.fcds 0 answer.2 }
    log := s.log.mark refuses f.name entry.id (ascii "SUCCESS") }, answer.2.status, ?_, status,
    ⟨serves.short, ?_, ?_⟩, made, Log.mark_success taken running f entry.id⟩
  · unfold Sync.entry
    rw [target, ok_bind]
    dsimp only
    rw [length, decoded, ok_bind, success, name]
    rfl
  · refine ⟨_, by rw [onward_setOnward, fcds]; rfl, ?_, ?_⟩
    · rw [fcd']
      exact base
    · rw [fcd']
      exact whole
  · exact ⟨tab, rest, tables, name, columns, live⟩

/-- An entry of another table is passed over. -/
theorem Serves.pass_over {s : Sync σ} (serves : Serves f s.live s.reg) {entry : Entry}
    (short : entry.tableName.length ≤ tabnameSize) (different : entry.tableName ≠ f.name) :
    s.entry extfh refuses entry = .ok (s, none) := by
  obtain ⟨fcd, fcds, base, _⟩ := serves.file
  obtain ⟨tab, rest, tables, _⟩ := serves.table
  have target : s.reg.target s.live entry.tableName = .ok none := by
    unfold Registry.target
    rw [if_pos short, fcds, tables]
    simp only [findFile, base, different.symm, ↓reduceIte, ok_bind]
    rfl
  unfold Sync.entry
  rw [target]
  rfl

/-- The entries that a pass fetches: those of the table are executed one after the other. -/
theorem Serves.batch (indexed : IndexedFile extfh contents key fun _ => True)
    (same : key 0 = f.key) (taken : refuses (ascii "SUCCESS") = false) :
    ∀ {entries : List Entry} {s : Sync σ} {final : Contents}, Serves f s.live s.reg →
      s.log.aborted = false → (∀ entry ∈ entries, entry.tableName.length ≤ tabnameSize) →
      (∀ entry ∈ entries, f.Decodes entry) →
      play f.key ((f.ours entries).map f.call) (contents s.files) = some final →
      ∃ s' applied, Sync.batch extfh refuses entries s = .ok (s', applied) ∧
        Serves f s'.live s'.reg ∧ contents s'.files = final ∧
        (∀ one ∈ applied, one.status.1 = 48) ∧ applied.map Applied.entry = f.ours entries ∧
        s'.log = { s.log with
          working := s.log.working.map (f.settle ((f.ours entries).map Entry.id)) }
  | [], s, final, serves, _, _, _, played => by
      have nothing : s.log.working.map (f.settle []) = s.log.working := by
        conv_rhs => rw [← List.map_id s.log.working]
        apply List.map_congr_left
        intro row _
        unfold Followed.settle
        rw [if_neg]
        · rfl
        · intro settled
          exact List.not_mem_nil settled.2.2
      refine ⟨s, [], rfl, serves, Option.some.inj played, nofun, rfl, ?_⟩
      change s.log = { s.log with working := s.log.working.map (f.settle []) }
      rw [nothing]
  | entry :: entries, s, final, serves, running, short, decodes, played => by
      obtain ⟨short₀, short⟩ := List.forall_mem_cons.mp short
      obtain ⟨decodes₀, decodes⟩ := List.forall_mem_cons.mp decodes
      have goes : ¬ s.log.aborted = true := by
        rw [running]
        exact Bool.false_ne_true
      by_cases named : entry.tableName = f.name
      · have first : f.ours (entry :: entries) = entry :: f.ours entries :=
          List.filter_cons_of_pos (decide_eq_true named)
        rw [first, List.map_cons] at played
        unfold play at played
        split at played
        · rename_i done
          obtain ⟨s₁, status, here, class₀, serves₁, made, log⟩ :=
            serves.entry indexed same taken running named decodes₀ done
          rw [← made] at played
          have running₁ : s₁.log.aborted = false := by
            rw [log]
            exact running
          obtain ⟨s', applied, later, serves', made', classes, order, log'⟩ :=
            Serves.batch indexed same taken serves₁ running₁ short decodes played
          refine ⟨s', ⟨entry, f.name, status⟩ :: applied, ?_, serves', made', ?_, ?_, ?_⟩
          · unfold Sync.batch
            rw [if_neg goes, here, ok_bind]
            dsimp only
            rw [later]
            rfl
          · exact List.forall_mem_cons.mpr ⟨class₀, classes⟩
          · rw [first, List.map_cons, order]
          · have marked : (s.log.working.map (f.settle [entry.id])).map
                (f.settle ((f.ours entries).map Entry.id)) =
                  s.log.working.map (f.settle (entry.id :: (f.ours entries).map Entry.id)) := by
              rw [List.map_map]
              apply List.map_congr_left
              intro row _
              exact f.settle_settle entry.id _ row
            rw [log', log, first, List.map_cons]
            exact congrArg (fun working => { s.log with working := working }) marked
        · cases played
      · have first : f.ours (entry :: entries) = f.ours entries :=
          List.filter_cons_of_neg (by simpa using named)
        rw [first] at played ⊢
        obtain ⟨s', applied, later, rest⟩ :=
          Serves.batch indexed same taken serves running short decodes played
        refine ⟨s', applied, ?_, rest⟩
        unfold Sync.batch
        rw [if_neg goes, serves.pass_over short₀ named, ok_bind]
        dsimp only
        rw [later]
        rfl

end Entries

/-! ## The entries that are pending -/

/-- An entry put into the changelog is fetched after all that are pending. -/
theorem Log.Clear.pendings_insert {log : Log} (clear : log.Clear) (tableName : List Byte)
    (action : Action) (oldData newData : List Byte) :
    (log.insert tableName action oldData newData).pendings =
      log.pendings ++ [⟨pending, log.next, tableName, action, oldData, newData⟩] := by
  let entry : Entry := ⟨pending, log.next, tableName, action, oldData, newData⟩
  let early := fun a b : Entry => decide (a.id ≤ b.id)
  have trans : ∀ a b c : Entry, early a b = true → early b c = true → early a c = true := by
    intro a b c ab bc
    exact decide_eq_true ((of_decide_eq_true ab).trans (of_decide_eq_true bc))
  have total : ∀ a b : Entry, (early a b || early b a) = true := by
    intro a b
    rw [Bool.or_eq_true, decide_eq_true_iff, decide_eq_true_iff]
    exact le_total a.id b.id
  have fetched : (log.working ++ [entry]).filter (fun entry => entry.status = pending) =
      (log.working.filter fun entry => entry.status = pending) ++ [entry] := by
    rw [List.filter_append]
    rfl
  have distinct : ((log.working ++ [entry]).map Entry.id).Nodup := by
    have inserted := (clear.insert tableName action oldData newData).distinct
    rw [clear.committed]
    exact inserted
  have sorted := List.pairwise_mergeSort trans total (log.working.filter fun entry =>
    entry.status = pending)
  change ((log.working ++ [entry]).filter _).mergeSort early =
    (log.working.filter _).mergeSort early ++ [entry]
  rw [fetched]
  apply List.Perm.eq_of_pairwise ?_ (List.pairwise_mergeSort trans total _) ?_ ?_
  · intro a b first second ab ba
    have member : ∀ row ∈ (log.working.filter fun entry => entry.status = pending) ++ [entry],
        row ∈ log.working ++ [entry] := by
      intro row there
      rw [← fetched] at there
      exact List.mem_of_mem_filter there
    apply List.inj_on_of_nodup_map distinct (member a (List.mem_mergeSort.mp first)) (member b ?_)
    · exact le_antisymm (of_decide_eq_true ab) (of_decide_eq_true ba)
    · rw [List.mem_append, List.mem_mergeSort] at second
      exact List.mem_append.mpr second
  · rw [List.pairwise_append]
    refine ⟨sorted, List.pairwise_singleton _ _, ?_⟩
    intro row member new last
    rw [List.mem_singleton.mp last]
    have old := List.mem_of_mem_filter (List.mem_mergeSort.mp member)
    rw [clear.committed] at old
    exact decide_eq_true (clear.drawn row old).le
  · exact (List.mergeSort_perm _ _).trans ((List.mergeSort_perm _ _).symm.append_right _)

/-! ## The file trails the table -/

/-- The entries that are pending make of the file what the table is. -/
structure Followed.Trails (f : Followed) (contents : σ → Contents) (rows : List Row)
    (s : Sync σ) : Prop where
  serves : Serves f s.live s.reg
  clear : s.log.Clear
  short : ∀ entry ∈ s.log.working, entry.tableName.length ≤ tabnameSize
  decodes : ∀ entry ∈ s.log.working, entry.status = pending → f.Decodes entry
  safe : ∀ row ∈ rows, f.Safe row
  distinct : (rows.map f.primary).Nodup
  trails : play f.key ((f.ours s.log.pendings).map f.call) (contents s.files) =
    some (ofList f.key (rows.map f.image))

section Trailing

variable {f : Followed} {extfh : Extfh σ} {contents : σ → Contents}
  {key : ℕ → List Byte → List Byte} {refuses : List Byte → Bool} {rows : List Row} {s : Sync σ}

/-- A change of the table, with its entry. -/
theorem Followed.Trails.change (trails : f.Trails contents rows s) (laid : Contiguous 0 f.columns)
    (sizes : ∀ col ∈ f.columns, ColumnSize col)
    (created : createChangelogFunction f.columns = .ok f.expr)
    (room : totalLen f.columns ≤ f.reclen) {change : TableChange}
    (allowed : f.Allows rows change) :
    f.Trails contents (f.changed rows change) { s with log := f.logged s.log change } where
  serves := trails.serves
  clear := trails.clear.insert _ _ _ _
  short := by
    intro entry member
    rcases List.mem_append.mp member with old | new
    · exact trails.short entry old
    · rw [List.mem_singleton.mp new]
      exact trails.serves.short
  decodes := by
    intro entry member status
    rcases List.mem_append.mp member with old | new
    · exact trails.decodes entry old status
    · intro _
      obtain ⟨row, safe, data⟩ := allowed.data trails.safe pending s.log.next
      obtain ⟨rebuilt, length, _⟩ := safe.rebuilds laid sizes created room
      rw [List.mem_singleton.mp new, data]
      exact ⟨rebuilt, length⟩
  safe := allowed.safe trails.safe
  distinct := allowed.distinct trails.distinct
  trails := by
    obtain ⟨done, equals⟩ := allowed.performed trails.distinct pending s.log.next
    change play f.key ((f.ours (f.logged s.log change).pendings).map f.call) (contents s.files) =
      some (ofList f.key ((f.changed rows change).map f.image))
    have fetched : f.ours (f.logged s.log change).pendings = f.ours s.log.pendings ++
        [⟨pending, s.log.next, f.name, change.action, f.oldData change, f.newData change⟩] := by
      unfold Followed.logged Followed.ours
      rw [trails.clear.pendings_insert, List.filter_append]
      congr 1
      exact List.filter_cons_of_pos (decide_eq_true rfl)
    rw [fetched, List.map_append, ← equals]
    exact play_concat trails.trails done

/-- A change of another table. -/
theorem Followed.Trails.other (trails : f.Trails contents rows s) {tableName : List Byte}
    (different : tableName ≠ f.name) (short : tableName.length ≤ tabnameSize) (action : Action)
    (oldData newData : List Byte) :
    f.Trails contents rows { s with log := s.log.insert tableName action oldData newData } where
  serves := trails.serves
  clear := trails.clear.insert _ _ _ _
  short := by
    intro entry member
    rcases List.mem_append.mp member with old | new
    · exact trails.short entry old
    · rw [List.mem_singleton.mp new]
      exact short
  decodes := by
    intro entry member status
    rcases List.mem_append.mp member with old | new
    · exact trails.decodes entry old status
    · rw [List.mem_singleton.mp new]
      exact fun named => absurd named different
  safe := trails.safe
  distinct := trails.distinct
  trails := by
    have fetched : f.ours (s.log.insert tableName action oldData newData).pendings =
        f.ours s.log.pendings := by
      unfold Followed.ours
      rw [trails.clear.pendings_insert, List.filter_append]
      have nothing : List.filter (fun entry : Entry => decide (entry.tableName = f.name))
          [⟨pending, s.log.next, tableName, action, oldData, newData⟩] = [] :=
        List.filter_cons_of_neg (by simpa using different)
      rw [nothing, List.append_nil]
    change play f.key ((f.ours (s.log.insert tableName action oldData newData).pendings).map f.call)
      (contents s.files) = _
    rw [fetched]
    exact trails.trails

/-- An entry that is settled keeps its number and its table. -/
theorem Followed.settle_ident (f : Followed) (ids : List ℕ) (row : Entry) :
    (f.settle ids row).id = row.id ∧ (f.settle ids row).tableName = row.tableName := by
  unfold Followed.settle
  split
  · exact ⟨rfl, rfl⟩
  · exact ⟨rfl, rfl⟩

/-- What is pending after a pass was pending before, and is not of the table. -/
theorem Followed.settle_pending {ids : List ℕ} {row : Entry}
    (status : (f.settle ids row).status = pending) :
    f.settle ids row = row ∧ (row.id ∈ ids → row.tableName ≠ f.name) := by
  unfold Followed.settle at status ⊢
  split
  · rename_i settled
    rw [if_pos settled] at status
    exact absurd status (by decide : ascii "SUCCESS" ≠ pending)
  · rename_i stays
    rw [if_neg stays] at status
    exact ⟨rfl, fun member named => stays ⟨status, named, member⟩⟩

/-- A pass brings the file to the table. -/
theorem Followed.Trails.pass (trails : f.Trails contents rows s)
    (indexed : IndexedFile extfh contents key fun _ => True) (same : key 0 = f.key)
    (taken : refuses (ascii "SUCCESS") = false) :
    ∃ s' applied, s.pass extfh refuses = .ok (some (s', applied)) ∧ f.Trails contents rows s' ∧
      f.Equals (contents s'.files) rows ∧ applied.map Applied.entry = f.ours s.log.pendings ∧
      (∀ one ∈ applied, one.status.1 = 48) ∧ f.ours s'.log.pendings = [] := by
  have running := trails.clear.open_
  have pendings : ∀ entry ∈ s.log.pendings, entry ∈ s.log.working ∧ entry.status = pending :=
    fun entry member => Log.mem_pendings.mp member
  obtain ⟨s₁, applied, fetched, serves, made, classes, order, log⟩ :=
    Serves.batch indexed same taken trails.serves running
      (fun entry member => trails.short entry (pendings entry member).1)
      (fun entry member => trails.decodes entry (pendings entry member).1
        (pendings entry member).2) trails.trails
  have running₁ : s₁.log.aborted = false := by
    rw [log]
    exact running
  have committed : s₁.log.commit = { s₁.log with committed := s₁.log.working } := by
    unfold Log.commit
    rw [if_neg (by rw [running₁]; exact Bool.false_ne_true)]
  have working : s₁.log.working =
      s.log.working.map (f.settle ((f.ours s.log.pendings).map Entry.id)) := by rw [log]
  have ids : s₁.log.working.map Entry.id = s.log.committed.map Entry.id := by
    rw [working, List.map_map, ← trails.clear.committed]
    exact List.map_congr_left fun row _ => (f.settle_ident _ row).1
  -- an entry of the table that was pending has been executed
  have none_left : f.ours ({ s₁ with log := s₁.log.commit } : Sync σ).log.pendings = [] := by
    rw [committed]
    apply List.filter_eq_nil_iff.mpr
    intro row member named
    obtain ⟨member, status⟩ := Log.mem_pendings.mp member
    change row ∈ s₁.log.working at member
    rw [working] at member
    obtain ⟨old, there, rfl⟩ := List.mem_map.mp member
    obtain ⟨stays, other⟩ := Followed.settle_pending status
    rw [stays] at status named
    apply other _ (of_decide_eq_true named)
    exact List.mem_map_of_mem (List.mem_filter.mpr ⟨Log.mem_pendings.mpr ⟨there, status⟩, named⟩)
  refine ⟨{ s₁ with log := s₁.log.commit }, applied, ?_, ?_, made, order, classes, none_left⟩
  · unfold Sync.pass
    rw [if_neg (by rw [running]; exact Bool.false_ne_true), fetched]
    rfl
  · refine ⟨serves, ?_, ?_, ?_, trails.safe, trails.distinct, ?_⟩
    · rw [committed]
      refine ⟨running₁, rfl, ?_, ?_⟩
      · change (s₁.log.working.map Entry.id).Nodup
        rw [ids]
        exact trails.clear.distinct
      · intro row member
        change row ∈ s₁.log.working at member
        have id : row.id ∈ s.log.committed.map Entry.id := by
          rw [← ids]
          exact List.mem_map_of_mem member
        obtain ⟨old, there, same⟩ := List.mem_map.mp id
        change row.id < s₁.log.next
        rw [log, ← same]
        exact trails.clear.drawn old there
    · rw [committed]
      intro row member
      change row ∈ s₁.log.working at member
      rw [working] at member
      obtain ⟨old, there, rfl⟩ := List.mem_map.mp member
      rw [(f.settle_ident _ old).2]
      exact trails.short old there
    · rw [committed]
      intro row member status
      change row ∈ s₁.log.working at member
      rw [working] at member
      obtain ⟨old, there, rfl⟩ := List.mem_map.mp member
      obtain ⟨stays, _⟩ := Followed.settle_pending status
      rw [stays] at status ⊢
      exact trails.decodes old there status
    · rw [none_left]
      exact congrArg some made

/-- The files that are registered: the last one is the file of the table, and the table registered
first is the one that has its columns. -/
structure Followed.Registered (f : Followed) (files : List (Fcd × Table))
    (live : ℕ → Option Table) : Prop where
  short : f.name.length ≤ tabnameSize
  last : ∃ last ∈ files.getLast?, baseName last.1.fileName = f.name ∧
    last.1.record.length = f.reclen
  first : ∃ first ∈ files.head?, first.2.name = f.name ∧ first.2.columns = f.columns ∧
    (live first.2.handle).isSome

/-- The lists that were registered serve the file. -/
theorem Followed.Registered.serves {files : List (Fcd × Table)} {live : ℕ → Option Table}
    (registered : f.Registered files live) : Serves f live (Pqfh.registered files).rewound := by
  obtain ⟨last, isLast, base, length⟩ := registered.last
  obtain ⟨first, isFirst, name, columns, alive⟩ := registered.first
  refine ⟨registered.short, ⟨last.1, ?_, base, length⟩, ?_⟩
  · obtain ⟨front, rfl⟩ := List.getLast?_eq_some_iff.mp isLast
    rw [registered_concat]
    exact onward_append _ _
  · obtain ⟨rest, rfl⟩ := List.head?_eq_some_iff.mp isFirst
    exact ⟨first.2, rest.map Prod.snd, (registered_standing _).tables, name, columns, alive⟩

/-- The file trails the table in every state that is reached. -/
theorem Follows.trails {rows₀ : List Row} {start : Sync σ} (laid : Contiguous 0 f.columns)
    (sizes : ∀ col ∈ f.columns, ColumnSize col)
    (created : createChangelogFunction f.columns = .ok f.expr)
    (room : totalLen f.columns ≤ f.reclen) (indexed : IndexedFile extfh contents key fun _ => True)
    (same : key 0 = f.key) (taken : refuses (ascii "SUCCESS") = false)
    (run : Follows f extfh refuses rows₀ start rows s) (begun : f.Trails contents rows₀ start) :
    f.Trails contents rows s := by
  induction run with
  | start => exact begun
  | change change allowed _ ih => exact ih.change laid sizes created room allowed
  | other tableName different short action oldData newData _ ih =>
      exact ih.other different short action oldData newData
  | pass _ passed ih =>
      obtain ⟨s₁, applied, passed', trails, _⟩ := ih.pass indexed same taken
      rw [passed'] at passed
      cases passed
      exact trails

end Trailing

/-- **The file follows the table.** In every state that changes and passes lead to, in whatever
order, the next pass returns, executes the entries of the table that are pending one after the
other, each with success, and leaves the file with the record of each row of the table and no
other; the record of a row has the field of each value in its column. -/
theorem changelog_follows (f : Followed) (laid : Contiguous 0 f.columns)
    (sizes : ∀ col ∈ f.columns, ColumnSize col)
    (created : createChangelogFunction f.columns = .ok f.expr)
    (room : totalLen f.columns ≤ f.reclen) (extfh : Extfh σ) (contents : σ → Contents)
    (key : ℕ → List Byte → List Byte) (indexed : IndexedFile extfh contents key fun _ => True)
    (same : key 0 = f.key) (refuses : List Byte → Bool)
    (taken : refuses (ascii "SUCCESS") = false) (files : List (Fcd × Table)) (rows₀ rows : List Row)
    (start s : Sync σ) (begun : start.reg = (registered files).rewound)
    (known : f.Registered files start.live) (clear : start.log.Clear)
    (nothing : ∀ entry ∈ start.log.committed, entry.status ≠ pending)
    (short : ∀ entry ∈ start.log.committed, entry.tableName.length ≤ tabnameSize)
    (safe : ∀ row ∈ rows₀, f.Safe row) (distinct : (rows₀.map f.primary).Nodup)
    (equal : f.Equals (contents start.files) rows₀)
    (run : Follows f extfh refuses rows₀ start rows s) :
    ∃ s' applied, s.pass extfh refuses = .ok (some (s', applied)) ∧
      applied.map Applied.entry = f.ours s.log.pendings ∧ (∀ one ∈ applied, one.status.1 = 48) ∧
      f.ours s'.log.pendings = [] ∧ f.Equals (contents s'.files) rows ∧
      ∀ row ∈ rows, List.Forall₂ (fun col value => rowField col value =
        .ok (slice (f.image row) col.offset col.len)) f.columns row := by
  have begins : f.Trails contents rows₀ start := by
    refine ⟨begun ▸ known.serves, clear, clear.committed ▸ short, ?_, safe, distinct, ?_⟩
    · intro entry member status
      rw [clear.committed] at member
      exact absurd status (nothing entry member)
    · have none : start.log.pendings = [] := by
        apply List.eq_nil_iff_forall_not_mem.mpr
        intro entry member
        obtain ⟨there, status⟩ := Log.mem_pendings.mp member
        rw [clear.committed] at there
        exact nothing entry there status
      rw [none]
      exact congrArg some equal
  have trails := run.trails laid sizes created room indexed same taken begins
  obtain ⟨s', applied, passed, _, equals, order, classes, empty⟩ :=
    trails.pass indexed same taken
  refine ⟨s', applied, passed, order, classes, empty, equals, ?_⟩
  intro row member
  exact ((trails.safe row member).rebuilds laid sizes created room).2.2

/-- The sales, and their file with a key of one byte. -/
def sales : Followed where
  name := ascii "sales"
  columns := saleColumns
  expr := saleExpr
  reclen := 7
  key := fun record => record.take 1

/-- No sales, and nothing in the changelog. -/
def noSales : Sync SmallFile :=
  ⟨.empty, (registered [salesFile]).rewound, bothOpen, ⟨[], [], false, 1⟩⟩

/-- A sale: the code, the amount in tenths and the name. -/
def sale (code amount : ℤ) (name : Value) : Row := [.num code, .num (amount / 10), name]

/-- A sale is a safe row, with a name or without. -/
theorem sale_safe (code : ℤ) (one : code = 1 ∨ code = 2) (amount : ℤ)
    (sold : amount = 25 ∨ amount = -25) (name : Value)
    (named : name = .null ∨ name = .chr [65, 66]) :
    sales.Safe (sale code amount name) := by
  refine ⟨.cons ⟨rfl, code, ?_, ?_⟩ (.cons ⟨rfl, amount, ?_, ?_⟩ (.cons ?_ .nil)),
    .cons (by decide : 0 < 1) (.cons (by decide : 1 < 3) (.cons ?_ .nil))⟩
  · norm_num [saleColumns]
  · rcases one with rfl | rfl <;> decide
  · norm_num [saleColumns]
  · rcases sold with rfl | rfl <;> decide
  · rcases named with rfl | rfl
    · trivial
    · exact ⟨rfl, by decide, by decide, by decide⟩
  · rcases named with rfl | rfl
    · intro numeric
      cases numeric
    · exact (by decide : (124 : Byte) ∉ ([65, 66] : List Byte))

/-- The file of sales is registered. -/
theorem sales_registered : sales.Registered [salesFile] noSales.live where
  short := by decide
  last := ⟨salesFile, rfl, by decide, by decide⟩
  first := ⟨salesFile, rfl, rfl, rfl, rfl⟩

/-- A sale is made and changed, and a price of another file; after a pass a second sale is made and
the first deleted. The next pass leaves the second one in the file. -/
theorem changelog_follows_sales : ∃ (s s' : Sync SmallFile) (applied : List Applied),
    s.pass smallFile (fun _ => false) = .ok (some (s', applied)) ∧
      (∀ one ∈ applied, one.status.1 = 48) ∧ s'.files.records [49] = none ∧
      s'.files.records [50] = some [50, 48, 50, 53, 32, 32, 32] := by
  have follows : ∀ {rows : List Row} {s : Sync SmallFile},
      Follows sales smallFile (fun _ => false) [] noSales rows s →
      ∃ s' applied, s.pass smallFile (fun _ => false) = .ok (some (s', applied)) ∧
        (∀ one ∈ applied, one.status.1 = 48) ∧ sales.Equals s'.files.records rows := by
    intro rows s run
    obtain ⟨s', applied, passed, _, classes, _, equals, _⟩ :=
      changelog_follows sales (by decide) (by decide +kernel) (by decide +kernel) (by decide)
        smallFile SmallFile.records (fun _ record => record.take 1) smallFile_indexed rfl
        (fun _ => false) rfl [salesFile] [] rows noSales s rfl sales_registered
        ⟨rfl, rfl, List.nodup_nil, nofun⟩ nofun nofun nofun List.nodup_nil rfl run
    exact ⟨s', applied, passed, classes, equals⟩
  have sold := Follows.change (.insert (sale 1 (-25) .null))
    ⟨sale_safe 1 (Or.inl rfl) (-25) (Or.inr rfl) .null (Or.inl rfl), List.not_mem_nil⟩
    (@Follows.start SmallFile sales smallFile (fun _ => false) [] noSales)
  have changed := Follows.change (.update (sale 1 (-25) .null) (sale 1 25 (.chr [65, 66])))
    ⟨List.mem_cons_self, by decide +kernel,
      sale_safe 1 (Or.inl rfl) 25 (Or.inl rfl) _ (Or.inr rfl)⟩ sold
  have priced := Follows.other (ascii "prices") (by decide) (by decide) .insert [] [49] changed
  obtain ⟨s₁, applied, passed, _⟩ := follows priced
  have second := Follows.change (.insert (sale 2 25 .null))
    ⟨sale_safe 2 (Or.inr rfl) 25 (Or.inl rfl) .null (Or.inl rfl), by decide +kernel⟩
    (Follows.pass priced passed)
  have gone := Follows.change (.delete (sale 1 25 (.chr [65, 66])))
    (by decide +kernel : sale 1 25 (.chr [65, 66]) ∈ _) second
  obtain ⟨s', applied', passed', classes, equals⟩ := follows gone
  refine ⟨_, s', applied', passed', classes, ?_, ?_⟩
  · rw [equals]
    decide +kernel
  · rw [equals]
    decide +kernel

end Pqfh
