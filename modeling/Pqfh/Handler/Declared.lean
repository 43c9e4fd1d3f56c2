import Pqfh.Handler.Footprint
import Pqfh.Handler.Sessions
import Pqfh.Sync.KeyBytes

/-! # Files that are declared

The program declares the keys of a file in the key definition block, and the dictionary its columns.
Where the two fit together, OPEN makes a table that can be used as an indexed file, and whose keys
are the bytes that the program declared (`Pqfh.opens_declared`).
-/

namespace Pqfh

open KeyedStore

/-- The columns and the key definition block of an indexed file. The components of the primary key
are apart from each other, and a primary key of one component is at the start of the record. -/
structure FileDeclared (kdb : ℕ → Byte) (cols : List Column) : Prop where
  keys : KeysDefined kdb cols
  fit : ∀ k < getshort kdb 6, NumbersFit kdb k
  primary : 0 < getshort kdb 6
  count : getshort kdb 6 ≤ maxKeys
  few : cols.length ≤ maxCols
  short : ∀ col ∈ cols, col.len + 1 < rowSize
  apart : (definedComponents kdb 0).Pairwise fun first second =>
    first.1 + first.2 ≤ second.1 ∨ second.1 + second.2 ≤ first.1
  leading : (definedComponents kdb 0).length = 1 → ∀ comp ∈ definedComponents kdb 0, comp.1 = 0
  whole : ∀ i ∈ componentColumns cols (definedComponents kdb 0),
    (cols.getD i noColumn).tp = .numeric → (cols.getD i noColumn).dec = 0

/-! ## Columns and flags -/

/-- `table_info` flags no column. -/
theorem layColumns_fresh {reclen : ℕ} : ∀ {offset : ℕ} {catalog : List CatalogColumn}
    {cols : List Column}, layColumns reclen offset catalog = .ok cols → ∀ col ∈ cols, col.pk = false
  | _, [], _, laid => by
      cases laid
      exact nofun
  | offset, col :: rest, cols, laid => by
      obtain ⟨_, first, later, made, more, rfl⟩ := layColumns_cons.mp laid
      have later' := layColumns_fresh more
      have here : first.pk = false := by
        unfold CatalogColumn.laid at made
        split at made <;> cases made <;> rfl
      split
      · exact List.forall_mem_cons.mpr ⟨here, later'⟩
      · exact later'

/-- A column with the flags, but for the flag. -/
theorem getD_flag {flagged : List ℕ} {cols : List Column} (fresh : ∀ col ∈ cols, col.pk = false)
    {i : ℕ} (inside : i < cols.length) :
    (flag flagged cols).getD i noColumn =
      { cols.getD i noColumn with pk := decide (i ∈ flagged) } := by
  have plain := fresh cols[i] (List.getElem_mem inside)
  rw [List.getD_eq_getElem?_getD, List.getD_eq_getElem?_getD, getElem?_flag,
    List.getElem?_eq_getElem inside, Option.map_some, Option.getD_some, Option.getD_some]
  by_cases member : i ∈ flagged
  · rw [if_pos member, decide_eq_true member]
  · rw [if_neg member, decide_eq_false member, ← plain]

theorem length_flag (flagged : List ℕ) (cols : List Column) :
    (flag flagged cols).length = cols.length := List.length_mapIdx

/-- The flags leave the columns where they are. -/
theorem map_flag (flagged : List ℕ) (cols : List Column) :
    (flag flagged cols).map (fun col => (col.offset, col.len)) =
      cols.map fun col => (col.offset, col.len) := by
  apply List.ext_getElem?
  intro i
  rw [List.getElem?_map, List.getElem?_map, getElem?_flag, Option.map_map]
  congr 1
  funext col
  rw [Function.comp_apply]
  split <;> rfl

theorem Contiguous.congr : ∀ {cols cols' : List Column} {offset : ℕ}, Contiguous offset cols →
    cols'.map (fun col => (col.offset, col.len)) = cols.map (fun col => (col.offset, col.len)) →
    Contiguous offset cols'
  | [], [], _, _, _ => trivial
  | [], _ :: _, _, _, same => by cases same
  | _ :: _, [], _, _, same => by cases same
  | first :: rest, first' :: rest', offset, laid, same => by
      obtain ⟨here, later⟩ := List.cons.inj same
      obtain ⟨place, len⟩ := Prod.mk.inj here
      refine ⟨place.trans laid.1, ?_⟩
      rw [len]
      exact laid.2.congr later

/-! ## The keys -/

section Keys

variable {kdb : ℕ → Byte} {cols : List Column}

/-- Components that are apart have no column in common. -/
theorem nodup_componentColumns {comps : List (ℕ × ℕ)}
    (apart : comps.Pairwise fun first second =>
      first.1 + first.2 ≤ second.1 ∨ second.1 + second.2 ≤ first.1) :
    (componentColumns cols comps).Nodup := by
  unfold componentColumns
  rw [List.nodup_flatMap]
  refine ⟨fun comp _ => List.nodup_range.filter _, apart.imp ?_⟩
  intro first second apart p inFirst inSecond
  obtain ⟨col, here, starts, ends⟩ := mem_columnsOf.mp inFirst
  obtain ⟨col', here', starts', ends'⟩ := mem_columnsOf.mp inSecond
  obtain rfl := Option.some.inj (here.symm.trans here')
  have positive := col.len_pos
  unfold asRange at starts ends starts' ends'
  dsimp only at starts ends starts' ends'
  omega

theorem mem_componentColumns_lt {comps : List (ℕ × ℕ)} {p : ℕ}
    (member : p ∈ componentColumns cols comps) : p < cols.length := by
  obtain ⟨comp, _, within⟩ := List.mem_flatMap.mp member
  exact List.mem_range.mp (List.mem_filter.mp within).1

/-- `getkeys` flags the columns of the primary key and no others. -/
theorem FileDeclared.flags (declared : FileDeclared kdb cols) {cols' : List Column}
    {keys : List (List ℕ)} (got : getkeys kdb cols = .ok (cols', keys)) :
    ∃ flagged, cols' = flag flagged cols ∧
      ∀ i < cols.length, i ∈ flagged ↔ i ∈ componentColumns cols (definedComponents kdb 0) := by
  have key := declared.keys.key 0 declared.primary
  have comps := key.components_eq (declared.fit 0 declared.primary).2
  obtain ⟨flagged, taken, made, rfl, _⟩ := getkeys_first declared.primary got
  have aligned : ∀ comp ∈ components kdb 0, OnBoundaries cols comp := by
    rw [comps]
    intro comp member
    obtain ⟨given, among, rfl⟩ := List.mem_map.mp member
    exact key.covers given among
  obtain ⟨flagged', taken', made', within, split, single⟩ := getkey_spec declared.keys.laid aligned
  obtain ⟨rfl, rfl⟩ := Prod.mk.inj (Except.ok.inj (made.symm.trans made'))
  have member : ∀ i, i ∈ taken ↔ i ∈ componentColumns cols (definedComponents kdb 0) := by
    intro i
    rw [within, comps]
    unfold componentColumns
    simp only [List.mem_map, exists_exists_and_eq_and, List.mem_flatMap, mem_columnsOf]
  refine ⟨flagged, rfl, fun i inside => ?_⟩
  rw [← member]
  by_cases one : (components kdb 0).length = 1
  · -- the only component is at the start, so that no column comes before it
    obtain ⟨comp, only⟩ := List.length_eq_one_iff.mp one
    have start : comp.1 = 0 := by
      rw [comps, List.length_map] at one
      obtain ⟨given, among, rfl⟩ := List.mem_map.mp (by
        rw [← comps, only]
        exact List.mem_singleton_self comp)
      exact declared.leading one given among
    rw [single comp only, within, only]
    simp only [List.mem_singleton, exists_eq_left]
    unfold Within
    refine ⟨?_, fun ⟨col, here, _, ends⟩ => ⟨col, here, ends⟩⟩
    intro ⟨col, here, ends⟩
    refine ⟨col, here, ?_, ends⟩
    rw [start]
    exact Nat.zero_le _
  · rw [split one]

/-- The columns and the keys that `getkeys` finds are those of an indexed file, and its keys are the
bytes of their components. -/
theorem FileDeclared.keyed (declared : FileDeclared kdb cols)
    (fresh : ∀ col ∈ cols, col.pk = false) :
    ∃ cols' keys, getkeys kdb cols = .ok (cols', keys) ∧
      ∀ {tab : Table}, tab.columns = cols' → tab.keys = keys →
        tab.bufs.length = maxCols * rowSize → tab.readPrepared = (fun _ => none) →
        KeyedTable tab ∧ ∀ k < getshort kdb 6, ∀ record,
          tab.keyOf k record = componentBytes (definedComponents kdb k) record := by
  obtain ⟨cols', keys, got, count, each⟩ := getkeys_matches declared.keys declared.fit
  obtain ⟨flagged, rfl, flags⟩ := declared.flags got
  refine ⟨_, keys, got, ?_⟩
  intro tab columns keys' size unprepared
  have laid := declared.keys.laid
  have column : ∀ {i : ℕ}, i < cols.length →
      tab.column i = { cols.getD i noColumn with pk := decide (i ∈ flagged) } := by
    intro i inside
    unfold Table.column
    rw [columns]
    exact getD_flag fresh inside
  have whereColumns' : ∀ {k : ℕ}, k < getshort kdb 6 →
      whereColumns tab.keys k = componentColumns cols (definedComponents kdb k) := by
    intro k among
    unfold whereColumns
    rw [keys', List.getD_eq_getElem?_getD, (each k among).columns, Option.getD_some]
  have length : tab.columns.length = cols.length := by
    rw [columns, length_flag]
  refine ⟨?_, ?_⟩
  · refine
      { laid := ?_, few := ?_, short := ?_, size := size, count := ?_, primary := ?_, keys := ?_,
        once := ?_, flags := ?_, whole := ?_, prepared := ?_ }
    · rw [columns]
      exact laid.congr (map_flag flagged cols)
    · rw [length]
      exact declared.few
    · rw [columns]
      intro col member
      have place : (col.offset, col.len) ∈ cols.map fun col => (col.offset, col.len) := by
        rw [← map_flag flagged cols]
        exact List.mem_map_of_mem member
      obtain ⟨plain, among, same⟩ := List.mem_map.mp place
      rw [← (Prod.mk.inj same).2]
      exact declared.short plain among
    · rw [keys', count]
      exact declared.count
    · rw [keys', count]
      exact declared.primary
    · rw [keys']
      intro taken member
      obtain ⟨k, known⟩ := List.mem_iff_getElem?.mp member
      have among : k < getshort kdb 6 := by
        rw [← count]
        exact (List.getElem?_eq_some_iff.mp known).1
      have key := declared.keys.key k among
      obtain rfl := Option.some.inj ((each k among).columns.symm.trans known)
      refine ⟨?_, key.few, ?_, ?_⟩
      · have some_ := length_le_componentColumns laid key.covers
        unfold definedComponents at some_
        rw [List.length_map, List.length_range] at some_
        exact List.ne_nil_of_length_pos (key.nonempty.trans_le some_)
      · intro i among'
        rw [length]
        exact mem_componentColumns_lt among'
      · have total : ((componentColumns cols (definedComponents kdb k)).map fun i =>
            (tab.column i).len) = (componentColumns cols (definedComponents kdb k)).map fun i =>
              (cols.getD i noColumn).len := by
          apply List.map_congr_left
          intro i among'
          rw [column (mem_componentColumns_lt among')]
        rw [total, componentColumns_len laid key.covers]
        exact key.short
    · rw [whereColumns' declared.primary]
      exact nodup_componentColumns declared.apart
    · intro i inside
      rw [length] at inside
      rw [column inside, whereColumns' declared.primary, ← flags i inside]
      exact decide_eq_true_iff
    · rw [whereColumns' declared.primary]
      intro i member
      rw [column (mem_componentColumns_lt member)]
      exact declared.whole i member
    · rw [unprepared]
      exact nofun
  · intro k among record
    unfold Table.keyOf
    rw [whereColumns' among, ← componentColumns_slices laid (declared.keys.key k among).covers]
    apply List.flatMap_congr
    intro i member
    rw [column (mem_componentColumns_lt member)]

end Keys

/-! ## OPEN -/

/-- An OPEN of a file that is kept in the database makes a table that can be used as an indexed
file, and whose keys are the bytes that the program declared. The other tables stay as they are. -/
theorem opens_declared (env : Env) (kind : OpenKind) (buffers : Buffers) (proc : Process)
    (fcd : Fcd) (cols : List Column) (size : buffers.bufs.length = maxCols * rowSize)
    (closed : fcd.openMode = 128) (kept : fcd.isam = false)
    (short : (baseName fcd.fileName).length ≤ maxPrefixo)
    (converted : env.convertida (env.nomeDicionario (baseName fcd.fileName)) = true)
    (running : proc.conn.aborted = false)
    (present : (proc.conn.working (env.pg.relation (baseName fcd.fileName))).isSome)
    (laid : layColumns fcd.record.length 0
      (env.pg.catalog (env.pg.relation (baseName fcd.fileName))) = .ok cols)
    (declared : FileDeclared fcd.kdb cols) :
    ∃ proc' tab, opOpen env kind buffers proc fcd = .ok (proc', { fcd with
        fileId := proc.free, openMode := kind.number, status := stOk, sign := true }) ∧
      proc'.tables = Function.update proc.tables proc.free (some tab) ∧ KeyedTable tab ∧
      ∀ k < getshort fcd.kdb 6, ∀ record,
        tab.keyOf k record = componentBytes (definedComponents fcd.kdb k) record := by
  obtain ⟨cols', keys, got, keyed⟩ := declared.keyed (layColumns_fresh laid)
  have some_ : cols ≠ [] := by
    have key := declared.keys.key 0 declared.primary
    have components : 0 < (definedComponents fcd.kdb 0).length := by
      unfold definedComponents
      rw [List.length_map, List.length_range]
      exact key.nonempty
    obtain ⟨comp, member⟩ := List.exists_mem_of_length_pos components
    obtain ⟨_, ⟨col, among, _⟩, _⟩ := key.covers comp member
    exact List.ne_nil_of_mem among
  have found : tableInfo env proc.conn { fcd with fileId := proc.free } (baseName fcd.fileName) =
      .ok (.found cols' keys) := by
    unfold tableInfo
    rw [if_neg (Nat.not_lt.mpr short), converted, running, Option.isNone_eq_false_iff.mpr present]
    dsimp only
    rw [laid, ok_bind, if_neg some_, got]
    rfl
  exact ⟨_, _, opOpen_found closed kept short found, rfl, keyed rfl rfl size rfl⟩

/-- The columns that the catalog has of the people. -/
def peopleColumns : List Column := peopleTable.columns.map fun col => { col with pk := false }

theorem peopleKey_declared : ∀ k < 2, KeyDefined peopleKeys peopleColumns k ∧
    NumbersFit peopleKeys k
  | 0, _ => ⟨⟨by decide, by decide, by decide, by decide, by decide⟩, by decide, by decide⟩
  | 1, _ => ⟨⟨by decide, by decide, by decide, by decide, by decide⟩, by decide, by decide⟩

theorem people_declared : FileDeclared peopleKeys peopleColumns where
  keys := ⟨by decide, by decide, fun k among => (peopleKey_declared k among).1⟩
  fit := fun k among => (peopleKey_declared k among).2
  primary := by decide
  count := by decide
  few := by decide
  short := by decide
  apart := by decide
  leading := by decide
  whole := by decide

/-- OPEN I-O of the people. -/
theorem opens_declared_people : ∃ proc' tab,
    opOpen peopleServer .io (clearBuffers maxCols) peopleShut.proc shutFcd = .ok (proc',
      { shutFcd with fileId := 1, openMode := 2, status := stOk, sign := true }) ∧
    proc'.tables = Function.update (fun _ => none) 1 (some tab) ∧ KeyedTable tab ∧
      ∀ k < 2, ∀ record,
        tab.keyOf k record = componentBytes (definedComponents peopleKeys k) record :=
  opens_declared peopleServer .io (clearBuffers maxCols) peopleShut.proc shutFcd peopleColumns
    List.length_replicate rfl rfl (Nat.zero_le _) rfl rfl rfl rfl people_declared

end Pqfh
