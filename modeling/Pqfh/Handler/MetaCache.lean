import Pqfh.Handler.Bulk

/-! # The cache of the catalog

`table_info` asks the catalog for the columns of a table once and keeps the answer, also that
there is no table. `create_table` removes it; DELETE FILE and COPY do not, and a transaction that
failed answers nothing while the cache does. In a run in which these are avoided every call of
`table_info` answers as the catalog would (`Pqfh.cache_coherent`).
-/

namespace Pqfh

/-! ## The catalog -/

/-- What the catalog has of a table. -/
structure TableDesc where
  oid : ℕ
  schema : List Byte
  columns : List CatalogColumn

/-- The tables by their names. -/
abbrev Tables := List Byte → Option TableDesc

/-- The catalog as the transaction of the process sees it. -/
structure Catalog where
  committed : Tables
  working : Tables
  aborted : Bool

/-- What the server answers to the statements about tables: the table that a CREATE makes, if it
is accepted, and what it refuses. -/
structure CatalogServer where
  inherited : Tables → List Byte → List Byte → Option TableDesc
  copied : Tables → List Byte → List Byte → Option TableDesc
  refusesDrop : Tables → List Byte → Bool
  refusesTruncate : Tables → List Byte → Bool
  /-- All indexes of the dictionary's table can be made for the new one. -/
  indexed : Tables → List Byte → List Byte → Bool

/-- Execute a statement that makes these tables of the working ones, or fails. -/
def Catalog.change (catalog : Catalog) (made : Option Tables) : Catalog × Bool :=
  if catalog.aborted then (catalog, false)
  else
    match made with
    | none => ({ catalog with aborted := true }, false)
    | some working => ({ catalog with working := working }, true)

def Catalog.commit (catalog : Catalog) : Catalog :=
  if catalog.aborted then { catalog with working := catalog.committed, aborted := false }
  else { catalog with committed := catalog.working }

/-- Whether `get_schema` finds a table. -/
def Catalog.sees (catalog : Catalog) (name : List Byte) : Bool :=
  !catalog.aborted && (catalog.working name).isSome

def dropped (server : CatalogServer) (name : List Byte) (tables : Tables) : Option Tables :=
  if (tables name).isSome && !server.refusesDrop tables name then
    some (Function.update tables name none)
  else none

def truncated (server : CatalogServer) (name : List Byte) (tables : Tables) : Option Tables :=
  if (tables name).isSome && !server.refusesTruncate tables name then some tables else none

/-- A new table, with what the server answers to its CREATE. -/
def created (answer : Option TableDesc) (name source : List Byte) (tables : Tables) :
    Option Tables :=
  if (tables name).isNone && (tables source).isSome then
    answer.map fun desc => Function.update tables name (some desc)
  else none

/-! ## table_info -/

/-- What `table_info` fills in: its result, the flag `isam`, and the table. -/
structure Info where
  found : Bool
  isam : Bool
  columns : List Column
  keys : List (List ℕ)
  oid : ℕ
  schema : List Byte
  deriving DecidableEq

/-- The answer for a table that is not kept in the database. -/
def Info.elsewhere : Info := ⟨false, true, [], [], 0, []⟩

/-- The answer for a table without columns. -/
def Info.missing (oid : ℕ) : Info := ⟨false, false, [], [], oid, []⟩

/-- An entry of the cache, as `cache_put` makes it of a table. -/
structure CacheEntry where
  name : List Byte
  dictname : List Byte
  convertida : Bool
  columns : List Column
  keys : List (List ℕ)
  oid : ℕ
  schema : List Byte

/-- The answer of `table_info` for a table in the cache. -/
def CacheEntry.info (entry : CacheEntry) : Info :=
  if !entry.convertida then .elsewhere
  else if entry.columns = [] then .missing entry.oid
  else ⟨true, false, entry.columns, entry.keys, entry.oid, entry.schema⟩

/-- The entry of a table that was just asked for. -/
def Info.entry (info : Info) (env : Env) (name : List Byte) : CacheEntry :=
  ⟨name, env.nomeDicionario name, true, info.columns, info.keys, info.oid, info.schema⟩

/-- `cache_get`. The entry made last comes first. -/
def cacheGet (cache : List CacheEntry) (name : List Byte) : Option CacheEntry :=
  cache.find? (·.name = name)

/-- `cache_remove`. -/
def cacheRemove (cache : List CacheEntry) (name : List Byte) : List CacheEntry :=
  cache.eraseP (·.name = name)

/-- The handler and the server, with the record length and the key definition block that every
OPEN of a table comes with. -/
structure MetaSetting where
  env : Env
  server : CatalogServer
  reclen : List Byte → ℕ
  kdb : List Byte → ℕ → Byte

/-- What `table_info` reads in the catalog of a transaction that has not failed. -/
def readCatalog (setting : MetaSetting) (tables : Tables) (name : List Byte) : Except Stop Info :=
  match tables name with
  | none => .ok (.missing 0)
  | some desc => do
      let columns ← layColumns (setting.reclen name) 0 desc.columns
      if columns = [] then return .missing desc.oid
      else
        let (columns, keys) ← getkeys (setting.kdb name) columns
        return ⟨true, false, columns, keys, desc.oid, desc.schema⟩

/-- `table_info` without the cache. -/
def directInfo (setting : MetaSetting) (catalog : Catalog) (name : List Byte) : Except Stop Info :=
  if maxPrefixo < name.length then .error .undefined
  else if !setting.env.convertida (setting.env.nomeDicionario name) then .ok .elsewhere
  else if catalog.aborted then .ok (.missing 0)
  else readCatalog setting catalog.working name

/-- Whether `table_info` comes to the end, where it puts the table into the cache. -/
def putsEntry (setting : MetaSetting) (catalog : Catalog) (name : List Byte) : Bool :=
  setting.env.convertida (setting.env.nomeDicionario name) && !catalog.aborted

/-- A call of `table_info`: its answer, and the one without the cache. -/
structure InfoCall where
  name : List Byte
  through : Info
  direct : Except Stop Info

/-- The catalog, the cache, and the calls of `table_info` so far. -/
structure Meta where
  catalog : Catalog
  cache : List CacheEntry
  calls : List InfoCall

/-- `table_info` with the cache. -/
def Meta.tableInfo (setting : MetaSetting) (name : List Byte) (st : Meta) :
    Except Stop (Info × Meta) :=
  let direct := directInfo setting st.catalog name
  match cacheGet st.cache name with
  | some entry =>
      .ok (entry.info, { st with calls := st.calls ++ [⟨name, entry.info, direct⟩] })
  | none => do
      let info ← direct
      return (info, { st with
        cache := if putsEntry setting st.catalog name then info.entry setting.env name :: st.cache
          else st.cache
        calls := st.calls ++ [⟨name, info, direct⟩] })

/-! ## The operations -/

/-- `create_table`, which removes the table from the cache first. A refused index ends in freeing
its result twice. -/
def Meta.createTable (setting : MetaSetting) (dictname name : List Byte) (st : Meta) :
    Except Stop Meta :=
  let removed := { st with cache := cacheRemove st.cache name }
  match st.catalog.change (created (setting.server.inherited st.catalog.working dictname name)
      name dictname st.catalog.working) with
  | (catalog, false) => .ok { removed with catalog := catalog }
  | (catalog, true) =>
      if setting.server.indexed catalog.working dictname name then
        .ok { removed with catalog := catalog.commit }
      else .error .undefined

/-- `op_open` of a closed file, with the flag `isam` not set. -/
def Meta.opOpen (setting : MetaSetting) (kind : OpenKind) (name : List Byte) (st : Meta) :
    Except Stop Meta := do
  let (info, st) ← st.tableInfo setting name
  if info.found then
    return if kind = .output then { st with
      catalog := (st.catalog.change (truncated setting.server name st.catalog.working)).1 }
    else st
  else if !info.isam && kind ≠ .input && name ≠ setting.env.nomeDicionario name then do
    let st ← st.createTable setting (setting.env.nomeDicionario name) name
    let (_, st) ← st.tableInfo setting name
    return st
  else return st

/-- `op_delete_file` of a closed file. -/
def Meta.opDeleteFile (setting : MetaSetting) (name : List Byte) (st : Meta) :
    Except Stop Meta := do
  let (info, st) ← st.tableInfo setting name
  if info.found then
    match st.catalog.change (dropped setting.server name st.catalog.working) with
    | (catalog, false) => return { st with catalog := catalog }
    | (catalog, true) => return { st with catalog := catalog.commit }
  else return st

/-- The part of `copy_table` after the destination was dropped. -/
def Catalog.createCopy (server : CatalogServer) (source dest : List Byte) (catalog : Catalog) :
    Catalog :=
  if catalog.sees source then
    match catalog.change (created (server.copied catalog.working source dest) dest source
        catalog.working) with
    | (catalog, false) => catalog
    | (catalog, true) => catalog.commit
  else catalog

/-- `copy_table` on the names without directories. -/
def Catalog.copyTable (server : CatalogServer) (source dest : List Byte) (catalog : Catalog) :
    Catalog :=
  if catalog.sees dest then
    match catalog.change (dropped server dest catalog.working) with
    | (catalog, false) => catalog
    | (catalog, true) => catalog.createCopy server source dest
  else catalog.createCopy server source dest

/-- What the process does with tables. COPY ends with the commit of `command`. -/
inductive MetaStep where
  | openFile (kind : OpenKind) (name : List Byte)
  | deleteFile (name : List Byte)
  | copy (source dest : List Byte)
  | commit

def MetaStep.take (setting : MetaSetting) (st : Meta) : MetaStep → Except Stop Meta
  | .openFile kind name => st.opOpen setting kind name
  | .deleteFile name => st.opDeleteFile setting name
  | .copy source dest => .ok { st with
      catalog := (st.catalog.copyTable setting.server source dest).commit }
  | .commit => .ok { st with catalog := st.catalog.commit }

/-- Runs of steps that meet a condition, of a process that begins with an empty cache. -/
inductive MetaRun (setting : MetaSetting) (condition : MetaStep → Meta → Prop) : Meta → Prop where
  | start (tables : Tables) : MetaRun setting condition ⟨⟨tables, tables, false⟩, [], []⟩
  | step {st st' : Meta} {step : MetaStep} (run : MetaRun setting condition st)
      (meets : condition step st) (took : step.take setting st = .ok st') :
      MetaRun setting condition st'

/-! ## What an entry of the cache says -/

/-- Reading the keys adds no column and takes none away. -/
theorem getkeys_length {kdb : ℕ → Byte} {cols cols' : List Column} {keys : List (List ℕ)}
    (got : getkeys kdb cols = .ok (cols', keys)) : cols'.length = cols.length := by
  unfold getkeys at got
  obtain ⟨found, _, got⟩ := bind_eq_ok.mp got
  cases got
  split
  · rfl
  · unfold flag
    rw [List.length_mapIdx]

/-- The entry that is put for an answer gives the answer. -/
theorem info_entry_readCatalog {setting : MetaSetting} {tables : Tables} {name : List Byte}
    {info : Info} (read : readCatalog setting tables name = .ok info) :
    (info.entry setting.env name).info = info := by
  unfold readCatalog at read
  split at read
  · cases read
    rfl
  · obtain ⟨columns, _, read⟩ := bind_eq_ok.mp read
    split at read
    · cases read
      rfl
    · rename_i some
      obtain ⟨⟨columns', keys⟩, got, read⟩ := bind_eq_ok.mp read
      cases read
      have some' : columns' ≠ [] := by
        rw [ne_eq, ← List.length_eq_zero_iff, getkeys_length got, List.length_eq_zero_iff]
        exact some
      unfold Info.entry CacheEntry.info
      simp only [Bool.not_true, Bool.false_eq_true, ↓reduceIte, some']

/-- An answer is put into the cache only when it was read in the catalog. -/
theorem directInfo_puts {setting : MetaSetting} {catalog : Catalog} {name : List Byte} {info : Info}
    (direct : directInfo setting catalog name = .ok info)
    (puts : putsEntry setting catalog name = true) :
    catalog.aborted = false ∧ readCatalog setting catalog.working name = .ok info := by
  unfold putsEntry at puts
  rw [Bool.and_eq_true, Bool.not_eq_true'] at puts
  obtain ⟨converted, running⟩ := puts
  unfold directInfo at direct
  split at direct
  · cases direct
  · rw [converted, running] at direct
    exact ⟨running, direct⟩

/-- What the catalog of a transaction that has not failed answers. -/
def Tables.answer (setting : MetaSetting) (tables : Tables) (name : List Byte) : Except Stop Info :=
  directInfo setting ⟨tables, tables, false⟩ name

/-- Outside of an aborted transaction the catalog gives the answer. -/
theorem directInfo_running {setting : MetaSetting} {catalog : Catalog} {name : List Byte}
    (running : catalog.aborted = false) :
    directInfo setting catalog name = Tables.answer setting catalog.working name := by
  unfold Tables.answer directInfo
  rw [running]

/-- The answer for a table depends on what the catalog has of it. -/
theorem answer_congr {setting : MetaSetting} {tables tables' : Tables} {name : List Byte}
    (same : tables' name = tables name) :
    Tables.answer setting tables' name = Tables.answer setting tables name := by
  unfold Tables.answer directInfo readCatalog
  dsimp only
  rw [same]

/-! ## Coherence -/

/-- The cache answers as the catalog does, and so it did in every call. -/
structure CacheOk (setting : MetaSetting) (st : Meta) : Prop where
  settled : st.catalog.committed = st.catalog.working
  once : (st.cache.map CacheEntry.name).Nodup
  entries : ∀ entry ∈ st.cache, Tables.answer setting st.catalog.working entry.name = .ok entry.info
  calls : ∀ call ∈ st.calls, call.direct = .ok call.through

/-- Nothing is found exactly when no entry has the name. -/
theorem cacheGet_eq_none {cache : List CacheEntry} {name : List Byte} :
    cacheGet cache name = none ↔ name ∉ cache.map CacheEntry.name := by
  unfold cacheGet
  simp [List.find?_eq_none, List.mem_map]

/-- What is found is an entry of that name. -/
theorem cacheGet_eq_some {cache : List CacheEntry} {name : List Byte} {entry : CacheEntry}
    (got : cacheGet cache name = some entry) : entry ∈ cache ∧ entry.name = name := by
  unfold cacheGet at got
  exact ⟨List.mem_of_find?_eq_some got, by simpa using List.find?_some got⟩

/-- After its removal a table is not in the cache. -/
theorem notMem_cacheRemove {cache : List CacheEntry} (name : List Byte)
    (once : (cache.map CacheEntry.name).Nodup) :
    name ∉ (cacheRemove cache name).map CacheEntry.name := by
  unfold cacheRemove
  induction cache with
  | nil => exact List.not_mem_nil
  | cons entry rest ih =>
      rw [List.map_cons, List.nodup_cons] at once
      by_cases same : entry.name = name
      · rw [List.eraseP_cons_of_pos (by simpa using same), ← same]
        exact once.1
      · rw [List.eraseP_cons_of_neg (by simpa using same), List.map_cons, List.mem_cons, not_or]
        exact ⟨Ne.symm same, ih once.2⟩

/-- A cache without one of its entries is coherent still. -/
theorem CacheOk.removed {setting : MetaSetting} {st : Meta} (ok : CacheOk setting st)
    (name : List Byte) : CacheOk setting { st with cache := cacheRemove st.cache name } where
  settled := ok.settled
  once := ok.once.sublist (List.Sublist.map _ List.eraseP_sublist)
  entries entry member := ok.entries entry (List.mem_of_mem_eraseP member)
  calls := ok.calls

/-- The catalog may change where nothing is cached. -/
theorem CacheOk.moved {setting : MetaSetting} {st : Meta} (ok : CacheOk setting st)
    {catalog : Catalog} (settled : catalog.committed = catalog.working)
    (same : ∀ entry ∈ st.cache, catalog.working entry.name = st.catalog.working entry.name) :
    CacheOk setting { st with catalog := catalog } where
  settled := settled
  once := ok.once
  entries entry member := by
    rw [answer_congr (same entry member)]
    exact ok.entries entry member
  calls := ok.calls

/-- A call of `table_info` answers as the catalog does when the transaction has not failed or the
table is not in the cache. -/
theorem CacheOk.tableInfo {setting : MetaSetting} {st st' : Meta} {name : List Byte} {info : Info}
    (ok : CacheOk setting st)
    (reached : st.catalog.aborted = true → cacheGet st.cache name = none)
    (answered : st.tableInfo setting name = .ok (info, st')) :
    CacheOk setting st' ∧ st'.catalog = st.catalog ∧
      directInfo setting st.catalog name = .ok info := by
  unfold Meta.tableInfo at answered
  dsimp only at answered
  split at answered
  · rename_i entry got
    cases answered
    obtain ⟨member, rfl⟩ := cacheGet_eq_some got
    have running : st.catalog.aborted = false := by
      by_contra aborted
      rw [reached (Bool.not_eq_false _ ▸ aborted)] at got
      cases got
    have direct := ok.entries entry member
    rw [← directInfo_running running] at direct
    refine ⟨⟨ok.settled, ok.once, ok.entries, ?_⟩, rfl, direct⟩
    intro call called
    rcases List.mem_append.mp called with before | last
    · exact ok.calls call before
    · rw [List.mem_singleton] at last
      rw [last]
      exact direct
  · rename_i absent
    obtain ⟨info', direct, answered⟩ := bind_eq_ok.mp answered
    cases answered
    have calls : ∀ call ∈ st.calls ++ [⟨name, info, directInfo setting st.catalog name⟩],
        call.direct = .ok call.through := by
      intro call called
      rcases List.mem_append.mp called with before | last
      · exact ok.calls call before
      · rw [List.mem_singleton] at last
        rw [last]
        exact direct
    refine ⟨?_, rfl, direct⟩
    split
    · rename_i puts
      obtain ⟨running, read⟩ := directInfo_puts direct puts
      refine ⟨ok.settled, ?_, ?_, calls⟩
      · rw [List.map_cons, List.nodup_cons]
        exact ⟨cacheGet_eq_none.mp absent, ok.once⟩
      · rw [List.forall_mem_cons]
        refine ⟨?_, ok.entries⟩
        rw [info_entry_readCatalog read, ← directInfo_running running]
        exact direct
    · exact ⟨ok.settled, ok.once, ok.entries, calls⟩

/-! ## One step -/

/-- A commit makes what was done the committed tables. -/
theorem Catalog.settled_commit (catalog : Catalog) :
    catalog.commit.committed = catalog.commit.working := by
  unfold Catalog.commit
  split <;> rfl

/-- A commit of nothing changes no table. -/
theorem Catalog.working_commit {catalog : Catalog} (settled : catalog.committed = catalog.working) :
    catalog.commit.working = catalog.working := by
  unfold Catalog.commit
  split
  · exact settled
  · rfl

/-- A statement that failed leaves the tables as they were. -/
theorem Catalog.change_false {catalog catalog' : Catalog} {made : Option Tables}
    (failed : catalog.change made = (catalog', false)) :
    catalog'.working = catalog.working ∧ catalog'.committed = catalog.committed := by
  unfold Catalog.change at failed
  split at failed
  · cases failed
    exact ⟨rfl, rfl⟩
  · split at failed
    · cases failed
      exact ⟨rfl, rfl⟩
    · cases failed

/-- A change that was made ran outside of an aborted transaction. -/
theorem Catalog.change_true {catalog catalog' : Catalog} {made : Option Tables}
    (done : catalog.change made = (catalog', true)) :
    catalog.aborted = false ∧ ∃ working, made = some working ∧
      catalog' = { catalog with working := working } := by
  unfold Catalog.change at done
  split at done
  · cases done
  · rename_i running
    split at done
    · cases done
    · rename_i working
      cases done
      exact ⟨Bool.eq_false_iff.mpr running, working, rfl, rfl⟩

/-- A new table is the only change of a CREATE. -/
theorem created_of_ne {answer : Option TableDesc} {name source other : List Byte}
    {tables working : Tables} (made : created answer name source tables = some working)
    (different : other ≠ name) : working other = tables other := by
  unfold created at made
  split at made
  · obtain ⟨desc, _, rfl⟩ := Option.map_eq_some_iff.mp made
    exact Function.update_of_ne different _ _
  · cases made

/-- A table that is made keeps the cache coherent. -/
theorem CacheOk.createTable {setting : MetaSetting} {st st' : Meta} {dictname name : List Byte}
    (ok : CacheOk setting st) (made : st.createTable setting dictname name = .ok st') :
    CacheOk setting st' ∧ cacheGet st'.cache name = none := by
  have removed := ok.removed name
  have absent := notMem_cacheRemove name ok.once
  unfold Meta.createTable at made
  dsimp only at made
  split at made
  · rename_i catalog failed
    cases made
    obtain ⟨working, committed⟩ := Catalog.change_false failed
    refine ⟨removed.moved (committed.trans (ok.settled.trans working.symm)) ?_,
      cacheGet_eq_none.mpr absent⟩
    intro entry _
    rw [working]
  · rename_i catalog done
    obtain ⟨running, working, table, rfl⟩ := Catalog.change_true done
    split at made
    · cases made
      refine ⟨removed.moved (Catalog.settled_commit _) ?_, cacheGet_eq_none.mpr absent⟩
      intro entry member
      have kept : ({ st.catalog with working := working } : Catalog).commit.working = working := by
        unfold Catalog.commit
        rw [if_neg (Bool.eq_false_iff.mp running)]
      rw [kept]
      apply created_of_ne table
      rintro rfl
      exact absent (List.mem_map_of_mem member)
    · cases made

/-- What a step may not do: ask for a cached table in a transaction that failed, drop a table, or
copy over a cached table. -/
def Catalog.drops (setting : MetaSetting) (catalog : Catalog) (name : List Byte) : Prop :=
  setting.env.convertida (setting.env.nomeDicionario name) = true ∧ catalog.aborted = false ∧
    0 < setting.reclen name ∧ setting.server.refusesDrop catalog.working name = false ∧
    ∃ desc, catalog.working name = some desc ∧ desc.columns ≠ []

/-- COPY leaves another destination than it found. -/
def Catalog.copies (server : CatalogServer) (catalog : Catalog) (source dest : List Byte) : Bool :=
  let free := Function.update catalog.working dest none
  !catalog.aborted &&
    if (catalog.working dest).isSome then
      !server.refusesDrop catalog.working dest &&
        ((free source).isNone || (server.copied free source dest).isSome)
    else (catalog.working source).isSome && (server.copied catalog.working source dest).isSome

def MetaStep.Careful (setting : MetaSetting) (step : MetaStep) (st : Meta) : Prop :=
  match step with
  | .openFile _ name => st.catalog.aborted = true → cacheGet st.cache name = none
  | .deleteFile name => (st.catalog.aborted = true → cacheGet st.cache name = none) ∧
      ¬ st.catalog.drops setting name
  | .copy source dest => cacheGet st.cache dest = none ∨
      st.catalog.copies setting.server source dest = false
  | .commit => True

/-- OPEN keeps the cache coherent. -/
theorem CacheOk.openFile {setting : MetaSetting} {st st' : Meta} {kind : OpenKind}
    {name : List Byte} (ok : CacheOk setting st)
    (careful : (MetaStep.openFile kind name).Careful setting st)
    (opened : st.opOpen setting kind name = .ok st') : CacheOk setting st' := by
  unfold Meta.opOpen at opened
  obtain ⟨⟨info, st₁⟩, answered, opened⟩ := bind_eq_ok.mp opened
  obtain ⟨ok₁, _, _⟩ := ok.tableInfo careful answered
  dsimp only at opened
  split at opened
  · cases opened
    split
    · -- TRUNCATE leaves the tables, and may fail
      have same : ∀ made, (∀ working, made = some working → working = st₁.catalog.working) →
          (st₁.catalog.change made).1.working = st₁.catalog.working ∧
            (st₁.catalog.change made).1.committed = st₁.catalog.committed := by
        intro made tables
        cases changed : st₁.catalog.change made with
        | mk catalog done =>
            cases done with
            | false => exact Catalog.change_false changed
            | true =>
                obtain ⟨_, working, known, rfl⟩ := Catalog.change_true changed
                exact ⟨tables working known, rfl⟩
      obtain ⟨working, committed⟩ := same (truncated setting.server name st₁.catalog.working) (by
        intro working known
        unfold truncated at known
        split at known
        · exact (Option.some.inj known).symm
        · cases known)
      refine ok₁.moved (committed.trans (ok₁.settled.trans working.symm)) ?_
      intro entry _
      rw [working]
    · exact ok₁
  · split at opened
    · obtain ⟨st₂, made, opened⟩ := bind_eq_ok.mp opened
      obtain ⟨⟨info', st₃⟩, again, opened⟩ := bind_eq_ok.mp opened
      obtain ⟨ok₂, absent⟩ := ok₁.createTable made
      cases opened
      exact (ok₂.tableInfo (fun _ => absent) again).1
    · cases opened
      exact ok₁

/-- A table that `table_info` found can be dropped. -/
theorem found_table {setting : MetaSetting} {catalog : Catalog} {name : List Byte} {info : Info}
    (direct : directInfo setting catalog name = .ok info) (found : info.found = true) :
    setting.env.convertida (setting.env.nomeDicionario name) = true ∧ catalog.aborted = false ∧
      0 < setting.reclen name ∧ ∃ desc, catalog.working name = some desc ∧ desc.columns ≠ [] := by
  unfold directInfo at direct
  split at direct
  · cases direct
  · split at direct
    · cases direct
      cases found
    · rename_i converted
      split at direct
      · cases direct
        cases found
      · rename_i running
        unfold readCatalog at direct
        split at direct
        · cases direct
          cases found
        · rename_i desc present
          obtain ⟨columns, laid, direct⟩ := bind_eq_ok.mp direct
          split at direct
          · cases direct
            cases found
          · rename_i some
            refine ⟨by simpa using converted, Bool.eq_false_iff.mpr running, ?_, desc, present, ?_⟩
            · by_contra short
              rw [Nat.eq_zero_of_not_pos short] at laid
              exact some (layColumns_past laid (Nat.zero_le _))
            · intro none
              rw [none] at laid
              cases laid
              exact some rfl

/-- DELETE FILE keeps the cache coherent. -/
theorem CacheOk.deleteFile {setting : MetaSetting} {st st' : Meta} {name : List Byte}
    (ok : CacheOk setting st) (careful : (MetaStep.deleteFile name).Careful setting st)
    (deleted : st.opDeleteFile setting name = .ok st') : CacheOk setting st' := by
  unfold Meta.opDeleteFile at deleted
  obtain ⟨⟨info, st₁⟩, answered, deleted⟩ := bind_eq_ok.mp deleted
  obtain ⟨ok₁, catalog₁, direct⟩ := ok.tableInfo careful.1 answered
  dsimp only at deleted
  split at deleted
  · rename_i found
    obtain ⟨converted, running, long, desc, present, some⟩ := found_table direct found
    rw [catalog₁] at deleted
    split at deleted
    · rename_i catalog failed
      cases deleted
      obtain ⟨working, committed⟩ := Catalog.change_false failed
      refine ok₁.moved (committed.trans (ok.settled.trans working.symm)) ?_
      intro entry _
      rw [working, catalog₁]
    · rename_i catalog done
      obtain ⟨_, working, gone, _⟩ := Catalog.change_true done
      unfold dropped at gone
      split at gone
      · rename_i accepted
        rw [Bool.and_eq_true, Bool.not_eq_true'] at accepted
        exact absurd ⟨converted, running, long, accepted.2, desc, present, some⟩ careful.2
      · cases gone
  · cases deleted
    exact ok₁

/-- The catalog after the part of COPY that creates the destination, and the commit. -/
theorem createCopy_commit {server : CatalogServer} {source dest : List Byte} (catalog : Catalog)
    (running : catalog.aborted = false) :
    (catalog.createCopy server source dest).commit.working =
      if (catalog.working source).isSome then
        (created (server.copied catalog.working source dest) dest source catalog.working).getD
          catalog.committed
      else catalog.working := by
  unfold Catalog.createCopy Catalog.sees
  rw [running, Bool.not_false, Bool.true_and]
  split
  · unfold Catalog.change
    rw [if_neg (Bool.eq_false_iff.mp running)]
    cases created (server.copied catalog.working source dest) dest source catalog.working with
    | none => rfl
    | some working =>
        dsimp only
        unfold Catalog.commit
        simp [running]
  · unfold Catalog.commit
    rw [if_neg (Bool.eq_false_iff.mp running)]

/-- What COPY and its commit leave of a catalog in which everything was committed. -/
theorem copyTable_commit (server : CatalogServer) (source dest : List Byte) {catalog : Catalog}
    (settled : catalog.committed = catalog.working) :
    (∀ name, name ≠ dest →
      (catalog.copyTable server source dest).commit.working name = catalog.working name) ∧
    (catalog.copies server source dest = false →
      (catalog.copyTable server source dest).commit.working = catalog.working) := by
  unfold Catalog.copyTable Catalog.copies
  cases aborted : catalog.aborted with
  | true =>
      have unseen : ∀ name, catalog.sees name = false := by
        intro name
        unfold Catalog.sees
        rw [aborted]
        rfl
      unfold Catalog.createCopy
      rw [unseen, unseen]
      have kept := Catalog.working_commit settled
      exact ⟨fun name _ => congrFun kept name, fun _ => kept⟩
  | false =>
      have sees : ∀ name, catalog.sees name = (catalog.working name).isSome := by
        intro name
        unfold Catalog.sees
        rw [aborted]
        rfl
      rw [sees]
      cases present : (catalog.working dest).isSome with
      | false =>
          rw [if_neg Bool.false_ne_true, createCopy_commit catalog aborted]
          have free : (catalog.working dest).isNone = true := by
            rw [← Option.not_isSome, present]
            rfl
          unfold created
          rw [free]
          cases there : (catalog.working source).isSome with
          | false => exact ⟨fun _ _ => rfl, fun _ => rfl⟩
          | true =>
              cases server.copied catalog.working source dest with
              | none =>
                  refine ⟨fun name _ => ?_, fun _ => ?_⟩ <;> simp [settled]
              | some desc =>
                  refine ⟨fun name different => ?_, fun impossible => ?_⟩
                  · exact Function.update_of_ne different _ _
                  · simp at impossible
      | true =>
          rw [if_pos rfl]
          unfold Catalog.change dropped
          rw [if_neg (Bool.eq_false_iff.mp aborted), present, Bool.true_and]
          cases server.refusesDrop catalog.working dest with
          | true =>
              have kept : ({ catalog with aborted := true } : Catalog).commit.working =
                  catalog.working := settled
              exact ⟨fun name _ => congrFun kept name, fun _ => kept⟩
          | false =>
              have free : (Function.update catalog.working dest none dest).isNone = true := by
                rw [Function.update_self]
                rfl
              have others : ∀ name, name ≠ dest →
                  Function.update catalog.working dest none name = catalog.working name :=
                fun name different => Function.update_of_ne different _ _
              simp only [Bool.not_false, ↓reduceIte]
              rw [createCopy_commit ⟨catalog.committed, Function.update catalog.working dest none,
                catalog.aborted⟩ aborted]
              dsimp only
              generalize Function.update catalog.working dest none = tables at free others ⊢
              unfold created
              rw [free]
              cases there : (tables source).isSome with
              | false =>
                  refine ⟨fun name different => ?_, fun impossible => ?_⟩
                  · exact others name different
                  · rw [← Option.not_isSome, there] at impossible
                    simp at impossible
              | true =>
                  cases server.copied tables source dest with
                  | none =>
                      refine ⟨fun name _ => ?_, fun _ => ?_⟩ <;> simp [settled]
                  | some desc =>
                      refine ⟨fun name different => ?_, fun impossible => ?_⟩
                      · exact (Function.update_of_ne different _ _).trans (others name different)
                      · simp at impossible

/-- COPY keeps the cache coherent. -/
theorem CacheOk.copy {setting : MetaSetting} {st : Meta} {source dest : List Byte}
    (ok : CacheOk setting st) (careful : (MetaStep.copy source dest).Careful setting st) :
    CacheOk setting { st with
      catalog := (st.catalog.copyTable setting.server source dest).commit } := by
  obtain ⟨others, whole⟩ := copyTable_commit setting.server source dest ok.settled
  apply ok.moved (Catalog.settled_commit _)
  intro entry member
  rcases careful with absent | unchanged
  · apply others
    rintro rfl
    exact cacheGet_eq_none.mp absent (List.mem_map_of_mem member)
  · rw [whole unchanged]

/-- Every careful step keeps the cache coherent. -/
theorem CacheOk.step {setting : MetaSetting} {st st' : Meta} {step : MetaStep}
    (ok : CacheOk setting st) (careful : step.Careful setting st)
    (took : step.take setting st = .ok st') : CacheOk setting st' := by
  cases step with
  | openFile kind name => exact ok.openFile careful took
  | deleteFile name => exact ok.deleteFile careful took
  | copy source dest =>
      cases took
      exact ok.copy careful
  | commit =>
      cases took
      apply ok.moved (Catalog.settled_commit _)
      intro entry _
      rw [Catalog.working_commit ok.settled]

/-- In a run in which no table is dropped, none in the cache is copied over, and none in the cache
is asked for in a transaction that failed, each call of `table_info` answers as it would without
the cache. -/
theorem cache_coherent (setting : MetaSetting) {st : Meta}
    (run : MetaRun setting (MetaStep.Careful setting) st) :
    ∀ call ∈ st.calls, call.direct = .ok call.through := by
  suffices ok : CacheOk setting st from ok.calls
  induction run with
  | start tables =>
      exact ⟨rfl, List.nodup_nil, fun _ => nofun, fun _ => nofun⟩
  | step _ careful took ok => exact ok.step careful took

/-- A catalog whose tables have a code of one digit, the key. -/
def codeSetting : MetaSetting where
  env := plainServer
  server := ⟨fun _ _ _ => none, fun _ _ _ => none, fun _ _ => false, fun _ _ => false,
    fun _ _ _ => true⟩
  reclen := fun _ => 1
  kdb := fun _ => singleKey 0 1

/-- The table `b` is there. -/
def codeTables : Tables := fun name =>
  if name = [98] then some ⟨7, [112], [⟨"codigo", .numeric 1 0 one_digit no_decimals_of_one⟩]⟩
    else none

/-- A table that is opened twice. -/
theorem cache_coherent_opens :
    ∃ st, MetaRun codeSetting (MetaStep.Careful codeSetting) st ∧ st.calls.length = 2 ∧
      st.cache.length = 1 ∧ ∀ call ∈ st.calls, call.direct = .ok call.through := by
  obtain ⟨st₁, first, running⟩ := map_eq_ok.mp (by decide +kernel :
    (fun st : Meta => st.catalog.aborted) <$>
      (MetaStep.openFile .input [98]).take codeSetting ⟨⟨codeTables, codeTables, false⟩, [], []⟩ =
        .ok false)
  obtain ⟨st₁', first', again⟩ := bind_eq_ok.mp (by decide +kernel :
    ((MetaStep.openFile .input [98]).take codeSetting ⟨⟨codeTables, codeTables, false⟩, [], []⟩ >>=
      fun st => (fun st : Meta => (st.calls.length, st.cache.length)) <$>
        (MetaStep.openFile .input [98]).take codeSetting st) = .ok (2, 1))
  obtain rfl : st₁ = st₁' := Except.ok.inj (first.symm.trans first')
  obtain ⟨st₂, second, counts⟩ := map_eq_ok.mp again
  obtain ⟨calls, cached⟩ := Prod.mk.inj counts
  have careful₁ : (MetaStep.openFile .input [98]).Careful codeSetting
      ⟨⟨codeTables, codeTables, false⟩, [], []⟩ := fun _ => rfl
  have careful₂ : (MetaStep.openFile .input [98]).Careful codeSetting st₁ :=
    fun aborted => absurd (running.symm.trans aborted) Bool.false_ne_true
  have run : MetaRun codeSetting (MetaStep.Careful codeSetting) st₂ :=
    .step (.step (.start codeTables) careful₁ first) careful₂ second
  exact ⟨st₂, run, calls, cached, cache_coherent codeSetting run⟩

/-- A table that was opened and dropped is found again in the cache. -/
theorem cache_incoherent :
    ∃ st, MetaRun codeSetting (fun _ _ => True) st ∧
      ∃ call ∈ st.calls, call.through.found = true ∧ call.direct = .ok (.missing 0) := by
  obtain ⟨st₁, first, rest⟩ := bind_eq_ok.mp (by decide +kernel :
    ((MetaStep.openFile .input [98]).take codeSetting ⟨⟨codeTables, codeTables, false⟩, [], []⟩ >>=
      fun st => (MetaStep.deleteFile [98]).take codeSetting st >>= fun st =>
        (fun st : Meta => st.calls.map fun call =>
            (call.through.found, decide (call.direct = .ok (.missing 0)))) <$>
          (MetaStep.openFile .input [98]).take codeSetting st) =
      .ok [(true, false), (true, false), (true, true)])
  obtain ⟨st₂, second, rest⟩ := bind_eq_ok.mp rest
  obtain ⟨st₃, third, calls⟩ := map_eq_ok.mp rest
  refine ⟨st₃, .step (.step (.step (.start codeTables) trivial first) trivial second) trivial third,
    ?_⟩
  have last : (true, true) ∈ st₃.calls.map fun call =>
      (call.through.found, decide (call.direct = .ok (.missing 0))) := by
    rw [calls]
    simp
  obtain ⟨call, member, answer⟩ := List.mem_map.mp last
  obtain ⟨found, direct⟩ := Prod.mk.inj answer
  exact ⟨call, member, found, of_decide_eq_true direct⟩

end Pqfh
