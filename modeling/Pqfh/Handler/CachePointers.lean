import Mathlib.Data.List.Forall2
import Mathlib.Data.List.Nodup
import Mathlib.Logic.Function.Basic
import Pqfh.Core.Stop
import Pqfh.Table.Layout

/-! # Tables built from the cache

The keys of a table point to the buffers of its columns. `cache_put` copies the keys with these
pointers, and notes beside them the positions of the columns that they point to; the table may be
closed afterwards and its columns freed. `table_info` goes by the positions: it rewrites the
pointers in the entry to the columns of the new table, and copies the keys from there. So the keys
of every table that is open point to its own columns (`Pqfh.Pointers.cached_keys_own`).
-/

namespace Pqfh.Pointers

/-! ## Tables in memory -/

/-- `_key_t`. A column is the address of a `column_t`. -/
structure KeyT where
  id : ℕ
  len : ℤ
  ncomps : ℕ
  ncols : ℕ
  columns : ℕ → ℕ
  idxcolumns : ℕ → ℕ

/-- What a key says, with the positions of its columns. -/
structure KeyImage where
  id : ℕ
  len : ℤ
  ncomps : ℕ
  ncols : ℕ
  position : ℕ → Option ℕ

/-- What the columns and keys of a table say. -/
structure Image where
  columns : List (Option Column)
  keys : List KeyImage

/-- The part of `table_t` that the cache keeps, for a table and for an entry. The addresses of the
columns stand in the order of the list. `origin` is not in the source: it tells for an entry what
the table was that it was put for, and for a table built from the cache the same of its entry. -/
structure TableT where
  name : List Byte
  columns : List ℕ
  keys : List KeyT
  origin : Option Image

/-- The columns in memory by their addresses, the open tables, and the cache, the last entry first.
A buffer that was freed is not there. -/
structure Mem where
  heap : ℕ → Option Column
  tables : ℕ → Option TableT
  cache : List TableT

/-- The memory of a process that starts. -/
def Mem.initial : Mem := ⟨fun _ => none, fun _ => none, []⟩

def KeyT.image (columns : List ℕ) (key : KeyT) : KeyImage :=
  ⟨key.id, key.len, key.ncomps, key.ncols, fun c => columns.idxOf? (key.columns c)⟩

def TableT.image (heap : ℕ → Option Column) (table : TableT) : Image :=
  ⟨table.columns.map heap, table.keys.map (KeyT.image table.columns)⟩

/-! ## The functions of the source -/

/-- Columns are written to buffers. -/
def storeColumns (heap : ℕ → Option Column) : List ℕ → List Column → ℕ → Option Column
  | address :: new, col :: cols => storeColumns (Function.update heap address (some col)) new cols
  | _, _ => heap

/-- The loop that appends copies of the columns of a list to a new one, for the addresses that
`malloc` gives the copies. A column that was freed must not be read. -/
def copyColumns (heap : ℕ → Option Column) (columns new : List ℕ) : Option (ℕ → Option Column) :=
  (columns.mapM heap).map (storeColumns heap new)

/-- The loop of `cache_put` that compares the pointers of a key with the columns of its table. -/
def KeyT.indexed (columns : List ℕ) (key : KeyT) : KeyT :=
  { key with idxcolumns := fun c =>
      if c < key.ncols then (columns.idxOf? (key.columns c)).getD (key.idxcolumns c)
      else key.idxcolumns c }

/-- The loop of `table_info` that points a key to columns by their positions. -/
def KeyT.pointed (columns : List ℕ) (key : KeyT) : KeyT :=
  { key with columns := fun c =>
      if c < key.ncols then columns.getD (key.idxcolumns c) (key.columns c) else key.columns c }

/-- `cache_put`. -/
def Mem.cachePut (handle : ℕ) (new : List ℕ) (mem : Mem) : Option Mem :=
  match mem.tables handle with
  | none => none
  | some table => (copyColumns mem.heap table.columns new).map fun heap =>
      let keys := table.keys.map (KeyT.indexed table.columns)
      { heap := heap
        tables := Function.update mem.tables handle (some { table with keys := keys })
        cache := { table with
          columns := new
          keys := keys
          origin := some (table.image mem.heap) } :: mem.cache }

/-- `cache_get`. With `dbg` above 2 it points the keys of the entry to the columns of the entry. -/
def cacheGet (dbg : Bool) (name : List Byte) (cache : List TableT) : Option TableT :=
  (cache.find? (·.name = name)).map fun entry =>
    if dbg then { entry with keys := entry.keys.map (KeyT.pointed entry.columns) } else entry

/-- The entry that `cache_get` finds is changed where it stands. -/
def replaceEntry (entry : TableT) : List TableT → List TableT
  | [] => []
  | other :: rest =>
      if other.name = entry.name then entry :: rest else other :: replaceEntry entry rest

/-- `table_info` on a table in the cache. Without columns it builds nothing. -/
def Mem.tableInfo (dbg : Bool) (name : List Byte) (handle : ℕ) (new : List ℕ) (mem : Mem) :
    Option Mem :=
  match cacheGet dbg name mem.cache with
  | none => none
  | some entry => (copyColumns mem.heap entry.columns new).map fun heap =>
      if entry.columns = [] then { mem with cache := replaceEntry entry mem.cache }
      else
        let keys := entry.keys.map (KeyT.pointed new)
        { heap := heap
          tables := Function.update mem.tables handle (some ⟨name, new, keys, entry.origin⟩)
          cache := replaceEntry { entry with keys := keys } mem.cache }

/-- `free_tab`. A column must not be freed twice. -/
def Mem.freeTab (handle : ℕ) (mem : Mem) : Option Mem :=
  match mem.tables handle with
  | none => none
  | some table =>
      if table.columns.Nodup ∧ ∀ address ∈ table.columns, (mem.heap address).isSome then
        some { mem with
          heap := fun address => if address ∈ table.columns then none else mem.heap address
          tables := Function.update mem.tables handle none }
      else none

/-- `cache_remove`, which leaves the columns of the entry in memory. -/
def Mem.cacheRemove (name : List Byte) (mem : Mem) : Mem :=
  { mem with cache := mem.cache.eraseP (·.name = name) }

/-- `table_info` on a table that is not in the cache: columns are read from the catalog, and
`getkeys` points the keys to them. -/
def Mem.newTable (name : List Byte) (handle : ℕ) (new : List ℕ) (cols : List Column)
    (keys : List KeyT) (mem : Mem) : Mem :=
  { mem with
    heap := storeColumns mem.heap new cols
    tables := Function.update mem.tables handle (some ⟨name, new, keys, none⟩) }

/-! ## Runs -/

/-- What `malloc` gives: `n` buffers that are not in use. -/
structure Fresh (heap : ℕ → Option Column) (new : List ℕ) (n : ℕ) : Prop where
  nodup : new.Nodup
  length : new.length = n
  unused : ∀ address ∈ new, heap address = none

/-- The keys point to columns of the list. -/
def Refers (columns : List ℕ) (keys : List KeyT) : Prop :=
  ∀ key ∈ keys, ∀ c < key.ncols, key.columns c ∈ columns

/-- One step of a process that opens and closes tables. -/
inductive Step : Mem → Mem → Prop where
  | create {mem : Mem} (name : List Byte) {handle : ℕ} {new : List ℕ} {cols : List Column}
      {keys : List KeyT} (closed : mem.tables handle = none)
      (fresh : Fresh mem.heap new cols.length) (refers : Refers new keys) :
      Step mem (mem.newTable name handle new cols keys)
  | put {mem mem' : Mem} {handle : ℕ} {table : TableT} {new : List ℕ}
      (opened : mem.tables handle = some table)
      (fresh : Fresh mem.heap new table.columns.length)
      (took : mem.cachePut handle new = some mem') : Step mem mem'
  | serve {mem mem' : Mem} {dbg : Bool} {name : List Byte} {entry : TableT} {handle : ℕ}
      {new : List ℕ} (cached : cacheGet dbg name mem.cache = some entry)
      (closed : mem.tables handle = none) (fresh : Fresh mem.heap new entry.columns.length)
      (took : mem.tableInfo dbg name handle new = some mem') : Step mem mem'
  | free {mem mem' : Mem} {handle : ℕ} (took : mem.freeTab handle = some mem') : Step mem mem'
  | remove {mem : Mem} (name : List Byte) : Step mem (mem.cacheRemove name)

inductive Reachable : Mem → Prop where
  | initial : Reachable .initial
  | step {mem mem' : Mem} (reached : Reachable mem) (step : Step mem mem') : Reachable mem'

/-! ## What a table is built after -/

/-- A key says what another said, and its columns are those of the list at the same positions. -/
structure KeyT.Follows (columns : List ℕ) (key : KeyT) (image : KeyImage) : Prop where
  id : key.id = image.id
  len : key.len = image.len
  ncomps : key.ncomps = image.ncomps
  ncols : key.ncols = image.ncols
  points : ∀ c < key.ncols, ∃ p, image.position c = some p ∧ columns[p]? = some (key.columns c)

/-- A table has the columns of another, each in a buffer that is in use, and keys that say what its
keys said and point to its own columns at the same positions. -/
structure TableT.Follows (heap : ℕ → Option Column) (table : TableT) (image : Image) : Prop where
  contents : table.columns.map heap = image.columns
  allocated : ∀ address ∈ table.columns, (heap address).isSome
  keys : List.Forall₂ (KeyT.Follows table.columns) table.keys image.keys

/-! ## Copies -/

/-- Storing columns leaves the other addresses alone. -/
theorem storeColumns_other {address : ℕ} :
    ∀ {heap : ℕ → Option Column} {new : List ℕ} {cols : List Column}, address ∉ new →
      storeColumns heap new cols address = heap address := by
  intro heap new cols outside
  induction new generalizing heap cols with
  | nil => cases cols <;> rfl
  | cons first rest ih =>
      rw [List.mem_cons, not_or] at outside
      cases cols with
      | nil => rfl
      | cons col cols =>
          unfold storeColumns
          rw [ih outside.2, Function.update_of_ne outside.1]

/-- The columns that were stored are found at their addresses. -/
theorem map_storeColumns :
    ∀ {heap : ℕ → Option Column} {new : List ℕ} {cols : List Column}, new.Nodup →
      new.length = cols.length → new.map (storeColumns heap new cols) = cols.map some := by
  intro heap new cols nodup length
  induction new generalizing heap cols with
  | nil =>
      rw [List.eq_nil_of_length_eq_zero length.symm]
      rfl
  | cons first rest ih =>
      rw [List.nodup_cons] at nodup
      cases cols with
      | nil => cases length
      | cons col cols =>
          unfold storeColumns
          rw [List.map_cons, List.map_cons, ih nodup.2 (Nat.succ.inj length),
            storeColumns_other nodup.1, Function.update_self]

/-- The copies hold what the columns hold, and nothing else is written. -/
theorem copyColumns_spec {heap heap' : ℕ → Option Column} {columns new : List ℕ}
    (fresh : Fresh heap new columns.length) (copied : copyColumns heap columns new = some heap') :
    new.map heap' = columns.map heap ∧ (∀ address ∈ new, (heap' address).isSome) ∧
      ∀ address ∉ new, heap' address = heap address := by
  obtain ⟨cols, read, rfl⟩ := Option.map_eq_some_iff.mp copied
  have length := length_mapM read
  have stored : new.map (storeColumns heap new cols) = cols.map some :=
    map_storeColumns fresh.nodup (fresh.length.trans length.symm)
  have sources : columns.map heap = cols.map some := by
    refine List.ext_getElem? fun i => ?_
    rw [List.getElem?_map, List.getElem?_map]
    cases place : columns[i]? with
    | none =>
        have past := List.getElem?_eq_none_iff.mp place
        rw [List.getElem?_eq_none (by omega)]
        rfl
    | some address =>
        obtain ⟨col, held, there⟩ := mapM_getElem? read place
        rw [there, Option.map_some, Option.map_some, held]
  refine ⟨stored.trans sources.symm, fun address member => ?_, fun address outside => ?_⟩
  · have held := List.mem_map_of_mem (f := storeColumns heap new cols) member
    rw [stored] at held
    obtain ⟨col, _, held⟩ := List.mem_map.mp held
    rw [← held]
    rfl
  · exact storeColumns_other outside

/-- Columns that are in use can be copied. -/
theorem copyColumns_returns {heap : ℕ → Option Column} {columns : List ℕ}
    (allocated : ∀ address ∈ columns, (heap address).isSome) (new : List ℕ) :
    ∃ heap', copyColumns heap columns new = some heap' := by
  have read : ∃ cols, columns.mapM heap = some cols := by
    induction columns with
    | nil => exact ⟨[], rfl⟩
    | cons first rest ih =>
        obtain ⟨col, held⟩ := Option.isSome_iff_exists.mp (allocated first List.mem_cons_self)
        obtain ⟨cols, later⟩ := ih fun address member =>
          allocated address (List.mem_cons_of_mem _ member)
        refine ⟨col :: cols, ?_⟩
        rw [List.mapM_cons, held, later]
        rfl
  obtain ⟨cols, read⟩ := read
  unfold copyColumns
  rw [read]
  exact ⟨_, rfl⟩

/-! ## Tables and entries that are sound -/

/-- A table whose keys point to its own columns. -/
structure TableT.Sound (heap : ℕ → Option Column) (table : TableT) : Prop where
  nodup : table.columns.Nodup
  allocated : ∀ address ∈ table.columns, (heap address).isSome
  refers : Refers table.columns table.keys
  follows : ∀ image, table.origin = some image → table.Follows heap image

/-- A key of an entry knows the positions of its columns. Where its pointers lead does not matter.
-/
structure KeyT.Placed (n : ℕ) (key : KeyT) (image : KeyImage) : Prop where
  id : key.id = image.id
  len : key.len = image.len
  ncomps : key.ncomps = image.ncomps
  ncols : key.ncols = image.ncols
  placed : ∀ c < key.ncols, image.position c = some (key.idxcolumns c) ∧ key.idxcolumns c < n

/-- An entry that a table can be built from. -/
structure TableT.Kept (heap : ℕ → Option Column) (entry : TableT) : Prop where
  allocated : ∀ address ∈ entry.columns, (heap address).isSome
  image : ∃ image, entry.origin = some image ∧ entry.columns.map heap = image.columns ∧
    List.Forall₂ (KeyT.Placed entry.columns.length) entry.keys image.keys

/-- A table is sound over any heap that has its columns. -/
theorem TableT.Sound.congr {heap heap' : ℕ → Option Column} {table : TableT}
    (sound : table.Sound heap) (same : ∀ address ∈ table.columns, heap' address = heap address) :
    table.Sound heap' where
  nodup := sound.nodup
  allocated := by
    intro address member
    rw [same address member]
    exact sound.allocated address member
  refers := sound.refers
  follows := by
    intro image built
    obtain ⟨contents, allocated, keys⟩ := sound.follows image built
    refine ⟨(List.map_congr_left same).trans contents, fun address member => ?_, keys⟩
    rw [same address member]
    exact allocated address member

/-- An entry is kept over any heap that has its columns. -/
theorem TableT.Kept.congr {heap heap' : ℕ → Option Column} {entry : TableT}
    (kept : entry.Kept heap) (same : ∀ address ∈ entry.columns, heap' address = heap address) :
    entry.Kept heap' where
  allocated := by
    intro address member
    rw [same address member]
    exact kept.allocated address member
  image := by
    obtain ⟨image, origin, contents, keys⟩ := kept.image
    exact ⟨image, origin, (List.map_congr_left same).trans contents, keys⟩

/-- An address of a column is found at its place. -/
theorem idxOf?_of_mem {columns : List ℕ} {address : ℕ} (member : address ∈ columns) :
    ∃ p < columns.length, columns.idxOf? address = some p ∧ columns[p]? = some address := by
  obtain ⟨p, found⟩ := Option.isSome_iff_exists.mp (List.isSome_idxOf?.mpr member)
  obtain ⟨inside, there, _⟩ := List.idxOf?_eq_some_iff.mp found
  exact ⟨p, inside, found, by rw [List.getElem?_eq_getElem inside, there]⟩

/-- A table follows what it says itself. -/
theorem TableT.Sound.follows_image {heap : ℕ → Option Column} {table : TableT}
    (sound : table.Sound heap) : table.Follows heap (table.image heap) := by
  refine ⟨rfl, sound.allocated, ?_⟩
  unfold TableT.image
  rw [List.forall₂_map_right_iff]
  refine List.forall₂_same.mpr fun key member => ⟨rfl, rfl, rfl, rfl, fun c inside => ?_⟩
  obtain ⟨p, _, found, there⟩ := idxOf?_of_mem (sound.refers key member c inside)
  exact ⟨p, found, there⟩

/-- What `cache_put` does to the keys of the table leaves it as it is. -/
theorem TableT.Sound.indexed {heap : ℕ → Option Column} {table : TableT}
    (sound : table.Sound heap) :
    { table with keys := table.keys.map (KeyT.indexed table.columns) }.Sound heap where
  nodup := sound.nodup
  allocated := sound.allocated
  refers := by
    intro key member
    obtain ⟨before, among, rfl⟩ := List.mem_map.mp member
    exact sound.refers before among
  follows := by
    intro image built
    obtain ⟨contents, allocated, keys⟩ := sound.follows image built
    refine ⟨contents, allocated, ?_⟩
    rw [List.forall₂_map_left_iff]
    exact keys.imp fun key image follows =>
      ⟨follows.id, follows.len, follows.ncomps, follows.ncols, follows.points⟩

/-- The entry that `cache_put` makes of a table. -/
theorem TableT.Sound.kept {heap heap' : ℕ → Option Column} {table : TableT} {new : List ℕ}
    (sound : table.Sound heap) (length : new.length = table.columns.length)
    (copied : new.map heap' = table.columns.map heap)
    (allocated : ∀ address ∈ new, (heap' address).isSome) :
    { table with
      columns := new
      keys := table.keys.map (KeyT.indexed table.columns)
      origin := some (table.image heap) }.Kept heap' where
  allocated := allocated
  image := by
    refine ⟨table.image heap, rfl, copied, ?_⟩
    unfold TableT.image
    rw [List.forall₂_map_left_iff, List.forall₂_map_right_iff]
    refine List.forall₂_same.mpr fun key member => ⟨rfl, rfl, rfl, rfl, fun c inside => ?_⟩
    obtain ⟨p, low, found, _⟩ := idxOf?_of_mem (sound.refers key member c inside)
    replace inside : c < key.ncols := inside
    have index : (key.indexed table.columns).idxcolumns c = p := by
      change (if c < key.ncols then (table.columns.idxOf? (key.columns c)).getD _ else _) = p
      rw [if_pos inside, found, Option.getD_some]
    rw [index]
    exact ⟨found, length ▸ low⟩

/-- Pointing the keys of an entry somewhere leaves what it knows. -/
theorem TableT.Kept.pointed {heap : ℕ → Option Column} {entry : TableT} (kept : entry.Kept heap)
    (columns : List ℕ) :
    { entry with keys := entry.keys.map (KeyT.pointed columns) }.Kept heap where
  allocated := kept.allocated
  image := by
    obtain ⟨image, origin, contents, keys⟩ := kept.image
    refine ⟨image, origin, contents, ?_⟩
    rw [List.forall₂_map_left_iff]
    exact keys.imp fun key image placed =>
      ⟨placed.id, placed.len, placed.ncomps, placed.ncols, placed.placed⟩

/-- The table that `table_info` builds of an entry. -/
theorem TableT.Kept.built {heap heap' : ℕ → Option Column} {entry : TableT} {new : List ℕ}
    (kept : entry.Kept heap) (fresh : Fresh heap new entry.columns.length)
    (copied : new.map heap' = entry.columns.map heap)
    (allocated : ∀ address ∈ new, (heap' address).isSome) (name : List Byte) :
    (TableT.mk name new (entry.keys.map (KeyT.pointed new)) entry.origin).Sound heap' := by
  obtain ⟨image, origin, contents, keys⟩ := kept.image
  have points : ∀ {key : KeyT} {said : KeyImage}, key.Placed entry.columns.length said →
      (key.pointed new).Follows new said := by
    intro key said placed
    refine ⟨placed.id, placed.len, placed.ncomps, placed.ncols, fun c inside => ?_⟩
    replace inside : c < key.ncols := inside
    obtain ⟨position, low⟩ := placed.placed c inside
    have inside' : key.idxcolumns c < new.length := by rw [fresh.length]; exact low
    refine ⟨key.idxcolumns c, position, ?_⟩
    change _ = some (if c < key.ncols then new.getD (key.idxcolumns c) (key.columns c) else _)
    rw [if_pos inside, List.getD_eq_getElem?_getD, List.getElem?_eq_getElem inside',
      Option.getD_some]
  have follows :
      List.Forall₂ (KeyT.Follows new) (entry.keys.map (KeyT.pointed new)) image.keys := by
    rw [List.forall₂_map_left_iff]
    exact keys.imp fun key said placed => points placed
  refine ⟨fresh.nodup, allocated, ?_, ?_⟩
  · intro key member c inside
    obtain ⟨said, _, key_follows⟩ := forall₂_mem_right follows.flip member
    obtain ⟨p, _, there⟩ := KeyT.Follows.points key_follows c inside
    exact List.mem_of_getElem? there
  · intro other built
    cases origin.symm.trans built
    exact ⟨copied.trans contents, allocated, follows⟩

/-! ## The memory -/

/-- All tables and entries are sound, and no column of a table belongs to another or to an entry. -/
structure Mem.Ok (mem : Mem) : Prop where
  tables : ∀ handle table, mem.tables handle = some table → table.Sound mem.heap
  entries : ∀ entry ∈ mem.cache, entry.Kept mem.heap
  apart : ∀ handle other table table', handle ≠ other → mem.tables handle = some table →
    mem.tables other = some table' → table.columns.Disjoint table'.columns
  cacheApart : ∀ handle table, mem.tables handle = some table → ∀ entry ∈ mem.cache,
    table.columns.Disjoint entry.columns

/-- There is nothing wrong with an empty memory. -/
theorem Mem.Ok.initial : Mem.initial.Ok where
  tables := fun _ _ opened => by cases opened
  entries := fun _ member => by cases member
  apart := fun _ _ _ _ _ opened => by cases opened
  cacheApart := fun _ _ opened => by cases opened

/-- Buffers not in use are none of those that are. -/
theorem Fresh.outside {heap : ℕ → Option Column} {new : List ℕ} {n : ℕ} (fresh : Fresh heap new n)
    {columns : List ℕ} (allocated : ∀ address ∈ columns, (heap address).isSome) :
    columns.Disjoint new := by
  intro address member used
  have held := allocated address member
  rw [fresh.unused address used] at held
  cases held

/-- A table in buffers that were not in use is put among the others; the cache may have other
entries in the old buffers. -/
theorem Mem.Ok.add {mem : Mem} (ok : mem.Ok) {handle : ℕ} {table : TableT}
    {heap : ℕ → Option Column} {cache : List TableT} {n : ℕ}
    (fresh : Fresh mem.heap table.columns n) (sound : table.Sound heap)
    (same : ∀ address ∉ table.columns, heap address = mem.heap address)
    (entries : ∀ entry ∈ cache, entry.Kept mem.heap ∧
      ∃ before ∈ mem.cache, entry.columns = before.columns) :
    Mem.Ok ⟨heap, Function.update mem.tables handle (some table), cache⟩ := by
  have others : ∀ other table', other ≠ handle →
      Function.update mem.tables handle (some table) other = some table' →
        mem.tables other = some table' := by
    intro other table' different opened
    rwa [Function.update_of_ne different] at opened
  have here : ∀ table', Function.update mem.tables handle (some table) handle = some table' →
      table = table' := by
    intro table' opened
    rw [Function.update_self] at opened
    exact Option.some.inj opened
  have oldApart : ∀ other table', mem.tables other = some table' →
      table'.columns.Disjoint table.columns :=
    fun other table' opened => fresh.outside (ok.tables other table' opened).allocated
  refine ⟨fun other table' opened => ?_, fun entry member => ?_, ?_, ?_⟩
  · by_cases new : other = handle
    · subst new
      rw [← here table' opened]
      exact sound
    · have opened' := others other table' new opened
      apply (ok.tables other table' opened').congr
      intro address member
      exact same address (oldApart other table' opened' member)
  · obtain ⟨kept, before, among, columns⟩ := entries entry member
    exact kept.congr fun address inside => same address (fresh.outside kept.allocated inside)
  · intro first second table₁ table₂ different opened₁ opened₂
    by_cases new₁ : first = handle
    · subst new₁
      rw [← here table₁ opened₁]
      exact List.disjoint_symm
        (oldApart second table₂ (others second table₂ (Ne.symm different) opened₂))
    · have opened₁' := others first table₁ new₁ opened₁
      by_cases new₂ : second = handle
      · subst new₂
        rw [← here table₂ opened₂]
        exact oldApart first table₁ opened₁'
      · apply ok.apart first second table₁ table₂ different opened₁'
        exact others second table₂ new₂ opened₂
  · intro other table' opened entry member
    obtain ⟨kept, before, among, columns⟩ := entries entry member
    by_cases new : other = handle
    · subst new
      rw [← here table' opened]
      exact List.disjoint_symm (fresh.outside kept.allocated)
    · rw [columns]
      exact ok.cacheApart other table' (others other table' new opened) before among

/-- An entry of the cache is the new one or an old one. -/
theorem mem_replaceEntry {entry other : TableT} {cache : List TableT}
    (member : other ∈ replaceEntry entry cache) : other = entry ∨ other ∈ cache := by
  induction cache with
  | nil => cases member
  | cons first rest ih =>
      unfold replaceEntry at member
      split at member
      · rcases List.mem_cons.mp member with rfl | later
        · exact Or.inl rfl
        · exact Or.inr (List.mem_cons_of_mem _ later)
      · rcases List.mem_cons.mp member with rfl | later
        · exact Or.inr List.mem_cons_self
        · exact (ih later).imp id (List.mem_cons_of_mem _)

/-- What `cache_get` finds is an entry, with its pointers changed or not. -/
theorem Mem.Ok.cacheGet {mem : Mem} (ok : mem.Ok) {dbg : Bool} {name : List Byte} {entry : TableT}
    (found : cacheGet dbg name mem.cache = some entry) : entry.Kept mem.heap ∧
      ∃ before ∈ mem.cache, entry.columns = before.columns := by
  unfold Pointers.cacheGet at found
  obtain ⟨before, first, rfl⟩ := Option.map_eq_some_iff.mp found
  have among := List.mem_of_find?_eq_some first
  cases dbg with
  | false => exact ⟨ok.entries before among, before, among, rfl⟩
  | true => exact ⟨(ok.entries before among).pointed _, before, among, rfl⟩

/-- The entries after one that was found is changed. -/
theorem Mem.Ok.replaced {mem : Mem} (ok : mem.Ok) {entry : TableT} (kept : entry.Kept mem.heap)
    (before : ∃ before ∈ mem.cache, entry.columns = before.columns) :
    ∀ other ∈ replaceEntry entry mem.cache, other.Kept mem.heap ∧
      ∃ before ∈ mem.cache, other.columns = before.columns := by
  intro other member
  rcases mem_replaceEntry member with rfl | among
  · exact ⟨kept, before⟩
  · exact ⟨ok.entries other among, other, among, rfl⟩

/-! ## The steps -/

/-- A table that is allocated keeps the memory sound. -/
theorem Mem.Ok.newTable {mem : Mem} (ok : mem.Ok) (name : List Byte) (handle : ℕ) {new : List ℕ}
    {cols : List Column} {keys : List KeyT} (fresh : Fresh mem.heap new cols.length)
    (refers : Refers new keys) : (mem.newTable name handle new cols keys).Ok := by
  have stored := @map_storeColumns mem.heap new cols fresh.nodup fresh.length
  unfold Mem.newTable
  refine ok.add fresh ⟨fresh.nodup, ?_, refers, ?_⟩ (fun address outside => ?_)
    fun entry member => ⟨ok.entries entry member, entry, member, rfl⟩
  · intro address member
    have held := List.mem_map_of_mem (f := storeColumns mem.heap new cols) member
    rw [stored] at held
    obtain ⟨col, _, held⟩ := List.mem_map.mp held
    rw [← held]
    rfl
  · intro image built
    cases built
  · exact storeColumns_other outside

/-- A table that is put into the cache keeps the memory sound. -/
theorem Mem.Ok.cachePut {mem mem' : Mem} (ok : mem.Ok) {handle : ℕ} {table : TableT}
    {new : List ℕ} (opened : mem.tables handle = some table)
    (fresh : Fresh mem.heap new table.columns.length)
    (took : mem.cachePut handle new = some mem') : mem'.Ok := by
  unfold Mem.cachePut at took
  rw [opened] at took
  obtain ⟨heap, copied, rfl⟩ := Option.map_eq_some_iff.mp took
  obtain ⟨contents, allocated, same⟩ := copyColumns_spec fresh copied
  have sound := ok.tables handle table opened
  have unchanged : ∀ columns : List ℕ, (∀ address ∈ columns, (mem.heap address).isSome) →
      ∀ address ∈ columns, heap address = mem.heap address :=
    fun columns held address member => same address (fresh.outside held member)
  -- the table has new keys and its old columns
  have before : ∀ other table', Function.update mem.tables handle
      (some { table with keys := table.keys.map (KeyT.indexed table.columns) }) other =
        some table' → ∃ old, mem.tables other = some old ∧ table'.columns = old.columns ∧
          table'.Sound mem.heap := by
    intro other table' there
    by_cases here : other = handle
    · subst here
      rw [Function.update_self] at there
      cases there
      exact ⟨table, opened, rfl, sound.indexed⟩
    · rw [Function.update_of_ne here] at there
      exact ⟨table', there, rfl, ok.tables other table' there⟩
  refine ⟨fun other table' there => ?_, fun entry member => ?_, ?_, ?_⟩
  · obtain ⟨_, _, _, sound'⟩ := before other table' there
    exact sound'.congr (unchanged _ sound'.allocated)
  · rcases List.mem_cons.mp member with rfl | old
    · exact sound.kept fresh.length contents allocated
    · exact (ok.entries entry old).congr (unchanged _ (ok.entries entry old).allocated)
  · intro first second table₁ table₂ different there₁ there₂
    obtain ⟨old₁, opened₁, columns₁, _⟩ := before first table₁ there₁
    obtain ⟨old₂, opened₂, columns₂, _⟩ := before second table₂ there₂
    rw [columns₁, columns₂]
    exact ok.apart first second old₁ old₂ different opened₁ opened₂
  · intro other table' there entry member
    obtain ⟨old, opened', columns, sound'⟩ := before other table' there
    rcases List.mem_cons.mp member with rfl | among
    · exact fresh.outside sound'.allocated
    · rw [columns]
      exact ok.cacheApart other old opened' entry among

/-- A table that is copied from the cache keeps the memory sound. -/
theorem Mem.Ok.tableInfo {mem mem' : Mem} (ok : mem.Ok) {dbg : Bool} {name : List Byte}
    {entry : TableT} {handle : ℕ} {new : List ℕ}
    (cached : Pointers.cacheGet dbg name mem.cache = some entry)
    (fresh : Fresh mem.heap new entry.columns.length)
    (took : mem.tableInfo dbg name handle new = some mem') : mem'.Ok := by
  obtain ⟨kept, before⟩ := ok.cacheGet cached
  unfold Mem.tableInfo at took
  rw [cached] at took
  obtain ⟨heap, copied, rfl⟩ := Option.map_eq_some_iff.mp took
  obtain ⟨contents, allocated, same⟩ := copyColumns_spec fresh copied
  by_cases none : entry.columns = []
  · rw [if_pos none]
    have entries := ok.replaced kept before
    refine ⟨ok.tables, fun other member => (entries other member).1, ok.apart, ?_⟩
    intro other table opened cached' member
    obtain ⟨_, old, among, columns⟩ := entries cached' member
    rw [columns]
    exact ok.cacheApart other table opened old among
  · rw [if_neg none]
    apply ok.add fresh
    · exact kept.built fresh contents allocated name
    · exact same
    · exact ok.replaced (kept.pointed new) before

/-- Freeing a table keeps the memory sound. -/
theorem Mem.Ok.freeTab {mem mem' : Mem} (ok : mem.Ok) {handle : ℕ}
    (took : mem.freeTab handle = some mem') : mem'.Ok := by
  unfold Mem.freeTab at took
  cases opened : mem.tables handle with
  | none =>
      rw [opened] at took
      cases took
  | some table =>
      rw [opened] at took
      dsimp only at took
      split at took
      · cases took
        have left : ∀ other table', Function.update mem.tables handle none other = some table' →
            handle ≠ other ∧ mem.tables other = some table' := by
          intro other table' there
          by_cases here : other = handle
          · subst here
            rw [Function.update_self] at there
            cases there
          · rw [Function.update_of_ne here] at there
            exact ⟨Ne.symm here, there⟩
        refine ⟨fun other table' there => ?_, fun entry member => ?_, ?_, ?_⟩
        · obtain ⟨different, opened'⟩ := left other table' there
          apply (ok.tables other table' opened').congr
          intro address member
          have apart := ok.apart handle other table table' different opened opened'
          exact if_neg fun freed => apart freed member
        · apply (ok.entries entry member).congr
          intro address inside
          exact if_neg fun freed => ok.cacheApart handle table opened entry member freed inside
        · intro first second table₁ table₂ different there₁ there₂
          exact ok.apart first second table₁ table₂ different (left first table₁ there₁).2
            (left second table₂ there₂).2
        · intro other table' there
          exact ok.cacheApart other table' (left other table' there).2
      · cases took

/-- Removing an entry keeps the memory sound. -/
theorem Mem.Ok.cacheRemove {mem : Mem} (ok : mem.Ok) (name : List Byte) :
    (mem.cacheRemove name).Ok where
  tables := ok.tables
  entries entry member := ok.entries entry (List.mem_of_mem_eraseP member)
  apart := ok.apart
  cacheApart handle table opened entry member :=
    ok.cacheApart handle table opened entry (List.mem_of_mem_eraseP member)

/-- Every step keeps the memory sound. -/
theorem Mem.Ok.step {mem mem' : Mem} (ok : mem.Ok) (step : Step mem mem') : mem'.Ok := by
  cases step with
  | create name _ fresh refers => exact ok.newTable name _ fresh refers
  | put opened fresh took => exact ok.cachePut opened fresh took
  | serve cached _ fresh took => exact ok.tableInfo cached fresh took
  | free took => exact ok.freeTab took
  | remove name => exact ok.cacheRemove name

/-- Every memory that is reached is sound. -/
theorem Reachable.ok {mem : Mem} (reached : Reachable mem) : mem.Ok := by
  induction reached with
  | initial => exact Mem.Ok.initial
  | step _ step ih => exact ih.step step

/-- Whatever tables were put into the cache, opened and closed before:  * an open table points to
its own columns, so the positions that `cache_put` would note are those of the columns of its keys;
* an open table that was built from the cache has the columns that the table had for which the entry
was put, in buffers in use, and keys with its numbers whose columns are those of the new table at
the same positions; * a table in the cache can be built and an open table can be closed, without
touching a column that was freed. -/
theorem cached_keys_own {mem : Mem} (reached : Reachable mem) :
    (∀ handle table, mem.tables handle = some table →
      table.Follows mem.heap (table.image mem.heap) ∧
        (∀ image, table.origin = some image → table.Follows mem.heap image) ∧
        ∃ mem', mem.freeTab handle = some mem') ∧
      ∀ dbg name entry, cacheGet dbg name mem.cache = some entry → ∀ handle new,
        ∃ mem', mem.tableInfo dbg name handle new = some mem' := by
  have ok := reached.ok
  refine ⟨fun handle table opened => ?_, fun dbg name entry cached handle new => ?_⟩
  · have sound := ok.tables handle table opened
    refine ⟨sound.follows_image, sound.follows, ?_⟩
    unfold Mem.freeTab
    rw [opened]
    dsimp only
    rw [if_pos ⟨sound.nodup, sound.allocated⟩]
    exact ⟨_, rfl⟩
  · obtain ⟨heap, copied⟩ := copyColumns_returns (ok.cacheGet cached).1.allocated new
    unfold Mem.tableInfo
    rw [cached]
    dsimp only
    rw [copied]
    exact ⟨_, rfl⟩

/-- A table of one column, with its key on it. -/
def sampleColumn : Column := ⟨"codigo", .character, 5, 0, 0, true, five_characters, Nat.zero_le _⟩

/-- The table was opened at 1, in buffer 10. -/
def sampleOpened : Mem :=
  Mem.initial.newTable (ascii "pessoas") 1 [10] [sampleColumn]
    [⟨0, 5, 1, 1, fun _ => 10, fun _ => 0⟩]

/-- It was put into the cache. -/
def samplePut : Mem := (sampleOpened.cachePut 1 [20]).getD .initial

/-- It was closed. -/
def sampleClosed : Mem := (samplePut.freeTab 1).getD .initial

/-- It was opened again, in the buffer that was freed. -/
def sampleAgain : Mem := (sampleClosed.tableInfo false (ascii "pessoas") 2 [10]).getD .initial

/-- And once more. -/
def sampleTwice : Mem := (sampleAgain.tableInfo false (ascii "pessoas") 3 [30]).getD .initial

/-- The first of these two was closed. -/
def sampleLeft : Mem := (sampleTwice.freeTab 2).getD .initial

/-- An address that is unused is fresh. -/
theorem fresh_sample {heap : ℕ → Option Column} {address : ℕ} (unused : heap address = none) :
    Fresh heap [address] 1 := by
  refine ⟨List.nodup_singleton address, rfl, fun other member => ?_⟩
  rw [List.mem_singleton.mp member]
  exact unused

/-- The table that is left points to its own column. -/
theorem cached_keys_own_left : ∃ table image, sampleLeft.tables 3 = some table ∧
    table.origin = some image ∧ table.Follows sampleLeft.heap image := by
  have refers : Refers [10] [⟨0, 5, 1, 1, fun _ => 10, fun _ => 0⟩] := by
    intro key member c _
    rw [List.mem_singleton.mp member]
    exact List.mem_singleton_self 10
  have opened : Reachable sampleOpened :=
    .step .initial (.create (ascii "pessoas") rfl (fresh_sample rfl) refers)
  have put : Reachable samplePut :=
    .step opened (.put (show sampleOpened.tables 1 = some _ from rfl) (fresh_sample rfl)
      (show sampleOpened.cachePut 1 [20] = some samplePut from rfl))
  have closed : Reachable sampleClosed :=
    .step put (.free (show samplePut.freeTab 1 = some sampleClosed from rfl))
  have again : Reachable sampleAgain :=
    .step closed (.serve
      (show cacheGet false (ascii "pessoas") sampleClosed.cache = some _ from rfl)
      (show sampleClosed.tables 2 = none from rfl) (fresh_sample rfl)
      (show sampleClosed.tableInfo false (ascii "pessoas") 2 [10] = some sampleAgain from rfl))
  have twice : Reachable sampleTwice :=
    .step again (.serve
      (show cacheGet false (ascii "pessoas") sampleAgain.cache = some _ from rfl)
      (show sampleAgain.tables 3 = none from rfl) (fresh_sample rfl)
      (show sampleAgain.tableInfo false (ascii "pessoas") 3 [30] = some sampleTwice from rfl))
  have left : Reachable sampleLeft :=
    .step twice (.free (show sampleTwice.freeTab 2 = some sampleLeft from rfl))
  exact ⟨_, _, rfl, rfl, ((cached_keys_own left).1 3 _ rfl).2.1 _ rfl⟩

end Pqfh.Pointers
