import Pqfh.Memfh.File
import Pqfh.Memfh.Walk

/-! # START and READ NEXT on an in-memory file

`memfh_start` builds the index of an alternate key when it is first asked for, and searches
for the key of the record area. It gives out the first record of the page in which the search
ends, not the record at the position found, and it gives up when the key is larger than all the
keys of that page. The indexes of alternate keys are never touched again: neither `memfh_write`
nor a rewrite keeps them.
-/

namespace Pqfh.Memfh

open SearchGraph

/-! ## The functions -/

/-- The loop of `memfh_idx_create`: write the key of the record at the position of the primary
index, and go on to the next. `none` when a key is written twice and the process exits. -/
def createLoop (hdr : Hdr) (k : ℕ) : ℕ → Idx → Idx → Option (Idx × Idx)
  | 0, _, _ => none
  | fuel + 1, idx0, idx =>
      match idxCurrent idx0 with
      | none => none
      | some (_, pointer) =>
          match idxWrite idx (mountKey (hdr.comps k) (hdr.data.getD pointer [])) pointer with
          | none => none
          | some idx =>
              match idxNext idx0 with
              | none => none
              | some (false, idx0) => some (idx0, idx)
              | some (true, idx0) => createLoop hdr k fuel idx0 idx

/-- `memfh_idx_create`. The walk of the primary index visits as many entries as there are
records. -/
def memfhIdxCreate (hdr : Hdr) (k : ℕ) : Option Hdr :=
  match hdr.idx 0 with
  | none => none
  | some idx0 =>
      match idxFirst idx0 with
      | none => none
      | some (false, idx0) =>
          some ((hdr.setIdx 0 idx0).setIdx k (Idx.empty (keyLength (hdr.comps k))))
      | some (true, idx0) =>
          (createLoop hdr k hdr.data.length idx0 (Idx.empty (keyLength (hdr.comps k)))).map
            fun pair => (hdr.setIdx 0 pair.1).setIdx k pair.2

/-- The file with the index of a key, as `memfh_start` makes sure of it. -/
def withIndex (hdr : Hdr) (k : ℕ) : Option Hdr :=
  if 0 < k ∧ (hdr.idx k).isNone then memfhIdxCreate hdr k else some hdr

/-- The first entry of a page. -/
def firstEntry : Page Key ℕ → Option (Key × ℕ)
  | .leaf items => items.head?
  | .branch _ _ => none

/-- The record area after the record at a pointer was copied to it. -/
def Hdr.copied (hdr : Hdr) (pointer : ℕ) (record : List Byte) : List Byte :=
  (hdr.data.getD pointer []).take hdr.reclen ++ record.drop hdr.reclen

/-- `memfh_start`: its result, the file and the record area after. -/
def memfhStart (hdr : Hdr) (record : List Byte) (k : ℕ) : Option (Bool × Hdr × List Byte) :=
  match withIndex hdr k with
  | none => none
  | some hdr =>
      match hdr.idx k with
      | none => none
      | some idx =>
          match idxSearch idx (mountKey (hdr.comps k) record) with
          | none => none
          | some (order, path) =>
              let hdr := hdr.setIdx k { idx with path := path }
              if order = .gt then some (false, hdr, record)
              else
                -- the page is read from its start, not from the position found
                match path.head?.bind fun step => firstEntry (idx.graph.page step.1) with
                | none => none
                | some (_, pointer) => some (true, hdr, hdr.copied pointer record)

/-- `memfh_next`. -/
def memfhNext (hdr : Hdr) (record : List Byte) (k : ℕ) : Option (Bool × Hdr × List Byte) :=
  match hdr.idx k with
  | none => none
  | some idx =>
      match idxNext idx with
      | none => none
      | some (false, idx) => some (false, hdr.setIdx k idx, record)
      | some (true, idx) =>
          (idxCurrent idx).map fun entry =>
            (true, hdr.setIdx k idx, hdr.copied entry.2 record)

/-- Call `memfh_next` until it returns false, collecting the record areas. -/
def memfhNexts (k : ℕ) : ℕ → Hdr → List Byte → Option (List (List Byte))
  | 0, _, _ => none
  | fuel + 1, hdr, record =>
      match memfhNext hdr record k with
      | none => none
      | some (false, _, _) => some []
      | some (true, hdr, record) => (memfhNexts k fuel hdr record).map (record :: ·)

/-! ## What walking and reading leave alone -/

/-- The next step changes the position of an index only. -/
theorem idxNext_moves {idx idx' : Idx} {moved : Bool}
    (stepped : idxNext idx = some (moved, idx')) : ∃ path, idx' = { idx with path := path } := by
  unfold idxNext at stepped
  split at stepped
  · cases stepped
  · split at stepped
    · cases stepped
      exact ⟨_, rfl⟩
    · split at stepped
      · cases stepped
        exact ⟨_, rfl⟩
      · split at stepped
        · cases stepped
        · split at stepped
          · obtain ⟨path, _, ended⟩ := Option.map_eq_some_iff.mp stepped
            cases ended
            exact ⟨path, rfl⟩
          · cases stepped
            exact ⟨_, rfl⟩

theorem idxNext_graph {idx idx' : Idx} {moved : Bool} (stepped : idxNext idx = some (moved, idx')) :
    idx'.graph = idx.graph := by
  obtain ⟨path, rfl⟩ := idxNext_moves stepped
  rfl

/-- Going to the first entry changes the position of an index only. -/
theorem idxFirst_moves {idx idx' : Idx} {moved : Bool} (went : idxFirst idx = some (moved, idx')) :
    ∃ path, idx' = { idx with path := path } := by
  unfold idxFirst at went
  split at went
  · cases went
    exact ⟨_, rfl⟩
  · obtain ⟨path, _, ended⟩ := Option.map_eq_some_iff.mp went
    cases ended
    exact ⟨path, rfl⟩

theorem idxFirst_graph {idx idx' : Idx} {moved : Bool} (went : idxFirst idx = some (moved, idx')) :
    idx'.graph = idx.graph := by
  obtain ⟨path, rfl⟩ := idxFirst_moves went
  rfl

/-- A key that is held is not written again. -/
theorem idxWrite_absent {idx idx' : Idx} {labels : Labels Key} (sound : Sound idx.graph labels)
    {key : Key} {record : ℕ} (wrote : idxWrite idx key record = some idx') (other : ℕ) :
    ¬ idx.graph.Holds (key, other) := by
  intro held
  obtain ⟨order, leaf, pos, above, items, searched, found⟩ := idxSearch_spec sound key
  rcases found.order_eq sound with ⟨equal, _⟩ | ⟨_, absent⟩
  · unfold idxWrite at wrote
    rw [searched] at wrote
    simp only [equal, ↓reduceIte, reduceCtorEq] at wrote
  · exact absent other held

/-- Keys that were all written are different. -/
theorem idxWrites_distinct :
    ∀ (entries written : List (Key × ℕ)) {idx idx' : Idx} {labels : Labels Key},
      Sound idx.graph labels → 2 ≤ maxItems idx.keylen →
      (∀ other, idx.graph.Holds other ↔ other ∈ written) → (written.map Prod.fst).Nodup →
      idxWrites idx entries = some idx' → ((written ++ entries).map Prod.fst).Nodup := by
  intro entries
  induction entries with
  | nil =>
      intro written idx idx' labels _ _ _ distinct _
      rwa [List.append_nil]
  | cons entry entries ih =>
      intro written idx idx' labels sound capacity held distinct wrote
      obtain ⟨middle, first, rest⟩ := Option.bind_eq_some_iff.mp
        (by simpa only [idxWrites, List.foldlM_cons, Option.bind_eq_bind] using wrote)
      have absent := idxWrite_absent sound first
      obtain ⟨next, labels', written', keylen, sound', held'⟩ :=
        idxWrite_sound sound capacity entry.2 absent
      obtain rfl : middle = next := Option.some.inj (first.symm.trans written')
      have held'' : ∀ other, middle.graph.Holds other ↔ other ∈ written ++ [entry] := by
        intro other
        rw [held', held, List.mem_append, List.mem_singleton]
      have fresh : entry.1 ∉ written.map Prod.fst := by
        intro member
        obtain ⟨other, present, same⟩ := List.mem_map.mp member
        exact absent other.2 ((held _).mpr (by rw [← same]; exact present))
      have distinct' : ((written ++ [entry]).map Prod.fst).Nodup := by
        rw [List.map_append, List.map_singleton]
        exact List.Nodup.append distinct (List.nodup_singleton _)
          (List.disjoint_singleton.mpr fresh)
      have all :=
        ih (written ++ [entry]) sound' (by rw [keylen]; exact capacity) held'' distinct' rest
      rwa [List.append_assoc] at all

/-! ## Building an index -/

/-- An index has one entry for each record, under the current value of the key. -/
def Current (hdr : Hdr) (k : ℕ) (g : Graph Key ℕ) : Prop :=
  ∀ key pointer, g.Holds (key, pointer) ↔
    ∃ record, hdr.data[pointer]? = some record ∧ key = mountKey (hdr.comps k) record

/-- The entry that an index built now has for a pointer. -/
def Hdr.entry (hdr : Hdr) (k pointer : ℕ) : Key × ℕ :=
  (mountKey (hdr.comps k) (hdr.data.getD pointer []), pointer)

/-- The loop of `memfh_idx_create` writes an entry for each pointer that the walk of the
primary index visits. -/
theorem createLoop_walk (hdr : Hdr) (k : ℕ) {labels : Labels Key} :
    ∀ (fuel : ℕ) {idx0 : Idx} {leaf pos : ℕ} {items : List (Key × ℕ)} {entry : Key × ℕ}
      {above : List (ℕ × ℕ)} (idx : Idx) (visited : List (Key × ℕ)), Sound idx0.graph labels →
      At idx0 leaf pos items entry above → idxWalkFrom fuel idx0 = some visited →
      ∃ idx0', idx0'.graph = idx0.graph ∧ createLoop hdr k fuel idx0 idx =
        (idxWrites idx (visited.map fun entry => hdr.entry k entry.2)).map fun idx =>
        (idx0', idx) := by
  intro fuel
  induction fuel with
  | zero =>
      intro idx0 leaf pos items entry above idx visited _ _ walked
      cases walked
  | succ fuel ih =>
      intro idx0 leaf pos items entry above idx visited sound here walked
      have current := here.current
      have write : ∀ rest, idxWrites idx (hdr.entry k entry.2 :: rest) =
          (idxWrite idx (mountKey (hdr.comps k) (hdr.data.getD entry.2 [])) entry.2).bind
            fun idx => idxWrites idx rest := fun rest => rfl
      rcases idxNext_spec sound here with
        ⟨idx0', leaf', pos', items', entry', above', moved, same, there, _⟩ | ⟨idx0', ended, _⟩
      · simp only [idxWalkFrom, moved, current] at walked
        obtain ⟨rest, walked', rfl⟩ := Option.map_eq_some_iff.mp walked
        rw [Option.toList_some, List.singleton_append, List.map_cons]
        simp only [createLoop, current, moved, write]
        cases idxWrite idx (mountKey (hdr.comps k) (hdr.data.getD entry.2 [])) entry.2 with
        | none => exact ⟨idx0', same, rfl⟩
        | some idx' =>
            obtain ⟨last, graph, loop⟩ := ih idx' rest (same ▸ sound) there walked'
            exact ⟨last, graph.trans same, loop⟩
      · simp only [idxWalkFrom, ended, current] at walked
        cases walked
        refine ⟨idx0', idxNext_graph ended, ?_⟩
        rw [Option.toList_some, List.map_singleton]
        simp only [createLoop, current, ended, write]
        cases idxWrite idx (mountKey (hdr.comps k) (hdr.data.getD entry.2 [])) entry.2 <;> rfl

/-! ## Files that can be reached -/

/-- An index of a file of `n` records: a sound graph, with no key and no record twice. -/
def IndexOk (n : ℕ) (g : Graph Key ℕ) : Prop :=
  ∃ (labels : Labels Key) (entries : List (Key × ℕ)), Sound g labels ∧
    (entries.map Prod.fst).Nodup ∧ (entries.map Prod.snd).Nodup ∧
    (∀ other, g.Holds other ↔ other ∈ entries) ∧ ∀ entry ∈ entries, entry.2 < n

/-- What holds of every in-memory file: the records have the length of the file and different
primary keys, the primary index is current, and the others were once. -/
structure FileOk (hdr : Hdr) : Prop where
  short : ∀ k, keyLength (hdr.comps k) ≤ 256
  whole : ∀ record ∈ hdr.data, record.length = hdr.reclen
  distinct : (hdr.data.map (mountKey (hdr.comps 0))).Nodup
  primary : ∃ idx labels, PrimarySound hdr idx labels
  built : ∀ k idx, hdr.idx k = some idx → IndexOk hdr.data.length idx.graph

/-- The entries that an index built now has. -/
def Hdr.entries (hdr : Hdr) (k : ℕ) : List (Key × ℕ) :=
  (List.range hdr.data.length).map (hdr.entry k)

theorem Hdr.entries_keys (hdr : Hdr) (k : ℕ) :
    (hdr.entries k).map Prod.fst = hdr.data.map (mountKey (hdr.comps k)) := by
  apply List.ext_getElem?
  intro i
  by_cases inside : i < hdr.data.length
  · simp [Hdr.entries, Hdr.entry, inside]
  · simp [Hdr.entries, List.getElem?_eq_none (not_lt.mp inside)]
    omega

theorem Hdr.entries_pointers (hdr : Hdr) (k : ℕ) :
    (hdr.entries k).map Prod.snd = List.range hdr.data.length := by
  rw [Hdr.entries, List.map_map]
  exact List.map_id _

/-- An index is current when its entries are those that an index built now has. -/
theorem current_iff {hdr : Hdr} {k : ℕ} {g : Graph Key ℕ} :
    Current hdr k g ↔ ∀ other, g.Holds other ↔ other ∈ hdr.entries k := by
  have entry : ∀ key pointer, (key, pointer) ∈ hdr.entries k ↔
      ∃ record, hdr.data[pointer]? = some record ∧ key = mountKey (hdr.comps k) record := by
    intro key pointer
    simp only [Hdr.entries, Hdr.entry, List.mem_map, List.mem_range, Prod.mk.injEq]
    constructor
    · rintro ⟨i, inside, same, rfl⟩
      refine ⟨hdr.data[i], List.getElem?_eq_getElem inside, ?_⟩
      rw [← same, List.getD_eq_getElem?_getD, List.getElem?_eq_getElem inside, Option.getD_some]
    · rintro ⟨record, present, rfl⟩
      refine ⟨pointer, (List.getElem?_eq_some_iff.mp present).1, ?_, rfl⟩
      rw [List.getD_eq_getElem?_getD, present, Option.getD_some]
  constructor
  · intro current other
    rw [← Prod.mk.eta (p := other), current, entry]
  · intro held key pointer
    rw [held, entry]

/-- A current index is the index of a file. -/
theorem Current.ok {hdr : Hdr} {k : ℕ} {g : Graph Key ℕ} {labels : Labels Key}
    (current : Current hdr k g) (sound : Sound g labels)
    (distinct : (hdr.data.map (mountKey (hdr.comps k))).Nodup) : IndexOk hdr.data.length g := by
  refine ⟨labels, hdr.entries k, sound, ?_, ?_, current_iff.mp current, ?_⟩
  · rw [hdr.entries_keys]
    exact distinct
  · rw [hdr.entries_pointers]
    exact List.nodup_range
  · intro entry member
    have pointer := List.mem_map_of_mem (f := Prod.snd) member
    rw [hdr.entries_pointers] at pointer
    exact List.mem_range.mp pointer

/-- A walk of a current index visits the entries that an index built now has. -/
theorem Current.walk {hdr : Hdr} {k : ℕ} {idx : Idx} {labels : Labels Key}
    (current : Current hdr k idx.graph) (sound : Sound idx.graph labels)
    (distinct : (hdr.data.map (mountKey (hdr.comps k))).Nodup) :
    ∃ visited, idxWalk hdr.data.length idx = some visited ∧ visited.Perm (hdr.entries k) := by
  obtain ⟨visited, walked, all, _⟩ := idxWalk_spec sound (hdr.entries k)
    (by rw [hdr.entries_keys]; exact distinct) (current_iff.mp current)
  refine ⟨visited, walked _ ?_, all⟩
  simp [Hdr.entries]

/-- `memfh_idx_create` writes the entries of the records in the order of the primary index. -/
theorem memfhIdxCreate_writes {hdr : Hdr} {idx : Idx} {labels : Labels Key}
    (primary : PrimarySound hdr idx labels)
    (distinct : (hdr.data.map (mountKey (hdr.comps 0))).Nodup) (k : ℕ) :
    ∃ idx0 entries, idx0.graph = idx.graph ∧ entries.Perm (hdr.entries k) ∧
      memfhIdxCreate hdr k = (idxWrites (Idx.empty (keyLength (hdr.comps k))) entries).map
        fun idx => (hdr.setIdx 0 idx0).setIdx k idx := by
  have current : Current hdr 0 idx.graph := primary.holds_iff
  obtain ⟨visited, walked, all⟩ := current.walk primary.sound distinct
  have perm : (visited.map fun entry => hdr.entry k entry.2).Perm (hdr.entries k) := by
    have mapped := all.map fun entry => hdr.entry k entry.2
    rw [Hdr.entries, List.map_map] at mapped
    exact mapped
  rcases idxFirst_spec primary.sound with
    ⟨idx0, leaf, items, entry, above, moved, same, there, _⟩ | ⟨idx0, ended, _⟩
  · simp only [idxWalk, moved] at walked
    obtain ⟨last, graph, loop⟩ := createLoop_walk hdr k hdr.data.length
      (Idx.empty (keyLength (hdr.comps k))) visited (same ▸ primary.sound) there walked
    refine ⟨last, _, graph.trans same, perm, ?_⟩
    simp only [memfhIdxCreate, primary.idx_eq, moved, loop, Option.map_map]
    rfl
  · simp only [idxWalk, ended] at walked
    cases walked
    refine ⟨idx0, _, idxFirst_graph ended, perm, ?_⟩
    simp only [memfhIdxCreate, primary.idx_eq, ended]
    rfl

/-- `memfh_idx_create` returns when the records have different values of the key, and then the
index is current. -/
theorem memfhIdxCreate_spec {hdr : Hdr} (ok : FileOk hdr) (k : ℕ) :
    ∃ idx idx0, hdr.idx 0 = some idx ∧ idx0.graph = idx.graph ∧
      ((¬ (hdr.data.map (mountKey (hdr.comps k))).Nodup ∧ memfhIdxCreate hdr k = none) ∨
        ((hdr.data.map (mountKey (hdr.comps k))).Nodup ∧ ∃ made labels,
          memfhIdxCreate hdr k = some ((hdr.setIdx 0 idx0).setIdx k made) ∧
          Sound made.graph labels ∧ Current hdr k made.graph)) := by
  obtain ⟨idx, labels, primary⟩ := ok.primary
  obtain ⟨idx0, entries, graph, perm, create⟩ := memfhIdxCreate_writes primary ok.distinct k
  have keys := perm.map Prod.fst
  rw [hdr.entries_keys] at keys
  have nothing : ∀ other, (Idx.empty (keyLength (hdr.comps k))).graph.Holds other ↔ other ∈ [] :=
    fun other => by simpa using Idx.empty_holds _ other
  have capacity := two_le_maxItems (ok.short k)
  have sound := Idx.empty_sound (keyLength (hdr.comps k))
  refine ⟨idx, idx0, primary.idx_eq, graph, ?_⟩
  by_cases distinct : (hdr.data.map (mountKey (hdr.comps k))).Nodup
  · obtain ⟨made, labels', wrote, sound', held⟩ := idxWrites_sound entries [] sound capacity nothing
      (keys.nodup_iff.mpr distinct)
    refine Or.inr ⟨distinct, made, labels', ?_, sound', current_iff.mpr fun other => ?_⟩
    · rw [create, wrote]
      rfl
    · rw [held]
      exact perm.mem_iff
  · refine Or.inl ⟨distinct, ?_⟩
    cases wrote : idxWrites (Idx.empty (keyLength (hdr.comps k))) entries with
    | none => rw [create, wrote]; rfl
    | some made =>
        have different := idxWrites_distinct entries [] sound capacity nothing List.nodup_nil wrote
        exact (distinct (keys.nodup_iff.mp different)).elim

end Pqfh.Memfh
