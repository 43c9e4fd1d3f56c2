import Pqfh.Memfh.Start

/-! # Runs of an in-memory file

A program opens an in-memory file and writes, rewrites, reads and starts on it in any order.
Every file reached so is one of `FileOk` (`Pqfh.Memfh.FileRun.ok`): what `memfh_write` and
`memfh_read` do keeps the primary index, and the indexes of alternate keys keep the entries they
were built with.
-/

namespace Pqfh.Memfh

open SearchGraph

/-- A call of a program on an in-memory file. A rewrite is `memfh_read` with `update`. -/
inductive FileOp where
  | write (record : List Byte)
  | rewrite (record : List Byte)
  | read (record : List Byte)
  | start (record : List Byte) (k : ℕ)
  | next (record : List Byte) (k : ℕ)

/-- The file after a call. `none` when the process exits, or a position is used that no START
has set. -/
def FileOp.apply (hdr : Hdr) : FileOp → Option Hdr
  | .write record => memfhWrite hdr record
  | .rewrite record => (memfhRead hdr record true).map fun result => result.2.1
  | .read record => (memfhRead hdr record false).map fun result => result.2.1
  | .start record k => (memfhStart hdr record k).map fun result => result.2.1
  | .next record k => (memfhNext hdr record k).map fun result => result.2.1

/-- The record area of a call. -/
def FileOp.record : FileOp → List Byte
  | .write record | .rewrite record | .read record | .start record _ | .next record _ => record

/-- The files that calls allowed by a rule make of a file just opened. The record area has the
length of the records. -/
inductive FileRun (filename : String) (reclen : ℕ) (keys : List (List (ℕ × ℕ)))
    (allowed : Hdr → FileOp → Prop) : Hdr → Prop where
  | opened : FileRun filename reclen keys allowed (memfhOpen filename reclen keys)
  | called {hdr hdr' : Hdr} {op : FileOp} : FileRun filename reclen keys allowed hdr →
      op.record.length = reclen → allowed hdr op → op.apply hdr = some hdr' →
      FileRun filename reclen keys allowed hdr'

/-! ## What a call can do -/

/-- The pages of an index. -/
def Hdr.pages (hdr : Hdr) (k : ℕ) : Option (Graph Key ℕ) := (hdr.idx k).map Idx.graph

theorem Hdr.setIdx_pages (hdr : Hdr) (k : ℕ) (idx : Idx) :
    (hdr.setIdx k idx).pages = Function.update hdr.pages k (some idx.graph) := by
  funext j
  by_cases same : j = k
  · subst same
    simp [Hdr.pages, Hdr.setIdx]
  · simp [Hdr.pages, Hdr.setIdx, same]

/-- Moving the position of an index leaves the pages of all. -/
theorem Hdr.setIdx_pages_same {hdr : Hdr} {k : ℕ} {idx idx' : Idx} (there : hdr.idx k = some idx)
    (same : idx'.graph = idx.graph) : (hdr.setIdx k idx').pages = hdr.pages := by
  rw [hdr.setIdx_pages, same]
  apply Function.update_eq_self_iff.mpr
  simp [Hdr.pages, there]

/-- What a call can do to a file: move a position, build an index, store a record under a new
primary key, or exchange a record for another with the same primary key. -/
inductive Change (hdr hdr' : Hdr) : FileOp → Prop where
  | moved {op : FileOp} : hdr'.data = hdr.data → hdr'.pages = hdr.pages → Change hdr hdr' op
  | built {record : List Byte} {k : ℕ} {g : Graph Key ℕ} {labels : Labels Key} :
      0 < k → hdr.idx k = none → hdr'.data = hdr.data →
      (hdr.data.map (mountKey (hdr.comps k))).Nodup → Sound g labels → Current hdr k g →
      hdr'.pages = Function.update hdr.pages k (some g) → Change hdr hdr' (.start record k)
  | stored {record : List Byte} {idx : Idx} {labels : Labels Key} :
      (∀ other ∈ hdr.data, mountKey (hdr.comps 0) other ≠ mountKey (hdr.comps 0) record) →
      hdr'.data = hdr.data ++ [record] → PrimarySound hdr' idx labels →
      (∀ k, 0 < k → hdr'.idx k = hdr.idx k) → Change hdr hdr' (.write record)
  | exchanged {record stored : List Byte} {pointer : ℕ} : hdr.data[pointer]? = some stored →
      mountKey (hdr.comps 0) stored = mountKey (hdr.comps 0) record →
      hdr'.data = hdr.data.set pointer record → hdr'.pages = hdr.pages →
      Change hdr hdr' (.rewrite record)

/-- `memfh_write` returns only when the primary key is new. -/
theorem memfhWrite_fresh {hdr hdr' : Hdr} {idx : Idx} {labels : Labels Key} {record : List Byte}
    (primary : PrimarySound hdr idx labels) (wrote : memfhWrite hdr record = some hdr') :
    ∀ other ∈ hdr.data, mountKey (hdr.comps 0) other ≠ mountKey (hdr.comps 0) record := by
  intro other member same
  obtain ⟨pointer, present⟩ := List.getElem?_of_mem member
  have held := (primary.holds_iff _ _).mpr ⟨other, present, rfl⟩
  simp only [memfhWrite, primary.idx_eq] at wrote
  obtain ⟨idx', written, _⟩ := Option.map_eq_some_iff.mp wrote
  have sound : Sound ({ idx with keylen := keyLength (hdr.comps 0) } : Idx).graph labels :=
    primary.sound
  rw [same] at held
  exact idxWrite_absent sound written pointer held

theorem change_of_write {hdr hdr' : Hdr} (ok : FileOk hdr) {record : List Byte}
    (whole : record.length = hdr.reclen) (wrote : memfhWrite hdr record = some hdr') :
    Change hdr hdr' (.write record) ∧ hdr'.keys = hdr.keys ∧ hdr'.reclen = hdr.reclen := by
  obtain ⟨idx, labels, primary⟩ := ok.primary
  have fresh := memfhWrite_fresh primary wrote
  obtain ⟨next, idx', labels', written, primary', reclen, keys, data⟩ :=
    memfhWrite_sound primary (ok.short 0) whole fresh
  obtain rfl : hdr' = next := Option.some.inj (wrote.symm.trans written)
  refine ⟨.stored fresh data primary' ?_, keys, reclen⟩
  intro k positive
  simp only [memfhWrite, primary.idx_eq] at wrote
  obtain ⟨made, _, rfl⟩ := Option.map_eq_some_iff.mp wrote
  simp [Hdr.setIdx, positive.ne']

/-- What `memfh_read` leaves of a file. -/
theorem memfhRead_cases {hdr hdr' : Hdr} {record area : List Byte} {update found : Bool}
    (read : memfhRead hdr record update = some (found, hdr', area)) :
    ∃ idx order path, hdr.idx 0 = some idx ∧
      idxSearch idx (mountKey (hdr.comps 0) record) = some (order, path) ∧
      (hdr' = hdr.setIdx 0 { idx with path := path } ∨
        update = true ∧ order = .eq ∧ ∃ entry, idxCurrent { idx with path := path } = some entry ∧
          hdr' = { hdr.setIdx 0 { idx with path := path } with
            data := hdr.data.set entry.2 (record.take hdr.reclen) }) := by
  unfold memfhRead at read
  split at read
  · cases read
  · rename_i idx there
    split at read
    · cases read
    · rename_i order path searched
      refine ⟨idx, order, path, there, searched, ?_⟩
      dsimp only at read
      split at read
      · cases read
        exact Or.inl rfl
      · rename_i equal
        split at read
        · cases read
        · rename_i key pointer current
          split at read
          · split at read
            · cases read
            · cases read
              exact Or.inr ⟨‹_›, not_not.mp equal, (key, pointer), current, rfl⟩
          · cases read
            exact Or.inl rfl

theorem change_of_read {hdr hdr' : Hdr} (ok : FileOk hdr) {record area : List Byte}
    {update found : Bool} {op : FileOp} (whole : record.length = hdr.reclen)
    (rewrites : update = true → op = .rewrite record)
    (read : memfhRead hdr record update = some (found, hdr', area)) :
    Change hdr hdr' op ∧ hdr'.keys = hdr.keys ∧ hdr'.reclen = hdr.reclen := by
  obtain ⟨idx, order, path, there, searched, rfl | ⟨updates, equal, entry, current, rfl⟩⟩ :=
    memfhRead_cases read
  · exact ⟨.moved rfl (Hdr.setIdx_pages_same there rfl), rfl, rfl⟩
  · obtain ⟨idx', labels, primary⟩ := ok.primary
    obtain rfl : idx = idx' := Option.some.inj (there.symm.trans primary.idx_eq)
    obtain ⟨order', leaf, pos, above, items, searched', found'⟩ :=
      idxSearch_spec primary.sound (mountKey (hdr.comps 0) record)
    cases searched.symm.trans searched'
    rcases found'.order_eq primary.sound with ⟨_, pointer, present⟩ | ⟨unequal, _⟩
    · simp only [idxCurrent, found'.page, present] at current
      cases current
      have held := (found'.holds_iff primary.sound pointer).mpr (List.mem_of_getElem? present)
      obtain ⟨stored, at_pointer, same⟩ := (primary.holds_iff _ _).mp held
      rw [rewrites updates]
      refine ⟨.exchanged at_pointer same.symm ?_ (Hdr.setIdx_pages_same there rfl), rfl, rfl⟩
      simp only [← whole, List.take_length]
    · exact (unequal equal).elim

/-- How `memfh_start` comes by the index of a key. -/
theorem withIndex_cases {hdr hdr' : Hdr} (ok : FileOk hdr) {k : ℕ}
    (indexed : withIndex hdr k = some hdr') :
    hdr' = hdr ∨ 0 < k ∧ hdr.idx k = none ∧ (hdr.data.map (mountKey (hdr.comps k))).Nodup ∧
      ∃ idx0 made labels, hdr' = (hdr.setIdx 0 idx0).setIdx k made ∧ Sound made.graph labels ∧
        Current hdr k made.graph ∧ hdr'.pages = Function.update hdr.pages k (some made.graph) := by
  unfold withIndex at indexed
  split at indexed
  · rename_i missing
    obtain ⟨idx, idx0, there, same,
        ⟨_, failed⟩ | ⟨distinct, made, labels, built, sound, current⟩⟩ :=
      memfhIdxCreate_spec ok k
    · cases failed.symm.trans indexed
    · obtain rfl := Option.some.inj (built.symm.trans indexed)
      refine Or.inr
        ⟨missing.1, Option.isNone_iff_eq_none.mp missing.2, distinct, idx0, made, labels,
        rfl, sound, current, ?_⟩
      rw [Hdr.setIdx_pages, Hdr.setIdx_pages_same there same]
  · exact Or.inl (Option.some.inj indexed).symm

/-- What `memfh_start` returns, and what it leaves of a file. -/
theorem memfhStart_cases {hdr hdr' : Hdr} {record area : List Byte} {k : ℕ} {returned : Bool}
    (started : memfhStart hdr record k = some (returned, hdr', area)) :
    ∃ indexed idx order path, withIndex hdr k = some indexed ∧ indexed.idx k = some idx ∧
      idxSearch idx (mountKey (indexed.comps k) record) = some (order, path) ∧
      hdr' = indexed.setIdx k { idx with path := path } ∧
      ((order = .gt ∧ returned = false ∧ area = record) ∨
        (order ≠ .gt ∧ returned = true ∧ ∃ entry,
          (path.head?.bind fun step => firstEntry (idx.graph.page step.1)) = some entry ∧
          area = indexed.copied entry.2 record)) := by
  unfold memfhStart at started
  split at started
  · cases started
  · rename_i indexed made
    split at started
    · cases started
    · rename_i idx there
      split at started
      · cases started
      · rename_i order path searched
        refine ⟨indexed, idx, order, path, made, there, searched, ?_⟩
        dsimp only at started
        split at started
        · cases started
          exact ⟨rfl, Or.inl ⟨‹_›, rfl, rfl⟩⟩
        · split at started
          · cases started
          · rename_i unequal _ key pointer first
            cases started
            exact ⟨rfl, Or.inr ⟨unequal, rfl, (key, pointer), first, rfl⟩⟩

theorem change_of_start {hdr hdr' : Hdr} (ok : FileOk hdr) {record area : List Byte} {k : ℕ}
    {returned : Bool} (started : memfhStart hdr record k = some (returned, hdr', area)) :
    Change hdr hdr' (.start record k) ∧ hdr'.keys = hdr.keys ∧ hdr'.reclen = hdr.reclen := by
  obtain ⟨indexed, idx, order, path, made, there, _, rfl, _⟩ := memfhStart_cases started
  have pages : (indexed.setIdx k { idx with path := path }).pages = indexed.pages :=
    Hdr.setIdx_pages_same there rfl
  rcases withIndex_cases ok made with
    rfl | ⟨positive, missing, distinct, idx0, made, labels, rfl, sound, current, built⟩
  · exact ⟨.moved rfl pages, rfl, rfl⟩
  · exact ⟨.built positive missing rfl distinct sound current (pages.trans built), rfl, rfl⟩

theorem change_of_next {hdr hdr' : Hdr} {record area : List Byte} {k : ℕ} {moved : Bool}
    {op : FileOp} (next : memfhNext hdr record k = some (moved, hdr', area)) :
    Change hdr hdr' op ∧ hdr'.keys = hdr.keys ∧ hdr'.reclen = hdr.reclen := by
  unfold memfhNext at next
  split at next
  · cases next
  · rename_i idx there
    split at next
    · cases next
    · rename_i idx' ended
      cases next
      exact ⟨.moved rfl (Hdr.setIdx_pages_same there (idxNext_graph ended)), rfl, rfl⟩
    · rename_i idx' stepped
      obtain ⟨entry, _, result⟩ := Option.map_eq_some_iff.mp next
      cases result
      exact ⟨.moved rfl (Hdr.setIdx_pages_same there (idxNext_graph stepped)), rfl, rfl⟩

/-- Every call makes one of the changes. -/
theorem FileOp.change {hdr hdr' : Hdr} (ok : FileOk hdr) {op : FileOp}
    (whole : op.record.length = hdr.reclen) (applied : op.apply hdr = some hdr') :
    Change hdr hdr' op ∧ hdr'.keys = hdr.keys ∧ hdr'.reclen = hdr.reclen := by
  cases op with
  | write record => exact change_of_write ok whole applied
  | rewrite record =>
      obtain ⟨⟨found, next, area⟩, read, rfl⟩ := Option.map_eq_some_iff.mp applied
      exact change_of_read ok whole (fun _ => rfl) read
  | read record =>
      obtain ⟨⟨found, next, area⟩, read, rfl⟩ := Option.map_eq_some_iff.mp applied
      exact change_of_read ok whole (by exact nofun) read
  | start record k =>
      obtain ⟨⟨returned, next, area⟩, started, rfl⟩ := Option.map_eq_some_iff.mp applied
      exact change_of_start ok started
  | next record k =>
      obtain ⟨⟨moved, next, area⟩, stepped, rfl⟩ := Option.map_eq_some_iff.mp applied
      exact change_of_next stepped

/-! ## Every file reached -/

theorem IndexOk.mono {few many : ℕ} {g : Graph Key ℕ} (ok : IndexOk few g) (more : few ≤ many) :
    IndexOk many g := by
  obtain ⟨labels, entries, sound, keys, pointers, held, inside⟩ := ok
  exact ⟨labels, entries, sound, keys, pointers, held,
    fun entry member => (inside entry member).trans_le more⟩

/-- The pages of an index that is there. -/
theorem Hdr.pages_eq_some {hdr : Hdr} {k : ℕ} {g : Graph Key ℕ} :
    hdr.pages k = some g ↔ ∃ idx, hdr.idx k = some idx ∧ idx.graph = g :=
  Option.map_eq_some_iff

/-- What a pointer leads to, by the keys of all records. -/
theorem exists_record_iff (data : List (List Byte)) (comps : List (ℕ × ℕ)) (key : Key)
    (pointer : ℕ) : (∃ record, data[pointer]? = some record ∧ key = mountKey comps record) ↔
      (data.map (mountKey comps))[pointer]? = some key := by
  rw [List.getElem?_map, Option.map_eq_some_iff]
  exact exists_congr fun record => and_congr_right fun _ => eq_comm

/-- The primary index is current while its pages and the primary keys stay. -/
theorem PrimarySound.transport {hdr hdr' : Hdr} {idx : Idx} {labels : Labels Key}
    (primary : PrimarySound hdr idx labels) (pages : hdr'.pages 0 = hdr.pages 0)
    (keys : hdr'.keys = hdr.keys)
    (data : hdr'.data.map (mountKey (hdr.comps 0)) = hdr.data.map (mountKey (hdr.comps 0))) :
    ∃ idx', PrimarySound hdr' idx' labels := by
  obtain ⟨idx', there, same⟩ := Hdr.pages_eq_some.mp
    (pages.trans (Hdr.pages_eq_some.mpr ⟨idx, primary.idx_eq, rfl⟩))
  refine ⟨idx', there, same ▸ primary.sound, fun key pointer => ?_⟩
  have comps : hdr'.comps 0 = hdr.comps 0 := by simp only [Hdr.comps, keys]
  rw [same, primary.holds_iff, comps, exists_record_iff, exists_record_iff, data]

/-- Exchanging a record for another with the same key changes no key. -/
theorem exchanged_keys {data : List (List Byte)} {pointer : ℕ} {stored record : List Byte}
    {comps : List (ℕ × ℕ)} (present : data[pointer]? = some stored)
    (same : mountKey comps stored = mountKey comps record) :
    (data.set pointer record).map (mountKey comps) = data.map (mountKey comps) := by
  apply List.ext_getElem?
  intro i
  rw [List.getElem?_map, List.getElem?_map, List.getElem?_set]
  by_cases here : pointer = i
  · subst here
    have inside := (List.getElem?_eq_some_iff.mp present).1
    simp only [inside, ↓reduceIte, present, Option.map_some, same]
  · simp only [here, ↓reduceIte]

/-- A file stays a file of different primary keys, with every index sound, in each change. -/
theorem Change.ok {hdr hdr' : Hdr} (ok : FileOk hdr) {op : FileOp}
    (whole : op.record.length = hdr.reclen) (change : Change hdr hdr' op)
    (keys : hdr'.keys = hdr.keys) (reclen : hdr'.reclen = hdr.reclen) : FileOk hdr' := by
  have comps : hdr'.comps = hdr.comps := by funext k; simp only [Hdr.comps, keys]
  obtain ⟨idx, labels, primary⟩ := ok.primary
  have kept : ∀ {k : ℕ} {idx' : Idx}, hdr'.idx k = some idx' → hdr'.pages k = hdr.pages k →
      hdr'.data.length = hdr.data.length → IndexOk hdr'.data.length idx'.graph := by
    intro k idx' there pages length
    obtain ⟨old, present, graph⟩ := Hdr.pages_eq_some.mp
      (pages.symm.trans (Hdr.pages_eq_some.mpr ⟨idx', there, rfl⟩))
    rw [← graph, length]
    exact ok.built k old present
  cases change with
  | moved data pages =>
      obtain ⟨idx', primary'⟩ := primary.transport (congrFun pages 0) keys (by rw [data])
      refine ⟨by rw [comps]; exact ok.short, by rw [data, reclen]; exact ok.whole,
        by rw [data, comps]; exact ok.distinct, ⟨idx', labels, primary'⟩, fun k idx' there => ?_⟩
      exact kept there (congrFun pages k) (by rw [data])
  | @built record k g labels' positive missing data distinct sound current pages =>
      have others : ∀ j, j ≠ k → hdr'.pages j = hdr.pages j := by
        intro j other
        rw [pages, Function.update_of_ne other]
      obtain ⟨idx', primary'⟩ := primary.transport (others 0 positive.ne) keys (by rw [data])
      refine ⟨by rw [comps]; exact ok.short, by rw [data, reclen]; exact ok.whole,
        by rw [data, comps]; exact ok.distinct, ⟨idx', labels, primary'⟩, fun j idx' there => ?_⟩
      by_cases new : j = k
      · subst new
        have graph := (Hdr.pages_eq_some.mpr ⟨idx', there, rfl⟩).symm.trans (congrFun pages j)
        rw [Function.update_self] at graph
        rw [Option.some.inj graph, data]
        exact current.ok sound distinct
      · exact kept there (others j new) (by rw [data])
  | @stored record idx' labels' fresh data primary' others =>
      have distinct : (hdr'.data.map (mountKey (hdr'.comps 0))).Nodup := by
        rw [data, comps, List.map_append, List.map_singleton]
        refine List.Nodup.append ok.distinct (List.nodup_singleton _)
          (List.disjoint_singleton.mpr ?_)
        intro member
        obtain ⟨other, present, same⟩ := List.mem_map.mp member
        exact fresh other present same
      refine ⟨by rw [comps]; exact ok.short, ?_, distinct, ⟨idx', labels', primary'⟩,
        fun k made there => ?_⟩
      · intro other member
        rw [data, List.mem_append, List.mem_singleton] at member
        rw [reclen]
        rcases member with old | rfl
        · exact ok.whole other old
        · exact whole
      · by_cases first : k = 0
        · subst first
          obtain rfl : made = idx' := Option.some.inj (there.symm.trans primary'.idx_eq)
          exact Current.ok primary'.holds_iff primary'.sound distinct
        · rw [others k (Nat.pos_of_ne_zero first)] at there
          exact (ok.built k made there).mono (by rw [data, List.length_append]; omega)
  | @exchanged record stored pointer present same data pages =>
      have keys0 := exchanged_keys present same
      obtain ⟨idx', primary'⟩ := primary.transport (congrFun pages 0) keys (by rw [data, keys0])
      refine ⟨by rw [comps]; exact ok.short, ?_, by rw [data, comps, keys0]; exact ok.distinct,
        ⟨idx', labels, primary'⟩, fun k idx' there => ?_⟩
      · intro other member
        rw [data] at member
        rw [reclen]
        rcases List.mem_or_eq_of_mem_set member with old | rfl
        · exact ok.whole other old
        · exact whole
      · exact kept there (congrFun pages k) (by rw [data, List.length_set])

/-- A file just opened. -/
theorem memfhOpen_ok (filename : String) {reclen : ℕ} {keys : List (List (ℕ × ℕ))}
    (short : ∀ comps ∈ keys, keyLength comps ≤ 256) : FileOk (memfhOpen filename reclen keys) := by
  refine ⟨fun k => ?_, nofun, List.nodup_nil, ⟨_, _, memfhOpen_sound filename reclen keys⟩,
    fun k idx there => ?_⟩
  · rw [Hdr.comps, List.getD_eq_getElem?_getD]
    cases given : (memfhOpen filename reclen keys).keys[k]? with
    | none => exact Nat.zero_le _
    | some comps => exact short comps (List.mem_of_getElem? given)
  · by_cases first : k = 0
    · subst first
      obtain rfl := Option.some.inj there
      have opened := memfhOpen_sound filename reclen keys
      exact Current.ok opened.holds_iff opened.sound List.nodup_nil
    · simp only [memfhOpen, first, ↓reduceIte, reduceCtorEq] at there

/-- Every file reached. -/
theorem FileRun.ok {filename : String} {reclen : ℕ} {keys : List (List (ℕ × ℕ))}
    {allowed : Hdr → FileOp → Prop} (short : ∀ comps ∈ keys, keyLength comps ≤ 256) {hdr : Hdr}
    (run : FileRun filename reclen keys allowed hdr) :
    FileOk hdr ∧ hdr.keys = keys ∧ hdr.reclen = reclen := by
  induction run with
  | opened => exact ⟨memfhOpen_ok filename short, rfl, rfl⟩
  | called _ whole _ applied ih =>
      obtain ⟨ok, sameKeys, sameReclen⟩ := ih
      obtain ⟨change, keys', reclen'⟩ := FileOp.change ok (whole.trans sameReclen.symm) applied
      exact ⟨change.ok ok (whole.trans sameReclen.symm) keys' reclen', keys'.trans sameKeys,
        reclen'.trans sameReclen⟩

/-! ## Indexes of alternate keys -/

/-- The indexes of alternate keys that were built have one entry for each record, under its
current value of the key, and a walk of them visits each record once. -/
def AlternatesCurrent (hdr : Hdr) : Prop :=
  ∀ k idx, 0 < k → hdr.idx k = some idx → Current hdr k idx.graph ∧
    ∃ visited, idxWalk hdr.data.length idx = some visited ∧ visited.Perm (hdr.entries k)

/-- The calls after which the indexes of alternate keys are current because nothing has to be
done about them: no WRITE once one of them is built, and no REWRITE that changes the value of a
key whose index is built. -/
def Unaffected (hdr : Hdr) : FileOp → Prop
  | .write _ => ∀ k, 0 < k → hdr.idx k = none
  | .rewrite record => ∀ k, 0 < k → hdr.idx k ≠ none → ∀ stored ∈ hdr.data,
      mountKey (hdr.comps 0) stored = mountKey (hdr.comps 0) record →
      mountKey (hdr.comps k) stored = mountKey (hdr.comps k) record
  | _ => True

/-- An index stays current while its pages and the values of its key stay. -/
theorem Current.transport {hdr hdr' : Hdr} {k : ℕ} {g : Graph Key ℕ} (current : Current hdr k g)
    (keys : hdr'.keys = hdr.keys)
    (data : hdr'.data.map (mountKey (hdr.comps k)) = hdr.data.map (mountKey (hdr.comps k))) :
    Current hdr' k g := by
  intro key pointer
  have comps : hdr'.comps k = hdr.comps k := by simp only [Hdr.comps, keys]
  rw [current, comps, exists_record_iff, exists_record_iff, data]

/-- What a call keeps of the indexes that were built. -/
theorem Change.alternates {hdr hdr' : Hdr} {op : FileOp} (change : Change hdr hdr' op)
    (keys : hdr'.keys = hdr.keys) (unaffected : Unaffected hdr op)
    (current : ∀ k g, 0 < k → hdr.pages k = some g →
      Current hdr k g ∧ (hdr.data.map (mountKey (hdr.comps k))).Nodup) :
    ∀ k g, 0 < k → hdr'.pages k = some g →
      Current hdr' k g ∧ (hdr'.data.map (mountKey (hdr'.comps k))).Nodup := by
  intro k g positive there
  have comps : hdr'.comps k = hdr.comps k := by simp only [Hdr.comps, keys]
  rw [comps]
  cases change with
  | moved data pages =>
      obtain ⟨before, distinct⟩ := current k g positive (by rw [← pages]; exact there)
      exact ⟨before.transport keys (by rw [data]), by rw [data]; exact distinct⟩
  | @built record j g' labels _ missing data distinct sound before pages =>
      rw [pages] at there
      by_cases new : k = j
      · subst new
        rw [Function.update_self] at there
        obtain rfl := Option.some.inj there
        exact ⟨before.transport keys (by rw [data]), by rw [data]; exact distinct⟩
      · rw [Function.update_of_ne new] at there
        obtain ⟨before, distinct⟩ := current k g positive there
        exact ⟨before.transport keys (by rw [data]), by rw [data]; exact distinct⟩
  | stored _ _ _ others =>
      obtain ⟨idx, present, _⟩ := Hdr.pages_eq_some.mp there
      rw [others k positive, unaffected k positive] at present
      cases present
  | exchanged present same data pages =>
      rw [pages] at there
      obtain ⟨before, distinct⟩ := current k g positive there
      obtain ⟨idx, built, _⟩ := Hdr.pages_eq_some.mp there
      have unchanged := exchanged_keys present (unaffected k positive
        (by rw [built]; exact Option.some_ne_none idx) _ (List.mem_of_getElem? present) same)
      exact ⟨before.transport keys (by rw [data, unchanged]), by
        rw [data, unchanged]; exact distinct⟩

/-- In a run without a WRITE once an index of an alternate key is built, and without a REWRITE
that changes the value of such a key, the indexes of alternate keys are current. -/
theorem alternates_current {filename : String} {reclen : ℕ} {keys : List (List (ℕ × ℕ))}
    (short : ∀ comps ∈ keys, keyLength comps ≤ 256) {hdr : Hdr}
    (run : FileRun filename reclen keys Unaffected hdr) : AlternatesCurrent hdr := by
  have current : ∀ k g, 0 < k → hdr.pages k = some g →
      Current hdr k g ∧ (hdr.data.map (mountKey (hdr.comps k))).Nodup := by
    induction run with
    | opened =>
        intro k g positive there
        simp [Hdr.pages, memfhOpen, positive.ne'] at there
    | called run whole unaffected applied ih =>
        obtain ⟨ok, _, sameReclen⟩ := run.ok short
        obtain ⟨change, keys', _⟩ := FileOp.change ok (whole.trans sameReclen.symm) applied
        exact change.alternates keys' unaffected ih
  intro k idx positive there
  obtain ⟨before, distinct⟩ := current k _ positive (Hdr.pages_eq_some.mpr ⟨idx, there, rfl⟩)
  obtain ⟨labels, _, sound, _⟩ := (run.ok short).1.built k idx there
  exact ⟨before, before.walk sound distinct⟩

/-- The file that calls make. -/
def FileOp.applyAll (hdr : Hdr) (ops : List FileOp) : Option Hdr := ops.foldlM FileOp.apply hdr

/-- Calls on a file reached reach another. -/
theorem FileRun.applyAll {filename : String} {reclen : ℕ} {keys : List (List (ℕ × ℕ))} :
    ∀ (ops : List FileOp) {hdr hdr' : Hdr},
      FileRun filename reclen keys (fun _ _ => True) hdr →
      (∀ op ∈ ops, op.record.length = reclen) → FileOp.applyAll hdr ops = some hdr' →
      FileRun filename reclen keys (fun _ _ => True) hdr' := by
  intro ops
  induction ops with
  | nil =>
      intro hdr hdr' run _ applied
      cases applied
      exact run
  | cons op ops ih =>
      intro hdr hdr' run whole applied
      obtain ⟨next, first, rest⟩ := Option.bind_eq_some_iff.mp
        (by simpa only [FileOp.applyAll, List.foldlM_cons, Option.bind_eq_bind] using applied)
      exact ih (run.called (whole op (by simp)) trivial first)
        (fun other member => whole other (List.mem_cons_of_mem _ member)) rest

/-- A file of records of two bytes, each a key, with one record. -/
def twoKeys : Hdr :=
  ((FileOp.write [1, 7]).apply (memfhOpen "f" 2 [[(0, 1)], [(1, 1)]])).getD (memfhOpen "f" 2 [])

/-- The file after a START on its second key. -/
def twoKeysStarted : Hdr := ((FileOp.start [0, 0] 1).apply twoKeys).getD twoKeys

/-- Two keys of one file, started one after the other: each scan goes on from its own place. -/
theorem alternates_current_started : AlternatesCurrent twoKeysStarted := by
  have wrote : (FileOp.write [1, 7]).apply (memfhOpen "f" 2 [[(0, 1)], [(1, 1)]]) = some twoKeys :=
    Option.eq_some_of_isSome (by decide +kernel) |>.trans rfl
  have started : (FileOp.start [0, 0] 1).apply twoKeys = some twoKeysStarted :=
    Option.eq_some_of_isSome (by decide +kernel) |>.trans rfl
  have empty : Unaffected (memfhOpen "f" 2 [[(0, 1)], [(1, 1)]]) (.write [1, 7]) :=
    fun k positive => if_neg positive.ne'
  have run : FileRun "f" 2 [[(0, 1)], [(1, 1)]] Unaffected twoKeysStarted :=
    .called (.called .opened rfl empty wrote) rfl (by trivial) started
  exact alternates_current (by decide) run

/-- A record written after a START on the second key is not in the index of that key. -/
theorem alternates_miss_write :
    ¬ ∀ (filename : String) (reclen : ℕ) (keys : List (List (ℕ × ℕ))),
      (∀ comps ∈ keys, keyLength comps ≤ 256) → ∀ hdr,
        FileRun filename reclen keys (fun _ _ => True) hdr → AlternatesCurrent hdr := by
  intro claimed
  obtain ⟨hdr, applied, walked⟩ := Option.map_eq_some_iff.mp (by decide +kernel :
    (FileOp.applyAll (memfhOpen "f" 2 [[(0, 1)], [(1, 1)]])
      [.write [1, 7], .start [0, 0] 1, .write [2, 8]]).map
        (fun hdr => (hdr.data, (hdr.idx 1).bind (idxWalk hdr.data.length))) =
      some ([[1, 7], [2, 8]], some [([7], 0)]))
  obtain ⟨data, walk⟩ := Prod.mk.inj walked
  obtain ⟨idx, there, walk⟩ := Option.bind_eq_some_iff.mp walk
  have run := FileRun.applyAll _ (.opened : FileRun "f" 2 [[(0, 1)], [(1, 1)]] (fun _ _ => True) _)
    (by decide) applied
  obtain ⟨_, visited, walked, perm⟩ := claimed "f" 2 [[(0, 1)], [(1, 1)]] (by decide) hdr run 1 idx
    (by decide) there
  have same := perm.length_eq
  rw [Option.some.inj (walked.symm.trans walk), Hdr.entries, List.length_map, List.length_range,
    data] at same
  exact absurd same (by decide)

end Pqfh.Memfh
