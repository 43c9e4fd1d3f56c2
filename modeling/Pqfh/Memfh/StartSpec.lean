import Pqfh.Memfh.Runs

/-! # When START on an in-memory file starts where it should

`memfh_start` is to give out the record with the smallest key that is not below the key asked
for, and `memfh_next` the records after it. It does so on the files in which the page the search
ends on starts with that key (`Pqfh.Memfh.start_iff`): it reads the page from its start, and
never goes on to the next page.
-/

namespace Pqfh.Memfh

open SearchGraph

/-- The first entry of the page of an index on which a key belongs. -/
def Idx.pageStart (idx : Idx) (key : Key) : Option (Key × ℕ) :=
  (idxSearch idx key).bind fun found =>
    found.2.head?.bind fun step => firstEntry (idx.graph.page step.1)

/-- The entry with the smallest key that is not below a key. -/
structure LeastFrom (g : Graph Key ℕ) (key : Key) (entry : Key × ℕ) : Prop where
  held : g.Holds entry
  above : key ≤ entry.1
  least : ∀ other, g.Holds other → key ≤ other.1 → entry.1 ≤ other.1

/-- What START not less than the key of a record, and the calls of READ NEXT after it, are
to do. -/
def StartsAt (hdr : Hdr) (k : ℕ) (probe : List Byte) : Prop :=
  ∃ returned hdr' area idx, memfhStart hdr probe k = some (returned, hdr', area) ∧
    hdr'.idx k = some idx ∧
    (returned = true ↔ ∃ entry, idx.graph.Holds entry ∧ mountKey (hdr.comps k) probe ≤ entry.1) ∧
    (returned = true → ∃ (entry : Key × ℕ) (visited : List (Key × ℕ)),
      LeastFrom idx.graph (mountKey (hdr.comps k) probe) entry ∧
      hdr.data[entry.2]? = some area ∧
      memfhNexts k hdr.data.length hdr' area =
        some (visited.map fun other => hdr.data.getD other.2 []) ∧
      visited.Pairwise (fun first second => first.1 < second.1) ∧
      ∀ other, other ∈ visited ↔ idx.graph.Holds other ∧ entry.1 < other.1)

/-- The files and records for which START does: the index is there or its keys are all
different, and no key is as large as the one asked for, or the page on which it belongs starts
with one that is. -/
def StartSafe (hdr : Hdr) (k : ℕ) (probe : List Byte) : Prop :=
  (hdr.idx k = none → (hdr.data.map (mountKey (hdr.comps k))).Nodup) ∧
  ∀ indexed idx, withIndex hdr k = some indexed → indexed.idx k = some idx →
    (∀ entry, idx.graph.Holds entry → entry.1 < mountKey (hdr.comps k) probe) ∨
      ∃ entry, idx.pageStart (mountKey (hdr.comps k) probe) = some entry ∧
        mountKey (hdr.comps k) probe ≤ entry.1

/-! ## Reading on -/

/-- A record area of the length of the records is filled. -/
theorem Hdr.copied_eq {hdr : Hdr} {pointer : ℕ} {record stored : List Byte}
    (present : hdr.data[pointer]? = some stored) (full : stored.length = hdr.reclen)
    (whole : record.length = hdr.reclen) : hdr.copied pointer record = stored := by
  rw [Hdr.copied, List.getD_eq_getElem?_getD, present, Option.getD_some, ← full, List.take_length,
    full, ← whole, List.drop_length, List.append_nil]

/-- The calls of `memfh_next` give out the records of the entries that a walk visits. -/
theorem memfhNexts_walk {labels : Labels Key} {k : ℕ} {g : Graph Key ℕ} (sound : Sound g labels) :
    ∀ (fuel : ℕ) {hdr : Hdr} {idx : Idx} {leaf pos : ℕ} {items : List (Key × ℕ)} {entry : Key × ℕ}
      {above : List (ℕ × ℕ)} {record : List Byte} {visited : List (Key × ℕ)},
      hdr.idx k = some idx → idx.graph = g → At idx leaf pos items entry above →
      idxWalkFrom fuel idx = some (entry :: visited) → record.length = hdr.reclen →
      (∀ other, g.Holds other →
        ∃ stored, hdr.data[other.2]? = some stored ∧ stored.length = hdr.reclen) →
      memfhNexts k fuel hdr record = some (visited.map fun other => hdr.data.getD other.2 []) := by
  intro fuel
  induction fuel with
  | zero =>
      intro hdr idx leaf pos items entry above record visited _ _ _ walked
      cases walked
  | succ fuel ih =>
      intro hdr idx leaf pos items entry above record visited there same here walked whole full
      have current := here.current
      rcases idxNext_spec (same ▸ sound) here with
        ⟨idx', leaf', pos', items', entry', above', moved, graph, there', next⟩ | ⟨idx', ended, _⟩
      · have current' := there'.current
        simp only [idxWalkFrom, moved, current] at walked
        obtain ⟨rest, walked', joined⟩ := Option.map_eq_some_iff.mp walked
        obtain rfl : rest = visited := by simpa using joined
        obtain ⟨stored, present, length⟩ := full entry' (same ▸ next.held)
        obtain ⟨visited', rfl⟩ : ∃ visited', rest = entry' :: visited' := by
          cases fuel with
          | zero => cases walked'
          | succ fuel =>
              unfold idxWalkFrom at walked'
              split at walked'
              · cases walked'
              · cases walked'
                exact ⟨[], by rw [current']; rfl⟩
              · obtain ⟨rest, _, rfl⟩ := Option.map_eq_some_iff.mp walked'
                exact ⟨rest, by rw [current']; rfl⟩
        have stepped : memfhNext hdr record k = some (true, hdr.setIdx k idx', stored) := by
          simp only [memfhNext, there, moved, current', Option.map_some]
          rw [Hdr.copied_eq present length whole]
        have later : (hdr.setIdx k idx').idx k = some idx' := by simp [Hdr.setIdx]
        have tail := ih later (graph.trans same) there' walked' length full
        rw [Hdr.setIdx_data] at tail
        simp only [memfhNexts, stepped, tail, Option.map_some, List.map_cons,
          List.getD_eq_getElem?_getD, present, Option.getD_some]
      · simp only [idxWalkFrom, ended, current] at walked
        cases walked
        simp only [memfhNexts, memfhNext, there, ended]
        rfl

/-! ## Where a search ends -/

/-- The loop over a leaf page runs to its end when all its keys are smaller. -/
theorem searchLeaf_gt (key : Key) :
    ∀ (items : List (Key × ℕ)) (i : ℕ),
      (searchLeaf key items i).1 = .gt ↔ ∀ entry ∈ items, entry.1 < key := by
  intro items
  induction items with
  | nil => intro i; simp [searchLeaf]
  | cons item rest ih =>
      intro i
      obtain ⟨k, record⟩ := item
      by_cases same : key = k
      · subst same
        simp [searchLeaf]
      · by_cases below : key < k
        · simp [searchLeaf, same, below, below.le]
        · have above : k < key := lt_of_le_of_ne (not_lt.mp below) (Ne.symm same)
          simp [searchLeaf, same, below, ih, above]

/-- The loop stops at once when the first key is not smaller. -/
theorem searchLeaf_first {key : Key} {entry : Key × ℕ} (rest : List (Key × ℕ)) (i : ℕ)
    (above : key ≤ entry.1) : (searchLeaf key (entry :: rest) i).2 = i := by
  obtain ⟨k, record⟩ := entry
  by_cases same : key = k
  · simp [searchLeaf, same]
  · simp [searchLeaf, same, lt_of_le_of_ne above same]

section Search

variable {idx : Idx} {labels : Labels Key} {key : Key} {order : Ordering} {leaf pos : ℕ}
  {above : List (ℕ × ℕ)} {items : List (Key × ℕ)} {entry : Key × ℕ}
  (found : Found idx.graph labels key order leaf pos above items)

include found

theorem Found.order_gt : order = .gt ↔ ∀ entry ∈ items, entry.1 < key := by
  rw [← searchLeaf_gt key items 0, found.result]

/-- The page on which the key belongs. -/
theorem Found.pageStart (searched : idxSearch idx key = some (order, (leaf, pos) :: above)) :
    idx.pageStart key = items.head? := by
  simp only [Idx.pageStart, searched, Option.bind_some, List.head?_cons, found.page, firstEntry]

/-- The first entry of the page has the smallest key from the key on, when it is not below. -/
theorem Found.leastFrom (sound : Sound idx.graph labels) (first : items.head? = some entry)
    (notBelow : key ≤ entry.1) : LeastFrom idx.graph key entry := by
  have described := sound.leaf leaf found.inside items found.page
  have member : entry ∈ items := List.mem_of_head? first
  refine ⟨⟨leaf, found.inside, items, found.page, member⟩, notBelow, fun other held from' => ?_⟩
  by_contra smaller
  have inLeaf := sound.mem_of_inRange found.inside found.page
    ⟨found.inRange.1.trans (WithBot.coe_le_coe.mpr from'),
      lt_trans (WithTop.coe_lt_coe.mpr (not_le.mp smaller)) (described.inRange entry member).2⟩ held
  have sorted := described.sorted
  cases items with
  | nil => cases member
  | cons head rest =>
      obtain rfl : head = entry := Option.some.inj first
      rcases List.mem_cons.mp inLeaf with rfl | later
      · exact smaller le_rfl
      · exact smaller (List.rel_of_pairwise_cons sorted later).le

/-- An entry at the position where the search stopped is the position of a walk. -/
theorem Found.place (present : items[pos]? = some entry) :
    At { idx with path := (leaf, pos) :: above } leaf pos items entry above := by
  refine ⟨rfl, found.inside, found.page, present, ?_⟩
  have path := found.path
  cases above with
  | nil => exact Or.inl ⟨rfl, path⟩
  | cons step rest =>
      obtain ⟨parent, ppos⟩ := step
      obtain ⟨pitems, next, page, pointed⟩ := path.pointed
      exact Or.inr ⟨parent, ppos, rest, pitems, next, rfl,
        path.inside (parent, ppos) (List.mem_cons_self ..), page, pointed⟩

/-- The walk goes on from there. -/
theorem Found.at (first : items.head? = some entry) (notBelow : key ≤ entry.1) :
    At { idx with path := (leaf, pos) :: above } leaf pos items entry above := by
  apply found.place
  cases items with
  | nil => cases first
  | cons head rest =>
      obtain rfl : head = entry := Option.some.inj first
      have stopped := searchLeaf_first rest 0 notBelow
      rw [found.result] at stopped
      replace stopped : pos = 0 := stopped
      rw [stopped]
      rfl

end Search

/-! ## START -/

/-- There are no more entries in an index than records. -/
theorem indexEntries_length {n : ℕ} {entries : List (Key × ℕ)}
    (pointers : (entries.map Prod.snd).Nodup) (inside : ∀ entry ∈ entries, entry.2 < n) :
    entries.length ≤ n := by
  have sub : List.Subperm (entries.map Prod.snd) (List.range n) := by
    apply List.subperm_of_subset pointers
    intro pointer member
    obtain ⟨entry, present, rfl⟩ := List.mem_map.mp member
    exact List.mem_range.mpr (inside entry present)
  simpa using sub.length_le

/-- The index that `memfh_start` searches. -/
theorem withIndex_ok {hdr indexed : Hdr} (ok : FileOk hdr) {k : ℕ} {idx : Idx}
    (made : withIndex hdr k = some indexed) (there : indexed.idx k = some idx) :
    IndexOk hdr.data.length idx.graph ∧ indexed.data = hdr.data ∧ indexed.comps k = hdr.comps k ∧
      indexed.reclen = hdr.reclen ∧
      (hdr.idx k = none → (hdr.data.map (mountKey (hdr.comps k))).Nodup) := by
  rcases withIndex_cases ok made with
    rfl | ⟨_, _, distinct, idx0, built, labels, rfl, sound, current, _⟩
  · exact ⟨ok.built k idx there, rfl, rfl, rfl,
      fun missing => by rw [missing] at there; cases there⟩
  · have same : built = idx := by simpa [Hdr.setIdx] using there
    exact ⟨same ▸ current.ok sound distinct, rfl, rfl, rfl, fun _ => distinct⟩

/-- `memfh_start` comes by an index when the keys of the records are all different, or it was
built before. -/
theorem exists_withIndex {hdr : Hdr} (ok : FileOk hdr) {k : ℕ}
    (distinct : hdr.idx k = none → (hdr.data.map (mountKey (hdr.comps k))).Nodup) :
    ∃ indexed idx, withIndex hdr k = some indexed ∧ indexed.idx k = some idx := by
  cases there : hdr.idx k with
  | some idx => exact ⟨hdr, idx, by simp [withIndex, there], there⟩
  | none =>
      have positive : 0 < k := by
        by_contra zero
        obtain rfl : k = 0 := by omega
        obtain ⟨idx, labels, primary⟩ := ok.primary
        rw [primary.idx_eq] at there
        cases there
      obtain ⟨_, idx0, _, _, ⟨same, _⟩ | ⟨_, made, labels, built, _⟩⟩ := memfhIdxCreate_spec ok k
      · exact (same (distinct there)).elim
      · refine ⟨(hdr.setIdx 0 idx0).setIdx k made, made, ?_, by simp [Hdr.setIdx]⟩
        simp only [withIndex, positive, there, Option.isNone_none, and_self, ↓reduceIte, built]

/-- The record of an entry of an index. -/
theorem FileOk.stored {hdr : Hdr} (ok : FileOk hdr) {pointer : ℕ}
    (inside : pointer < hdr.data.length) :
    ∃ stored, hdr.data[pointer]? = some stored ∧ stored.length = hdr.reclen :=
  ⟨hdr.data[pointer], List.getElem?_eq_getElem inside, ok.whole _ (List.getElem_mem inside)⟩

/-- START does what it is to do when the file and the record are safe. -/
theorem startsAt_of_safe {hdr : Hdr} (ok : FileOk hdr) {k : ℕ} {probe : List Byte}
    (whole : probe.length = hdr.reclen) (safe : StartSafe hdr k probe) : StartsAt hdr k probe := by
  obtain ⟨indexed, idx, made, there⟩ := exists_withIndex ok safe.1
  obtain ⟨⟨labels, entries, sound, keys, pointers, held, inside⟩, data, comps, reclen, _⟩ :=
    withIndex_ok ok made there
  obtain ⟨order, leaf, pos, above, items, searched, found⟩ :=
    idxSearch_spec sound (mountKey (hdr.comps k) probe)
  have outcome := safe.2 indexed idx made there
  rw [found.pageStart searched] at outcome
  have later : (indexed.setIdx k { idx with path := (leaf, pos) :: above }).idx k =
      some { idx with path := (leaf, pos) :: above } := by simp [Hdr.setIdx]
  by_cases beyond : order = .gt
  · have smaller := found.order_gt.mp beyond
    have none : ∀ entry, idx.graph.Holds entry → entry.1 < mountKey (hdr.comps k) probe := by
      rcases outcome with all | ⟨entry, first, notBelow⟩
      · exact all
      · exact (not_lt.mpr notBelow (smaller entry (List.mem_of_head? first))).elim
    refine ⟨false, _, probe, _, ?_, later,
      ⟨fun started => absurd started Bool.false_ne_true, ?_⟩,
      fun started => absurd started Bool.false_ne_true⟩
    · simp only [memfhStart, made, there, comps, searched, beyond, ↓reduceIte]
    · rintro ⟨entry, present, notBelow⟩
      exact (not_lt.mpr notBelow (none entry present)).elim
  · obtain ⟨entry, first, notBelow⟩ : ∃ entry, items.head? = some entry ∧
        mountKey (hdr.comps k) probe ≤ entry.1 := by
      rcases outcome with all | first
      · refine (beyond (found.order_gt.mpr fun entry member => all entry ?_)).elim
        exact ⟨leaf, found.inside, items, found.page, member⟩
      · exact first
    have least := found.leastFrom sound first notBelow
    have here := found.at first notBelow
    have member : entry ∈ entries := (held entry).mp least.held
    obtain ⟨stored, present, length⟩ := ok.stored (inside entry member)
    have fewer : (entries.filter fun other => entry.1 < other.1).length < hdr.data.length := by
      apply lt_of_lt_of_le _ (indexEntries_length pointers inside)
      rw [List.length_filter_lt_length_iff_exists]
      exact ⟨entry, member, by simp⟩
    obtain ⟨visited, walked, sorted, members⟩ :=
      idxWalkFrom_spec entries keys hdr.data.length (show Sound
        ({ idx with path := (leaf, pos) :: above } : Idx).graph labels from sound) held here fewer
    have full : ∀ other, idx.graph.Holds other → ∃ stored, indexed.data[other.2]? = some stored ∧
        stored.length = indexed.reclen := by
      intro other present
      rw [data, reclen]
      exact ok.stored (inside other ((held other).mp present))
    have nexts := memfhNexts_walk sound hdr.data.length later rfl here walked
      (length.trans reclen.symm) full
    rw [Hdr.setIdx_data, data] at nexts
    refine ⟨true, _, stored, _, ?_, later,
      ⟨fun _ => ⟨entry, least.held, notBelow⟩, fun _ => rfl⟩,
      fun _ => ⟨entry, visited, least, present, nexts, ?_, ?_⟩⟩
    · simp only [memfhStart, made, there, comps, searched, beyond, ↓reduceIte, List.head?_cons,
        Option.bind_some, found.page, firstEntry, first]
      have copied : (indexed.setIdx k { idx with path := (leaf, pos) :: above }).copied entry.2
          probe = stored := Hdr.copied_eq (by rw [Hdr.setIdx_data, data]; exact present)
        (length.trans reclen.symm) (whole.trans reclen.symm)
      rw [copied]
    · exact (List.pairwise_cons.mp sorted).2
    · intro other
      rw [members]
      exact and_congr_left fun _ => (held other).symm

/-- START does what it is to do only then. -/
theorem safe_of_startsAt {hdr : Hdr} (ok : FileOk hdr) {k : ℕ} {probe : List Byte}
    (whole : probe.length = hdr.reclen) (starts : StartsAt hdr k probe) :
    StartSafe hdr k probe := by
  obtain ⟨returned, hdr', area, idx', started, there', answers, reads⟩ := starts
  obtain ⟨indexed, idx, order, path, made, there, searched, rfl, outcome⟩ :=
    memfhStart_cases started
  obtain ⟨⟨labels, entries, sound, keys, pointers, held, inside⟩, data, comps, reclen, distinct⟩ :=
    withIndex_ok ok made there
  obtain rfl : { idx with path := path } = idx' := by simpa [Hdr.setIdx] using there'
  refine ⟨distinct, fun indexed' idx' made' there' => ?_⟩
  obtain rfl : indexed = indexed' := Option.some.inj (made.symm.trans made')
  obtain rfl : idx = idx' := Option.some.inj (there.symm.trans there')
  by_cases large : ∃ entry, idx.graph.Holds entry ∧ mountKey (hdr.comps k) probe ≤ entry.1
  · have found := answers.mpr large
    obtain ⟨least, visited, isLeast, present, _⟩ := reads found
    rcases outcome with ⟨_, refused, _⟩ | ⟨_, _, first, start, copied⟩
    · cases refused.symm.trans found
    · -- the record given out is the record of one entry only
      have heldFirst : idx.graph.Holds first := by
        rw [comps] at searched
        obtain ⟨order', leaf, pos, above, items, searched', found'⟩ :=
          idxSearch_spec sound (mountKey (hdr.comps k) probe)
        cases searched.symm.trans searched'
        simp only [List.head?_cons, Option.bind_some, found'.page, firstEntry] at start
        exact ⟨leaf, found'.inside, items, found'.page, List.mem_of_head? start⟩
      have memberFirst := (held first).mp heldFirst
      have memberLeast := (held least).mp isLeast.held
      obtain ⟨stored, presentFirst, length⟩ := ok.stored (inside first memberFirst)
      rw [Hdr.copied_eq (by rw [data]; exact presentFirst) (length.trans reclen.symm)
        (whole.trans reclen.symm)] at copied
      have samePointer : first.2 = least.2 :=
        (List.getElem?_inj (inside first memberFirst) (List.Nodup.of_map _ ok.distinct)).mp
          (by rw [presentFirst, present, copied])
      have same : first = least :=
        List.inj_on_of_nodup_map pointers memberFirst memberLeast samePointer
      refine Or.inr ⟨first, ?_, same ▸ isLeast.above⟩
      rw [comps] at searched
      simp only [Idx.pageStart, searched, Option.bind_some, start]
  · exact Or.inl fun entry present => not_le.mp fun notBelow => large ⟨entry, present, notBelow⟩

/-- In every file reached, START not less than a key gives out the record with the smallest key
from there on, and READ NEXT the records after it, just when the index is there or its keys are
all different, and the page on which the key belongs starts with one that is not below, or no
key is as large. -/
theorem start_iff {filename : String} {reclen : ℕ} {keys : List (List (ℕ × ℕ))}
    (short : ∀ comps ∈ keys, keyLength comps ≤ 256) {hdr : Hdr}
    (run : FileRun filename reclen keys (fun _ _ => True) hdr) (k : ℕ) {probe : List Byte}
    (whole : probe.length = reclen) : StartsAt hdr k probe ↔ StartSafe hdr k probe := by
  obtain ⟨ok, _, same⟩ := run.ok short
  exact ⟨safe_of_startsAt ok (whole.trans same.symm), startsAt_of_safe ok (whole.trans same.symm)⟩

/-- A file of records of one byte with the records 1 and 2. -/
def twoRecords : Hdr :=
  (FileOp.applyAll (memfhOpen "f" 1 [[(0, 1)]]) [.write [1], .write [2]]).getD
    (memfhOpen "f" 1 [[(0, 1)]])

theorem twoRecords_run : FileRun "f" 1 [[(0, 1)]] (fun _ _ => True) twoRecords := by
  have applied : FileOp.applyAll (memfhOpen "f" 1 [[(0, 1)]]) [.write [1], .write [2]] =
      some twoRecords := (Option.eq_some_of_isSome (by decide +kernel)).trans rfl
  exact FileRun.applyAll _ .opened (by decide) applied

/-- The file has its primary index, and a page that starts with the first record. -/
theorem twoRecords_pageStart (key : Key) (small : key = [1] ∨ key = [2]) {indexed : Hdr} {idx : Idx}
    (made : withIndex twoRecords 0 = some indexed) (there : indexed.idx 0 = some idx) :
    idx.pageStart key = some ([1], 0) := by
  obtain rfl : twoRecords = indexed := Option.some.inj made
  have start : ((twoRecords.idx 0).bind fun idx => idx.pageStart key) = some ([1], 0) := by
    rcases small with rfl | rfl <;> decide +kernel
  rwa [there] at start

/-- A START on the first of two records. -/
theorem start_first : StartsAt twoRecords 0 [1] := by
  refine (start_iff (by decide) twoRecords_run 0 rfl).mpr ⟨fun missing => ?_, ?_⟩
  · exact absurd missing (by
      rw [← Option.isNone_iff_eq_none]
      decide +kernel)
  · intro indexed idx made there
    exact Or.inr ⟨_, twoRecords_pageStart [1] (Or.inl rfl) made there, by decide +kernel⟩

/-- START from the second record gives out the first. -/
theorem start_before :
    ¬ ∀ (filename : String) (reclen : ℕ) (keys : List (List (ℕ × ℕ))),
      (∀ comps ∈ keys, keyLength comps ≤ 256) → ∀ hdr,
        FileRun filename reclen keys (fun _ _ => True) hdr →
        ∀ k < keys.length, ∀ probe : List Byte, probe.length = reclen → StartsAt hdr k probe := by
  intro claimed
  have starts := claimed "f" 1 [[(0, 1)]] (by decide) _ twoRecords_run 0 (by decide) [2] rfl
  obtain ⟨ok, _, same⟩ := twoRecords_run.ok (by decide)
  have whole : ([2] : List Byte).length = twoRecords.reclen := same.symm
  obtain ⟨_, safe⟩ := safe_of_startsAt ok whole starts
  obtain ⟨idx, labels, primary⟩ := ok.primary
  rcases safe twoRecords idx rfl primary.idx_eq with smaller | ⟨entry, first, notBelow⟩
  · have held : idx.graph.Holds ([2], 1) :=
      (primary.holds_iff _ _).mpr ⟨[2], by decide +kernel, by decide +kernel⟩
    exact absurd (smaller _ held) (by decide +kernel)
  · have start := twoRecords_pageStart [2] (Or.inr rfl) rfl primary.idx_eq
    obtain rfl := Option.some.inj (start.symm.trans first)
    exact absurd notBelow (by decide +kernel)

end Pqfh.Memfh
