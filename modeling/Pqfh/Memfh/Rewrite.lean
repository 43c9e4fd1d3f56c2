import Pqfh.Memfh.Cbl
import Pqfh.Memfh.StartSpec

/-! # REWRITE on an in-memory file

`memfh_read` with `update` searches for the primary key of the record, and compares the record found
to the one given before it overwrites it. The comparison takes the first bytes of the two records,
as many as the key has, wherever the key lies. So a REWRITE of a stored key works if and only if the
old and the new record begin alike (`Pqfh.Memfh.rewrite_iff`), and it ends the process otherwise;
with the key at the front of the record they always do (`Pqfh.Memfh.frontAlike_of_front`).
-/

namespace Pqfh.Memfh

open SearchGraph

/-- The two records begin alike, over as many bytes as the primary key has. -/
def FrontAlike (hdr : Hdr) (stored record : List Byte) : Prop :=
  keyLength (hdr.comps 0) ≤ hdr.reclen ∧
    stored.take (keyLength (hdr.comps 0)) = record.take (keyLength (hdr.comps 0))

/-- A REWRITE exchanges the record with the primary key of the one given, or returns 23 when there
is none. Of the indexes only the position in the primary one changes. -/
structure RewriteOk (reg : Registry) (fcd : Fcd) (hdr : Hdr) : Prop where
  found : ∀ pointer stored, hdr.data[pointer]? = some stored →
    mountKey (hdr.comps 0) stored = mountKey (hdr.comps 0) fcd.record →
    ∃ idx path, hdr.idx 0 = some idx ∧ memfhCblRewrite reg fcd =
      some ({ fcd with status := stOk }, reg.setHdr fcd.fileId
        { hdr.setIdx 0 { idx with path := path } with data := hdr.data.set pointer fcd.record })
  missing : (∀ stored ∈ hdr.data,
      mountKey (hdr.comps 0) stored ≠ mountKey (hdr.comps 0) fcd.record) →
    ∃ idx path, hdr.idx 0 = some idx ∧ memfhCblRewrite reg fcd =
      some ({ fcd with status := stRecNotFound },
        reg.setHdr fcd.fileId (hdr.setIdx 0 { idx with path := path }))

/-! ## The length of the primary key -/

/-- The length of the key is set in the primary index of a file with records. -/
def Keyed (hdr : Hdr) : Prop :=
  ∀ idx, hdr.idx 0 = some idx → hdr.data ≠ [] → idx.keylen = keyLength (hdr.comps 0)

/-- READ NEXT changes no length of a key. -/
theorem idxNext_keylen {idx idx' : Idx} {moved : Bool}
    (stepped : idxNext idx = some (moved, idx')) : idx'.keylen = idx.keylen := by
  obtain ⟨path, rfl⟩ := idxNext_moves stepped
  rfl

/-- Going to the first entry changes no length of a key. -/
theorem idxFirst_keylen {idx idx' : Idx} {moved : Bool} (went : idxFirst idx = some (moved, idx')) :
    idx'.keylen = idx.keylen := by
  obtain ⟨path, rfl⟩ := idxFirst_moves went
  rfl

/-- An index that is made has the length of its key. -/
theorem createLoop_keylen (hdr : Hdr) (k : ℕ) :
    ∀ (fuel : ℕ) {idx0 idx : Idx} {pair : Idx × Idx},
      createLoop hdr k fuel idx0 idx = some pair → pair.1.keylen = idx0.keylen := by
  intro fuel
  induction fuel with
  | zero =>
      intro idx0 idx pair looped
      cases looped
  | succ fuel ih =>
      intro idx0 idx pair looped
      simp only [createLoop] at looped
      split at looped
      · cases looped
      · split at looped
        · cases looped
        · split at looped
          · cases looped
          · rename_i ended
            cases looped
            exact idxNext_keylen ended
          · rename_i moved
            exact (ih looped).trans (idxNext_keylen moved)

/-- A write changes no length of a key. -/
theorem idxWrite_keylen {idx idx' : Idx} {key : Key} {record : ℕ}
    (wrote : idxWrite idx key record = some idx') : idx'.keylen = idx.keylen := by
  unfold idxWrite at wrote
  split at wrote
  · split at wrote
    · cases wrote
    · obtain ⟨g, _, rfl⟩ := Option.map_eq_some_iff.mp wrote
      rfl
  · cases wrote

/-- A file keeps its key when the primary index has the same length. -/
theorem Keyed.setIdx {hdr : Hdr} {idx idx' : Idx} (keyed : Keyed hdr) (there : hdr.idx 0 = some idx)
    (same : idx'.keylen = idx.keylen) : Keyed (hdr.setIdx 0 idx') := by
  intro made present filled
  obtain rfl : idx' = made := Option.some.inj ((hdr.setIdx_self 0 idx').symm.trans present)
  exact same.trans (keyed idx there filled)

/-- A file keeps its key when another index is set. -/
theorem Keyed.setIdx_alternate {hdr : Hdr} (keyed : Keyed hdr) {k : ℕ} (positive : 0 < k)
    (made : Idx) : Keyed (hdr.setIdx k made) := by
  intro idx present
  have same : (hdr.setIdx k made).idx 0 = hdr.idx 0 := Function.update_of_ne positive.ne ..
  rw [same] at present
  exact keyed idx present

/-- A file keeps its key when an index is made. -/
theorem Keyed.withIndex {hdr hdr' : Hdr} (keyed : Keyed hdr) {k : ℕ}
    (indexed : withIndex hdr k = some hdr') : Keyed hdr' := by
  unfold Memfh.withIndex at indexed
  split at indexed
  · rename_i missing
    unfold memfhIdxCreate at indexed
    split at indexed
    · cases indexed
    · rename_i idx0 there
      split at indexed
      · cases indexed
      · rename_i idx0' went
        cases indexed
        exact (keyed.setIdx there (idxFirst_keylen went)).setIdx_alternate missing.1 _
      · rename_i idx0' went
        obtain ⟨pair, looped, rfl⟩ := Option.map_eq_some_iff.mp indexed
        have same := (createLoop_keylen hdr k _ looped).trans (idxFirst_keylen went)
        exact (keyed.setIdx there same).setIdx_alternate missing.1 _
  · cases indexed
    exact keyed

/-- Every call keeps the length of the primary key. -/
theorem Keyed.apply {hdr hdr' : Hdr} (keyed : Keyed hdr) {op : FileOp}
    (applied : op.apply hdr = some hdr') : Keyed hdr' := by
  have read : ∀ {record area : List Byte} {update found : Bool} {next : Hdr},
      memfhRead hdr record update = some (found, next, area) → Keyed next := by
    intro record area update found next read
    obtain ⟨idx, order, path, there, _, rfl | ⟨_, _, entry, _, rfl⟩⟩ := memfhRead_cases read
    · exact keyed.setIdx there rfl
    · have kept : Keyed (hdr.setIdx 0 { idx with path := path }) := keyed.setIdx there rfl
      intro made present filled
      apply kept made present
      intro empty
      apply filled
      change hdr.data.set entry.2 _ = []
      rw [List.set_eq_nil_iff]
      exact empty
  cases op with
  | write record =>
      simp only [FileOp.apply, memfhWrite] at applied
      split at applied
      · cases applied
      · obtain ⟨idx', wrote, rfl⟩ := Option.map_eq_some_iff.mp applied
        intro made present _
        obtain rfl : idx' = made := Option.some.inj ((Hdr.setIdx_self _ 0 idx').symm.trans present)
        exact idxWrite_keylen wrote
  | rewrite record =>
      obtain ⟨⟨found, next, area⟩, done, rfl⟩ := Option.map_eq_some_iff.mp applied
      exact read done
  | read record =>
      obtain ⟨⟨found, next, area⟩, done, rfl⟩ := Option.map_eq_some_iff.mp applied
      exact read done
  | start record k =>
      obtain ⟨⟨returned, next, area⟩, started, rfl⟩ := Option.map_eq_some_iff.mp applied
      obtain ⟨indexed, idx, order, path, made, there, _, rfl, _⟩ := memfhStart_cases started
      have keyed' := keyed.withIndex made
      by_cases first : k = 0
      · subst first
        exact keyed'.setIdx there rfl
      · exact keyed'.setIdx_alternate (Nat.pos_of_ne_zero first) _
  | next record k =>
      obtain ⟨⟨moved, next, area⟩, stepped, rfl⟩ := Option.map_eq_some_iff.mp applied
      unfold memfhNext at stepped
      split at stepped
      · cases stepped
      · rename_i idx there
        have kept : ∀ {idx' : Idx} {moved : Bool}, idxNext idx = some (moved, idx') →
            Keyed (hdr.setIdx k idx') := by
          intro idx' moved went
          by_cases first : k = 0
          · subst first
            exact keyed.setIdx there (idxNext_keylen went)
          · exact keyed.setIdx_alternate (Nat.pos_of_ne_zero first) _
        split at stepped
        · cases stepped
        · rename_i went
          cases stepped
          exact kept went
        · rename_i went
          obtain ⟨entry, _, result⟩ := Option.map_eq_some_iff.mp stepped
          cases result
          exact kept went

/-- Every run keeps the key of the file. -/
theorem FileRun.keyed {filename : String} {reclen : ℕ} {keys : List (List (ℕ × ℕ))}
    {allowed : Hdr → FileOp → Prop} {hdr : Hdr} (run : FileRun filename reclen keys allowed hdr) :
    Keyed hdr := by
  induction run with
  | opened => exact fun _ _ filled => absurd rfl filled
  | called _ _ _ applied ih => exact ih.apply applied

/-! ## What `memfh_read` does with `update` -/

section Update

variable {hdr : Hdr} {record : List Byte}

/-- A stored key is found; what follows is the comparison. -/
theorem memfhRead_update_found (ok : FileOk hdr) (keyed : Keyed hdr)
    (whole : record.length = hdr.reclen) {pointer : ℕ} {stored : List Byte}
    (present : hdr.data[pointer]? = some stored)
    (same : mountKey (hdr.comps 0) stored = mountKey (hdr.comps 0) record) :
    ∃ idx path, hdr.idx 0 = some idx ∧
      (FrontAlike hdr stored record → memfhRead hdr record true = some (true,
        { hdr.setIdx 0 { idx with path := path } with data := hdr.data.set pointer record },
        record)) ∧
      (¬ FrontAlike hdr stored record → memfhRead hdr record true = none) := by
  obtain ⟨idx, labels, primary⟩ := ok.primary
  have filled : hdr.data ≠ [] := List.ne_nil_of_mem (List.mem_of_getElem? present)
  have length := keyed idx primary.idx_eq filled
  obtain ⟨order, leaf, pos, above, items, searched, found⟩ :=
    idxSearch_spec primary.sound (mountKey (hdr.comps 0) record)
  have held : idx.graph.Holds (mountKey (hdr.comps 0) record, pointer) :=
    (primary.holds_iff _ _).mpr ⟨stored, present, same.symm⟩
  rcases found.order_eq primary.sound with ⟨equal, other, entry⟩ | ⟨_, absent⟩
  · -- the entry found is the only one with the key
    have held' := (found.holds_iff primary.sound other).mpr (List.mem_of_getElem? entry)
    obtain ⟨stored', present', same'⟩ := (primary.holds_iff _ _).mp held'
    have member := List.mem_of_getElem? present
    obtain rfl : stored' = stored := List.inj_on_of_nodup_map ok.distinct
      (List.mem_of_getElem? present') member (same'.symm.trans same.symm)
    obtain rfl : other = pointer :=
      (List.getElem?_inj (List.getElem?_eq_some_iff.mp present').1
        (List.Nodup.of_map _ ok.distinct)).mp
        (present'.trans present.symm)
    refine ⟨idx, (leaf, pos) :: above, primary.idx_eq, ?_, ?_⟩
    · rintro ⟨short, alike⟩
      simp only [memfhRead, primary.idx_eq, searched, equal, idxCurrent, found.page, entry,
        Hdr.setIdx_data, Hdr.setIdx_reclen, List.getD_eq_getElem?_getD, present, Option.getD_some,
        length, ← whole, List.take_length, ne_eq, not_true_eq_false, ↓reduceIte]
      rw [if_neg]
      rintro (long | differ)
      · rw [whole] at long
        omega
      · exact differ alike
    · intro differ
      simp only [memfhRead, primary.idx_eq, searched, equal, idxCurrent, found.page, entry,
        Hdr.setIdx_data, Hdr.setIdx_reclen, List.getD_eq_getElem?_getD, present, Option.getD_some,
        length, ne_eq, not_true_eq_false, ↓reduceIte]
      rw [if_pos]
      by_contra none
      rw [not_or, not_lt, not_not] at none
      exact differ none
  · exact absurd held (absent pointer)

/-- A record that is not there is not found, and only the path of the index changes. -/
theorem memfhRead_update_missing (ok : FileOk hdr)
    (absent : ∀ stored ∈ hdr.data, mountKey (hdr.comps 0) stored ≠ mountKey (hdr.comps 0) record) :
    ∃ idx path, hdr.idx 0 = some idx ∧
      memfhRead hdr record true = some (false, hdr.setIdx 0 { idx with path := path }, record) := by
  obtain ⟨idx, labels, primary⟩ := ok.primary
  obtain ⟨order, leaf, pos, above, items, searched, found⟩ :=
    idxSearch_spec primary.sound (mountKey (hdr.comps 0) record)
  rcases found.order_eq primary.sound with ⟨_, pointer, entry⟩ | ⟨unequal, _⟩
  · have held := (found.holds_iff primary.sound pointer).mpr (List.mem_of_getElem? entry)
    obtain ⟨stored, present, same⟩ := (primary.holds_iff _ _).mp held
    exact absurd same.symm (absent stored (List.mem_of_getElem? present))
  · refine ⟨idx, (leaf, pos) :: above, primary.idx_eq, ?_⟩
    simp only [memfhRead, primary.idx_eq, searched, ne_eq, unequal, not_false_eq_true, ↓reduceIte]

end Update

/-! ## REWRITE -/

/-- The call is `memfh_read` on the header that the fcd designates. -/
theorem memfhCblRewrite_eq {reg : Registry} {fcd : Fcd} {hdr : Hdr} (opened : fcd.openMode ≠ 128)
    (there : reg.heap fcd.fileId = some hdr) :
    memfhCblRewrite reg fcd = (memfhRead hdr fcd.record true).map fun result =>
      ({ fcd with
        status := if result.1 then stOk else stRecNotFound
        record := result.2.2 }, reg.setHdr fcd.fileId result.2.1) := by
  rw [memfhCblRewrite, if_neg opened, onHdr, there]
  dsimp only
  rw [Option.map_map]
  rfl

/-- In every file reached, a REWRITE does what it should if and only if the record stored under
the key of the one given, if there is one, begins like it. -/
theorem rewrite_iff {filename : String} {reclen : ℕ} {keys : List (List (ℕ × ℕ))}
    (short : ∀ comps ∈ keys, keyLength comps ≤ 256) {hdr : Hdr}
    (run : FileRun filename reclen keys (fun _ _ => True) hdr) {reg : Registry} {fcd : Fcd}
    (opened : fcd.openMode ≠ 128) (there : reg.heap fcd.fileId = some hdr)
    (whole : fcd.record.length = reclen) :
    RewriteOk reg fcd hdr ↔ ∀ stored ∈ hdr.data,
      mountKey (hdr.comps 0) stored = mountKey (hdr.comps 0) fcd.record →
      FrontAlike hdr stored fcd.record := by
  obtain ⟨ok, _, same⟩ := run.ok short
  have keyed := run.keyed
  have whole' := whole.trans same.symm
  have call := memfhCblRewrite_eq opened there
  constructor
  · intro rewrites stored member key
    obtain ⟨pointer, present⟩ := List.getElem?_of_mem member
    obtain ⟨_, _, _, _, fails⟩ := memfhRead_update_found ok keyed whole' present key
    obtain ⟨_, _, _, rewrote⟩ := rewrites.found pointer stored present key
    by_contra differ
    rw [call, fails differ] at rewrote
    cases rewrote
  · intro alike
    constructor
    · intro pointer stored present key
      obtain ⟨idx, path, index, works, _⟩ := memfhRead_update_found ok keyed whole' present key
      refine ⟨idx, path, index, ?_⟩
      rw [call, works (alike stored (List.mem_of_getElem? present) key)]
      rfl
    · intro absent
      obtain ⟨idx, path, index, read⟩ := memfhRead_update_missing ok absent
      refine ⟨idx, path, index, ?_⟩
      rw [call, read]
      rfl

/-- With the primary key at the front of the record, records with one key begin alike. -/
theorem frontAlike_of_front {hdr : Hdr} {stored record : List Byte}
    (short : keyLength (hdr.comps 0) ≤ hdr.reclen)
    (front : ∀ record, mountKey (hdr.comps 0) record = record.take (keyLength (hdr.comps 0)))
    (same : mountKey (hdr.comps 0) stored = mountKey (hdr.comps 0) record) :
    FrontAlike hdr stored record := by
  rw [front, front] at same
  exact ⟨short, same⟩

/-- A file of records of three bytes, the key in the second, with the record 5, 1, 7. -/
def middleKey : Hdr :=
  (FileOp.applyAll (memfhOpen "f" 3 [[(1, 1)]]) [.write [5, 1, 7]]).getD
    (memfhOpen "f" 3 [[(1, 1)]])

/-- The file with its key in the middle is made by a run. -/
theorem middleKey_run : FileRun "f" 3 [[(1, 1)]] (fun _ _ => True) middleKey := by
  have applied : FileOp.applyAll (memfhOpen "f" 3 [[(1, 1)]]) [.write [5, 1, 7]] =
      some middleKey := (Option.eq_some_of_isSome (by decide +kernel)).trans rfl
  exact FileRun.applyAll _ .opened (by decide) applied

/-- One record stands in it. -/
theorem middleKey_data : middleKey.data = [[5, 1, 7]] := by decide +kernel

/-- The key is the second byte. -/
theorem middleKey_comps : middleKey.comps 0 = [(1, 1)] := by decide +kernel

/-- A process with the file, and an fcd that designates it. -/
def middleKeyOpen : Registry := Registry.initial.setHdr 1 middleKey

def middleKeyFcd (record : List Byte) : Fcd :=
  ⟨stOk, 1, 0, record, false, false, false, [], fun _ => 0, 1, false⟩

/-- A record whose first byte stays is rewritten. -/
theorem rewrite_last_byte : RewriteOk middleKeyOpen (middleKeyFcd [5, 1, 8]) middleKey := by
  have there : middleKeyOpen.heap 1 = some middleKey := by
    simp only [middleKeyOpen, Registry.setHdr, Function.update_self]
  refine (rewrite_iff (by decide) middleKey_run (by decide) there rfl).mpr ?_
  intro stored member _
  rw [middleKey_data] at member
  rw [List.mem_singleton.mp member]
  unfold FrontAlike
  rw [middleKey_comps]
  exact ⟨by decide +kernel, by decide⟩

/-- A record whose first byte changes is not: the process ends. -/
theorem rewrite_first_byte :
    memfhCblRewrite middleKeyOpen (middleKeyFcd [6, 1, 7]) = none ∧
      ¬ RewriteOk middleKeyOpen (middleKeyFcd [6, 1, 7]) middleKey := by
  have ends : memfhCblRewrite middleKeyOpen (middleKeyFcd [6, 1, 7]) = none := by
    rw [← Option.isNone_iff_eq_none]
    decide +kernel
  refine ⟨ends, fun rewrites => ?_⟩
  obtain ⟨_, _, _, rewrote⟩ := rewrites.found 0 [5, 1, 7] (by rw [middleKey_data]; rfl)
    (by rw [middleKey_comps]; decide)
  rw [ends] at rewrote
  cases rewrote

end Pqfh.Memfh
