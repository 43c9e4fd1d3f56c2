import Pqfh.Memfh.IndexSound

/-! # In-memory files

An in-memory file keeps its records in the order they were written, and one index
for each key in use. The primary index is there from the start; the others are built
when first needed. Record pointers are positions in the list of records.

`Pqfh.Memfh.read_after_writes` says what the primary index is for: after any writes of
distinct primary keys, a read finds the record with the probe's primary key, and
nothing else.
-/

namespace Pqfh.Memfh

open SearchGraph

/-- `memfh_hdr_t`. The key definitions are lists of components, offset and length. -/
structure Hdr where
  filename : String
  reclen : ℕ
  keys : List (List (ℕ × ℕ))
  data : List (List Byte)
  idx : ℕ → Option Idx

/-- The length of a key. -/
def keyLength (comps : List (ℕ × ℕ)) : ℕ := (comps.map Prod.snd).sum

/-- The key of a record: its components, one after the other. -/
def mountKey (comps : List (ℕ × ℕ)) (record : List Byte) : Key :=
  comps.flatMap fun comp => slice record comp.1 comp.2

/-- The components of key `k`, `hdr->keys[k]`. -/
def Hdr.comps (hdr : Hdr) (k : ℕ) : List (ℕ × ℕ) := hdr.keys.getD k []

/-- Store index `k`. -/
def Hdr.setIdx (hdr : Hdr) (k : ℕ) (idx : Idx) : Hdr :=
  { hdr with idx := Function.update hdr.idx k (some idx) }

@[simp] theorem Hdr.setIdx_reclen (hdr : Hdr) (k : ℕ) (idx : Idx) :
    (hdr.setIdx k idx).reclen = hdr.reclen := rfl

@[simp] theorem Hdr.setIdx_data (hdr : Hdr) (k : ℕ) (idx : Idx) :
    (hdr.setIdx k idx).data = hdr.data := rfl

theorem Hdr.setIdx_self (hdr : Hdr) (k : ℕ) (idx : Idx) : (hdr.setIdx k idx).idx k = some idx :=
  Function.update_self ..

/-- `memfh_open`. The key length of the primary index is set by the first write. -/
def memfhOpen (filename : String) (reclen : ℕ) (keys : List (List (ℕ × ℕ))) : Hdr where
  filename := filename
  reclen := reclen
  keys := keys
  data := []
  idx := fun k => if k = 0 then some (Idx.empty 0) else none

/-- `memfh_write`. `none` when the primary key is there already. -/
def memfhWrite (hdr : Hdr) (record : List Byte) : Option Hdr :=
  match hdr.idx 0 with
  | none => none
  | some idx =>
      (idxWrite { idx with keylen := keyLength (hdr.comps 0) } (mountKey (hdr.comps 0) record)
        hdr.data.length).map fun idx =>
          { hdr with data := hdr.data ++ [record.take hdr.reclen] }.setIdx 0 idx

/-- `memfh_read`: whether the record was found, the file and the record area after.
With `update` the stored record is overwritten. Its first bytes, as many as the key has, are
compared to those of the record area, and the process exits when they differ; `none` also when
the key is longer than the record. -/
def memfhRead (hdr : Hdr) (record : List Byte) (update : Bool) :
    Option (Bool × Hdr × List Byte) :=
  match hdr.idx 0 with
  | none => none
  | some idx =>
      match idxSearch idx (mountKey (hdr.comps 0) record) with
      | none => none
      | some (order, path) =>
          let idx := { idx with path := path }
          let hdr := hdr.setIdx 0 idx
          if order ≠ .eq then some (false, hdr, record)
          else
            match idxCurrent idx with
            | none => none
            | some (_, pointer) =>
                let stored := hdr.data.getD pointer []
                if update then
                  if hdr.reclen < idx.keylen ∨ stored.take idx.keylen ≠ record.take idx.keylen then
                    none
                  else some (true,
                    { hdr with data := hdr.data.set pointer (record.take hdr.reclen) }, record)
                else some (true, hdr, stored.take hdr.reclen ++ record.drop hdr.reclen)

/-- A sequence of `memfh_write` calls. -/
def memfhWrites (hdr : Hdr) (records : List (List Byte)) : Option Hdr :=
  records.foldlM memfhWrite hdr

/-! ## The primary index -/

/-- The primary index of a file holds one entry for each record, under its key. -/
structure PrimarySound (hdr : Hdr) (idx : Idx) (labels : Labels Key) : Prop where
  idx_eq : hdr.idx 0 = some idx
  sound : Sound idx.graph labels
  holds_iff : ∀ key pointer, idx.graph.Holds (key, pointer) ↔
    ∃ record, hdr.data[pointer]? = some record ∧ key = mountKey (hdr.comps 0) record

theorem memfhOpen_sound (filename : String) (reclen : ℕ) (keys : List (List (ℕ × ℕ))) :
    PrimarySound (memfhOpen filename reclen keys) (Idx.empty 0) rootLabels := by
  refine ⟨rfl, Idx.empty_sound 0, fun key pointer => ⟨?_, ?_⟩⟩
  · intro held
    exact (Idx.empty_holds 0 _ held).elim
  · rintro ⟨record, present, _⟩
    cases present

/-- What `memfh_write` of a new primary key does to a file. -/
theorem memfhWrite_sound {hdr : Hdr} {idx : Idx} {labels : Labels Key}
    (primary : PrimarySound hdr idx labels) (short : keyLength (hdr.comps 0) ≤ 256)
    {record : List Byte} (whole : record.length = hdr.reclen)
    (fresh : ∀ other ∈ hdr.data, mountKey (hdr.comps 0) other ≠ mountKey (hdr.comps 0) record) :
    ∃ hdr' idx' labels', memfhWrite hdr record = some hdr' ∧ PrimarySound hdr' idx' labels' ∧
      hdr'.reclen = hdr.reclen ∧ hdr'.keys = hdr.keys ∧ hdr'.data = hdr.data ++ [record] := by
  have absent : ∀ pointer, ¬ idx.graph.Holds (mountKey (hdr.comps 0) record, pointer) := by
    intro pointer holds
    obtain ⟨other, present, same⟩ := (primary.holds_iff _ _).mp holds
    exact fresh other (List.mem_of_getElem? present) same.symm
  have sound : Sound ({ idx with keylen := keyLength (hdr.comps 0) } : Idx).graph labels :=
    primary.sound
  obtain ⟨idx', labels', written, _, sound', held⟩ :=
    idxWrite_sound sound (two_le_maxItems short) hdr.data.length absent
  refine ⟨{ hdr with data := hdr.data ++ [record] }.setIdx 0 idx', idx', labels', ?_,
    ⟨by simp [Hdr.setIdx], sound', ?_⟩, rfl, rfl, rfl⟩
  · simp only [memfhWrite, primary.idx_eq, written, Option.map_some, ← whole, List.take_length]
  · intro key pointer
    rw [held]
    change idx.graph.Holds (key, pointer) ∨ _ ↔ ∃ other,
      (hdr.data ++ [record])[pointer]? = some other ∧ key = mountKey (hdr.comps 0) other
    rw [primary.holds_iff]
    constructor
    · rintro (⟨other, present, same⟩ | added)
      · refine ⟨other, ?_, same⟩
        rw [List.getElem?_append_left (List.getElem?_eq_some_iff.mp present).1]
        exact present
      · cases added
        exact ⟨record, by simp, rfl⟩
    · rintro ⟨other, present, same⟩
      rw [List.getElem?_append] at present
      split at present
      · exact Or.inl ⟨other, present, same⟩
      · have last : pointer - hdr.data.length = 0 := by
          by_contra beyond
          rw [List.getElem?_eq_none (by simp; omega)] at present
          cases present
        rw [last] at present
        cases present
        exact Or.inr (by rw [same]; congr 1; omega)

/-- What writes of distinct primary keys do to a file. -/
theorem memfhWrites_sound :
    ∀ (records : List (List Byte)) {hdr : Hdr} {idx : Idx} {labels : Labels Key},
      PrimarySound hdr idx labels → keyLength (hdr.comps 0) ≤ 256 →
      (∀ record ∈ records, record.length = hdr.reclen) →
      ((hdr.data ++ records).map (mountKey (hdr.comps 0))).Nodup →
      ∃ hdr' idx' labels', memfhWrites hdr records = some hdr' ∧ PrimarySound hdr' idx' labels' ∧
        hdr'.reclen = hdr.reclen ∧ hdr'.keys = hdr.keys ∧ hdr'.data = hdr.data ++ records := by
  intro records
  induction records with
  | nil =>
      intro hdr idx labels primary _ _ _
      exact ⟨hdr, idx, labels, rfl, primary, rfl, rfl, by simp⟩
  | cons record records ih =>
      intro hdr idx labels primary short whole distinct
      have fresh : ∀ other ∈ hdr.data,
          mountKey (hdr.comps 0) other ≠ mountKey (hdr.comps 0) record := by
        intro other member same
        rw [List.map_append] at distinct
        exact (List.nodup_append.mp distinct).2.2 _ (List.mem_map_of_mem member) _ (by simp) same
      obtain ⟨next, idx', labels', written, primary', reclen, keys, data⟩ :=
        memfhWrite_sound primary short (whole record (by simp)) fresh
      have comps : next.comps 0 = hdr.comps 0 := by simp only [Hdr.comps, keys]
      obtain ⟨last, idx'', labels'', rest, primary'', reclen', keys', data'⟩ := ih primary'
        (by rw [comps]; exact short)
        (fun other member => (whole other (List.mem_cons_of_mem _ member)).trans reclen.symm)
        (by rw [comps, data, List.append_assoc]; exact distinct)
      refine ⟨last, idx'', labels'', ?_, primary'', reclen'.trans reclen, keys'.trans keys, ?_⟩
      · simp only [memfhWrites, List.foldlM_cons, written, Option.bind_eq_bind, Option.bind_some]
        exact rest
      · rw [data', data, List.append_assoc]
        rfl

/-- What `memfh_read` finds in a file with a sound primary index. -/
theorem memfhRead_spec {hdr : Hdr} {idx : Idx} {labels : Labels Key}
    (primary : PrimarySound hdr idx labels) {probe : List Byte}
    (whole : probe.length = hdr.reclen) :
    (∃ hdr' record, memfhRead hdr probe false = some (true, hdr', record.take hdr.reclen) ∧
        record ∈ hdr.data ∧ mountKey (hdr.comps 0) record = mountKey (hdr.comps 0) probe) ∨
      (∃ hdr', memfhRead hdr probe false = some (false, hdr', probe) ∧
        ∀ record ∈ hdr.data, mountKey (hdr.comps 0) record ≠ mountKey (hdr.comps 0) probe) := by
  obtain ⟨order, leaf, pos, above, items, searched, found⟩ :=
    idxSearch_spec primary.sound (mountKey (hdr.comps 0) probe)
  rcases found.order_eq primary.sound with ⟨equal, pointer, present⟩ | ⟨unequal, absent⟩
  · have held := (found.holds_iff primary.sound pointer).mpr (List.mem_of_getElem? present)
    obtain ⟨record, stored, same⟩ := (primary.holds_iff _ _).mp held
    refine Or.inl ⟨hdr.setIdx 0 { idx with path := (leaf, pos) :: above }, record, ?_,
      List.mem_of_getElem? stored, same.symm⟩
    simp only [memfhRead, primary.idx_eq, searched, equal, idxCurrent, found.page, present,
      Hdr.setIdx_data, Hdr.setIdx_reclen, List.getD_eq_getElem?_getD, stored, Option.getD_some,
        ← whole, List.drop_length,
      List.append_nil, ne_eq, not_true_eq_false, ↓reduceIte, Bool.false_eq_true]
  · refine Or.inr
      ⟨hdr.setIdx 0 { idx with path := (leaf, pos) :: above }, ?_, fun record member same => ?_⟩
    · simp only [memfhRead, primary.idx_eq, searched, ne_eq, unequal, not_false_eq_true, ↓reduceIte]
    · obtain ⟨pointer, stored⟩ := List.getElem?_of_mem member
      exact absent pointer ((primary.holds_iff _ _).mpr ⟨record, stored, same.symm⟩)

/-- The primary index is a map: after any writes of records with distinct primary keys
on a file just opened, a read finds the record with the probe's primary key, and leaves
the probe alone when there is none. -/
theorem read_after_writes (filename : String) (reclen : ℕ) (primary : List (ℕ × ℕ))
    (alternates : List (List (ℕ × ℕ))) (short : keyLength primary ≤ 256)
    (records : List (List Byte)) (whole : ∀ record ∈ records, record.length = reclen)
    (distinct : (records.map (mountKey primary)).Nodup)
    (probe : List Byte) (wholeProbe : probe.length = reclen) :
    ∃ hdr, memfhWrites (memfhOpen filename reclen (primary :: alternates)) records = some hdr ∧
      ∃ found hdr' area, memfhRead hdr probe false = some (found, hdr', area) ∧
        (found = true ↔ ∃ record ∈ records, mountKey primary record = mountKey primary probe) ∧
        (∀ record ∈ records, mountKey primary record = mountKey primary probe → area = record) ∧
        (found = false → area = probe) := by
  obtain ⟨hdr, idx, labels, written, sound, sameReclen, keys, data⟩ := memfhWrites_sound records
    (memfhOpen_sound filename reclen (primary :: alternates)) short whole distinct
  have comps : hdr.comps 0 = primary := by rw [Hdr.comps, keys]; rfl
  replace data : hdr.data = records := data
  replace sameReclen : hdr.reclen = reclen := sameReclen
  refine ⟨hdr, written, ?_⟩
  rcases memfhRead_spec sound (wholeProbe.trans sameReclen.symm) with
    ⟨hdr', record, read, member, same⟩ | ⟨hdr', read, absent⟩
  · rw [comps] at same
    rw [data] at member
    have full : record.take hdr.reclen = record := by
      rw [sameReclen, ← whole record member, List.take_length]
    rw [full] at read
    refine ⟨true, hdr', record, read, ⟨fun _ => ⟨record, member, same⟩, fun _ => rfl⟩, ?_, nofun⟩
    intro other present equal
    exact List.inj_on_of_nodup_map distinct member present (same.trans equal.symm)
  · rw [comps, data] at absent
    refine ⟨false, hdr', probe, read, ⟨nofun, ?_⟩, ?_, fun _ => rfl⟩
    · rintro ⟨record, member, same⟩
      exact (absent record member same).elim
    · intro record member same
      exact (absent record member same).elim

/-- Two records of two bytes with keys of one byte, and a probe for the second. -/
theorem read_after_two_writes :
    ∃ hdr, memfhWrites (memfhOpen "f" 2 [[(0, 1)]]) [[1, 7], [2, 8]] = some hdr ∧
      ∃ found hdr' area, memfhRead hdr [2, 0] false = some (found, hdr', area) ∧
        (found = true ↔ ∃ record ∈ [[1, 7], [2, 8]],
          mountKey [(0, 1)] record = mountKey [(0, 1)] [2, 0]) ∧
        (∀ record ∈ [[1, 7], [2, 8]], mountKey [(0, 1)] record = mountKey [(0, 1)] [2, 0] →
          area = record) ∧
        (found = false → area = [2, 0]) :=
  read_after_writes "f" 2 [(0, 1)] [] (by decide) [[1, 7], [2, 8]] (by decide) (by decide)
    [2, 0] rfl

end Pqfh.Memfh
