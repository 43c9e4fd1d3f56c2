import Mathlib.Algebra.BigOperators.Ring.Finset
import Mathlib.Algebra.Order.BigOperators.Group.List
import Mathlib.Algebra.Order.Ring.Nat
import Pqfh.Memfh.Cbl
import Pqfh.Sync.Cmp
import Pqfh.Table.KeyRanges

/-! # One key definition block, three readers

`getkeys` turns the key definition block into columns, from which `getkbuf` builds the key of a
record; `cmp_table` and `memfh_cbl` decode the block on their own. They do not declare the numbers
alike: `getkeys` keeps the offset of a component in an unsigned short, and `memfh_cbl` keeps the
place of the component definitions in a short. `Pqfh.keysMatch_iff` says when all of them come to
the same keys.
-/

namespace Pqfh

/-! ## What the block defines -/

/-- The number of components of key `k`. -/
def ncomps (kdb : ℕ → Byte) (k : ℕ) : ℕ := getshort kdb (14 + k * 16)

/-- The place of the component definitions of key `k`. -/
def cdaoffset (kdb : ℕ → Byte) (k : ℕ) : ℕ := getshort kdb (14 + k * 16 + 2)

/-- The components of key `k`, offset and length, as they stand in the block. -/
def definedComponents (kdb : ℕ → Byte) (k : ℕ) : List (ℕ × ℕ) :=
  (List.range (ncomps kdb k)).map fun c =>
    let cda := cdaoffset kdb k + c * 10
    (getint kdb (cda + 2), getint kdb (cda + 6))

/-- A component as a range of the record. -/
def asRange (comp : ℕ × ℕ) : ℕ × ℤ := (comp.1, comp.2)

/-- The bytes of the components, one after the other. -/
def componentBytes (comps : List (ℕ × ℕ)) (record : List Byte) : List Byte :=
  comps.flatMap fun comp => slice record comp.1 comp.2

/-- The columns of the components, one after the other. -/
def componentColumns (cols : List Column) (comps : List (ℕ × ℕ)) : List ℕ :=
  comps.flatMap fun comp => columnsOf cols (asRange comp)

/-- The components lie in the record. -/
def InRecord (comps : List (ℕ × ℕ)) (record : List Byte) : Prop :=
  ∀ comp ∈ comps, comp.1 + comp.2 ≤ record.length

/-- A key in the block: it has a component, its definitions lie within the length that the block
states, each component covers whole columns, and the key is within the limits of the handler. -/
structure KeyDefined (kdb : ℕ → Byte) (cols : List Column) (k : ℕ) : Prop where
  nonempty : 0 < ncomps kdb k
  inside : cdaoffset kdb k + ncomps kdb k * 10 ≤ getshort kdb 0
  covers : ∀ comp ∈ definedComponents kdb k, OnBoundaries cols (asRange comp)
  few : (componentColumns cols (definedComponents kdb k)).length ≤ maxComps
  short : ((definedComponents kdb k).map Prod.snd).sum ≤ maxKeyLen

/-- A block for a table whose columns lie one after the other. -/
structure KeysDefined (kdb : ℕ → Byte) (cols : List Column) : Prop where
  laid : Contiguous 0 cols
  inside : 14 + getshort kdb 6 * 16 ≤ getshort kdb 0
  key : ∀ k < getshort kdb 6, KeyDefined kdb cols k

/-! ## What the readers make of it -/

/-- `key.len`, as `getkeys` adds it up. -/
def keyLen (kdb : ℕ → Byte) (k : ℕ) : ℤ :=
  (components kdb k).foldl (fun len comp => len + comp.2) 0

/-- The loop of `getkbuf`, for a key id of any size. -/
def keyBuffer (tab : Table) (keyid : ℕ) (record : List Byte) : Except Stop (List Byte) :=
  match tab.keys[keyid]? with
  | none => .error .undefined
  | some cols =>
      if (cols.map fun i => (tab.column i).len).sum ≤ maxKeyLen ∧
          ∀ i ∈ cols, (tab.column i).offset + (tab.column i).len ≤ record.length then
        .ok (cols.flatMap fun i => slice record (tab.column i).offset (tab.column i).len)
      else .error .undefined

theorem getkbuf_eq_keyBuffer {keyid : ℕ} (few : keyid < maxKeys) (tab : Table)
    (record : List Byte) : getkbuf tab keyid record = keyBuffer tab keyid record := by
  unfold getkbuf keyBuffer
  cases tab.keys[keyid]? with
  | none => rfl
  | some cols => simp only [few, true_and]

/-- Key `k` of `getkeys` has the columns of the components and their length, and `getkbuf` builds
the bytes of the components from it. -/
structure KeyMatches (kdb : ℕ → Byte) (cols cols' : List Column) (keys : List (List ℕ)) (k : ℕ) :
    Prop where
  columns : keys[k]? = some (componentColumns cols (definedComponents kdb k))
  total : keyLen kdb k = ((componentColumns cols (definedComponents kdb k)).map fun p =>
    (cols.getD p noColumn).len).sum
  buffer : ∀ tab record, tab.columns = cols' → tab.keys = keys →
    InRecord (definedComponents kdb k) record →
    keyBuffer tab k record = .ok (componentBytes (definedComponents kdb k) record)

/-- The key that `cmp_table` extracts. -/
def CmpMatches (kdb : ℕ → Byte) : Prop :=
  ∀ record, InRecord (definedComponents kdb 0) record → ∃ places,
    checkedPlaces kdb record.length = .ok places ∧
      keyAt places record = componentBytes (definedComponents kdb 0) record

/-- The key that `memfh_cbl` builds. -/
def MemfhMatches (kdb : ℕ → Byte) : Prop :=
  ∃ primary alternates, Memfh.kdbKeys kdb = some (primary :: alternates) ∧
    ∀ record, Memfh.mountKey primary record = componentBytes (definedComponents kdb 0) record

/-- All readers come to the keys that the block defines. -/
structure KeysMatch (kdb : ℕ → Byte) (cols : List Column) : Prop where
  keys : ∃ cols' keys, getkeys kdb cols = .ok (cols', keys) ∧
    keys.length = getshort kdb 6 ∧ ∀ k < getshort kdb 6, KeyMatches kdb cols cols' keys k
  cmp : 0 < getshort kdb 6 → CmpMatches kdb
  memfh : 0 < getshort kdb 6 → MemfhMatches kdb

/-- The numbers of key `k` fit where the readers keep them. -/
def NumbersFit (kdb : ℕ → Byte) (k : ℕ) : Prop :=
  cdaoffset kdb k < 2 ^ 15 ∧ ∀ comp ∈ definedComponents kdb k, comp.1 < 2 ^ 16

/-! ## Reading the components -/

theorem getshort_lt (memory : ℕ → Byte) (place : ℕ) : getshort memory place < 2 ^ 16 := by
  have low := (memory (place + 1)).isLt
  have high := (memory place).isLt
  unfold getshort
  omega

theorem components_eq (kdb : ℕ → Byte) (k : ℕ) : components kdb k =
    (definedComponents kdb k).map fun comp => (comp.1 % 2 ^ 16, toInt comp.2) := by
  unfold components definedComponents
  rw [List.map_map]
  rfl

theorem keyPlaces_eq (kdb : ℕ → Byte) : keyPlaces kdb =
    (definedComponents kdb 0).map fun comp => (toInt comp.1, toInt comp.2) := by
  unfold keyPlaces definedComponents
  rw [List.map_map]
  rfl

theorem toInt_eq {n : ℕ} (small : n < 2 ^ 31) : toInt n = n := if_pos small

section

variable {kdb : ℕ → Byte} {cols : List Column} {k : ℕ} (defined : KeyDefined kdb cols k)

include defined

/-- No component is longer than a key may be. -/
theorem KeyDefined.length_le {comp : ℕ × ℕ} (member : comp ∈ definedComponents kdb k) :
    comp.2 ≤ maxKeyLen :=
  (List.le_sum_of_mem (List.mem_map_of_mem member)).trans defined.short

theorem KeyDefined.toInt_length {comp : ℕ × ℕ} (member : comp ∈ definedComponents kdb k) :
    toInt comp.2 = comp.2 :=
  toInt_eq ((defined.length_le member).trans_lt (by decide))

/-- `getkeys` reads the components as they stand when their offsets fit. -/
theorem KeyDefined.components_eq (fit : ∀ comp ∈ definedComponents kdb k, comp.1 < 2 ^ 16) :
    components kdb k = (definedComponents kdb k).map asRange := by
  rw [Pqfh.components_eq]
  refine List.map_congr_left fun comp member => ?_
  rw [Nat.mod_eq_of_lt (fit comp member), defined.toInt_length member]
  rfl

/-- `memfh_cbl` reads the components when their definitions start low in the block. -/
theorem KeyDefined.kdbKey_eq (low : cdaoffset kdb k < 2 ^ 15) :
    Memfh.kdbKey kdb k = some (definedComponents kdb k) := by
  have inside := defined.inside
  have stated := getshort_lt kdb 0
  have few : ¬ 2 ^ 15 ≤ ncomps kdb k := by omega
  have place : Memfh.toShort (cdaoffset kdb k) = cdaoffset kdb k := if_pos low
  unfold Memfh.kdbKey
  change (if 2 ^ 15 ≤ ncomps kdb k then none else (List.range (ncomps kdb k)).mapM fun c : ℕ =>
    let cda := Memfh.toShort (cdaoffset kdb k) + c * 10
    if cda + 2 < 0 then none else some (getint kdb (cda + 2).toNat, getint kdb (cda + 6).toNat)) = _
  rw [if_neg few]
  refine mapM_eq_map fun c _ => ?_
  dsimp only
  rw [place, if_neg (by omega)]
  have first : ((cdaoffset kdb k : ℤ) + c * 10 + 2).toNat = cdaoffset kdb k + c * 10 + 2 := by omega
  have second : ((cdaoffset kdb k : ℤ) + c * 10 + 6).toNat = cdaoffset kdb k + c * 10 + 6 := by
    omega
  rw [first, second]

/-- Definitions that start higher are looked for before the block. -/
theorem KeyDefined.kdbKey_none (high : 2 ^ 15 ≤ cdaoffset kdb k) : Memfh.kdbKey kdb k = none := by
  have inside := defined.inside
  have positive := defined.nonempty
  have stated := getshort_lt kdb 0
  have place : Memfh.toShort (cdaoffset kdb k) = cdaoffset kdb k - 2 ^ 16 :=
    if_neg (Nat.not_lt.mpr high)
  obtain ⟨n, count⟩ := Nat.exists_eq_succ_of_ne_zero positive.ne'
  unfold Memfh.kdbKey
  change (if 2 ^ 15 ≤ ncomps kdb k then none else (List.range (ncomps kdb k)).mapM fun c : ℕ =>
    let cda := Memfh.toShort (cdaoffset kdb k) + c * 10
    if cda + 2 < 0 then none else some (getint kdb (cda + 2).toNat, getint kdb (cda + 6).toNat)) = _
  rw [if_neg (by omega), count, List.range_succ_eq_map, List.mapM_cons, place]
  dsimp only
  rw [if_pos (by push_cast; omega)]
  rfl

end

/-! ## The columns and the length of a key -/

theorem flag_place (flagged : List ℕ) (cols : List Column) (p : ℕ) :
    ((flag flagged cols).getD p noColumn).offset = (cols.getD p noColumn).offset ∧
      ((flag flagged cols).getD p noColumn).len = (cols.getD p noColumn).len := by
  rw [List.getD_eq_getElem?_getD, List.getD_eq_getElem?_getD, getElem?_flag]
  cases cols[p]? with
  | none => exact ⟨rfl, rfl⟩
  | some col =>
      rw [Option.map_some, Option.getD_some, Option.getD_some]
      by_cases member : p ∈ flagged
      · rw [if_pos member]
        exact ⟨rfl, rfl⟩
      · rw [if_neg member]
        exact ⟨rfl, rfl⟩

/-- The columns of the components are as long as these. -/
theorem componentColumns_len {cols : List Column} (laid : Contiguous 0 cols) :
    ∀ {comps : List (ℕ × ℕ)}, (∀ comp ∈ comps, OnBoundaries cols (asRange comp)) →
      ((componentColumns cols comps).map fun p => (cols.getD p noColumn).len).sum =
        (comps.map Prod.snd).sum := by
  intro comps
  induction comps with
  | nil => intro _; rfl
  | cons comp comps ih =>
      intro covers
      have first := columnsOf_len laid (covers comp List.mem_cons_self) noColumn
      have later := ih fun comp member => covers comp (List.mem_cons_of_mem _ member)
      have here : ((columnsOf cols (asRange comp)).map fun p => (cols.getD p noColumn).len).sum =
        comp.2 := Int.ofNat.inj first
      unfold componentColumns at later ⊢
      rw [List.flatMap_cons, List.map_append, List.sum_append, here, later, List.map_cons,
        List.sum_cons]

/-- The columns of the components hold their bytes. -/
theorem componentColumns_slices {cols : List Column} (laid : Contiguous 0 cols)
    {comps : List (ℕ × ℕ)} (covers : ∀ comp ∈ comps, OnBoundaries cols (asRange comp))
    (record : List Byte) :
    ((componentColumns cols comps).flatMap fun p =>
      slice record (cols.getD p noColumn).offset (cols.getD p noColumn).len) =
        componentBytes comps record := by
  unfold componentColumns componentBytes
  rw [List.flatMap_assoc]
  refine List.flatMap_congr fun comp member => ?_
  rw [columnsOf_slices laid (covers comp member) noColumn record]
  rfl

/-- A column of a component lies in it. -/
theorem componentColumns_within {cols : List Column} {comps : List (ℕ × ℕ)} {p : ℕ}
    (member : p ∈ componentColumns cols comps) : ∃ comp ∈ comps,
      (cols.getD p noColumn).offset + (cols.getD p noColumn).len ≤ comp.1 + comp.2 := by
  obtain ⟨comp, among, within⟩ := List.mem_flatMap.mp member
  obtain ⟨col, present, _, ends⟩ := mem_columnsOf.mp within
  have column : cols.getD p noColumn = col := by
    rw [List.getD_eq_getElem?_getD, present, Option.getD_some]
  refine ⟨comp, among, ?_⟩
  rw [column]
  exact Int.ofNat_le.mp ends

theorem sum_foldl (comps : List (ℕ × ℤ)) (len : ℤ) :
    comps.foldl (fun len comp => len + comp.2) len = len + (comps.map Prod.snd).sum := by
  induction comps generalizing len with
  | nil => exact (Int.add_zero len).symm
  | cons comp comps ih => rw [List.foldl_cons, ih, List.map_cons, List.sum_cons, Int.add_assoc]

/-- `key.len` is the length of the components. -/
theorem KeyDefined.keyLen_eq {kdb : ℕ → Byte} {cols : List Column} {k : ℕ}
    (defined : KeyDefined kdb cols k) :
    keyLen kdb k = ((definedComponents kdb k).map Prod.snd).sum := by
  have lengths : (components kdb k).map Prod.snd =
      ((definedComponents kdb k).map Prod.snd).map fun n : ℕ => (n : ℤ) := by
    rw [Pqfh.components_eq, List.map_map, List.map_map]
    exact List.map_congr_left fun comp member => defined.toInt_length member
  unfold keyLen
  rw [sum_foldl, lengths, Int.zero_add]
  exact (Nat.cast_list_sum _).symm

/-! ## The readers -/

/-- With numbers that fit, `getkeys` finds the columns of the components of each key. -/
theorem getkeys_matches {kdb : ℕ → Byte} {cols : List Column} (defined : KeysDefined kdb cols)
    (fit : ∀ k < getshort kdb 6, NumbersFit kdb k) :
    ∃ cols' keys, getkeys kdb cols = .ok (cols', keys) ∧
      keys.length = getshort kdb 6 ∧ ∀ k < getshort kdb 6, KeyMatches kdb cols cols' keys k := by
  have each : ∀ k < getshort kdb 6, (∃ flagged, getkey cols (components kdb k) =
      .ok (flagged, componentColumns cols (definedComponents kdb k))) ∧
        (componentColumns cols (definedComponents kdb k)).length ≤ maxComps := by
    intro k among
    have key := defined.key k among
    have aligned : ∀ comp ∈ (definedComponents kdb k).map asRange, OnBoundaries cols comp := by
      intro comp member
      obtain ⟨given, among, rfl⟩ := List.mem_map.mp member
      exact key.covers given among
    refine ⟨?_, key.few⟩
    obtain ⟨flagged, made⟩ := getkey_columns defined.laid aligned
    refine ⟨flagged, ?_⟩
    rw [key.components_eq (fit k among).2, made, List.flatMap_map]
    rfl
  obtain ⟨flagged, keys, got, rfl⟩ := getkeys_returns each
  refine ⟨_, _, got, by rw [List.length_map, List.length_range], fun k among => ?_⟩
  have key := defined.key k among
  have found : ((List.range (getshort kdb 6)).map fun k =>
      componentColumns cols (definedComponents kdb k))[k]? =
        some (componentColumns cols (definedComponents kdb k)) := by
    rw [List.getElem?_map, List.getElem?_range among, Option.map_some]
  refine ⟨found, ?_, fun tab record columns keys inside => ?_⟩
  · rw [key.keyLen_eq, componentColumns_len defined.laid key.covers]
  · have place : ∀ p, (tab.column p).offset = (cols.getD p noColumn).offset ∧
        (tab.column p).len = (cols.getD p noColumn).len := by
      intro p
      unfold Table.column
      rw [columns]
      exact flag_place flagged cols p
    unfold keyBuffer
    rw [keys, found]
    simp only [fun p => (place p).1, fun p => (place p).2]
    rw [if_pos, componentColumns_slices defined.laid key.covers]
    refine ⟨?_, fun p member => ?_⟩
    · rw [componentColumns_len defined.laid key.covers]
      exact key.short
    · obtain ⟨comp, among, ends⟩ := componentColumns_within member
      exact ends.trans (inside comp among)

/-- A component has a column at least. -/
theorem length_le_componentColumns {cols : List Column} (laid : Contiguous 0 cols) :
    ∀ {comps : List (ℕ × ℕ)}, (∀ comp ∈ comps, OnBoundaries cols (asRange comp)) →
      comps.length ≤ (componentColumns cols comps).length := by
  intro comps
  induction comps with
  | nil => intro _; exact Nat.zero_le _
  | cons comp comps ih =>
      intro covers
      have later := ih fun comp member => covers comp (List.mem_cons_of_mem _ member)
      obtain ⟨p, _, first, _⟩ := columnsOf_head laid (covers comp List.mem_cons_self)
      have taken := List.length_pos_of_mem (List.mem_of_head? first)
      unfold componentColumns at later ⊢
      rw [List.flatMap_cons, List.length_append, List.length_cons]
      omega

/-- `cmp_table` extracts the bytes of the components of key 0. -/
theorem KeyDefined.cmpMatches {kdb : ℕ → Byte} {cols : List Column} (laid : Contiguous 0 cols)
    (defined : KeyDefined kdb cols 0)
    (fit : ∀ comp ∈ definedComponents kdb 0, comp.1 < 2 ^ 16) : CmpMatches kdb := by
  intro record inside
  have places : keyPlaces kdb =
      (definedComponents kdb 0).map fun comp : ℕ × ℕ => ((comp.1 : ℤ), (comp.2 : ℤ)) := by
    rw [keyPlaces_eq]
    refine List.map_congr_left fun comp member => ?_
    rw [defined.toInt_length member, toInt_eq ((fit comp member).trans (by decide))]
  have total : ((keyPlaces kdb).map Prod.snd).sum =
      (((definedComponents kdb 0).map Prod.snd).sum : ℕ) := by
    rw [places, List.map_map, Nat.cast_list_sum, List.map_map]
    rfl
  have room : (keyPlaces kdb).length ≤ maxComps ∧ (∀ place ∈ keyPlaces kdb, 0 ≤ place.1 ∧
      0 ≤ place.2 ∧ place.1 + place.2 ≤ record.length) ∧
        ((keyPlaces kdb).map Prod.snd).sum ≤ 256 := by
    refine ⟨?_, fun place member => ?_, ?_⟩
    · rw [places, List.length_map]
      exact (length_le_componentColumns laid defined.covers).trans defined.few
    · rw [places] at member
      obtain ⟨comp, among, rfl⟩ := List.mem_map.mp member
      exact ⟨Int.natCast_nonneg _, Int.natCast_nonneg _, Int.ofNat_le.mpr (inside comp among)⟩
    · rw [total]
      exact Int.ofNat_le.mpr defined.short
  refine ⟨definedComponents kdb 0, ?_, rfl⟩
  unfold checkedPlaces
  dsimp only
  rw [if_pos room, places, List.map_map]
  exact congrArg Except.ok (List.map_id _)

/-- `memfh_cbl` builds the bytes of the components of key 0. -/
theorem memfh_matches {kdb : ℕ → Byte} {cols : List Column} (defined : KeysDefined kdb cols)
    (keyed : 0 < getshort kdb 6) (low : ∀ k < getshort kdb 6, cdaoffset kdb k < 2 ^ 15) :
    MemfhMatches kdb := by
  have stated := getshort_lt kdb 0
  have inside := defined.inside
  have mapped : (List.range (getshort kdb 6)).mapM (Memfh.kdbKey kdb) =
      some ((List.range (getshort kdb 6)).map (definedComponents kdb)) := by
    refine mapM_eq_map fun k member => ?_
    have among := List.mem_range.mp member
    exact (defined.key k among).kdbKey_eq (low k among)
  obtain ⟨n, count⟩ := Nat.exists_eq_succ_of_ne_zero keyed.ne'
  have primary := (defined.key 0 keyed).nonempty
  unfold MemfhMatches Memfh.kdbKeys
  rw [if_neg (by omega), mapped, count, List.range_succ_eq_map, List.map_cons]
  cases alternates : (List.map Nat.succ (List.range n)).map (definedComponents kdb) with
  | nil => exact ⟨_, _, rfl, fun record => rfl⟩
  | cons second rest =>
      dsimp only
      obtain ⟨first, head⟩ : ∃ first, (definedComponents kdb 0).head? = some first := by
        obtain ⟨m, comps⟩ := Nat.exists_eq_succ_of_ne_zero primary.ne'
        unfold definedComponents
        rw [comps, List.range_succ_eq_map]
        exact ⟨_, rfl⟩
      rw [head]
      exact ⟨_, _, rfl, fun record => rfl⟩

/-! ## When the numbers must fit -/

/-- Walks for offsets cut to 16 bits that find the columns of the components were not cut. -/
theorem offsets_fit {cols : List Column} (laid : Contiguous 0 cols) :
    ∀ {comps : List (ℕ × ℕ)}, (∀ comp ∈ comps, OnBoundaries cols (asRange comp)) →
      (comps.flatMap fun comp => walkSplit (comp.1 % 2 ^ 16) comp.2 cols 0) =
        componentColumns cols comps → ∀ comp ∈ comps, comp.1 < 2 ^ 16 := by
  intro comps
  induction comps with
  | nil => intro _ _ comp member; cases member
  | cons comp comps ih =>
      intro covers same
      have bounds := covers comp List.mem_cons_self
      unfold componentColumns at ih same
      by_cases fits : comp.1 < 2 ^ 16
      · rw [List.flatMap_cons, List.flatMap_cons, Nat.mod_eq_of_lt fits] at same
        have here : walkSplit comp.1 comp.2 cols 0 = columnsOf cols (asRange comp) :=
          walkSplit_eq laid bounds
        rw [here] at same
        have later := ih (fun comp member => covers comp (List.mem_cons_of_mem _ member))
          (List.append_cancel_left same)
        intro other member
        rcases List.mem_cons.mp member with rfl | member
        · exact fits
        · exact later other member
      · -- the first column of the key starts past the offsets that are looked for
        obtain ⟨p, col, first, present, starts⟩ := columnsOf_head laid bounds
        have head : ((comp :: comps).flatMap fun comp =>
            walkSplit (comp.1 % 2 ^ 16) comp.2 cols 0).head? = some p := by
          rw [same, List.flatMap_cons, List.head?_append, first]
          rfl
        rw [List.head?_flatMap] at head
        obtain ⟨other, _, found⟩ := List.exists_of_findSome?_eq_some head
        obtain ⟨j, col', place, present', starts'⟩ := walkSplit_head found
        rw [Nat.zero_add] at place
        subst place
        cases present.symm.trans present'
        have cut := Nat.mod_lt other.1 (show 0 < 2 ^ 16 by decide)
        have past : col.offset = comp.1 := starts
        omega

/-- A key that `getkeys` makes of the right columns has offsets that fit. -/
theorem KeyDefined.offsets_fit {kdb : ℕ → Byte} {cols : List Column} {k : ℕ}
    (laid : Contiguous 0 cols) (defined : KeyDefined kdb cols k) {flagged : List ℕ}
    (made : getkey cols (components kdb k) =
      .ok (flagged, componentColumns cols (definedComponents kdb k))) :
    ∀ comp ∈ definedComponents kdb k, comp.1 < 2 ^ 16 := by
  have read : components kdb k =
      (definedComponents kdb k).map fun comp : ℕ × ℕ => (comp.1 % 2 ^ 16, (comp.2 : ℤ)) := by
    rw [Pqfh.components_eq]
    refine List.map_congr_left fun comp member => ?_
    rw [defined.toInt_length member]
  rw [read] at made
  have covers := defined.covers
  generalize definedComponents kdb k = comps at made covers
  by_cases single : comps.length = 1
  · obtain ⟨comp, rfl⟩ := List.length_eq_one_iff.mp single
    obtain ⟨p, col, first, present, starts⟩ :=
      columnsOf_head laid (covers comp List.mem_cons_self)
    have head : (componentColumns cols [comp]).head? = some p := by
      unfold componentColumns
      rw [List.flatMap_singleton]
      exact first
    obtain ⟨j, col', place, present', starts'⟩ := walkSingle_head made head
    rw [Nat.zero_add] at place
    subst place
    cases present.symm.trans present'
    have cut := Nat.mod_lt comp.1 (show 0 < 2 ^ 16 by decide)
    have past : col.offset = comp.1 := starts
    have low : col.offset = comp.1 % 2 ^ 16 := starts'
    rw [List.forall_mem_singleton]
    omega
  · refine Pqfh.offsets_fit laid covers ?_
    unfold getkey at made
    split at made
    · rename_i comp shape
      have count := congrArg List.length shape
      rw [List.length_map] at count
      exact (single count).elim
    · have taken := congrArg Prod.snd (Except.ok.inj made)
      dsimp only at taken
      rwa [List.flatMap_map] at taken

/-- A block that `memfh_cbl` can read has its definitions low. -/
theorem definitions_low {kdb : ℕ → Byte} {cols : List Column} (defined : KeysDefined kdb cols)
    (matched : MemfhMatches kdb) : ∀ k < getshort kdb 6, cdaoffset kdb k < 2 ^ 15 := by
  intro k among
  by_contra high
  obtain ⟨primary, alternates, made, _⟩ := matched
  unfold Memfh.kdbKeys at made
  split at made
  · cases made
  · cases mapped : (List.range (getshort kdb 6)).mapM (Memfh.kdbKey kdb) with
    | none => simp only [mapped, reduceCtorEq] at made
    | some given =>
        obtain ⟨comps, read, _⟩ := mapM_getElem? mapped (List.getElem?_range among)
        rw [(defined.key k among).kdbKey_none (Nat.le_of_not_lt high)] at read
        cases read

/-- The readers come to the keys that the block defines just when the numbers of each key fit: its
definitions stand in the first 2^15 bytes of the block, and no component starts past the first 2^16
bytes of the record. -/
theorem keysMatch_iff {kdb : ℕ → Byte} {cols : List Column} (defined : KeysDefined kdb cols) :
    KeysMatch kdb cols ↔ ∀ k < getshort kdb 6, NumbersFit kdb k := by
  constructor
  · intro matched k among
    obtain ⟨cols', keys, got, _, each⟩ := matched.keys
    obtain ⟨flagged, taken, made, known⟩ := getkeys_key got among
    have columns := (each k among).columns
    rw [known] at columns
    rw [Option.some.inj columns] at made
    exact ⟨definitions_low defined (matched.memfh (Nat.zero_lt_of_lt among)) k among,
      (defined.key k among).offsets_fit defined.laid made⟩
  · intro fit
    refine ⟨getkeys_matches defined fit, fun keyed => ?_, fun keyed => ?_⟩
    · exact (defined.key 0 keyed).cmpMatches defined.laid (fit 0 keyed).2
    · exact memfh_matches defined keyed fun k among => (fit k among).1

/-- A block with one key, the first five bytes of the record. The definition of its component stands
30 bytes after the start of the 256 bytes numbered `page`, at the end of the block. -/
def pagedKdb (page : Byte) (place : ℕ) : Byte :=
  if place = 0 then page
  else if place = 1 then 40
  else if place = 7 then 1
  else if place = 15 then 1
  else if place = 16 then page
  else if place = 17 then 30
  else if place = page * 256 + 39 then 5
  else 0

/-- A column of five bytes. -/
def fiveByteColumn : List Column := [characterColumn "codigo" 0 5 five_characters]

theorem keysDefined_zero : KeysDefined (pagedKdb 0) fiveByteColumn where
  laid := by decide
  inside := by decide
  key := by
    intro k among
    obtain rfl : k = 0 := Nat.lt_one_iff.mp among
    exact ⟨by decide, by decide, by decide +kernel, by decide +kernel, by decide +kernel⟩

theorem keysDefined_high : KeysDefined (pagedKdb 128) fiveByteColumn where
  laid := by decide
  inside := by decide
  key := by
    intro k among
    obtain rfl : k = 0 := Nat.lt_one_iff.mp among
    exact ⟨by decide, by decide, by decide +kernel, by decide +kernel, by decide +kernel⟩

/-- In a small block the readers agree. -/
theorem keysMatch_low : KeysMatch (pagedKdb 0) fiveByteColumn := by
  refine (keysMatch_iff keysDefined_zero).mpr fun k among => ?_
  obtain rfl : k = 0 := Nat.lt_one_iff.mp among
  exact ⟨by decide, by decide +kernel⟩

/-- With the definition 32798 bytes into the block, `memfh_cbl` looks for it before the block. -/
theorem keysMatch_fails :
    KeysDefined (pagedKdb 128) fiveByteColumn ∧ ¬ KeysMatch (pagedKdb 128) fiveByteColumn := by
  refine ⟨keysDefined_high, fun matched => ?_⟩
  obtain ⟨primary, alternates, made, _⟩ := matched.memfh (by decide)
  have unread : Memfh.kdbKeys (pagedKdb 128) = none := by decide +kernel
  rw [unread] at made
  cases made

end Pqfh
