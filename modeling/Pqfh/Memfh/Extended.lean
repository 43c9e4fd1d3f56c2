import Pqfh.Memfh.Cbl
import Pqfh.Memfh.Runs

/-! # Alternate keys made unique

`memfh_idx_create` ends the process when two records have one key, so OPEN OUTPUT makes the
alternate keys of an in-memory file unique: it appends to each what it takes of the primary key.
What it takes is the first component alone. `extended_keys_iff` says when that is enough: when every
byte of the primary key lies in its first component or in a component of the alternate key.
-/

namespace Pqfh.Memfh

/-! ## The bytes of a key -/

/-- A place of the record lies in a component. -/
def Covers (comps : List (ℕ × ℕ)) (place : ℕ) : Prop :=
  ∃ comp ∈ comps, comp.1 ≤ place ∧ place < comp.1 + comp.2

theorem length_slice_eq {record other : List Byte} (same : record.length = other.length)
    (offset n : ℕ) : (slice record offset n).length = (slice other offset n).length := by
  unfold slice
  rw [List.length_take, List.length_take, List.length_drop, List.length_drop, same]

theorem slice_eq_iff {record other : List Byte} (offset n : ℕ) :
    slice record offset n = slice other offset n ↔
      ∀ place, offset ≤ place → place < offset + n → record[place]? = other[place]? := by
  constructor
  · intro same place low high
    have at_place := congrArg (fun bytes : List Byte => bytes[place - offset]?) same
    rw [getElem?_slice, getElem?_slice, if_pos (by omega), if_pos (by omega)] at at_place
    rwa [Nat.add_sub_cancel' low] at at_place
  · intro same
    apply List.ext_getElem?
    intro i
    rw [getElem?_slice, getElem?_slice]
    by_cases inside : i < n
    · rw [if_pos inside, if_pos inside, same (offset + i) (by omega) (by omega)]
    · rw [if_neg inside, if_neg inside]

/-- Two records have one key when they agree on the bytes that the key covers. -/
theorem mountKey_eq_iff {record other : List Byte} (same : record.length = other.length)
    (comps : List (ℕ × ℕ)) : mountKey comps record = mountKey comps other ↔
      ∀ place, Covers comps place → record[place]? = other[place]? := by
  induction comps with
  | nil =>
      refine ⟨fun _ place covered => ?_, fun _ => rfl⟩
      obtain ⟨_, member, _⟩ := covered
      cases member
  | cons comp comps ih =>
      have split : mountKey (comp :: comps) record = mountKey (comp :: comps) other ↔
          slice record comp.1 comp.2 = slice other comp.1 comp.2 ∧
            mountKey comps record = mountKey comps other := by
        simp only [mountKey, List.flatMap_cons]
        refine ⟨fun equal => List.append_inj equal (length_slice_eq same _ _), fun equal => ?_⟩
        rw [equal.1, equal.2]
      rw [split, ih, slice_eq_iff]
      constructor
      · rintro ⟨first, rest⟩ place ⟨found, member, covered⟩
        rcases List.mem_cons.mp member with rfl | later
        · exact first place covered.1 covered.2
        · exact rest place ⟨found, later, covered⟩
      · intro all
        refine ⟨fun place low high => all place ⟨comp, List.mem_cons_self, low, high⟩, ?_⟩
        rintro place ⟨found, member, covered⟩
        exact all place ⟨found, List.mem_cons_of_mem _ member, covered⟩

/-! ## The keys that OPEN OUTPUT makes -/

/-- The keys of a file are those of the key definition block, the alternate keys with the first
component of the primary key. -/
theorem kdbKeys_spec {kdb : ℕ → Byte} {keys : List (List (ℕ × ℕ))}
    (made : kdbKeys kdb = some keys) : keys.length = getshort kdb 6 ∧
      ∃ primary, kdbKey kdb 0 = some primary ∧ keys.getD 0 [] = primary ∧
        ∀ k, 0 < k → k < keys.length → ∃ comps, kdbKey kdb k = some comps ∧
          keys.getD k [] = comps ++ primary.take 1 := by
  unfold kdbKeys at made
  split at made
  · cases made
  · cases mapped : (List.range (getshort kdb 6)).mapM (kdbKey kdb) with
    | none => simp only [mapped, reduceCtorEq] at made
    | some given =>
        have lengths : given.length = getshort kdb 6 := by
          rw [← List.length_range (n := getshort kdb 6)]
          exact length_mapM mapped
        have each : ∀ k, k < given.length → ∃ comps, kdbKey kdb k = some comps ∧
            given[k]? = some comps := by
          intro k inside
          exact mapM_getElem? mapped (List.getElem?_range (lengths ▸ inside))
        simp only [mapped] at made
        cases given with
        | nil => cases made
        | cons primary alternates =>
            obtain ⟨first, here, present⟩ := each 0 (by simp)
            cases present
            cases alternates with
            | nil =>
                cases made
                refine ⟨lengths, primary, here, rfl, fun k positive inside => ?_⟩
                rw [List.length_singleton] at inside
                omega
            | cons alternate alternates =>
                obtain ⟨comp, head, rfl⟩ := Option.map_eq_some_iff.mp made
                have taken : primary.take 1 = [comp] := by
                  obtain ⟨rest, rfl⟩ := List.head?_eq_some_iff.mp head
                  rfl
                refine ⟨by simpa using lengths, primary, here, rfl, ?_⟩
                intro k positive inside
                obtain ⟨j, rfl⟩ : ∃ j, k = j + 1 := ⟨k - 1, by omega⟩
                obtain ⟨comps, there, present⟩ := each (j + 1) (by simpa using inside)
                refine ⟨comps, there, ?_⟩
                rw [List.getElem?_cons_succ] at present
                rw [taken, List.getD_cons_succ, List.getD_eq_getElem?_getD, List.getElem?_map,
                  present]
                rfl

/-- The file that OPEN OUTPUT opens. -/
theorem memfhCblOpenOutput_spec {address : ℕ} {filename : String} {reg reg' : Registry}
    {fcd fcd' : Fcd} {hdr : Hdr}
    (opened : memfhCblOpenOutput address filename reg fcd = some (fcd', reg'))
    (there : reg'.heap address = some hdr) : ∃ keys, kdbKeys fcd.kdb = some keys ∧
      hdr = memfhOpen filename fcd.record.length keys := by
  obtain ⟨keys, made, result⟩ := Option.map_eq_some_iff.mp opened
  refine ⟨keys, made, ?_⟩
  obtain ⟨-, rfl⟩ := Prod.mk.inj result
  split at there
  · exact (Option.some.inj (there.symm.trans (Function.update_self ..)))
  · exact (Option.some.inj (there.symm.trans (Function.update_self ..)))

/-- OPEN OUTPUT opens a file when the key definition block gives its keys. -/
theorem exists_memfhCblOpenOutput (address : ℕ) (filename : String) (reg : Registry) {fcd : Fcd}
    {keys : List (List (ℕ × ℕ))} (made : kdbKeys fcd.kdb = some keys) :
    ∃ fcd' reg', memfhCblOpenOutput address filename reg fcd = some (fcd', reg') ∧
      reg'.heap address = some (memfhOpen filename fcd.record.length keys) := by
  refine ⟨_, _, by rw [memfhCblOpenOutput, made]; rfl, ?_⟩
  split
  · exact Function.update_self ..
  · exact Function.update_self ..

/-! ## When the alternate keys are unique -/

/-- Records with different primary keys have different values of every alternate key. -/
def KeysSeparate (reclen : ℕ) (keys : List (List (ℕ × ℕ))) : Prop :=
  ∀ records : List (List Byte), (∀ record ∈ records, record.length = reclen) →
    (records.map (mountKey (keys.getD 0 []))).Nodup →
    ∀ k, 0 < k → k < keys.length → (records.map (mountKey (keys.getD k []))).Nodup

/-- The index of an alternate key can be built at any time, with one entry for each record. -/
def IndexesBuild (filename : String) (reclen : ℕ) (keys : List (List (ℕ × ℕ))) : Prop :=
  ∀ hdr, FileRun filename reclen keys (fun _ _ => True) hdr → ∀ k, 0 < k → k < keys.length →
    ∃ hdr' idx, memfhIdxCreate hdr k = some hdr' ∧ hdr'.idx k = some idx ∧ Current hdr k idx.graph

/-- An alternate key that covers what the primary key covers tells apart what that does. -/
theorem nodup_of_covers {reclen : ℕ} {primary comps : List (ℕ × ℕ)}
    (covers : ∀ place < reclen, Covers primary place → Covers comps place)
    {records : List (List Byte)} (whole : ∀ record ∈ records, record.length = reclen)
    (distinct : (records.map (mountKey primary)).Nodup) :
    (records.map (mountKey comps)).Nodup := by
  refine distinct.of_map _ |>.map_on fun record member other present same => ?_
  have lengths := (whole record member).trans (whole other present).symm
  refine List.inj_on_of_nodup_map distinct member present ((mountKey_eq_iff lengths _).mpr ?_)
  intro place covered
  by_cases inside : place < reclen
  · exact (mountKey_eq_iff lengths _).mp same place (covers place inside covered)
  · have past : record.length ≤ place := by rw [whole record member]; omega
    rw [List.getElem?_eq_none past, List.getElem?_eq_none (lengths ▸ past)]

/-- A record of zeros, with one at a place. -/
def markedAt (reclen place : ℕ) : List Byte := (List.replicate reclen 0).set place 1

theorem markedAt_eq_iff {reclen place : ℕ} (inside : place < reclen) (comps : List (ℕ × ℕ)) :
    mountKey comps (List.replicate reclen 0) = mountKey comps (markedAt reclen place) ↔
      ¬ Covers comps place := by
  rw [mountKey_eq_iff (show _ = (markedAt reclen place).length from (List.length_set ..).symm)]
  have differ : ∀ other, (List.replicate reclen (0 : Byte))[other]? =
      (markedAt reclen place)[other]? ↔ other ≠ place := by
    intro other
    unfold markedAt
    rw [List.getElem?_set]
    by_cases here : place = other
    · subst here
      simp [inside]
    · simp [here, Ne.symm here]
  constructor
  · intro agree covered
    exact (differ place).mp (agree place covered) rfl
  · intro open_ other covered
    exact (differ other).mpr fun here => open_ (here ▸ covered)

/-- Writes of records with different primary keys make a file of these records. -/
theorem fileRun_writes {filename : String} {reclen : ℕ} {keys : List (List (ℕ × ℕ))}
    (short : ∀ comps ∈ keys, keyLength comps ≤ 256) {records : List (List Byte)}
    (whole : ∀ record ∈ records, record.length = reclen)
    (distinct : (records.map (mountKey (keys.getD 0 []))).Nodup) :
    ∃ hdr, FileRun filename reclen keys (fun _ _ => True) hdr ∧ hdr.data = records := by
  have ok : FileOk (memfhOpen filename reclen keys) := memfhOpen_ok filename short
  obtain ⟨hdr, _, _, written, _, _, _, data⟩ := memfhWrites_sound records
    (memfhOpen_sound filename reclen keys) (ok.short 0) whole distinct
  refine ⟨hdr, FileRun.applyAll (records.map .write) .opened ?_ ?_, data⟩
  · intro op member
    obtain ⟨record, present, rfl⟩ := List.mem_map.mp member
    exact whole record present
  · rw [← written, FileOp.applyAll, List.foldlM_map]
    rfl

/-- The process ends in building an index exactly when two records have one extended key. -/
theorem indexesBuild_iff {filename : String} {reclen : ℕ} {keys : List (List (ℕ × ℕ))}
    (short : ∀ comps ∈ keys, keyLength comps ≤ 256) :
    IndexesBuild filename reclen keys ↔ KeysSeparate reclen keys := by
  constructor
  · intro builds records whole distinct k positive inside
    obtain ⟨hdr, run, rfl⟩ := @fileRun_writes filename _ _ short _ whole distinct
    obtain ⟨ok, same, _⟩ := run.ok short
    obtain ⟨hdr', _, created, _⟩ := builds hdr run k positive inside
    obtain ⟨_, _, _, _, ⟨_, aborted⟩ | ⟨different, _⟩⟩ := memfhIdxCreate_spec ok k
    · exact (Option.some_ne_none _ (created.symm.trans aborted)).elim
    · rwa [Hdr.comps, same] at different
  · intro separate hdr run k positive inside
    obtain ⟨ok, same, length⟩ := run.ok short
    have distinct := ok.distinct
    rw [Hdr.comps, same] at distinct
    have different := separate hdr.data (length ▸ ok.whole) distinct k positive inside
    obtain ⟨_, _, _, _, ⟨equal, _⟩ | ⟨_, made, _, created, _, current⟩⟩ := memfhIdxCreate_spec ok k
    · exact (equal (by rwa [Hdr.comps, same])).elim
    · exact ⟨_, made, created, Hdr.setIdx_self .., current⟩

/-- Different primary keys make different alternate keys when, and only when, each alternate key
covers what the primary key covers. -/
theorem keysSeparate_iff {reclen : ℕ} {keys : List (List (ℕ × ℕ))} :
    KeysSeparate reclen keys ↔ ∀ k, 0 < k → k < keys.length → ∀ place < reclen,
      Covers (keys.getD 0 []) place → Covers (keys.getD k []) place := by
  constructor
  · intro separate k positive inside place within covered
    by_contra uncovered
    have different := separate [List.replicate reclen 0, markedAt reclen place]
      (by simp [markedAt]) (by simpa using fun same => (markedAt_eq_iff within _).mp same covered)
      k positive inside
    exact (by simpa using different : _ ≠ _) ((markedAt_eq_iff within _).mpr uncovered)
  · intro covers records whole distinct k positive inside
    exact nodup_of_covers (covers k positive inside) whole distinct

/-- The indexes of alternate keys of a file opened for output can always be built when, and only
when, every byte of the primary key lies in its first component or in each alternate key. -/
theorem extended_keys_iff {address : ℕ} {filename : String} {reg reg' : Registry}
    {fcd fcd' : Fcd} {hdr : Hdr}
    (opened : memfhCblOpenOutput address filename reg fcd = some (fcd', reg'))
    (there : reg'.heap address = some hdr) (short : ∀ comps ∈ hdr.keys, keyLength comps ≤ 256) :
    (KeysSeparate hdr.reclen hdr.keys ∧ IndexesBuild hdr.filename hdr.reclen hdr.keys) ↔
      ∀ k primary comps, 0 < k → k < getshort fcd.kdb 6 → kdbKey fcd.kdb 0 = some primary →
        kdbKey fcd.kdb k = some comps → ∀ place < fcd.record.length, Covers primary place →
        Covers (primary.take 1) place ∨ Covers comps place := by
  obtain ⟨keys, made, rfl⟩ := memfhCblOpenOutput_spec opened there
  obtain ⟨count, primary, first, atZero, later⟩ := kdbKeys_spec made
  have appended : ∀ comps place, Covers (comps ++ primary.take 1) place ↔
      Covers (primary.take 1) place ∨ Covers comps place := by
    intro comps place
    simp only [Covers, List.mem_append, or_and_right, exists_or, or_comm]
  rw [indexesBuild_iff short, and_self, keysSeparate_iff]
  change (∀ k, 0 < k → k < keys.length → ∀ place < fcd.record.length,
    Covers (keys.getD 0 []) place → Covers (keys.getD k []) place) ↔ _
  rw [atZero, ← count]
  constructor
  · intro covers k primary' comps positive inside first' there' place within covered
    obtain rfl : primary = primary' := Option.some.inj (first.symm.trans first')
    obtain ⟨comps', there'', shape⟩ := later k positive inside
    obtain rfl : comps = comps' := Option.some.inj (there'.symm.trans there'')
    have reached := covers k positive inside place within covered
    rwa [shape, appended] at reached
  · intro covers k positive inside place within covered
    obtain ⟨comps, there', shape⟩ := later k positive inside
    rw [shape, appended]
    exact covers k primary comps positive inside first there' place within covered

/-- A key definition block of two keys for records of three bytes: the primary key has its
components in the first bytes, the alternate key is the last byte. -/
def threeBytesKdb (ncomps : Byte) (place : ℕ) : Byte :=
  if place = 15 then ncomps
  else if place ∈ [31, 55, 61, 65, 75] then 1
  else if place ∈ [7, 71] then 2
  else if place = 17 then 46
  else if place = 33 then 66
  else 0

/-- An fcd for OPEN OUTPUT of a file of records of three bytes. -/
def threeBytesFcd (ncomps : Byte) : Fcd :=
  ⟨stOk, 128, 0, [0, 0, 0], false, false, false, [], threeBytesKdb ncomps, 0, false⟩

/-- The primary key is made of the first and the last byte, the alternate key of the last two. -/
def splitKdb (place : ℕ) : Byte :=
  if place ∈ [55, 65, 71, 75, 85] then 1
  else if place ∈ [7, 15, 31, 61, 81] then 2
  else if place = 17 then 46
  else if place = 33 then 66
  else 0

/-- The alternate key has the byte of the primary key that is not in its first component. -/
theorem extended_keys_split : KeysSeparate 3 [[(0, 1), (2, 1)], [(1, 1), (2, 1), (0, 1)]] ∧
    IndexesBuild "f" 3 [[(0, 1), (2, 1)], [(1, 1), (2, 1), (0, 1)]] := by
  obtain ⟨_, _, opened, there⟩ := exists_memfhCblOpenOutput 1 "f" Registry.initial
    (by decide +kernel : kdbKeys { threeBytesFcd 1 with kdb := splitKdb }.kdb =
      some [[(0, 1), (2, 1)], [(1, 1), (2, 1), (0, 1)]])
  refine (extended_keys_iff opened there (by decide)).mpr ?_
  intro k primary comps positive inside first known place within covered
  obtain rfl : k = 1 := by
    have two : getshort splitKdb 6 = 2 := by decide
    rw [two] at inside
    omega
  have given : kdbKey splitKdb 0 = some [(0, 1), (2, 1)] := by decide +kernel
  have alternate : kdbKey splitKdb 1 = some [(1, 1), (2, 1)] := by decide +kernel
  cases first.symm.trans given
  cases known.symm.trans alternate
  obtain ⟨comp, member, low, high⟩ := covered
  rcases List.mem_cons.mp member with rfl | member
  · exact .inl ⟨_, List.mem_cons_self, low, high⟩
  · obtain rfl := List.mem_singleton.mp member
    exact .inr ⟨_, List.mem_cons_of_mem _ List.mem_cons_self, low, high⟩

/-- Two records that differ in the second component of the primary key, under one value of the
alternate key: building its index ends the process. -/
theorem extended_keys_fail : ∃ fcd reg hdr written,
    memfhCblOpenOutput 1 "f" Registry.initial (threeBytesFcd 2) = some (fcd, reg) ∧
      reg.heap 1 = some hdr ∧ ([[1, 1, 7], [1, 2, 7]].map (mountKey (hdr.comps 0))).Nodup ∧
      memfhWrites hdr [[1, 1, 7], [1, 2, 7]] = some written ∧ memfhIdxCreate written 1 = none ∧
      ¬ (KeysSeparate hdr.reclen hdr.keys ∧ IndexesBuild hdr.filename hdr.reclen hdr.keys) := by
  obtain ⟨fcd, reg, opened, there⟩ := exists_memfhCblOpenOutput 1 "f" Registry.initial
    (by decide +kernel :
      kdbKeys (threeBytesFcd 2).kdb = some [[(0, 1), (1, 1)], [(2, 1), (0, 1)]])
  obtain ⟨written, wrote⟩ := Option.isSome_iff_exists.mp (by decide +kernel :
    (memfhWrites (memfhOpen "f" 3 [[(0, 1), (1, 1)], [(2, 1), (0, 1)]])
      [[1, 1, 7], [1, 2, 7]]).isSome)
  refine ⟨fcd, reg, _, written, opened, there, by decide, wrote, ?_, ?_⟩
  · have created : (memfhWrites (memfhOpen "f" 3 [[(0, 1), (1, 1)], [(2, 1), (0, 1)]])
        [[1, 1, 7], [1, 2, 7]]).map (fun hdr => (memfhIdxCreate hdr 1).isNone) = some true := by
      decide +kernel
    rw [wrote] at created
    exact Option.isNone_iff_eq_none.mp (Option.some.inj created)
  · rintro ⟨separate, _⟩
    have different := separate [[1, 1, 7], [1, 2, 7]] (by decide) (by decide) 1 (by decide)
      (by decide)
    exact absurd different (by decide)

end Pqfh.Memfh
