import Pqfh.Handler.Open
import Pqfh.Handler.Stored

/-! # The bytes that `pq2cob` writes

`pq2cob` is a run of `memset` and `memcpy` whose lengths are differences of the length of the
column, the length of the text and the scale. This module has it as such a run
(`Pqfh.pq2cobWrites`), which is the `pq2cob` of the other modules (`Pqfh.pq2cobFrom_eq_perform`),
and says for which columns and rows the lengths are not negative and each column is written
in its own bytes within the record (`Pqfh.pq2cob_footprint_iff`).
-/

namespace Pqfh

/-- A write to the record area, at a place and of a length as the source computes them. -/
inductive Store where
  /-- `memset(record + place, byte, count)`. -/
  | fill (place : ℤ) (byte : Byte) (count : ℤ)
  /-- `memcpy(record + place, source, count)`. -/
  | copy (place : ℤ) (source : List Byte) (count : ℤ)
  /-- `record[place] |= 0x40`. -/
  | sign (place : ℤ)

def Store.place : Store → ℤ
  | .fill place _ _ => place
  | .copy place _ _ => place
  | .sign place => place

def Store.count : Store → ℤ
  | .fill _ _ count => count
  | .copy _ _ count => count
  | .sign _ => 1

/-- Whether a store writes a byte of the record area. -/
def Store.Touches (store : Store) (byte : ℤ) : Prop :=
  store.place ≤ byte ∧ byte < store.place + store.count

/-- The stores of the loop of `pq2cob` for a number without its sign. -/
def digitStores (col : Column) (offset : ℤ) (p : List Byte) : List Store :=
  let len : ℤ := p.length
  if col.dec = 0 then
    [.fill offset 48 (col.len - len), .copy (offset + (col.len - len)) p len]
  else
    [.fill offset 48 (col.len - len + 1),
      .copy (offset + (col.len - len + 1)) p (len - col.dec - 1),
      .copy (offset + (col.len - len + 1) + (len - col.dec - 1)) (p.drop (p.length - col.dec))
        col.dec]

/-- The stores of the loop of `pq2cob` for a column and the text of its value. -/
def columnStores (col : Column) (offset : ℤ) (aux : List Byte) : List Store :=
  match col.tp with
  | .numeric =>
      if aux.head? = some 45 then
        digitStores col offset aux.tail ++ [.sign (offset + col.len - 1)]
      else digitStores col offset aux
  | .character =>
      [.copy offset aux aux.length, .fill (offset + aux.length) 32 (col.len - aux.length)]

/-- The stores of `pq2cob`, column by column, for the texts that `PQgetvalue` gives. -/
def pq2cobWrites : List Column → List (List Byte) → ℤ → List (Column × List Store)
  | col :: cols, text :: texts, offset =>
      (col, columnStores col offset text) :: pq2cobWrites cols texts (offset + col.len)
  | _, _, _ => []

/-- The texts that `PQgetvalue` can give for a column: no text for NULL, a number of the type
of the column, a text that is not longer than the column. -/
inductive Returned (col : Column) : List Byte → Prop
  | null : Returned col []
  | number (number : ℚ) (fits : (Value.num number).Fits col) :
      Returned col (printValue col (.num number))
  | text (text : List Byte) (type : col.tp = .character) (short : text.length ≤ col.len) :
      Returned col text

/-- The stores have no negative length, they write each column in its own bytes, and no byte
from `reclen` on. -/
structure Contained (reclen : ℕ) (writes : List (Column × List Store)) : Prop where
  nonneg : ∀ pair ∈ writes, ∀ store ∈ pair.2, 0 ≤ store.count
  exact : ∀ pair ∈ writes, ∀ byte : ℤ, (∃ store ∈ pair.2, store.Touches byte) ↔
    pair.1.offset ≤ byte ∧ byte < pair.1.offset + pair.1.len
  inside : ∀ pair ∈ writes, ∀ store ∈ pair.2, ∀ byte, store.Touches byte → byte < reclen

/-- A column with decimals is not NULL and has a digit before its point. -/
def Legible (col : Column) (text : List Byte) : Prop :=
  col.tp = .numeric → 0 < col.dec → text ≠ [] ∧ col.dec < col.len

/-! ## The lengths of the stores -/

/-- The digits of a field are defined when there is room for them. -/
theorem digitBytes_ok_iff {col : Column} {p : List Byte} :
    (∃ bytes, digitBytes col p = .ok bytes) ↔
      if col.dec = 0 then p.length ≤ col.len
      else p.length ≤ col.len + 1 ∧ col.dec + 1 ≤ p.length := by
  unfold digitBytes
  dsimp only
  split
  · split
    · rename_i short
      exact ⟨fun _ => short, fun _ => ⟨_, rfl⟩⟩
    · rename_i long
      exact ⟨nofun, fun short => absurd short long⟩
  · split
    · rename_i short
      exact ⟨fun _ => short, fun _ => ⟨_, rfl⟩⟩
    · rename_i long
      exact ⟨nofun, fun short => absurd short long⟩

/-- The lengths for a number are not negative if and only if its digits are defined. -/
theorem digitStores_nonneg_iff {col : Column} {offset : ℤ} {p : List Byte} :
    (∀ store ∈ digitStores col offset p, 0 ≤ store.count) ↔
      ∃ bytes, digitBytes col p = .ok bytes := by
  rw [digitBytes_ok_iff]
  unfold digitStores
  dsimp only
  split
  · simp only [List.forall_mem_cons, Store.count, List.not_mem_nil, false_implies,
      implies_true, and_true]
    omega
  · simp only [List.forall_mem_cons, Store.count, List.not_mem_nil, false_implies,
      implies_true, and_true]
    omega

/-- The lengths for a column are not negative if and only if its field is defined. -/
theorem columnStores_nonneg_iff {col : Column} {offset : ℤ} {text : List Byte} :
    (∀ store ∈ columnStores col offset text, 0 ≤ store.count) ↔
      ∃ bytes, fieldBytes col text = .ok bytes := by
  unfold columnStores fieldBytes
  cases col.tp with
  | character =>
      simp only [List.forall_mem_cons, Store.count, List.not_mem_nil, false_implies,
        implies_true, and_true]
      split
      · rename_i short
        exact ⟨fun _ => ⟨_, rfl⟩, fun _ => by omega⟩
      · rename_i long
        refine ⟨fun lengths => absurd (by omega) long, ?_⟩
        rintro ⟨bytes, impossible⟩
        cases impossible
  | numeric =>
      dsimp only
      by_cases minus : text.head? = some 45
      · rw [if_pos minus, if_pos minus, List.forall_mem_append, digitStores_nonneg_iff]
        constructor
        · rintro ⟨⟨digits, copied⟩, _⟩
          exact ⟨_, map_eq_ok.mpr ⟨digits, copied, rfl⟩⟩
        · rintro ⟨bytes, read⟩
          obtain ⟨digits, copied, _⟩ := map_eq_ok.mp read
          refine ⟨⟨digits, copied⟩, fun store member => ?_⟩
          rw [List.mem_singleton.mp member]
          exact Int.one_nonneg
      · rw [if_neg minus, if_neg minus]
        exact digitStores_nonneg_iff

/-- The stores of the digits touch the bytes of the column, and no others. -/
theorem digitStores_touch {col : Column} {offset : ℤ} {p : List Byte}
    (nonneg : ∀ store ∈ digitStores col offset p, 0 ≤ store.count) (byte : ℤ) :
    (∃ store ∈ digitStores col offset p, store.Touches byte) ↔
      offset ≤ byte ∧ byte < offset + col.len := by
  unfold digitStores at nonneg ⊢
  dsimp only at nonneg ⊢
  split at nonneg
  · rename_i whole
    rw [if_pos whole]
    simp only [List.forall_mem_cons, Store.count, List.not_mem_nil, false_implies,
      implies_true, and_true] at nonneg
    simp only [List.exists_mem_cons_iff, List.not_mem_nil, false_and, exists_false, or_false,
      Store.Touches, Store.place, Store.count]
    omega
  · rename_i decimals
    rw [if_neg decimals]
    simp only [List.forall_mem_cons, Store.count, List.not_mem_nil, false_implies,
      implies_true, and_true] at nonneg
    simp only [List.exists_mem_cons_iff, List.not_mem_nil, false_and, exists_false, or_false,
      Store.Touches, Store.place, Store.count]
    omega

/-- Stores without negative lengths write the bytes of the column. -/
theorem columnStores_touch {col : Column} {offset : ℤ} {text : List Byte}
    (nonneg : ∀ store ∈ columnStores col offset text, 0 ≤ store.count) (byte : ℤ) :
    (∃ store ∈ columnStores col offset text, store.Touches byte) ↔
      offset ≤ byte ∧ byte < offset + col.len := by
  have positive := col.len_pos
  unfold columnStores at nonneg ⊢
  cases type : col.tp with
  | character =>
      simp only [type] at nonneg
      simp only [List.forall_mem_cons, Store.count, List.not_mem_nil, false_implies,
        implies_true, and_true] at nonneg
      simp only [List.exists_mem_cons_iff, List.not_mem_nil, false_and, exists_false, or_false,
        Store.Touches, Store.place, Store.count]
      omega
  | numeric =>
      simp only [type] at nonneg ⊢
      by_cases minus : text.head? = some 45
      · rw [if_pos minus] at nonneg ⊢
        have digits := digitStores_touch (List.forall_mem_append.mp nonneg).1 byte
        simp only [List.mem_append, or_and_right, exists_or, List.mem_singleton, exists_eq_left]
        rw [digits]
        simp only [Store.Touches, Store.place, Store.count]
        omega
      · rw [if_neg minus] at nonneg ⊢
        exact digitStores_touch nonneg byte

/-! ## The stores are `pq2cob` -/

/-- What a store does to the record area. A negative length is a very large one. -/
def Store.perform : Store → List Byte → Except Stop (List Byte)
  | .fill place byte count, record =>
      if 0 ≤ place ∧ 0 ≤ count then
        writeAt record place.toNat (List.replicate count.toNat byte)
      else .error .undefined
  | .copy place source count, record =>
      if 0 ≤ place ∧ 0 ≤ count ∧ count ≤ source.length then
        writeAt record place.toNat (source.take count.toNat)
      else .error .undefined
  | .sign place, record =>
      if 0 ≤ place ∧ place < record.length then .ok (record.modify place.toNat setSign)
      else .error .undefined

/-- Stores, one after the other. -/
def performAll : List Store → List Byte → Except Stop (List Byte)
  | [], record => .ok record
  | store :: stores, record => do
      let record ← store.perform record
      performAll stores record

/-- Stores are performed one after the other. -/
theorem performAll_append (front back : List Store) (record : List Byte) :
    performAll (front ++ back) record = (performAll front record >>= performAll back) := by
  induction front generalizing record with
  | nil => rfl
  | cons store front ih =>
      simp only [List.cons_append, performAll]
      cases store.perform record with
      | error stop => rfl
      | ok record => exact ih record

/-- A fill writes one byte so many times. -/
theorem perform_fill (place count : ℕ) (byte : Byte) (record : List Byte) :
    (Store.fill place byte count).perform record =
      writeAt record place (List.replicate count byte) := by
  rw [Store.perform, if_pos ⟨Int.natCast_nonneg _, Int.natCast_nonneg _⟩]
  rfl

/-- A copy writes the bytes that it copies. -/
theorem perform_copy {place count : ℕ} {source : List Byte} (enough : count ≤ source.length)
    (record : List Byte) :
    (Store.copy place source count).perform record = writeAt record place (source.take count) := by
  rw [Store.perform,
    if_pos ⟨Int.natCast_nonneg _, Int.natCast_nonneg _, Int.ofNat_le.mpr enough⟩]
  rfl

/-- Writing beyond the buffer is undefined, and does not stop otherwise. -/
theorem writeAt_stop {buffer bytes : List Byte} {place : ℕ} {stop : Stop}
    (failed : writeAt buffer place bytes = .error stop) : stop = .undefined := by
  unfold writeAt at failed
  split at failed
  · cases failed
  · cases failed
    rfl

/-- A store that fails is undefined. -/
theorem Store.perform_stop {store : Store} {record : List Byte} {stop : Stop}
    (failed : store.perform record = .error stop) : stop = .undefined := by
  cases store with
  | fill place byte count =>
      simp only [Store.perform] at failed
      split at failed
      · exact writeAt_stop failed
      · cases failed
        rfl
  | copy place source count =>
      simp only [Store.perform] at failed
      split at failed
      · exact writeAt_stop failed
      · cases failed
        rfl
  | sign place =>
      simp only [Store.perform] at failed
      split at failed
      · cases failed
      · cases failed
        rfl

/-- A store of a negative length is not performed. -/
theorem Store.perform_negative {store : Store} (negative : store.count < 0) (record : List Byte) :
    store.perform record = .error .undefined := by
  cases store with
  | fill place byte count =>
      change count < 0 at negative
      rw [Store.perform, if_neg (by omega)]
  | copy place source count =>
      change count < 0 at negative
      rw [Store.perform, if_neg (by omega)]
  | sign place => exact absurd negative (by decide : ¬ (1 : ℤ) < 0)

/-- A store of a negative count is undefined. -/
theorem performAll_negative {stores : List Store} {record : List Byte}
    (negative : ∃ store ∈ stores, store.count < 0) :
    performAll stores record = .error .undefined := by
  induction stores generalizing record with
  | nil =>
      obtain ⟨_, member, _⟩ := negative
      cases member
  | cons store stores ih =>
      unfold performAll
      cases performed : store.perform record with
      | error stop => rw [Store.perform_stop performed, error_bind]
      | ok record' =>
          obtain ⟨other, member, below⟩ := negative
          rcases List.mem_cons.mp member with rfl | later
          · rw [Store.perform_negative below] at performed
            cases performed
          · exact ih ⟨other, later, below⟩

/-- Two writes, the second where the first one ends, are one. -/
theorem writeAt_append (record : List Byte) (place : ℕ) (front back : List Byte) :
    (writeAt record place front >>= fun record =>
      writeAt record (place + front.length) back) = writeAt record place (front ++ back) := by
  by_cases room : place + front.length ≤ record.length
  · have taken : (record.take place ++ front).length = place + front.length := by
      rw [List.length_append, List.length_take]
      omega
    have length : (record.take place ++ front ++ record.drop (place + front.length)).length =
        record.length := by
      rw [List.length_append, taken, List.length_drop]
      omega
    rw [writeAt, if_pos room, ok_bind]
    unfold writeAt
    rw [length, List.length_append, ← Nat.add_assoc, List.take_left' taken, ← List.drop_drop,
      List.drop_left' taken, List.drop_drop, List.append_assoc (record.take place)]
  · rw [writeAt, if_neg room, error_bind, writeAt, if_neg]
    rw [List.length_append]
    omega

/-- A byte in the middle is modified where it stands. -/
theorem modify_inside (f : Byte → Byte) (front back : List Byte) {bytes : List Byte} {i : ℕ}
    (inside : i < bytes.length) : (front ++ (bytes ++ back)).modify (front.length + i) f =
      front ++ (bytes.modify i f ++ back) := by
  induction front with
  | nil =>
      rw [List.nil_append, List.nil_append, List.length_nil, Nat.zero_add]
      induction bytes generalizing i with
      | nil => cases inside
      | cons byte bytes ih =>
          cases i with
          | zero => rfl
          | succ i =>
              rw [List.cons_append, List.modify_succ_cons, List.modify_succ_cons, List.cons_append,
                ih (Nat.lt_of_succ_lt_succ inside)]
  | cons byte front ih =>
      rw [List.length_cons, Nat.add_right_comm, List.cons_append, List.modify_succ_cons, ih,
        List.cons_append]

/-- The sign is set in the field that was written. -/
theorem writeAt_sign (record : List Byte) (place : ℕ) {bytes : List Byte} {count : ℕ}
    (full : bytes.length = count) (positive : 0 < count) :
    (writeAt record place bytes >>= (Store.sign (place + count - 1)).perform) =
      writeAt record place (bytes.modify (count - 1) setSign) := by
  have place' : ((place : ℤ) + count - 1).toNat = place + (count - 1) := by omega
  unfold writeAt
  rw [List.length_modify]
  split
  · rename_i room
    have taken : (record.take place).length = place := by
      rw [List.length_take]
      omega
    rw [ok_bind, Store.perform, if_pos, place']
    · have inside := modify_inside setSign (record.take place)
        (record.drop (place + bytes.length)) (by omega : count - 1 < bytes.length)
      rw [taken] at inside
      rw [List.append_assoc, List.append_assoc, inside]
    · rw [List.length_append, List.length_append, taken, List.length_drop]
      omega
  · rfl

/-- The stores of the digits write the digits. -/
theorem performAll_digitStores (col : Column) (offset : ℕ) (p record : List Byte) :
    performAll (digitStores col offset p) record =
      (digitBytes col p >>= fun bytes => writeAt record offset bytes) := by
  by_cases defined : ∃ bytes, digitBytes col p = .ok bytes
  · have lengths := digitBytes_ok_iff.mp defined
    unfold digitStores digitBytes
    dsimp only
    split
    · rename_i whole
      rw [if_pos whole] at lengths
      have fill : (col.len : ℤ) - p.length = (col.len - p.length : ℕ) := by omega
      have place : (offset : ℤ) + (col.len - p.length : ℕ) =
          ((offset + (col.len - p.length) : ℕ) : ℤ) := rfl
      rw [if_pos lengths, ok_bind, ← writeAt_append, List.length_replicate, fill, place]
      simp only [performAll, perform_fill, perform_copy (Nat.le_refl p.length), List.take_length]
      congr 1
      funext record
      exact bind_pure _
    · rename_i decimals
      rw [if_neg decimals] at lengths
      have fill : (col.len : ℤ) - p.length + 1 = (col.len + 1 - p.length : ℕ) := by omega
      have int : (p.length : ℤ) - col.dec - 1 = (p.length - col.dec - 1 : ℕ) := by omega
      have taken : (p.take (p.length - col.dec - 1)).length = p.length - col.dec - 1 := by
        rw [List.length_take]
        omega
      have dropped : (p.drop (p.length - col.dec)).length = col.dec := by
        rw [List.length_drop]
        omega
      have place : (offset : ℤ) + (col.len + 1 - p.length : ℕ) =
          ((offset + (col.len + 1 - p.length) : ℕ) : ℤ) := rfl
      have place' : ((offset + (col.len + 1 - p.length) : ℕ) : ℤ) + (p.length - col.dec - 1 : ℕ) =
          ((offset + (col.len + 1 - p.length) + (p.length - col.dec - 1) : ℕ) : ℤ) := rfl
      rw [if_pos lengths, ok_bind, ← writeAt_append, ← writeAt_append, List.length_append,
        List.length_replicate, taken, fill, int, place, place', ← Nat.add_assoc]
      have shorter : p.length - col.dec - 1 ≤ p.length := by omega
      have whole := List.take_of_length_le dropped.le
      simp only [performAll, perform_fill, perform_copy shorter, perform_copy dropped.ge, whole,
        bind_assoc]
      congr 1
      funext first
      congr 1
      funext second
      exact bind_pure _
  · have undefined : digitBytes col p = .error .undefined := by
      unfold digitBytes at defined ⊢
      dsimp only at defined ⊢
      split
      · rename_i whole
        rw [if_pos whole] at defined
        split
        · rename_i short
          rw [if_pos short] at defined
          exact absurd ⟨_, rfl⟩ defined
        · rfl
      · rename_i decimals
        rw [if_neg decimals] at defined
        split
        · rename_i short
          rw [if_pos short] at defined
          exact absurd ⟨_, rfl⟩ defined
        · rfl
    rw [undefined, error_bind]
    apply performAll_negative
    by_contra none
    apply defined
    apply digitStores_nonneg_iff.mp
    intro store member
    by_contra below
    exact none ⟨store, member, Int.not_le.mp below⟩

/-- The stores for a column write its field. -/
theorem performAll_columnStores (col : Column) (offset : ℕ) (text record : List Byte) :
    performAll (columnStores col offset text) record =
      (fieldBytes col text >>= fun bytes => writeAt record offset bytes) := by
  unfold columnStores fieldBytes
  cases col.tp with
  | character =>
      dsimp only
      by_cases short : text.length ≤ col.len
      · have fill : (col.len : ℤ) - text.length = (col.len - text.length : ℕ) := by omega
        have place : (offset : ℤ) + text.length = ((offset + text.length : ℕ) : ℤ) := rfl
        rw [if_pos short, ok_bind, blankFill, ← writeAt_append, fill, place]
        simp only [performAll, perform_fill, perform_copy (Nat.le_refl text.length),
          List.take_length]
        congr 1
        funext record
        exact bind_pure _
      · rw [if_neg short, error_bind]
        refine performAll_negative ⟨_, List.mem_cons_of_mem _ List.mem_cons_self, ?_⟩
        change (col.len : ℤ) - text.length < 0
        omega
  | numeric =>
      dsimp only
      by_cases minus : text.head? = some 45
      · rw [if_pos minus, if_pos minus, performAll_append, performAll_digitStores]
        cases digits : digitBytes col text.tail with
        | error stop => rfl
        | ok bytes =>
            have signed := writeAt_sign record offset (length_digitBytes digits) col.len_pos
            rw [ok_bind]
            change _ = writeAt record offset (bytes.modify (col.len - 1) setSign)
            rw [← signed]
            congr 1
            funext record
            exact bind_pure _
      · rw [if_neg minus, if_neg minus]
        exact performAll_digitStores col offset text record

/-- `pq2cob` performs its stores. -/
theorem pq2cobFrom_eq_perform {cols : List Column} {row : Row} (length : cols.length = row.length)
    (offset : ℕ) (record : List Byte) :
    pq2cobFrom cols row offset record =
      performAll ((pq2cobWrites cols (List.zipWith printValue cols row) offset).flatMap Prod.snd)
        record := by
  induction cols generalizing row offset record with
  | nil => rfl
  | cons col cols ih =>
      cases row with
      | nil => cases length
      | cons value row =>
          rw [pq2cobFrom, List.zipWith_cons_cons, pq2cobWrites, List.flatMap_cons,
            performAll_append, performAll_columnStores, bind_assoc]
          congr 1
          funext bytes
          congr 1
          funext record
          exact ih (Nat.succ.inj length) (offset + col.len) record

/-! ## The texts of a row -/

/-- A text that PostgreSQL returns has a field unless it is NULL, or has no digit before its
point, in a column with decimals. -/
theorem Returned.field_iff {col : Column} {text : List Byte} (returned : Returned col text) :
    (∃ bytes, fieldBytes col text = .ok bytes) ↔ Legible col text := by
  cases returned with
  | null =>
      unfold fieldBytes Legible
      cases type : col.tp with
      | character => exact ⟨fun _ => nofun, fun _ => ⟨_, if_pos (Nat.zero_le _)⟩⟩
      | numeric =>
          simp only [List.head?_nil, reduceCtorEq, ↓reduceIte, ne_eq, not_true_eq_false, false_and,
            forall_const, imp_false, digitBytes_ok_iff, List.length_nil]
          split
          · rename_i whole
            exact ⟨fun _ => by omega, fun _ => Nat.zero_le _⟩
          · rename_i decimals
            exact ⟨fun lengths => absurd lengths.2 (by omega), fun none => absurd none (by omega)⟩
  | number number fits =>
      obtain ⟨numeric, n, rfl, small⟩ := fits
      have filled : printValue col (.num (n / 10 ^ col.dec)) ≠ [] := by
        unfold printValue
        dsimp only
        obtain ⟨digit, rest, _, shape⟩ :=
          isDigit_printNat_head col.dec ⌊(n / 10 ^ col.dec : ℚ) * 10 ^ col.dec⌋.natAbs
        rw [shape]
        split <;> exact List.cons_ne_nil _ _
      constructor
      · rintro ⟨bytes, read⟩ _ _
        exact ⟨filled, dec_lt_of_fieldBytes numeric read⟩
      · intro legible
        have digits : col.dec < col.len := by
          rcases Nat.eq_zero_or_pos col.dec with whole | decimals
          · rw [whole]
            exact col.len_pos
          · exact (legible numeric decimals).2
        exact ⟨_, fieldBytes_num numeric digits small⟩
  | text text type short =>
      unfold fieldBytes Legible
      rw [type]
      exact ⟨fun _ => nofun, fun _ => ⟨_, if_pos short⟩⟩

/-! ## The columns of `table_info` -/

/-- `table_info` lays the columns one after the other. -/
theorem layColumns_contiguous {reclen : ℕ} : ∀ {offset : ℕ} {catalog : List CatalogColumn}
    {cols : List Column}, layColumns reclen offset catalog = .ok cols → Contiguous offset cols := by
  intro offset catalog
  induction catalog generalizing offset with
  | nil =>
      intro cols laid
      cases laid
      trivial
  | cons col rest ih =>
      intro cols laid
      by_cases past : reclen ≤ offset
      · rw [layColumns_past laid past]
        trivial
      · obtain ⟨_, first, later, made, more, rfl⟩ := layColumns_cons.mp laid
        rw [if_pos (Nat.lt_of_not_le past)]
        exact ⟨CatalogColumn.laid_offset made, ih more⟩

/-! ## The footprint -/

/-- The stores of a row are those of its columns, each at the offset of the column. -/
theorem mem_pq2cobWrites {cols : List Column} {texts : List (List Byte)} {offset : ℕ}
    (laid : Contiguous offset cols) {col : Column} {stores : List Store} :
    (col, stores) ∈ pq2cobWrites cols texts offset ↔
      ∃ text, (col, text) ∈ cols.zip texts ∧ stores = columnStores col col.offset text := by
  induction cols generalizing texts offset with
  | nil => exact ⟨nofun, by rintro ⟨text, member, _⟩; cases member⟩
  | cons first cols ih =>
      cases texts with
      | nil => exact ⟨nofun, by rintro ⟨text, member, _⟩; cases member⟩
      | cons text texts =>
          obtain ⟨start, later⟩ := laid
          have rest := @ih texts _ later
          rw [Int.natCast_add] at rest
          rw [pq2cobWrites, List.mem_cons, rest, List.zip_cons_cons, ← start]
          constructor
          · rintro (same | ⟨other, member, shape⟩)
            · obtain ⟨rfl, shape⟩ := Prod.mk.inj same
              exact ⟨text, List.mem_cons_self, shape⟩
            · exact ⟨other, List.mem_cons_of_mem _ member, shape⟩
          · rintro ⟨other, member, shape⟩
            rcases List.mem_cons.mp member with same | member
            · obtain ⟨rfl, rfl⟩ := Prod.mk.inj same
              exact Or.inl (congrArg (Prod.mk col) shape)
            · exact Or.inr ⟨other, member, shape⟩

/-- The stores of a row keep to the columns if and only if the row can be read and the columns
lie within the record. -/
theorem pq2cob_footprint_iff (reclen : ℕ) (catalog : List CatalogColumn) (cols : List Column)
    (laid : layColumns reclen 0 catalog = .ok cols) (texts : List (List Byte))
    (returned : List.Forall₂ Returned cols texts) :
    Contained reclen (pq2cobWrites cols texts 0) ↔
      (∀ pair ∈ cols.zip texts, Legible pair.1 pair.2) ∧ totalLen cols ≤ reclen := by
  have contiguous := layColumns_contiguous laid
  have fields : ∀ pair ∈ cols.zip texts,
      ((∃ bytes, fieldBytes pair.1 pair.2 = .ok bytes) ↔ Legible pair.1 pair.2) :=
    fun pair member => ((List.forall₂_iff_zip.mp returned).2 member).field_iff
  have length := returned.length_eq
  constructor
  · intro contained
    constructor
    · intro pair member
      rw [← fields pair member, ← columnStores_nonneg_iff]
      exact contained.nonneg (pair.1, columnStores pair.1 pair.1.offset pair.2)
        ((mem_pq2cobWrites contiguous).mpr ⟨pair.2, member, rfl⟩)
    · -- the last byte of each column is written, so it is in the record
      have inside : ∀ col ∈ cols, col.offset + col.len ≤ reclen := by
        intro col member
        rw [← List.map_fst_zip length.le] at member
        obtain ⟨pair, paired, rfl⟩ := List.mem_map.mp member
        have positive := pair.1.len_pos
        have written := (mem_pq2cobWrites contiguous).mpr ⟨pair.2, paired, rfl⟩
        have bytes := contained.exact _ written (pair.1.offset + pair.1.len - 1)
        dsimp only at bytes
        obtain ⟨store, member, touches⟩ := bytes.mpr ⟨by omega, by omega⟩
        have last := contained.inside _ written store member _ touches
        omega
      have area : (List.replicate reclen (0 : Byte)).length = reclen := List.length_replicate
      rw [← area] at inside ⊢
      have ends := contiguous.totalLen_le (Nat.zero_le _) inside
      rw [Nat.zero_add] at ends
      exact ends
  · rintro ⟨legible, whole⟩
    have nonneg : ∀ pair ∈ pq2cobWrites cols texts 0, ∀ store ∈ pair.2, 0 ≤ store.count := by
      rintro ⟨col, stores⟩ member
      obtain ⟨text, paired, rfl⟩ := (mem_pq2cobWrites contiguous).mp member
      exact columnStores_nonneg_iff.mpr
        ((fields (col, text) paired).mpr (legible (col, text) paired))
    have exact' : ∀ pair ∈ pq2cobWrites cols texts 0, ∀ byte : ℤ,
        (∃ store ∈ pair.2, store.Touches byte) ↔
          pair.1.offset ≤ byte ∧ byte < pair.1.offset + pair.1.len := by
      rintro ⟨col, stores⟩ member
      obtain ⟨text, _, rfl⟩ := (mem_pq2cobWrites contiguous).mp member
      exact columnStores_touch (nonneg _ member)
    refine ⟨nonneg, exact', ?_⟩
    rintro ⟨col, stores⟩ member store present byte touches
    obtain ⟨text, paired, rfl⟩ := (mem_pq2cobWrites contiguous).mp member
    have last := contiguous.end_le col (List.of_mem_zip paired).1
    have here := ((exact' _ member byte).mp ⟨store, present, touches⟩).2
    dsimp only at here
    omega

/-- A code of one digit and a balance of three digits with one decimal, in the catalog. -/
def balanceCatalog : List CatalogColumn :=
  [⟨"codigo", .numeric 1 0 one_digit no_decimals_of_one⟩,
    ⟨"saldo", .numeric 3 1 three_digits one_decimal_of_three⟩]

def codeColumn : Column := ⟨"codigo", .numeric, 1, 0, 0, false, one_digit, no_decimals_of_one⟩

def balanceColumn : Column :=
  ⟨"saldo", .numeric, 3, 1, 1, false, three_digits, one_decimal_of_three⟩

/-- The columns of a balance are its number and its amount. -/
theorem layColumns_balance :
    layColumns 4 0 balanceCatalog = .ok [codeColumn, balanceColumn] := by
  decide +kernel

/-- The number comes back in its digits. -/
theorem returned_code : Returned codeColumn [49] := by
  have text : printValue codeColumn (.num 1) = [49] := by decide +kernel
  rw [← text]
  exact .number 1 ⟨rfl, 1, by norm_num [codeColumn], by decide⟩

/-- The amount comes back with sign and point. -/
theorem returned_balance : Returned balanceColumn [45, 50, 46, 53] := by
  have text : printValue balanceColumn (.num (-5 / 2)) = [45, 50, 46, 53] := by decide +kernel
  rw [← text]
  exact .number _ ⟨rfl, -25, by norm_num [balanceColumn], by decide⟩

/-- The balance -2.5 is written in its own three bytes. -/
theorem footprint_balance :
    Contained 4 (pq2cobWrites [codeColumn, balanceColumn] [[49], [45, 50, 46, 53]] 0) := by
  refine (pq2cob_footprint_iff 4 balanceCatalog _ layColumns_balance _
    (.cons returned_code (.cons returned_balance .nil))).mpr ⟨?_, by decide⟩
  intro pair member
  rcases List.mem_cons.mp member with rfl | member
  · exact fun _ decimals => absurd decimals (by decide)
  · rw [List.mem_singleton.mp member]
    exact fun _ _ => ⟨by decide, by decide⟩

/-- A balance that is NULL is copied with the length -2. -/
theorem footprint_null :
    layColumns 4 0 balanceCatalog = .ok [codeColumn, balanceColumn] ∧
      List.Forall₂ Returned [codeColumn, balanceColumn] [[49], []] ∧
      ¬ Contained 4 (pq2cobWrites [codeColumn, balanceColumn] [[49], []] 0) := by
  refine ⟨layColumns_balance, .cons returned_code (.cons .null .nil), fun contained => ?_⟩
  have negative := contained.nonneg _ (List.mem_cons_of_mem _ List.mem_cons_self)
    (.copy 5 [] (-2)) (List.mem_cons_of_mem _ List.mem_cons_self)
  exact absurd negative (by decide)

end Pqfh
