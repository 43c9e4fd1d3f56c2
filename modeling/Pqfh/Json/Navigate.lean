import Pqfh.Changelog.Decode
import Pqfh.Handler.Scan
import Pqfh.Json.Element

/-! # Navigating in a JSON file

A JSON file is opened as a tree of elements. START positions on an element by a path of
names, READ NEXT delivers the children of that element one by one. The position is a
pointer and a counter of 16 bits in the fcd. Elements do not change once they are parsed,
so a pointer is the tree below it.
-/

namespace Pqfh.Json

/-- The part of the fcd of a JSON file. `rec_len` is the length of `record`. -/
structure JsonFcd where
  root : JElement
  ptr : JElement
  idx : BitVec 16
  status : Status
  record : List Byte

/-- What `json_open` leaves after a text was parsed to `root`. -/
def jsonOpened (root : JElement) (record : List Byte) : JsonFcd :=
  { root := root, ptr := root, idx := 0, status := stOk, record := record }

/-- The path in the record of a START: what stands before the first blank. -/
def startPath (record : List Byte) : List Byte := (cstr record).takeWhile (· ≠ 32)

/-- The loop of `json_start` over the parts between the colons of the path. -/
def startLoop (root : JElement) : List (List Byte) → Option JElement
  | [] => some root
  | key :: keys =>
      if key ≠ [] then
        match root.children.find? fun child => child.name = some key with
        | some child => startLoop child keys
        | none => none
      else startLoop root keys

/-- `json_start`. The record is copied to a buffer on the stack. -/
def jsonStart (fcd : JsonFcd) : Except Stop JsonFcd :=
  if fcd.record.length ≤ maxRecLen then
    match startLoop fcd.root ((startPath fcd.record).splitOn 58) with
    | some element => .ok { fcd with status := stOk, ptr := element, idx := 0 }
    | none => .ok { fcd with status := stRecNotFound }
  else .error .undefined

/-- The loop of `json_next`: the child at the place `idx`, `i` being the place reached. -/
def nextLoop (idx : ℤ) : ℤ → List JElement → Option JElement
  | _, [] => none
  | i, child :: children =>
      if idx < i then none
      else if i < idx then nextLoop idx (i + 1) children
      else some child

/-- What `json_next` writes to the record for a child. -/
def childRecord (child : JElement) (record : List Byte) : Except Stop (List Byte) := do
  let record ← writeAt record 100 [child.tp]
  let record ← writeAt record 101 (List.replicate 50 32)
  let record ← writeAt record 101 (child.name.getD (ascii "NULL"))
  let record ← writeAt record 151 (List.replicate 250 32)
  writeAt record 151 (child.value.getD (ascii "NULL"))

/-- `json_next`. The counter is read as a signed short. -/
def jsonNext (fcd : JsonFcd) : Except Stop JsonFcd :=
  match nextLoop fcd.idx.toInt 0 fcd.ptr.children with
  | some child => do
      let record ← childRecord child fcd.record
      .ok { fcd with idx := fcd.idx + 1, status := stOk, record := record }
  | none => .ok { fcd with status := stEof }

/-- A call on an opened JSON file, with the record area as the program hands it over. -/
inductive JsonCall where
  | start (record : List Byte)
  | next (record : List Byte)

def jsonCall (fcd : JsonFcd) : JsonCall → Except Stop JsonFcd
  | .start record => jsonStart { fcd with record := record }
  | .next record => jsonNext { fcd with record := record }

/-! ## The purpose -/

/-- The element that a path designates: for each part that is not empty, the first child
with that name. -/
def reached (root : JElement) (path : List Byte) : Option JElement :=
  ((path.splitOn 58).filter (· ≠ [])).foldlM
    (fun element key => element.children.find? fun child => child.name = some key) root

/-- The position in a tree: an element, and how many of its children were delivered. -/
structure JCursor where
  element : JElement
  delivered : ℕ

/-- Where a call leaves the position. -/
def JCursor.move (root : JElement) (cursor : JCursor) : JsonCall → JCursor
  | .start record =>
      match reached root (startPath record) with
      | some element => ⟨element, 0⟩
      | none => cursor
  | .next _ =>
      if cursor.delivered < cursor.element.children.length then
        ⟨cursor.element, cursor.delivered + 1⟩
      else cursor

/-- A text in a field of `n` bytes. -/
def fieldOf (n : ℕ) (text : List Byte) : List Byte := (text ++ List.replicate n 32).take n

/-- The record carries a child: its type, its name and its value. -/
structure Delivers (child : JElement) (record record' : List Byte) : Prop where
  length : record'.length = record.length
  tp : slice record' 100 1 = [child.tp]
  name : slice record' 101 50 = fieldOf 50 (child.name.getD (ascii "NULL"))
  value : slice record' 151 250 = fieldOf 250 (child.value.getD (ascii "NULL"))

/-- What a call on a position has to answer. -/
def JCursor.Answered (root : JElement) (cursor : JCursor) (before : JsonFcd) :
    JsonCall → JsonFcd → Prop
  | .start record, after =>
      match reached root (startPath record) with
      | some element => after.status = stOk ∧ after.ptr = element ∧ after.idx = 0
      | none => after.status = stRecNotFound ∧ after.ptr = before.ptr ∧ after.idx = before.idx
  | .next record, after =>
      match cursor.element.children[cursor.delivered]? with
      | some child => after.status = stOk ∧ Delivers child record after.record
      | none => after.status = stEof ∧ after.record = record

/-- Every call of a run answers what it has to. -/
def Navigates (root : JElement) : JCursor → JsonFcd → List JsonCall → Prop
  | _, _, [] => True
  | cursor, fcd, call :: calls =>
      ∃ after, jsonCall fcd call = .ok after ∧ cursor.Answered root fcd call after ∧
        Navigates root (cursor.move root call) after calls

/-! ## The condition -/

/-- The record area holds what READ NEXT writes for a child. -/
structure Fits (child : JElement) (record : List Byte) : Prop where
  fields : 401 ≤ record.length
  name : 101 + (child.name.getD (ascii "NULL")).length ≤ record.length
  value : 151 + (child.value.getD (ascii "NULL")).length ≤ record.length

/-- The record of a START fits the buffer; before a READ NEXT that has a child to deliver
fewer than 32768 were delivered, and the child fits the record. -/
def JCursor.Within (cursor : JCursor) : JsonCall → Prop
  | .start record => record.length ≤ maxRecLen
  | .next record =>
      ∀ child, cursor.element.children[cursor.delivered]? = some child →
        cursor.delivered < 32768 ∧ Fits child record

/-- The condition at every call of a run. -/
def StaysWithin (root : JElement) : JCursor → List JsonCall → Prop
  | _, [] => True
  | cursor, call :: calls => cursor.Within call ∧ StaysWithin root (cursor.move root call) calls

/-! ## The record of a child -/

/-- The bytes that were written stand at their place, the others where they were. -/
theorem getElem?_writeAt {buffer bytes buffer' : List Byte} {place : ℕ}
    (written : writeAt buffer place bytes = .ok buffer') (i : ℕ) :
    buffer'[i]? =
      if place ≤ i ∧ i < place + bytes.length then bytes[i - place]? else buffer[i]? := by
  obtain ⟨room, rfl⟩ := writeAt_eq_ok.mp written
  have front : (buffer.take place).length = place := List.length_take_of_le (by omega)
  rw [List.append_assoc]
  by_cases before : i < place
  · rw [if_neg (by omega), List.getElem?_append_left (by omega), List.getElem?_take_of_lt before]
  · rw [List.getElem?_append_right (by omega), front]
    by_cases inside : i < place + bytes.length
    · rw [if_pos (by omega), List.getElem?_append_left (by omega)]
    · rw [if_neg (by omega), List.getElem?_append_right (by omega), List.getElem?_drop]
      congr 1
      omega

/-- Writing does not change the length of the buffer. -/
theorem length_writeAt {buffer bytes buffer' : List Byte} {place : ℕ}
    (written : writeAt buffer place bytes = .ok buffer') : buffer'.length = buffer.length := by
  obtain ⟨room, rfl⟩ := writeAt_eq_ok.mp written
  simp only [List.length_append, List.length_take, List.length_drop]
  omega

/-- Bytes that have room can be written. -/
theorem exists_writeAt {buffer bytes : List Byte} {place : ℕ}
    (room : place + bytes.length ≤ buffer.length) :
    ∃ buffer', writeAt buffer place bytes = .ok buffer' :=
  ⟨_, writeAt_eq_ok.mpr ⟨room, rfl⟩⟩

/-- A text written over blanks fills a field. -/
theorem slice_eq_fieldOf {buffer text : List Byte} {offset n : ℕ}
    (texted : ∀ i < n, buffer[offset + i]? = if i < text.length then text[i]? else some 32) :
    slice buffer offset n = fieldOf n text := by
  apply List.ext_getElem?
  intro i
  rw [getElem?_slice]
  unfold fieldOf
  by_cases inside : i < n
  · rw [if_pos inside, texted i inside, List.getElem?_take_of_lt inside]
    by_cases short : i < text.length
    · rw [if_pos short, List.getElem?_append_left short]
    · rw [if_neg short, List.getElem?_append_right (by omega), List.getElem?_replicate,
        if_pos (by omega)]
  · rw [if_neg inside, List.getElem?_take_eq_none (Nat.le_of_not_lt inside)]

/-- A record that was written delivers the child. -/
theorem childRecord_delivers {child : JElement} {record record' : List Byte}
    (written : childRecord child record = .ok record') :
    Fits child record ∧ Delivers child record record' := by
  unfold childRecord at written
  obtain ⟨typed, putTp, written⟩ := bind_eq_ok.mp written
  obtain ⟨blank, putBlank, written⟩ := bind_eq_ok.mp written
  obtain ⟨named, putName, written⟩ := bind_eq_ok.mp written
  obtain ⟨cleared, putCleared, putValue⟩ := bind_eq_ok.mp written
  have sizes : record'.length = cleared.length ∧ cleared.length = named.length ∧
      named.length = blank.length ∧ blank.length = typed.length ∧
      typed.length = record.length :=
    ⟨length_writeAt putValue, length_writeAt putCleared, length_writeAt putName,
      length_writeAt putBlank, length_writeAt putTp⟩
  have roomName := (writeAt_eq_ok.mp putName).1
  have roomCleared := (writeAt_eq_ok.mp putCleared).1
  have roomValue := (writeAt_eq_ok.mp putValue).1
  rw [List.length_replicate] at roomCleared
  refine ⟨⟨by omega, by omega, by omega⟩, ⟨by omega, ?_, ?_, ?_⟩⟩
  · apply List.ext_getElem?
    intro i
    rw [getElem?_slice]
    by_cases first : i < 1
    · obtain rfl : i = 0 := by omega
      rw [if_pos first, getElem?_writeAt putValue, if_neg (by omega), getElem?_writeAt putCleared,
        if_neg (by omega), getElem?_writeAt putName, if_neg (by omega),
        getElem?_writeAt putBlank, if_neg (by omega), getElem?_writeAt putTp,
        if_pos ⟨le_rfl, by simp only [List.length_singleton]; omega⟩]
    · rw [if_neg first, List.getElem?_eq_none (by simp only [List.length_singleton]; omega)]
  · apply slice_eq_fieldOf
    intro i inside
    rw [getElem?_writeAt putValue, if_neg (by omega), getElem?_writeAt putCleared,
      if_neg (by omega), getElem?_writeAt putName]
    by_cases short : i < (child.name.getD (ascii "NULL")).length
    · rw [if_pos (by omega), if_pos short, Nat.add_sub_cancel_left]
    · rw [if_neg (by omega), if_neg short, getElem?_writeAt putBlank, List.length_replicate,
        if_pos (by omega), List.getElem?_replicate, if_pos (by omega)]
  · apply slice_eq_fieldOf
    intro i inside
    rw [getElem?_writeAt putValue]
    by_cases short : i < (child.value.getD (ascii "NULL")).length
    · rw [if_pos (by omega), if_pos short, Nat.add_sub_cancel_left]
    · rw [if_neg (by omega), if_neg short, getElem?_writeAt putCleared, List.length_replicate,
        if_pos (by omega), List.getElem?_replicate, if_pos (by omega)]

/-- A child that fits can be written. -/
theorem exists_childRecord {child : JElement} {record : List Byte} (fits : Fits child record) :
    ∃ record', childRecord child record = .ok record' := by
  obtain ⟨fields, name, value⟩ := fits
  obtain ⟨typed, putTp⟩ : ∃ typed, writeAt record 100 [child.tp] = .ok typed :=
    exists_writeAt (by simp only [List.length_singleton]; omega)
  have typedSize := length_writeAt putTp
  obtain ⟨blank, putBlank⟩ : ∃ blank, writeAt typed 101 (List.replicate 50 32) = .ok blank :=
    exists_writeAt (by rw [List.length_replicate]; omega)
  have blankSize := length_writeAt putBlank
  obtain ⟨named, putName⟩ :
      ∃ named, writeAt blank 101 (child.name.getD (ascii "NULL")) = .ok named :=
    exists_writeAt (by omega)
  have namedSize := length_writeAt putName
  obtain ⟨cleared, putCleared⟩ :
      ∃ cleared, writeAt named 151 (List.replicate 250 32) = .ok cleared :=
    exists_writeAt (by rw [List.length_replicate]; omega)
  have clearedSize := length_writeAt putCleared
  obtain ⟨record', putValue⟩ :
      ∃ record', writeAt cleared 151 (child.value.getD (ascii "NULL")) = .ok record' :=
    exists_writeAt (by omega)
  refine ⟨record', ?_⟩
  unfold childRecord
  rw [putTp, ok_bind, putBlank, ok_bind, putName, ok_bind, putCleared, ok_bind, putValue]

/-! ## One call -/

/-- START goes down by one key after the other, empty ones left out. -/
theorem startLoop_eq (root : JElement) (keys : List (List Byte)) :
    startLoop root keys = (keys.filter (· ≠ [])).foldlM
      (fun element key => element.children.find? fun child => child.name = some key) root := by
  induction keys generalizing root with
  | nil => rfl
  | cons key keys ih =>
      unfold startLoop
      by_cases empty : key = []
      · rw [if_neg (not_not.mpr empty), List.filter_cons_of_neg (by simp [empty]), ih]
      · rw [if_pos empty, List.filter_cons_of_pos (by simp [empty]), List.foldlM_cons]
        cases found : root.children.find? fun child => child.name = some key with
        | none => rfl
        | some child => exact ih child

/-- START reaches what the path names. -/
theorem startLoop_splitOn (root : JElement) (path : List Byte) :
    startLoop root (path.splitOn 58) = reached root path :=
  startLoop_eq root _

/-- The loop gives the child at the difference of the counters. -/
theorem nextLoop_eq (idx i : ℤ) (children : List JElement) :
    nextLoop idx i children = if i ≤ idx then children[(idx - i).toNat]? else none := by
  induction children generalizing i with
  | nil =>
      unfold nextLoop
      by_cases before : i ≤ idx
      · rw [if_pos before, List.getElem?_nil]
      · rw [if_neg before]
  | cons child children ih =>
      unfold nextLoop
      by_cases past : idx < i
      · rw [if_pos past, if_neg (by omega)]
      · rw [if_neg past, if_pos (Int.not_lt.mp past)]
        by_cases short : i < idx
        · obtain ⟨n, left⟩ : ∃ n : ℕ, (idx - i).toNat = n + 1 := ⟨(idx - i).toNat - 1, by omega⟩
          rw [if_pos short, ih, if_pos (by omega), left, List.getElem?_cons_succ]
          congr 1
          omega
        · obtain rfl : i = idx := by omega
          rw [if_neg short, sub_self]
          rfl

/-- The fcd stands at a position: the counter has counted the children delivered. -/
structure StandsAt (root : JElement) (cursor : JCursor) (fcd : JsonFcd) : Prop where
  root : fcd.root = root
  ptr : fcd.ptr = cursor.element
  idx : fcd.idx.toNat = cursor.delivered
  bound : cursor.delivered ≤ 32768

/-- An OPEN stands at the root, before its first child. -/
theorem jsonOpened_standsAt (root : JElement) (record : List Byte) :
    StandsAt root ⟨root, 0⟩ (jsonOpened root record) :=
  ⟨rfl, rfl, rfl, Nat.zero_le _⟩

/-- The counter of 16 bits is the number up to 32767, and negative at 32768. -/
theorem toInt_of_le {idx : BitVec 16} {n : ℕ} (counted : idx.toNat = n) (bound : n ≤ 32768) :
    idx.toInt = if n < 32768 then (n : ℤ) else -32768 := by
  rw [BitVec.toInt_eq_toNat_cond, counted]
  by_cases small : n < 32768
  · rw [if_pos small, if_pos (by omega)]
  · rw [if_neg small, if_neg (by omega)]
    omega

/-- READ NEXT finds the next child as long as the counter has not run over. -/
theorem nextLoop_of_standsAt {root : JElement} {cursor : JCursor} {fcd : JsonFcd}
    (stands : StandsAt root cursor fcd) :
    nextLoop fcd.idx.toInt 0 fcd.ptr.children =
      if cursor.delivered < 32768 then cursor.element.children[cursor.delivered]? else none := by
  rw [nextLoop_eq, stands.ptr, toInt_of_le stands.idx stands.bound]
  by_cases small : cursor.delivered < 32768
  · rw [if_pos small, if_pos small, if_pos (by omega), Int.sub_zero, Int.toNat_natCast]
  · rw [if_neg small, if_neg small, if_neg (by omega)]

/-- START answers what it has to, on every record that fits its buffer. -/
theorem jsonStart_answers_iff {root : JElement} {cursor : JCursor} {fcd : JsonFcd}
    (stands : StandsAt root cursor fcd) (record : List Byte) :
    (∃ after, jsonCall fcd (.start record) = .ok after ∧
      cursor.Answered root fcd (.start record) after) ↔ cursor.Within (.start record) := by
  unfold JCursor.Within jsonCall jsonStart
  simp only
  by_cases fits : record.length ≤ maxRecLen
  · simp only [fits, ↓reduceIte, iff_true]
    rw [stands.root, startLoop_splitOn]
    unfold JCursor.Answered
    simp only
    cases reached root (startPath record) with
    | none => exact ⟨_, rfl, rfl, rfl, rfl⟩
    | some element => exact ⟨_, rfl, rfl, rfl, rfl⟩
  · simp only [fits, ↓reduceIte, iff_false]
    rintro ⟨after, impossible, -⟩
    cases impossible

/-- A READ NEXT answers as the cursor says exactly within the cursor's bounds. -/
theorem jsonNext_answers_iff {root : JElement} {cursor : JCursor} {fcd : JsonFcd}
    (stands : StandsAt root cursor fcd) (record : List Byte) :
    (∃ after, jsonCall fcd (.next record) = .ok after ∧
      cursor.Answered root fcd (.next record) after) ↔ cursor.Within (.next record) := by
  unfold JCursor.Within jsonCall jsonNext JCursor.Answered
  simp only
  rw [nextLoop_of_standsAt stands]
  cases left : cursor.element.children[cursor.delivered]? with
  | none =>
      simp only [ite_self]
      exact ⟨fun _ => nofun, fun _ => ⟨_, rfl, rfl, rfl⟩⟩
  | some child =>
      simp only [Option.some.injEq, forall_eq']
      by_cases small : cursor.delivered < 32768
      · simp only [small, ↓reduceIte, true_and]
        constructor
        · rintro ⟨after, answered, -⟩
          obtain ⟨record', written, -⟩ := bind_eq_ok.mp answered
          exact (childRecord_delivers written).1
        · intro fits
          obtain ⟨record', written⟩ := exists_childRecord fits
          rw [written]
          exact ⟨_, rfl, rfl, (childRecord_delivers written).2⟩
      · simp only [small, ↓reduceIte, false_and, iff_false]
        rintro ⟨after, answered, status, -⟩
        cases answered
        exact absurd status (show ¬ stEof = stOk by decide)

/-- A START moves to what it reaches, or stays. -/
theorem JCursor.move_start (root : JElement) (cursor : JCursor) (record : List Byte) :
    cursor.move root (.start record) =
      match reached root (startPath record) with
      | some element => ⟨element, 0⟩
      | none => cursor := rfl

/-- A call moves the file to where the cursor goes. -/
theorem jsonCall_standsAt {root : JElement} {cursor : JCursor} {fcd after : JsonFcd}
    {call : JsonCall} (stands : StandsAt root cursor fcd) (within : cursor.Within call)
    (called : jsonCall fcd call = .ok after) : StandsAt root (cursor.move root call) after := by
  cases call with
  | start record =>
      unfold jsonCall jsonStart at called
      simp only at called
      rw [if_pos (show record.length ≤ maxRecLen from within), stands.root,
        startLoop_splitOn] at called
      rw [JCursor.move_start]
      cases found : reached root (startPath record) with
      | none =>
          rw [found] at called
          cases called
          exact ⟨rfl, stands.ptr, stands.idx, stands.bound⟩
      | some element =>
          rw [found] at called
          cases called
          exact ⟨rfl, rfl, rfl, Nat.zero_le _⟩
  | next record =>
      unfold jsonCall jsonNext at called
      simp only at called
      rw [nextLoop_of_standsAt stands] at called
      unfold JCursor.move
      by_cases more : cursor.delivered < cursor.element.children.length
      · have child := List.getElem?_eq_getElem more
        have small := (within _ child).1
        rw [if_pos small, child] at called
        obtain ⟨record', -, called⟩ := bind_eq_ok.mp called
        cases called
        simp only [if_pos more]
        refine ⟨stands.root, stands.ptr, ?_, small⟩
        rw [BitVec.toNat_add, stands.idx, show (1 : BitVec 16).toNat = 1 from rfl]
        exact Nat.mod_eq_of_lt (by omega)
      · simp only [List.getElem?_eq_none (Nat.le_of_not_lt more), ite_self] at called
        cases called
        simp only [if_neg more]
        exact ⟨stands.root, stands.ptr, stands.idx, stands.bound⟩

/-! ## Runs -/

/-- The calls navigate from wherever the file stands. -/
theorem navigates_iff_of_standsAt {root : JElement} {cursor : JCursor} {fcd : JsonFcd}
    (stands : StandsAt root cursor fcd) (calls : List JsonCall) :
    Navigates root cursor fcd calls ↔ StaysWithin root cursor calls := by
  induction calls generalizing cursor fcd with
  | nil => exact Iff.rfl
  | cons call calls ih =>
      have one : (∃ after, jsonCall fcd call = .ok after ∧ cursor.Answered root fcd call after) ↔
          cursor.Within call := by
        cases call with
        | start record => exact jsonStart_answers_iff stands record
        | next record => exact jsonNext_answers_iff stands record
      unfold Navigates StaysWithin
      constructor
      · rintro ⟨after, called, answered, rest⟩
        have within := one.mp ⟨after, called, answered⟩
        exact ⟨within, (ih (jsonCall_standsAt stands within called)).mp rest⟩
      · rintro ⟨within, rest⟩
        obtain ⟨after, called, answered⟩ := one.mpr within
        exact ⟨after, called, answered, (ih (jsonCall_standsAt stands within called)).mpr rest⟩

/-- A run over an opened JSON file answers by the paths and delivers every child exactly
when each record fits and no element is read past its 32768th child. -/
theorem json_navigation_iff (root : JElement) (record : List Byte) (calls : List JsonCall) :
    Navigates root ⟨root, 0⟩ (jsonOpened root record) calls ↔
      StaysWithin root ⟨root, 0⟩ calls :=
  navigates_iff_of_standsAt (jsonOpened_standsAt root record) calls

/-- READ NEXT calls past the 32768th child leave the condition. -/
theorem not_staysWithin_replicate {root : JElement} {cursor : JCursor} {record : List Byte}
    {n : ℕ} (bound : cursor.delivered ≤ 32768) (past : 32768 < cursor.delivered + n)
    (wide : 32768 < cursor.element.children.length) :
    ¬ StaysWithin root cursor (List.replicate n (.next record)) := by
  induction n generalizing cursor with
  | zero => omega
  | succ n ih =>
      have more : cursor.delivered < cursor.element.children.length := by omega
      rintro ⟨within, rest⟩
      have small := (within _ (List.getElem?_eq_getElem more)).1
      unfold JCursor.move at rest
      simp only [if_pos more] at rest
      exact @ih ⟨cursor.element, cursor.delivered + 1⟩ small (by simp only; omega) wide rest

/-- An array of 32769 numbers. -/
def longArray : JElement :=
  { name := none, tp := tpArray, value := none,
    children := List.replicate 32769 ⟨none, tpNumber, some [49], []⟩ }

/-- The counter of children is 16 bits wide: an array of 32769 members is not walked to its end. -/
theorem json_navigation_stops_early :
    ¬ Navigates longArray ⟨longArray, 0⟩ (jsonOpened longArray [])
      (List.replicate 32769 (.next (List.replicate 401 32))) := by
  rw [navigates_iff_of_standsAt (jsonOpened_standsAt longArray [])]
  refine not_staysWithin_replicate (by simp only [Nat.zero_le]) (by simp only; omega) ?_
  simp only [longArray, List.length_replicate]
  omega

end Pqfh.Json
