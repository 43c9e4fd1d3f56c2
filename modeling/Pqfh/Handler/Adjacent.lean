import Pqfh.Handler.Returns
import Pqfh.Table.KeyFlags

/-! # Adjacent parameters

The rows of `tab->bufs` are filled one after the other, and a text that outruns its row goes
on in the next one. What PostgreSQL receives for a column is then made of other columns too.
A parameter of `op_write` or `op_rewrite` depends on its own column alone if and only if all
rows end within `bufs` and the parameter fits its row or is the last one
(`Pqfh.columns_separate_iff`).
-/

namespace Pqfh

/-- The bytes that a parameter takes in `bufs`, with its NUL. -/
def Param.bytes (param : Param) : ℕ :=
  (param.block param.col (List.replicate param.col.len 48)).length

/-- A parameter of `op_write` or `op_rewrite`. -/
inductive Param.Updates : Param → Prop
  | write (col : Column) (chave : Bool) : Updates (Param.write col chave)
  | rewrite (col : Column) (chave : Bool) : Updates (Param.rewrite col chave)

/-- The rows end within `bufs`, the last one with what it may take of the next. -/
def RowsFit (params : List Param) : Prop :=
  ∀ i param, params[i]? = some param → i * rowSize + param.bytes ≤ maxCols * rowSize

/-- The parameters whose rows the text of the first one can come to. -/
def reached : List Param → List Param
  | [] => []
  | param :: params => param :: if param.bytes ≤ rowSize then [] else reached params

/-- The text of parameter `p` depends on the field of its column only, and no row is written
outside `bufs`. -/
def Separate (reclen : ℕ) (params : List Param) (p : ℕ) : Prop :=
  ∀ record record' bufs bufs' : List Byte, record.length = reclen → record'.length = reclen →
    bufs.length = maxCols * rowSize → bufs'.length = maxCols * rowSize →
    (∀ param, params[p]? = some param →
      slice record param.col.offset param.col.len = slice record' param.col.offset param.col.len) →
    bindParams params record bufs ≠ .error .undefined ∧
      ∀ left texts right texts', bindParams params record bufs = .ok (left, texts) →
        bindParams params record' bufs' = .ok (right, texts') → texts[p]? = texts'[p]?

/-! ## The size of a parameter -/

/-- A parameter of WRITE takes the field, a point when there are decimals, and the NUL. -/
theorem bytes_write (col : Column) (chave : Bool) : (Param.write col chave).bytes =
    (if col.tp = .numeric ∧ 0 < col.dec then col.len + 1 else col.len) + 1 := by
  change (writeChars col (List.replicate col.len 48) ++ [0]).length = _
  rw [List.length_append, length_writeChars List.length_replicate]
  rfl

/-- A parameter of REWRITE takes the field and the NUL. -/
theorem bytes_rewrite (col : Column) (chave : Bool) :
    (Param.rewrite col chave).bytes = col.len + 1 := by
  change (List.replicate col.len (48 : Byte) ++ [0]).length = _
  rw [List.length_append, List.length_replicate]
  rfl

/-- A parameter writes as many bytes as it takes. -/
theorem Param.Updates.length_block {param : Param} (updates : param.Updates) {field : List Byte}
    (full : field.length = param.col.len) :
    (param.block param.col field).length = param.bytes := by
  cases updates with
  | write col chave =>
      rw [bytes_write]
      change field.length = col.len at full
      change (writeChars col field ++ [0]).length = _
      rw [List.length_append, length_writeChars full]
      rfl
  | rewrite col chave =>
      rw [bytes_rewrite]
      change field.length = col.len at full
      change (field ++ [0]).length = _
      rw [List.length_append, full]
      rfl

/-- A parameter takes a byte of the field and the NUL at least. -/
theorem Param.Updates.two_le_bytes {param : Param} (updates : param.Updates) : 2 ≤ param.bytes := by
  have positive := param.col.len_pos
  cases updates with
  | write col chave =>
      change 0 < col.len at positive
      rw [bytes_write]
      split <;> omega
  | rewrite col chave =>
      change 0 < col.len at positive
      rw [bytes_rewrite]
      omega

/-- The check keeps the size of a row. -/
theorem Param.Updates.length_row {param : Param} (updates : param.Updates) {field : List Byte}
    (full : field.length = param.col.len) : (param.row field).length = param.bytes := by
  have size := updates.length_block full
  have least := updates.two_le_bytes
  unfold Param.row
  dsimp only
  split
  · rw [List.length_cons, List.length_cons, List.length_drop]
    omega
  · rename_i filled
    have short := length_cstr_le (param.block param.col field)
    rw [List.length_append, List.length_drop, Param.length_checked filled]
    omega

/-- A text leaves room for its NUL. -/
theorem Param.Updates.length_checked_lt {param : Param} (updates : param.Updates)
    {field : List Byte} (full : field.length = param.col.len) :
    (param.checked field).1.length < param.bytes := by
  obtain ⟨rest, shape, _⟩ := param.cstr_row full
  rw [← updates.length_row full, shape, List.length_append, List.length_cons]
  omega

/-! ## What a text runs into -/

/-- The texts of parameters for a record, each as its row holds it. -/
def sent (record : List Byte) (params : List Param) : List (List Byte) :=
  params.map fun param => (param.checked (slice record param.col.offset param.col.len)).1

/-- The rows behind `p` are those of the texts behind `p`. -/
theorem drop_runOn (texts : List (List Byte)) (p : ℕ) :
    (runOn texts).drop p = runOn (texts.drop p) := by
  induction p generalizing texts with
  | zero => rfl
  | succ p ih =>
      cases texts with
      | nil => rfl
      | cons text texts => rw [runOn_cons, List.drop_succ_cons, ih, List.drop_succ_cons]

/-- The text received for parameter `p` is that of the first one of those from `p` on. -/
theorem runOn_sent_getElem? (record : List Byte) (params : List Param) (p : ℕ) :
    (runOn (sent record params))[p]? = (runOn (sent record (params.drop p))).head? := by
  rw [← List.head?_drop, drop_runOn, sent, ← List.map_drop]
  rfl

/-- A text shorter than its row does not reach the next one. -/
theorem runInto_short {text : List Byte} (later : List (List Byte))
    (short : text.length < rowSize) :
    runInto text later = text := by
  cases later with
  | nil => rfl
  | cons next later => exact if_pos short

/-- A text of a row or more is read on into the next row. -/
theorem runInto_long {text next : List Byte} {later : List (List Byte)}
    (long : rowSize ≤ text.length) (head : later.head? = some next) :
    runInto text later = text.take rowSize ++ next := by
  cases later with
  | nil => cases head
  | cons other later =>
      cases head
      exact if_neg (Nat.not_lt.mpr long)

/-- Records that agree on all the columns a text can come to give the same text. -/
theorem runOn_sent_congr (record record' : List Byte) {params : List Param}
    (updates : ∀ param ∈ params, param.Updates)
    (inside : ∀ param ∈ params, param.col.offset + param.col.len ≤ record.length)
    (agree : ∀ param ∈ reached params,
      slice record param.col.offset param.col.len = slice record' param.col.offset param.col.len) :
    (runOn (sent record params)).head? = (runOn (sent record' params)).head? := by
  induction params with
  | nil => rfl
  | cons param params ih =>
      have here := agree param List.mem_cons_self
      have full := length_slice (inside param List.mem_cons_self)
      have less := (updates param List.mem_cons_self).length_checked_lt full
      simp only [sent, List.map_cons, runOn_cons, List.head?_cons, ← here]
      by_cases fits : param.bytes ≤ rowSize
      · have short := less.trans_le fits
        rw [runInto_short _ short, runInto_short _ short]
      · have later := ih (fun other member => updates other (List.mem_cons_of_mem _ member))
          (fun other member => inside other (List.mem_cons_of_mem _ member)) fun other member => by
            refine agree other (List.mem_cons_of_mem _ ?_)
            rw [if_neg fits]
            exact member
        change some (runInto _ (runOn (sent record params))) =
          some (runInto _ (runOn (sent record' params)))
        unfold runInto
        cases left : runOn (sent record params) with
        | nil =>
            rw [left, List.head?_nil, eq_comm, List.head?_eq_none_iff] at later
            rw [later]
        | cons next texts =>
            rw [left, List.head?_cons, eq_comm, List.head?_eq_some_iff] at later
            obtain ⟨texts', right⟩ := later
            rw [right]

/-! ## Records of digits -/

/-- A field of zeros but for its first digit. -/
def markField (len digit : ℕ) : List Byte :=
  (digit :: List.replicate (len - 1) 0).map digitByte

/-- A marked field is as long as the field. -/
theorem length_markField {len : ℕ} (digit : ℕ) (positive : 0 < len) :
    (markField len digit).length = len := by
  rw [markField, List.length_map, List.length_cons, List.length_replicate]
  omega

/-- A field of zeros is the field marked with zero. -/
theorem replicate_eq_markField {len : ℕ} (positive : 0 < len) :
    List.replicate len (48 : Byte) = markField len 0 := by
  obtain ⟨n, rfl⟩ := Nat.exists_eq_succ_of_ne_zero positive.ne'
  rw [markField, Nat.succ_sub_one, List.map_cons, List.map_replicate, List.replicate_succ]
  rfl

/-- The record of zeros has zeros at every column. -/
theorem slice_zeros {reclen offset len : ℕ} (inside : offset + len ≤ reclen) (positive : 0 < len) :
    slice (List.replicate reclen 48) offset len = markField len 0 := by
  rw [slice, List.drop_replicate, List.take_replicate, Nat.min_eq_left (by omega),
    replicate_eq_markField positive]

/-- A record of zeros with one digit changed. -/
def markRecord (reclen place : ℕ) : List Byte := (List.replicate reclen 48).set place 49

/-- The column that is marked holds the mark. -/
theorem slice_marked {reclen offset len : ℕ} (inside : offset + len ≤ reclen)
    (positive : 0 < len) : slice (markRecord reclen offset) offset len = markField len 1 := by
  obtain ⟨n, rfl⟩ := Nat.exists_eq_succ_of_ne_zero positive.ne'
  rw [slice, markRecord, List.drop_set, if_neg (Nat.lt_irrefl _), Nat.sub_self, List.take_set,
    List.drop_replicate, List.take_replicate, Nat.min_eq_left (by omega), List.replicate_succ,
    List.set_cons_zero, markField, Nat.succ_sub_one, List.map_cons, List.map_replicate]
  rfl

/-- A column apart from the mark holds zeros. -/
theorem slice_unmarked {reclen place offset len : ℕ} (inside : offset + len ≤ reclen)
    (positive : 0 < len) (apart : place < offset ∨ offset + len ≤ place) :
    slice (markRecord reclen place) offset len = markField len 0 := by
  rw [← slice_zeros inside positive, slice, slice, markRecord]
  rcases apart with before | after
  · rw [List.drop_set, if_pos before]
  · rw [List.drop_set, if_neg (by omega), List.take_set, List.set_eq_of_length_le]
    rw [List.length_take, List.length_drop, List.length_replicate]
    omega

/-- The mark and the zeros behind it are decimal digits. -/
theorem mark_decimal (len : ℕ) {digit : ℕ} (small : digit < 10) :
    ∀ other ∈ digit :: List.replicate (len - 1) 0, other < 10 := by
  intro other member
  rcases List.mem_cons.mp member with rfl | member
  · exact small
  · rw [List.eq_of_mem_replicate member]
    exact Nat.succ_pos 9

/-- A marked field has no sign in its last byte. -/
theorem not_negativeField_markField {len digit : ℕ} (small : digit < 10) :
    negativeField (markField len digit) = false := by
  unfold negativeField markField
  rw [List.getLast?_map, Option.map_map]
  cases last : (digit :: List.replicate (len - 1) 0).getLast? with
  | none => rfl
  | some other =>
      have member := List.mem_of_getLast? last
      exact Bool.eq_false_iff.mpr (not_signed_digitByte (mark_decimal len small other member))

/-- What `op_write` and `op_rewrite` make of a field of digits. -/
def Param.digits (param : Param) (field : List Byte) : List Byte :=
  (param.block param.col field).dropLast

/-- The digits of a marked field are its own, or those with a point put in. -/
theorem Param.Updates.digits_eq {param : Param} (updates : param.Updates) (digit : ℕ)
    (small : digit < 10) :
    (param.digits (markField param.col.len digit) = markField param.col.len digit ∨
      0 < param.col.dec ∧ param.col.tp = .numeric ∧
        param.digits (markField param.col.len digit) =
          pointed param.col (markField param.col.len digit)) ∧
      param.block param.col (markField param.col.len digit) =
        param.digits (markField param.col.len digit) ++ [0] := by
  cases updates with
  | write col chave =>
      change (_ = _ ∨ 0 < col.dec ∧ col.tp = .numeric ∧ _ = pointed col (markField col.len digit)) ∧
        writeChars col (markField col.len digit) ++ [0] = _ ++ [0]
      have chars :
        (Param.write col chave).digits (markField (Param.write col chave).col.len digit) =
          writeChars col (markField col.len digit) := List.dropLast_concat
      rw [chars]
      refine ⟨?_, rfl⟩
      unfold writeChars
      cases type : col.tp with
      | character => exact Or.inl rfl
      | numeric =>
          dsimp only
          rw [not_negativeField_markField small, if_neg Bool.false_ne_true]
          by_cases point : 0 < col.dec
          · exact Or.inr ⟨point, rfl, rfl⟩
          · exact Or.inl (if_neg point)
  | rewrite col chave =>
      have chars : (Param.rewrite col chave).digits
          (markField (Param.rewrite col chave).col.len digit) = markField col.len digit :=
        List.dropLast_concat
      rw [chars]
      exact ⟨Or.inl rfl, rfl⟩

/-- A field of digits passes the check. -/
theorem Param.Updates.checked_mark {param : Param} (updates : param.Updates) (digit : ℕ)
    (small : digit < 10) :
    param.checked (markField param.col.len digit) =
      (param.digits (markField param.col.len digit), false) := by
  obtain ⟨shape, block⟩ := updates.digits_eq digit small
  have decimal := mark_decimal param.col.len small
  have valid : scanNumero (0 < param.col.dec) false false
      (param.digits (markField param.col.len digit)) := by
    rcases shape with plain | ⟨_, _, point⟩
    · rw [plain]
      exact scanNumero_all_digits _ _ _ decimal
    · rw [point]
      exact scanNumero_pointed decimal
  have text : cstr (param.block param.col (markField param.col.len digit)) =
      param.digits (markField param.col.len digit) := by
    rw [block]
    exact cstr_append_zero (scanNumero_clean valid) []
  have filled : param.digits (markField param.col.len digit) ≠ [] := by
    have size := updates.length_block (length_markField digit param.col.len_pos)
    have least := updates.two_le_bytes
    rw [block, List.length_append, List.length_singleton] at size
    exact List.ne_nil_of_length_pos (by omega)
  unfold Param.checked
  rw [text]
  cases param.col.tp with
  | character => rfl
  | numeric => simp only [validaNumero, filled, ↓reduceIte, valid]

/-- The text of a field of digits has all the bytes of its row but the NUL. -/
theorem Param.Updates.length_mark {param : Param} (updates : param.Updates) (digit : ℕ)
    (small : digit < 10) :
    (param.checked (markField param.col.len digit)).1.length + 1 = param.bytes := by
  rw [updates.checked_mark digit small,
    ← updates.length_block (length_markField digit param.col.len_pos),
    (updates.digits_eq digit small).2, List.length_append]
  rfl

/-- A field with a point has the bytes it had, and the point. -/
theorem mem_pointed {col : Column} {field : List Byte} {byte : Byte}
    (member : byte ∈ pointed col field) : byte = 46 ∨ byte ∈ field := by
  unfold pointed at member
  split at member
  · rcases List.mem_append.mp member with front | back
    · exact Or.inr (List.mem_of_mem_take front)
    · rcases List.mem_cons.mp back with point | back
      · exact Or.inl point
      · exact Or.inr (List.mem_of_mem_drop back)
  · exact Or.inr member

/-- A field of zeros gives no other digit. -/
theorem Param.Updates.one_notMem {param : Param} (updates : param.Updates) :
    49 ∉ (param.checked (markField param.col.len 0)).1 := by
  have zeros : (49 : Byte) ∉ markField param.col.len 0 := by
    rw [← replicate_eq_markField param.col.len_pos]
    intro member
    exact absurd (List.eq_of_mem_replicate member) (by decide)
  rw [updates.checked_mark 0 (Nat.succ_pos 9)]
  rcases (updates.digits_eq 0 (Nat.succ_pos 9)).1 with plain | ⟨_, _, point⟩
  · rw [plain]
    exact zeros
  · rw [point]
    intro member
    rcases mem_pointed member with point | member
    · exact absurd point (by decide)
    · exact zeros member

/-- The first digit of a field is among the first two characters of its text. -/
theorem Param.Updates.one_mem {param : Param} (updates : param.Updates) :
    49 ∈ (param.checked (markField param.col.len 1)).1.take 2 := by
  have first : markField param.col.len 1 = 49 :: List.replicate (param.col.len - 1) 48 := by
    rw [markField, List.map_cons, List.map_replicate]
    rfl
  rw [updates.checked_mark 1 (by omega)]
  rcases (updates.digits_eq 1 (by omega)).1 with plain | ⟨point, _, shape⟩
  · rw [plain, first]
    exact List.mem_cons_self
  · rw [shape, first, pointed, if_pos point]
    -- the point comes first where all digits are decimals
    cases param.col.len - param.col.dec with
    | zero => exact List.mem_cons_of_mem _ List.mem_cons_self
    | succ n => exact List.mem_cons_self

/-! ## Two records that give different texts -/

/-- Two columns of a table lie apart. -/
theorem Contiguous.apart {cols : List Column} {offset : ℕ} (laid : Contiguous offset cols)
    {first second : Column} (member : first ∈ cols) (member' : second ∈ cols)
    (different : first ≠ second) :
    first.offset + first.len ≤ second.offset ∨ second.offset + second.len ≤ first.offset := by
  induction cols generalizing offset with
  | nil => cases member
  | cons col cols ih =>
      rcases List.mem_cons.mp member with rfl | later
      · rcases List.mem_cons.mp member' with rfl | later'
        · exact absurd rfl different
        · exact Or.inl (Contiguous.first_le laid later')
      · rcases List.mem_cons.mp member' with rfl | later'
        · exact Or.inr (Contiguous.first_le laid later)
        · exact ih laid.2 later later'

/-- The other columns of a layout hold zeros. -/
theorem slice_unmarked_column {cols : List Column} (laid : Contiguous 0 cols) {reclen : ℕ}
    (whole : totalLen cols ≤ reclen) {col marked : Column} (member : col ∈ cols)
    (member' : marked ∈ cols) (different : col ≠ marked) :
    slice (markRecord reclen marked.offset) col.offset col.len = markField col.len 0 := by
  have inside := laid.end_le col member
  have positive := marked.len_pos
  apply slice_unmarked (by omega) col.len_pos
  rcases laid.apart member member' different with before | after
  · exact Or.inr before
  · exact Or.inl (by omega)

/-- Each column of the marked record is marked with a digit. -/
theorem slice_column {cols : List Column} (laid : Contiguous 0 cols) {reclen : ℕ}
    (whole : totalLen cols ≤ reclen) {col marked : Column} (member : col ∈ cols)
    (member' : marked ∈ cols) : ∃ digit < 10,
      slice (markRecord reclen marked.offset) col.offset col.len = markField col.len digit := by
  have inside := laid.end_le col member
  by_cases same : col = marked
  · exact ⟨1, by omega, by rw [same] at inside ⊢; exact slice_marked (by omega) marked.len_pos⟩
  · exact ⟨0, by omega, slice_unmarked_column laid whole member member' same⟩

/-- What runs into the next row leaves the first two bytes as they were. -/
theorem take_two_runInto (text : List Byte) (later : List (List Byte)) :
    (runInto text later).take 2 = text.take 2 := by
  by_cases short : text.length < rowSize
  · rw [runInto_short later short]
  · cases later with
    | nil => rfl
    | cons next later =>
        have enough : 2 ≤ (text.take rowSize).length := by
          rw [List.length_take, Nat.min_eq_left (Nat.le_of_not_lt short)]
          decide
        rw [runInto_long (Nat.le_of_not_lt short) rfl, List.take_append_of_le_length enough,
          List.take_take]
        rfl

/-- A text that comes to the row of another column changes with a digit of such a column. -/
theorem exists_marked_differs {cols : List Column} (laid : Contiguous 0 cols) {reclen : ℕ}
    (whole : totalLen cols ≤ reclen) {own : Column} {params : List Param}
    (updates : ∀ param ∈ params, param.Updates) (placed : ∀ param ∈ params, param.col ∈ cols)
    (comes : ∃ param ∈ reached params, param.col ≠ own) :
    ∃ marked ∈ cols, marked ≠ own ∧ (runOn (sent (List.replicate reclen 48) params)).head? ≠
      (runOn (sent (markRecord reclen marked.offset) params)).head? := by
  induction params with
  | nil =>
      obtain ⟨_, member, _⟩ := comes
      cases member
  | cons param params ih =>
      have update := updates param List.mem_cons_self
      have place := placed param List.mem_cons_self
      have inside := laid.end_le param.col place
      have zeros : slice (List.replicate reclen 48) param.col.offset param.col.len =
          markField param.col.len 0 := slice_zeros (by omega) param.col.len_pos
      by_cases same : param.col = own
      · -- the text of the column itself is the same, and goes on
        obtain ⟨other, member, different⟩ := comes
        have later : other ∈ if param.bytes ≤ rowSize then [] else reached params := by
          rcases List.mem_cons.mp member with rfl | later
          · exact absurd same different
          · exact later
        split at later
        · cases later
        · rename_i wide
          obtain ⟨marked, here, apart, differs⟩ :=
            ih (fun one member => updates one (List.mem_cons_of_mem _ member))
              (fun one member => placed one (List.mem_cons_of_mem _ member))
              ⟨other, later, different⟩
          refine ⟨marked, here, apart, ?_⟩
          have unmarked := slice_unmarked_column laid whole place here
            (fun equal => apart (equal.symm.trans same))
          have size := update.length_mark 0 (Nat.succ_pos 9)
          have long : rowSize ≤ (param.checked (markField param.col.len 0)).1.length := by omega
          cases params with
          | nil => cases later
          | cons next params =>
              simp only [sent, List.map_cons, runOn_cons, List.head?_cons, ne_eq,
                Option.some.injEq] at differs ⊢
              rw [zeros, unmarked, runInto_long long rfl, runInto_long long rfl]
              exact fun equal => differs (List.append_cancel_left equal)
      · refine ⟨param.col, place, same, ?_⟩
        simp only [sent, List.map_cons, runOn_cons, List.head?_cons, ne_eq, Option.some.injEq]
        rw [zeros, slice_marked (by omega) param.col.len_pos]
        intro equal
        have one := update.one_mem
        rw [← take_two_runInto _ _, ← equal, take_two_runInto] at one
        exact update.one_notMem (List.mem_of_mem_take one)

/-! ## Writing within the rows -/

/-- The parameters can only be undefined, and not abort otherwise. -/
theorem setParams_stop {record : List Byte} {params : List Param} {p : ℕ} {bufs : List Byte}
    {stop : Stop} (set : setParams record params p bufs = .error stop) : stop = .undefined := by
  induction params generalizing p bufs with
  | nil => cases set
  | cons first params ih =>
      unfold setParams at set
      split at set
      case isFalse =>
        cases set
        rfl
      case isTrue =>
        unfold writeAt at set
        dsimp only at set
        split at set
        · cases later : setParams record params (p + 1) _ with
          | error other =>
              rw [ok_bind, later] at set
              cases set
              exact ih later
          | ok result =>
              rw [ok_bind, later] at set
              cases set
        · cases set
          rfl

/-- A statement is bound, or refused by the check, if and only if the rows end within `bufs`. -/
theorem bindParams_defined_iff {params : List Param} (updates : ∀ param ∈ params, param.Updates)
    {record bufs : List Byte} (size : bufs.length = maxCols * rowSize)
    (inside : ∀ param ∈ params, param.col.offset + param.col.len ≤ record.length) :
    bindParams params record bufs ≠ .error .undefined ↔ RowsFit params := by
  have rows : ∀ param ∈ params,
      (param.row (slice record param.col.offset param.col.len)).length = param.bytes :=
    fun param member => (updates param member).length_row (length_slice (inside param member))
  constructor
  · intro defined i param present
    cases set : setParams record params 0 bufs with
    | error stop =>
        obtain rfl := setParams_stop set
        rw [bindParams, set] at defined
        exact absurd rfl defined
    | ok result =>
        have room := setParams_room set i param present
        rw [Nat.zero_add, rows param (List.mem_of_getElem? present), size] at room
        exact room
  · intro fit
    obtain ⟨_, _, bound⟩ := bindParams_eq inside fun i param present => by
      rw [rows param (List.mem_of_getElem? present), size]
      exact fit i param present
    rw [bound]
    split <;> exact nofun

/-! ## Separate parameters -/

/-- Rows that hold their texts fit as long as there are enough of them. -/
theorem rowsFit_of_short {params : List Param} (few : params.length ≤ maxCols)
    (short : ∀ param ∈ params, param.bytes ≤ rowSize) : RowsFit params := by
  intro i param present
  have here := short param (List.mem_of_getElem? present)
  obtain ⟨inside, _⟩ := List.getElem?_eq_some_iff.mp present
  have room : (i + 1) * rowSize ≤ maxCols * rowSize := Nat.mul_le_mul_right _ (by omega)
  rw [Nat.add_mul, Nat.one_mul] at room
  omega

/-- A text that fits its row, or has the last one, comes to no other row. -/
theorem reached_drop {params : List Param} {p : ℕ} {param : Param}
    (here : params[p]? = some param) (alone : param.bytes ≤ rowSize ∨ p + 1 = params.length) :
    reached (params.drop p) = [param] := by
  obtain ⟨inside, rfl⟩ := List.getElem?_eq_some_iff.mp here
  rw [List.drop_eq_getElem_cons inside]
  simp only [reached, List.cons.injEq, true_and, ite_eq_left_iff]
  intro wide
  rcases alone with fits | last
  · exact absurd fits wide
  · rw [last, List.drop_length]
    rfl

section Table

variable {cols : List Column} {reclen : ℕ} {params : List Param} {p : ℕ} {param : Param}

/-- A parameter whose bytes are reached by no other one is separate. -/
theorem separate_of_reached (laid : Contiguous 0 cols) (whole : totalLen cols ≤ reclen)
    (updates : ∀ param ∈ params, param.Updates) (placed : ∀ param ∈ params, param.col ∈ cols)
    (here : params[p]? = some param) (fit : RowsFit params)
    (own : ∀ other ∈ reached (params.drop p), other.col = param.col) :
    Separate reclen params p := by
  intro record record' bufs bufs' length length' size size' agree
  have inside : ∀ param ∈ params, param.col.offset + param.col.len ≤ record.length := by
    intro other member
    have last := laid.end_le other.col (placed other member)
    omega
  refine ⟨(bindParams_defined_iff updates size inside).mpr fit, ?_⟩
  intro left texts right texts' bound bound'
  obtain ⟨_, _, rfl⟩ := bindParams_ok bound
  obtain ⟨_, _, rfl⟩ := bindParams_ok bound'
  have heads := runOn_sent_congr record record'
    (fun other member => updates other (List.mem_of_mem_drop member))
    (fun other member => inside other (List.mem_of_mem_drop member)) fun other member => by
      rw [own other member]
      exact agree param here
  rw [← runOn_sent_getElem?, ← runOn_sent_getElem?] at heads
  exact heads

/-- A separate parameter has all rows that fit, and no other one writes into its own. -/
theorem reached_of_separate (laid : Contiguous 0 cols) (whole : totalLen cols ≤ reclen)
    (updates : ∀ param ∈ params, param.Updates) (placed : ∀ param ∈ params, param.col ∈ cols)
    (here : params[p]? = some param) (separate : Separate reclen params p) :
    RowsFit params ∧ ∀ other ∈ reached (params.drop p), other.col = param.col := by
  have inside : ∀ record : List Byte, record.length = reclen →
      ∀ param ∈ params, param.col.offset + param.col.len ≤ record.length := by
    intro record length other member
    have last := laid.end_le other.col (placed other member)
    omega
  have size : (List.replicate (maxCols * rowSize) (0 : Byte)).length = maxCols * rowSize :=
    List.length_replicate
  have zeros : (List.replicate reclen (48 : Byte)).length = reclen := List.length_replicate
  have fit : RowsFit params :=
    (bindParams_defined_iff updates size (inside _ zeros)).mp
      (separate _ _ _ _ zeros zeros size size fun _ _ => rfl).1
  refine ⟨fit, ?_⟩
  by_contra comes
  simp only [not_forall] at comes
  obtain ⟨other, member, different⟩ := comes
  obtain ⟨marked, place, apart, differs⟩ := exists_marked_differs laid whole
    (fun other member => updates other (List.mem_of_mem_drop member))
    (fun other member => placed other (List.mem_of_mem_drop member)) ⟨other, member, different⟩
  have length : (markRecord reclen marked.offset).length = reclen := by
    rw [markRecord, List.length_set, zeros]
  have own := List.mem_of_getElem? here
  have ends := laid.end_le param.col (placed param own)
  -- records of digits pass the check
  have bound : ∀ record : List Byte, record.length = reclen →
      (∀ col ∈ cols, ∃ digit < 10, slice record col.offset col.len = markField col.len digit) →
      ∃ left, bindParams params record (List.replicate (maxCols * rowSize) 0) =
        .ok (left, runOn (sent record params)) := by
    intro record length digits
    obtain ⟨left, _, bound⟩ := bindParams_eq (inside record length) fun i other present => by
      have member := List.mem_of_getElem? present
      rw [(updates other member).length_row (length_slice (inside record length other member)),
        size]
      exact fit i other present
    refine ⟨left, ?_⟩
    rw [bound, if_neg]
    · rfl
    · rw [Bool.not_eq_true, List.any_eq_false]
      intro other member
      obtain ⟨digit, small, field⟩ := digits other.col (placed other member)
      rw [field, (updates other member).checked_mark digit small]
      exact Bool.false_ne_true
  obtain ⟨left, first⟩ := bound _ zeros fun col member => by
    have last := laid.end_le col member
    exact ⟨0, Nat.succ_pos 9, slice_zeros (by omega) col.len_pos⟩
  obtain ⟨right, second⟩ := bound _ length fun col member => slice_column laid whole member place
  have same := (separate _ _ _ _ zeros length size size fun one present => by
    cases here.symm.trans present
    rw [slice_zeros (by omega) param.col.len_pos,
      slice_unmarked_column laid whole (placed param own) place fun equal => apart equal.symm]).2
    _ _ _ _ first second
  rw [runOn_sent_getElem?, runOn_sent_getElem?] at same
  exact differs same

end Table

/-- The parameters of both statements are those of an update. -/
theorem updates_of_statement {tab : Table} {params : List Param}
    (statement : params = writeParams tab ∨ params = rewriteParams tab) :
    ∀ param ∈ params, param.Updates := by
  intro param member
  rcases statement with rfl | rfl
  · obtain ⟨i, _, rfl⟩ := List.mem_map.mp member
    exact .write _ _
  · rcases List.mem_append.mp member with set | key
    · obtain ⟨i, _, rfl⟩ := List.mem_map.mp set
      exact .write _ _
    · obtain ⟨i, _, rfl⟩ := List.mem_map.mp key
      exact .rewrite _ _

/-- The parameters of both statements are columns of the table. -/
theorem placed_of_statement {tab : Table} {params : List Param}
    (keys : ∀ i ∈ whereColumns tab.keys 0, i < tab.columns.length)
    (statement : params = writeParams tab ∨ params = rewriteParams tab) :
    ∀ param ∈ params, param.col ∈ tab.columns := by
  intro param member
  rcases statement with rfl | rfl
  · obtain ⟨i, inside, rfl⟩ := List.mem_map.mp member
    exact Table.column_mem (List.mem_range.mp inside)
  · rcases List.mem_append.mp member with set | key
    · obtain ⟨i, inside, rfl⟩ := List.mem_map.mp set
      exact Table.column_mem (List.mem_range.mp (List.mem_of_mem_filter inside))
    · obtain ⟨i, inside, rfl⟩ := List.mem_map.mp key
      exact Table.column_mem (keys i inside)

/-- A parameter of the INSERT or the UPDATE depends on its own column alone if and only if all
rows end within `bufs` and its text comes to the rows of no other column: it fits its row, or
has the last one (`reached_drop`). -/
theorem columns_separate_iff (tab : Table) (reclen : ℕ) (laid : Contiguous 0 tab.columns)
    (whole : totalLen tab.columns ≤ reclen)
    (keys : ∀ i ∈ whereColumns tab.keys 0, i < tab.columns.length) (params : List Param)
    (statement : params = writeParams tab ∨ params = rewriteParams tab) (p : ℕ) (param : Param)
    (here : params[p]? = some param) :
    Separate reclen params p ↔
      RowsFit params ∧ ∀ other ∈ reached (params.drop p), other.col = param.col := by
  have updates := updates_of_statement statement
  have placed := placed_of_statement keys statement
  constructor
  · exact reached_of_separate laid whole updates placed here
  · rintro ⟨fit, own⟩
    exact separate_of_reached laid whole updates placed here fit own

/-- A code, the primary key, a name and an initial. -/
def nameColumns (len : ℕ) (len_pos : 0 < len) : List Column :=
  [⟨"codigo", .numeric, 1, 0, 0, true, one_digit, no_decimals_of_one⟩,
    ⟨"nome", .character, len, 0, 1, false, len_pos, Nat.zero_le len⟩,
    ⟨"inicial", .character, 1, 0, 1 + len, false, one_digit, no_decimals_of_one⟩]

def nameTable (len : ℕ) (len_pos : 0 < len) : Table :=
  Table.opened 1 1 0 [] (nameColumns len len_pos) [[0]] 0 (clearBuffers 4)

/-- A name has room for a character. -/
theorem name_length_pos : 0 < 300 := Nat.succ_pos 299

/-- A name of 30 bytes is sent as it is in the record. -/
theorem name_separate : Separate 32 (writeParams (nameTable 30 (Nat.succ_pos 29))) 1 := by
  have short : ∀ param ∈ writeParams (nameTable 30 (Nat.succ_pos 29)), param.bytes ≤ rowSize := by
    decide
  refine (columns_separate_iff (nameTable 30 (Nat.succ_pos 29)) 32 (by decide) (by decide)
    (by decide) _ (Or.inl rfl) 1 _ rfl).mpr ⟨rowsFit_of_short (by decide) short, ?_⟩
  rw [reached_drop rfl (Or.inl (by decide))]
  intro other member
  rw [List.mem_singleton.mp member]

/-- A name of 300 bytes is sent with the initial after its byte 257. -/
theorem long_name_not_separate :
    ¬ Separate 302 (writeParams (nameTable 300 name_length_pos)) 1 := by
  intro separate
  have laid : Contiguous 0 (nameTable 300 name_length_pos).columns := by decide
  have own := (reached_of_separate laid (by decide) (updates_of_statement (Or.inl rfl))
    (placed_of_statement (by decide) (Or.inl rfl)) rfl separate).2
  have comes : Param.write ((nameTable 300 name_length_pos).column 2)
      ((nameTable 300 name_length_pos).chave 2) ∈
        reached ((writeParams (nameTable 300 name_length_pos)).drop 1) := by
    have wide : ¬ (Param.write ((nameTable 300 name_length_pos).column 1)
        ((nameTable 300 name_length_pos).chave 1)).bytes ≤ rowSize := by
      rw [bytes_write]
      decide
    apply List.mem_cons_of_mem
    rw [if_neg wide]
    exact List.mem_cons_self
  exact absurd (own _ comes) (by decide)

end Pqfh
