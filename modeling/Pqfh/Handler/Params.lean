import Pqfh.Table.Field

/-! # Statement parameters

Each operation copies fields of the record into the rows of `tab->bufs`, as texts for a
prepared statement. Every operation has its own way of doing so: `writeBlock` for the
columns that WRITE inserts and REWRITE sets, `keyBlock` for the key columns of READ and
DELETE, `rewriteBlock` for the key columns of REWRITE.

The rows are 257 bytes long and lie one after the other in memory, and nothing checks that
a text fits its row. A longer one runs on into the next row, whose own text is written
over it afterwards; when the statement is executed, the text of the row therefore goes on
with the text of the next (`Pqfh.runOn`, `Pqfh.bindParams_ok`).
-/

namespace Pqfh

/-! ## Checking numbers -/

/-- The loop of `valida_numero`: digits, one sign, and one point when `real`. -/
def scanNumero (real : Bool) : Bool → Bool → List Byte → Bool
  | _, _, [] => true
  | sinal, decimal, p :: rest =>
      if isDigit p then scanNumero real sinal decimal rest
      else if !sinal && (p = 45 || p = 43) then scanNumero real true decimal rest
      else if !decimal && p = 46 && real then scanNumero real sinal true rest
      else false

/-- The characters that `valida_numero` leaves in a text it repairs, `0123456789-.`. -/
def numberChar (p : Byte) : Bool := isDigit p || p = 45 || p = 46

/-- `valida_numero`: the text after it, and whether it sets `fatal`. A wrong number is fatal
in a column of a key; in other columns its wrong characters become zeros. -/
def validaNumero (chave real : Bool) (conteudo : List Byte) : List Byte × Bool :=
  let conteudo := if conteudo = [] then [48] else conteudo
  if scanNumero real false false conteudo then (conteudo, false)
  else if chave then (conteudo, true)
  else (conteudo.map fun p => if numberChar p then p else 48, false)

/-! ## From fields to texts -/

/-- A numeric field with a point before its decimals. -/
def pointed (col : Column) (field : List Byte) : List Byte :=
  if 0 < col.dec then field.take (col.len - col.dec) ++ 46 :: field.drop (col.len - col.dec)
  else field

/-- The characters that `op_write`, and `op_rewrite` for the columns it sets, make of a
field. For a negative number the first one is replaced by the sign. -/
def writeChars (col : Column) (field : List Byte) : List Byte :=
  match col.tp with
  | .numeric =>
      if negativeField field then
        ((pointed col field).set 0 (if 1 < col.len then 45 else 48)).modify
          (if 0 < col.dec then col.len else col.len - 1) clearSign
      else pointed col field
  | .character => field

/-- What `op_write`, and `op_rewrite` for the columns it sets, put into a row for a field. -/
def writeBlock (col : Column) (field : List Byte) : List Byte := writeChars col field ++ [0]

/-- What `op_read_random` and `op_delete` put into a row for a key field. -/
def keyBlock (col : Column) (field : List Byte) : List Byte :=
  match col.tp with
  | .numeric =>
      if field.head? = some 0 then 48 :: 0 :: (field ++ [0]).drop 2 else pointed col field ++ [0]
  | .character => field ++ [0]

/-- What `op_rewrite` puts into a row for a key field. -/
def rewriteBlock (_ : Column) (field : List Byte) : List Byte := field ++ [0]

/-- A parameter of a statement: its column, whether the column belongs to a key, and what
is put into the row, which ends with a NUL. -/
structure Param where
  col : Column
  chave : Bool
  block : Column → List Byte → List Byte
  terminated : ∀ field, field.length = col.len → 0 ∈ block col field

theorem zero_mem_append_zero (text : List Byte) : 0 ∈ text ++ [0] := by
  rw [List.mem_append, List.mem_singleton]
  exact Or.inr rfl

theorem zero_mem_keyBlock (col : Column) (field : List Byte) : 0 ∈ keyBlock col field := by
  unfold keyBlock
  split
  · split
    · exact List.mem_cons_of_mem _ List.mem_cons_self
    · exact zero_mem_append_zero _
  · exact zero_mem_append_zero _

/-- A column that `op_write` inserts or `op_rewrite` sets. -/
def Param.write (col : Column) (chave : Bool) : Param :=
  ⟨col, chave, writeBlock, fun _ _ => zero_mem_append_zero _⟩

/-- A key column of `op_read_random` or `op_delete`. -/
def Param.key (col : Column) (chave : Bool) : Param :=
  ⟨col, chave, keyBlock, fun _ _ => zero_mem_keyBlock _ _⟩

/-- A key column of `op_rewrite`. -/
def Param.rewrite (col : Column) (chave : Bool) : Param :=
  ⟨col, chave, rewriteBlock, fun _ _ => zero_mem_append_zero _⟩

/-- The text of a parameter in its row, after the check, and whether it is fatal. -/
def Param.checked (param : Param) (field : List Byte) : List Byte × Bool :=
  match param.col.tp with
  | .numeric => validaNumero param.chave (0 < param.col.dec) (cstr (param.block param.col field))
  | .character => (cstr (param.block param.col field), false)

/-- The row of a parameter after the check, which works in place. -/
def Param.row (param : Param) (field : List Byte) : List Byte :=
  let block := param.block param.col field
  if cstr block = [] ∧ param.col.tp = .numeric then 48 :: 0 :: block.drop 2
  else (param.checked field).1 ++ block.drop (cstr block).length

/-! ## The rows -/

/-- The size of a row of `bufs`, `MAX_COL_LEN + 1`. -/
def rowSize : ℕ := 257

/-- The loop that sets the parameters from row `p` on, and whether one was fatal. -/
def setParams (record : List Byte) : List Param → ℕ → List Byte → Except Stop (List Byte × Bool)
  | [], _, bufs => .ok (bufs, false)
  | param :: params, p, bufs =>
      if param.col.offset + param.col.len ≤ record.length then do
        let field := slice record param.col.offset param.col.len
        let bufs ← writeAt bufs (p * rowSize) (param.row field)
        let (bufs, fatal) ← setParams record params (p + 1) bufs
        return (bufs, (param.checked field).2 || fatal)
      else .error .undefined

/-- The text at row `p`, up to the first NUL wherever it is. -/
def rowText (bufs : List Byte) (p : ℕ) : List Byte := cstr (bufs.drop (p * rowSize))

/-- Set the parameters of a statement and check them with `valida_comando`: the rows after,
and the texts that PostgreSQL receives. -/
def bindParams (params : List Param) (record bufs : List Byte) :
    Except Stop (List Byte × List (List Byte)) := do
  let (bufs, fatal) ← setParams record params 0 bufs
  if fatal then .error .exit
  else return (bufs, (List.range params.length).map (rowText bufs))

/-- The texts that rows give when each holds a text: one that outruns its row goes on with
the text of the next row. -/
def runOn : List (List Byte) → List (List Byte)
  | [] => []
  | [text] => [text]
  | text :: next :: rest =>
      let texts := runOn (next :: rest)
      (if text.length < rowSize then text else text.take rowSize ++ texts.headD []) :: texts

/-! ## Texts in rows -/

theorem validaNumero_clean (chave real : Bool) {conteudo : List Byte} (clean : 0 ∉ conteudo) :
    0 ∉ (validaNumero chave real conteudo).1 := by
  have start : 0 ∉ (if conteudo = [] then [48] else conteudo : List Byte) := by
    split
    · decide
    · exact clean
  unfold validaNumero
  generalize (if conteudo = [] then [48] else conteudo : List Byte) = text at start ⊢
  by_cases valid : scanNumero real false false text
  · simpa only [valid, ↓reduceIte] using start
  · cases chave with
    | true => simpa only [valid, ↓reduceIte, Bool.false_eq_true] using start
    | false =>
        simp only [valid, ↓reduceIte, Bool.false_eq_true]
        intro member
        obtain ⟨p, present, image⟩ := List.mem_map.mp member
        by_cases kept : numberChar p
        · rw [if_pos kept] at image
          exact start (image ▸ present)
        · rw [if_neg kept] at image
          exact absurd image (by decide)

theorem length_validaNumero (chave real : Bool) {conteudo : List Byte} (nonempty : conteudo ≠ []) :
    (validaNumero chave real conteudo).1.length = conteudo.length := by
  simp only [validaNumero, nonempty, ↓reduceIte]
  split
  · rfl
  · split
    · rfl
    · rw [List.length_map]

theorem Param.length_checked {param : Param} {field : List Byte}
    (filled : ¬ (cstr (param.block param.col field) = [] ∧ param.col.tp = .numeric)) :
    (param.checked field).1.length = (cstr (param.block param.col field)).length := by
  unfold Param.checked
  cases type : param.col.tp with
  | character => rfl
  | numeric => exact length_validaNumero _ _ fun empty => filled ⟨empty, type⟩

/-- A row reads as the checked text. -/
theorem Param.cstr_row (param : Param) {field : List Byte} (full : field.length = param.col.len) :
    ∃ rest, param.row field = (param.checked field).1 ++ 0 :: rest ∧
      0 ∉ (param.checked field).1 := by
  obtain ⟨rest, shape⟩ := exists_cstr_eq (param.terminated field full)
  have clean := zero_notMem_cstr (param.block param.col field)
  unfold Param.row Param.checked
  cases type : param.col.tp with
  | character =>
      refine ⟨rest, ?_, clean⟩
      simp only [reduceCtorEq, and_false, ↓reduceIte]
      rw [shape, cstr_append_zero clean, List.drop_left]
  | numeric =>
      by_cases empty : cstr (param.block param.col field) = []
      · refine ⟨(param.block param.col field).drop 2, ?_, validaNumero_clean _ _ clean⟩
        simp only [empty, and_self, ↓reduceIte]
        rfl
      · refine ⟨rest, ?_, validaNumero_clean _ _ clean⟩
        simp only [empty, false_and, ↓reduceIte]
        congr 1
        conv_lhs => rw [shape, cstr_append_zero clean]
        exact List.drop_left

/-- A row and what follows it, after later rows have been written. -/
theorem drop_row {bufs bufs' row : List Byte} {p : ℕ}
    (room : p * rowSize + row.length ≤ bufs.length) (length : bufs'.length = bufs.length)
    (kept : bufs'.take ((p + 1) * rowSize) = (bufs.take (p * rowSize) ++ row ++
      bufs.drop (p * rowSize + row.length)).take ((p + 1) * rowSize)) :
    bufs'.drop (p * rowSize) = (row ++ bufs.drop (p * rowSize + row.length)).take rowSize ++
      bufs'.drop ((p + 1) * rowSize) := by
  have step : (p + 1) * rowSize - p * rowSize = rowSize := by
    rw [Nat.add_mul, Nat.one_mul, Nat.add_sub_cancel_left]
  have front : (bufs.take (p * rowSize)).length = p * rowSize := by
    rw [List.length_take]
    omega
  calc bufs'.drop (p * rowSize)
      = (bufs'.take ((p + 1) * rowSize) ++ bufs'.drop ((p + 1) * rowSize)).drop (p * rowSize) := by
        rw [List.take_append_drop]
    _ = (bufs'.take ((p + 1) * rowSize)).drop (p * rowSize) ++ bufs'.drop ((p + 1) * rowSize) := by
        apply List.drop_append_of_le_length
        rw [List.length_take, length]
        have larger : p * rowSize ≤ (p + 1) * rowSize := Nat.mul_le_mul_right _ (Nat.le_succ p)
        omega
    _ = _ := by
        rw [kept, List.drop_take, step, List.append_assoc, List.drop_left' front]

/-- The text of a row: its own when it fits, else the row and then the text of the next. -/
theorem rowText_row {bufs bufs' text rest : List Byte} {p : ℕ} (clean : 0 ∉ text)
    (room : p * rowSize + (text ++ 0 :: rest).length ≤ bufs.length)
    (length : bufs'.length = bufs.length)
    (kept : bufs'.take ((p + 1) * rowSize) = (bufs.take (p * rowSize) ++ (text ++ 0 :: rest) ++
      bufs.drop (p * rowSize + (text ++ 0 :: rest).length)).take ((p + 1) * rowSize)) :
    rowText bufs' p =
      if text.length < rowSize then text else text.take rowSize ++ rowText bufs' (p + 1) := by
  unfold rowText
  rw [drop_row room length kept, List.append_assoc]
  by_cases short : text.length < rowSize
  · obtain ⟨n, more⟩ := Nat.exists_eq_add_of_lt short
    rw [if_pos short, List.take_append, more, Nat.add_assoc, Nat.add_sub_cancel_left,
      List.take_of_length_le (Nat.le_add_right _ _), List.cons_append, List.take_succ_cons,
      List.append_assoc, List.cons_append]
    exact cstr_append_zero clean _
  · have front : 0 ∉ text.take rowSize := fun member => clean (List.mem_of_mem_take member)
    rw [if_neg short, List.take_append_of_le_length (Nat.le_of_not_lt short), cstr_append,
      if_neg front]

/-- The rows after the parameters are set, and the texts they give. -/
theorem setParams_ok {record : List Byte} :
    ∀ {params : List Param} {p : ℕ} {bufs bufs' : List Byte} {fatal : Bool},
      setParams record params p bufs = .ok (bufs', fatal) →
      (∀ param ∈ params, param.col.offset + param.col.len ≤ record.length) ∧
        bufs'.length = bufs.length ∧ bufs'.take (p * rowSize) = bufs.take (p * rowSize) ∧
        fatal = params.any (fun param =>
          (param.checked (slice record param.col.offset param.col.len)).2) ∧
        (List.range params.length).map (fun j => rowText bufs' (p + j)) =
          runOn (params.map fun param =>
            (param.checked (slice record param.col.offset param.col.len)).1) := by
  intro params
  induction params with
  | nil =>
      intro p bufs bufs' fatal set
      cases set
      exact ⟨nofun, rfl, rfl, rfl, rfl⟩
  | cons param params ih =>
      intro p bufs bufs' fatal set
      unfold setParams at set
      split at set
      case isFalse => cases set
      case isTrue inside =>
        obtain ⟨bufs₁, written, set⟩ := bind_eq_ok.mp set
        obtain ⟨⟨bufs₂, fatal₂⟩, later, result⟩ := bind_eq_ok.mp set
        cases result
        obtain ⟨room, rfl⟩ := writeAt_eq_ok.mp written
        obtain ⟨insides, length, kept, fatals, texts⟩ := ih later
        obtain ⟨rest, shape, clean⟩ := param.cstr_row (length_slice inside)
        have front : (bufs.take (p * rowSize)).length = p * rowSize := by
          rw [List.length_take]
          omega
        have length' : bufs'.length = bufs.length := by
          rw [length, List.length_append, List.length_append, front, List.length_drop]
          omega
        rw [shape] at room kept later
        have here := rowText_row clean room length' kept
        refine ⟨?_, length', ?_, ?_, ?_⟩
        · intro other member
          rcases List.mem_cons.mp member with rfl | member
          · exact inside
          · exact insides other member
        · have larger : p * rowSize ≤ (p + 1) * rowSize := Nat.mul_le_mul_right _ (Nat.le_succ p)
          calc bufs'.take (p * rowSize)
              = (bufs'.take ((p + 1) * rowSize)).take (p * rowSize) := by
                rw [List.take_take, Nat.min_eq_left larger]
            _ = bufs.take (p * rowSize) := by
                rw [kept, List.take_take, Nat.min_eq_left larger, List.append_assoc]
                exact List.take_left' front
        · rw [List.any_cons, fatals]
        · rw [List.length_cons, List.range_succ_eq_map, List.map_cons, List.map_map, List.map_cons]
          have shifted : (fun j => rowText bufs' (p + j)) ∘ Nat.succ =
              fun j => rowText bufs' (p + 1 + j) := by
            funext j
            rw [Function.comp_apply, Nat.succ_eq_add_one, Nat.add_right_comm, Nat.add_assoc]
          rw [shifted, texts, Nat.add_zero]
          cases params with
          | nil =>
              -- the last row is not written over
              cases later
              simp only [List.map_nil, runOn, List.cons.injEq, and_true]
              unfold rowText
              rw [List.append_assoc, List.drop_left' front, List.append_assoc]
              exact cstr_append_zero clean _
          | cons second params =>
              have next : (runOn ((second :: params).map fun param =>
                  (param.checked (slice record param.col.offset param.col.len)).1)).headD [] =
                  rowText bufs' (p + 1) := by
                rw [← texts, List.length_cons, List.range_succ_eq_map, List.map_cons,
                  List.headD_cons, Nat.add_zero]
              rw [here, ← next]
              rfl

/-- What a bound statement received: the checked texts, run on, none of them fatal. -/
theorem bindParams_ok {params : List Param} {record bufs bufs' : List Byte}
    {texts : List (List Byte)} (bound : bindParams params record bufs = .ok (bufs', texts)) :
    (∀ param ∈ params, param.col.offset + param.col.len ≤ record.length ∧
      (param.checked (slice record param.col.offset param.col.len)).2 = false) ∧
    bufs'.length = bufs.length ∧
    texts = runOn (params.map fun param =>
      (param.checked (slice record param.col.offset param.col.len)).1) := by
  unfold bindParams at bound
  obtain ⟨⟨bufs₁, fatal⟩, set, bound⟩ := bind_eq_ok.mp bound
  obtain ⟨insides, length, _, fatals, rows⟩ := setParams_ok set
  cases fatal with
  | true => cases bound
  | false =>
      cases bound
      refine ⟨fun param member => ⟨insides param member, ?_⟩, length, ?_⟩
      · rw [eq_comm, List.any_eq_false] at fatals
        exact Bool.eq_false_iff.mpr (fatals param member)
      · rw [← rows]
        simp only [Nat.zero_add]

/-! ## When the rows hold the texts -/

/-- Texts that fit their rows are received as they are. -/
theorem runOn_eq_self : ∀ {texts : List (List Byte)},
    (∀ text ∈ texts, text.length < rowSize) → runOn texts = texts
  | [], _ => rfl
  | [_], _ => rfl
  | text :: next :: rest, short => by
      have rest' : runOn (next :: rest) = next :: rest :=
        runOn_eq_self fun other member => short other (List.mem_cons_of_mem _ member)
      simp only [runOn, rest', short text List.mem_cons_self, ↓reduceIte]

/-- Rows that all lie within `bufs` are written whatever they hold. -/
theorem setParams_total {record : List Byte} :
    ∀ {params : List Param} (p : ℕ) (bufs : List Byte),
      (∀ param ∈ params, param.col.offset + param.col.len ≤ record.length) →
      (∀ i param, params[i]? = some param → (p + i) * rowSize +
        (param.row (slice record param.col.offset param.col.len)).length ≤ bufs.length) →
      ∃ result, setParams record params p bufs = .ok result := by
  intro params
  induction params with
  | nil => intro p bufs _ _; exact ⟨_, rfl⟩
  | cons param params ih =>
      intro p bufs inside room
      have here := room 0 param rfl
      rw [Nat.add_zero] at here
      have written := writeAt_eq_ok.mpr ⟨here, rfl⟩
      have length : (bufs.take (p * rowSize) ++
          param.row (slice record param.col.offset param.col.len) ++ bufs.drop (p * rowSize +
            (param.row (slice record param.col.offset param.col.len)).length)).length =
          bufs.length := by
        rw [List.length_append, List.length_append, List.length_take, List.length_drop]
        omega
      obtain ⟨result, rest⟩ := ih (p + 1) _
        (fun other member => inside other (List.mem_cons_of_mem _ member))
        (fun i other present => by
          rw [length, Nat.add_assoc, Nat.add_comm 1 i]
          exact room (i + 1) other present)
      refine ⟨(result.1, (param.checked (slice record param.col.offset param.col.len)).2 ||
        result.2), ?_⟩
      simp only [setParams, inside param List.mem_cons_self, ↓reduceIte, written, ok_bind, rest]
      rfl

/-- Whether a statement is bound: it is, unless a number is fatal. -/
theorem bindParams_eq {params : List Param} {record bufs : List Byte}
    (inside : ∀ param ∈ params, param.col.offset + param.col.len ≤ record.length)
    (room : ∀ i param, params[i]? = some param → i * rowSize +
      (param.row (slice record param.col.offset param.col.len)).length ≤ bufs.length) :
    ∃ bufs', bufs'.length = bufs.length ∧ bindParams params record bufs =
      if params.any (fun param => (param.checked (slice record param.col.offset param.col.len)).2)
      then .error .exit
      else .ok (bufs', runOn (params.map fun param =>
        (param.checked (slice record param.col.offset param.col.len)).1)) := by
  obtain ⟨⟨bufs', fatal⟩, set⟩ := setParams_total 0 bufs inside (by simpa using room)
  obtain ⟨_, length, _, fatals, rows⟩ := setParams_ok set
  refine ⟨bufs', length, ?_⟩
  unfold bindParams
  rw [set, ok_bind, ← fatals, ← rows]
  simp only [Nat.zero_add]
  rfl

end Pqfh
