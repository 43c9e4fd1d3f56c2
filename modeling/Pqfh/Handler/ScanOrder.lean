import Pqfh.Handler.KeyTexts
import Pqfh.Handler.ScanSpec
import Pqfh.Handler.StartWords

/-! # The rows that a START selects

`adiciona_comp` writes the comparison with a key of several columns as a nest of comparisons with
one column each. Read with the precedence of SQL it is the comparison of the keys from their first
column on (`Pqfh.Postgres.keyCompares`), as long as the key fields of the record are numbers where
the columns are (`Pqfh.startValue`).
-/

namespace Pqfh

/-! ## Keys -/

/-- The value that a key field of the record stands for. A numeric field that is not filled in is
zero, one that is no row of digits stands for nothing. -/
def startValue (col : Column) (field : List Byte) : Option Value :=
  match col.tp with
  | .numeric =>
      if field.head? = some 0 then some (.num 0)
      else if field.all isDigit then some (.num (Decimal.value (textDigits field) / 10 ^ col.dec))
      else none
  | .character => some (.chr (rtrim (cstr field)))

/-- The columns of a key, with the values that the record has in them. -/
def Table.startKey (tab : Table) (record : List Byte) (cols : List ℕ) : Option (List (ℕ × Value)) :=
  cols.mapM fun i => (startValue (tab.column i)
    (slice record (tab.column i).offset (tab.column i).len)).map (i, ·)

/-- The key of a record, column by column. -/
theorem Table.startKey_columns {tab : Table} {record : List Byte} :
    ∀ {cols : List ℕ} {key : List (ℕ × Value)}, tab.startKey record cols = some key →
      List.Forall₂ (fun i column => column.1 = i ∧ startValue (tab.column i)
        (slice record (tab.column i).offset (tab.column i).len) = some column.2) cols key := by
  intro cols
  induction cols with
  | nil => intro key stands; cases stands; exact .nil
  | cons i rest ih =>
      intro key stands
      unfold Table.startKey at stands
      rw [List.mapM_cons] at stands
      obtain ⟨column, paired, stands⟩ := Option.bind_eq_some_iff.mp stands
      obtain ⟨value, valued, rfl⟩ := Option.map_eq_some_iff.mp paired
      obtain ⟨key', later, result⟩ := Option.bind_eq_some_iff.mp stands
      cases result
      exact .cons ⟨rfl, valued⟩ (ih later)

theorem Table.map_fst_startKey {tab : Table} {record : List Byte} {cols : List ℕ}
    {key : List (ℕ × Value)} (stands : tab.startKey record cols = some key) :
    key.map Prod.fst = cols := by
  have columns := Table.startKey_columns stands
  clear stands
  induction columns with
  | nil => rfl
  | cons first _ ih => rw [List.map_cons, first.1, ih]

/-- The comparisons that hold of equal keys. -/
def Comparison.inclusive : Comparison → Bool
  | .gt | .lt => false
  | _ => true

/-- How the key of a row compares with a key: by the first column in which they differ. -/
def Postgres.keyCompares (pg : Postgres) (op : Comparison) (row : Row) : List (ℕ × Value) → Bool
  | [] => op.inclusive
  | (i, value) :: rest =>
      if row.getD i .null = value then pg.keyCompares op row rest
      else pg.compares op.strict (row.getD i .null) value

/-! ## Reading a condition -/

/-- Words that are read as a condition, whatever closes it. -/
def ReadAs (level : Level) (fuel : ℕ) (tokens : List Token) (condition : Expr) : Prop :=
  ∀ n rest, fuel ≤ n → rest.head? ≠ some .and → rest.head? ≠ some .or →
    parse n level (tokens ++ rest) = some (condition, rest)

theorem ReadsAs.readAs {level : Level} {fuel : ℕ} {tokens : List Token} {condition : Expr}
    (read : ReadsAs (fun _ word => word.literal) level fuel tokens condition) :
    ReadAs level fuel tokens condition := by
  intro n rest enough noAnd noOr
  rw [parse_eq_parseAs]
  exact read n rest enough noAnd noOr

/-! ## The words of getwhere -/

/-- Digits are the bytes of the numbers they write. -/
theorem map_digitByte_textDigits {text : List Byte} (digits : text.all isDigit = true) :
    (textDigits text).map digitByte = text ∧ ∀ digit ∈ textDigits text, digit < 10 := by
  rw [List.all_eq_true] at digits
  unfold textDigits
  constructor
  · rw [List.map_map]
    conv_rhs => rw [← List.map_id text]
    apply List.map_congr_left
    intro byte member
    have bounds := isDigit_iff.mp (digits byte member)
    apply Fin.ext
    rw [Function.comp_apply, digitByte_val (by omega), id]
    omega
  · intro digit member
    obtain ⟨byte, present, rfl⟩ := List.mem_map.mp member
    have bounds := isDigit_iff.mp (digits byte present)
    omega

theorem plainNumeral_zeros {len : ℕ} (room : 0 < len) :
    plainNumeral (List.replicate len 48) = some 0 := by
  obtain ⟨n, rfl⟩ := Nat.exists_eq_succ_of_ne_zero room.ne'
  have decimal : ∀ digit ∈ List.replicate (n + 1) 0, digit < 10 := by
    intro digit member
    rw [List.eq_of_mem_replicate member]
    decide
  have numeral := unsignedNumeral_digits decimal (List.cons_ne_nil _ _)
  rw [Decimal.value_replicate_zero, Nat.cast_zero, List.map_replicate,
    List.replicate_succ] at numeral
  rw [Nat.succ_eq_add_one, List.replicate_succ]
  exact (plainNumeral_of_digit (by decide : 0 < 10)).trans numeral

/-- The literal of a key field is the value that the field stands for. -/
theorem startLiteral_denotes {tab : Table} {record : List Byte} {i : ℕ} {literal : Token}
    {value : Value}
    (digits : (tab.column i).tp = .numeric → (tab.column i).dec < (tab.column i).len)
    (written : startLiteral tab record i = .ok literal)
    (stands : startValue (tab.column i)
      (slice record (tab.column i).offset (tab.column i).len) = some value) :
    literal.literal = some value := by
  unfold startLiteral at written
  dsimp only at written
  split at written
  case isFalse => cases written
  case isTrue room =>
    have full := length_slice room.1
    generalize slice record (tab.column i).offset (tab.column i).len = field at full written stands
    generalize tab.column i = col at *
    unfold startText startBlock at written
    unfold startValue at stands
    cases type : col.tp with
    | numeric =>
        simp only [type] at written stands
        cases written
        change (plainNumeral (cstr _)).map Value.num = _
        by_cases empty : field.head? = some 0
        · rw [if_pos empty] at stands ⊢
          cases stands
          rw [cstr_eq_self fun member => absurd (List.eq_of_mem_replicate member) (by decide),
            plainNumeral_zeros col.len_pos]
          rfl
        · rw [if_neg empty] at stands ⊢
          split at stands
          case isFalse => cases stands
          case isTrue plain =>
            cases stands
            obtain ⟨shape, decimal⟩ := map_digitByte_textDigits plain
            have numeral := plainNumeral_pointed (digits type) decimal
              (by rw [textDigits, List.length_map, full])
            rw [shape] at numeral
            have clean := scanNumero_clean (@scanNumero_pointed col _ decimal)
            rw [shape] at clean
            rw [cstr_eq_self clean, numeral]
            rfl
    | character =>
        simp only [type] at written stands
        split at written
        · cases written
        · cases written
          cases stands
          rfl

/-- What `adiciona_comp` writes for the columns of a key from some position on: they are ordered
all in one direction, and the words are read as the nested condition. -/
structure WrittenAs (op : Comparison) (cols : List ℕ) (key : List (ℕ × Value)) (tokens : List Token)
    (order : List (ℕ × Bool)) : Prop where
  order : order = cols.map (·, op.descending)
  words : 3 * cols.length ≤ tokens.length
  equal : op = .eq → ReadAs .conjunction (cols.length + 1) tokens (startExpr op key)
  read : ReadAs .disjunction (8 * cols.length) tokens (startExpr op key)

theorem adicionaComp_written {tab : Table} {record : List Byte} {ncols : ℕ} {op : Comparison}
    {cols : List ℕ} {c : ℕ} {tokens : List Token} {order : List (ℕ × Bool)}
    {key : List (ℕ × Value)} (length : c + cols.length = ncols)
    (digits : ∀ i ∈ cols, (tab.column i).tp = .numeric → (tab.column i).dec < (tab.column i).len)
    (written : adicionaComp tab record 0 false ncols op c cols = .ok (tokens, order))
    (stands : tab.startKey record cols = some key) : WrittenAs op cols key tokens order := by
  obtain ⟨front, rest, rfl, wrote⟩ := adicionaComp_iff.mp written
  obtain ⟨rfl, rfl⟩ := Prod.mk.inj wrote.result
  change WrittenAs op _ key (startWords tab record op front) (front.map (·, op.descending) ++ [])
  have whole : c + front.length = ncols := wrote.last
  rw [List.length_append] at length
  obtain rfl : rest = [] := List.length_eq_zero_iff.mp (by omega)
  rw [List.append_nil] at digits stands ⊢
  have columns := (List.forall₂_and_left front key).mpr ⟨digits, Table.startKey_columns stands⟩
  have columns := (List.forall₂_and_left front key).mpr ⟨wrote.fits.literals, columns⟩
  have denotes : List.Forall₂ (fun i column => column.1 = i ∧
      (startWord tab record i).literal = some column.2) front key := by
    refine columns.imp ?_
    rintro i column ⟨fits, digits, same, stands⟩
    exact ⟨same, startLiteral_denotes digits (startLiteral_iff.mpr ⟨fits, rfl⟩) stands⟩
  obtain ⟨words, equal, read⟩ := startWords_reads denotes wrote.some
  exact ⟨List.append_nil _, words, fun equality => (equal equality).readAs, read.readAs⟩

/-! ## The rows selected -/

theorem Postgres.valueLe_refl (pg : Postgres) (value : Value) : pg.valueLe value value = true :=
  (pg.valueLe_total value value).elim id id

/-- A comparison with a value, split by whether they are equal. -/
theorem Postgres.compares_eq_ite (pg : Postgres) (op : Comparison) {left right : Value}
    (present : right ≠ .null) : pg.compares op left right =
      if left = right then op.inclusive else pg.compares op.strict left right := by
  by_cases equal : left = right
  · subst equal
    rw [if_pos rfl]
    cases op <;> simp [Postgres.compares, present, Comparison.inclusive, pg.valueLe_refl]
  · rw [if_neg equal]
    cases op <;> simp [Postgres.compares, Comparison.strict, equal]

theorem Postgres.compares_eq (pg : Postgres) {left right : Value} (present : right ≠ .null) :
    pg.compares .eq left right = decide (left = right) := by
  by_cases equal : left = right
  · subst equal
    simp [Postgres.compares, present]
  · simp [Postgres.compares, equal]

/-- The nested condition compares keys. -/
theorem startExpr_holds (pg : Postgres) (op : Comparison) (row : Row) :
    ∀ {key : List (ℕ × Value)}, key ≠ [] → (∀ column ∈ key, column.2 ≠ .null) →
      (startExpr op key).holds pg row = pg.keyCompares op row key := by
  intro key
  induction key with
  | nil => intro nonempty; exact (nonempty rfl).elim
  | cons column rest ih =>
      intro _ present
      obtain ⟨i, value⟩ := column
      have here : value ≠ .null := present (i, value) List.mem_cons_self
      by_cases last : rest = []
      · subst last
        change pg.compares op (row.getD i .null) value = _
        exact pg.compares_eq_ite op here
      · have ih := ih last fun column member => present column (List.mem_cons_of_mem _ member)
        unfold startExpr Postgres.keyCompares
        rw [if_neg last]
        by_cases equality : op = .eq
        · subst equality
          simp only [↓reduceIte, Expr.holds, ih, Comparison.strict, pg.compares_eq here]
          by_cases equal : row.getD i .null = value
          · simp only [equal, decide_true, Bool.true_and, ↓reduceIte]
          · simp only [equal, decide_false, Bool.false_and, ↓reduceIte]
        · simp only [equality, ↓reduceIte, Expr.holds, ih, pg.compares_eq here]
          by_cases equal : row.getD i .null = value
          · have strict : pg.compares op.strict value value = false := by
              cases op with
              | eq => exact (equality rfl).elim
              | _ => simp [Postgres.compares, Comparison.strict]
            simp only [equal, strict, decide_true, Bool.true_and, Bool.false_or, ↓reduceIte]
          · simp only [equal, decide_false, Bool.false_and, Bool.or_false, ↓reduceIte]

theorem startValue_ne_null {col : Column} {field : List Byte} {value : Value}
    (stands : startValue col field = some value) : value ≠ .null := by
  unfold startValue at stands
  split at stands
  · split at stands
    · cases stands
      exact nofun
    · split at stands
      · cases stands
        exact nofun
      · cases stands
  · cases stands
    exact nofun

theorem Table.startKey_ne_null {tab : Table} {record : List Byte} {cols : List ℕ}
    {key : List (ℕ × Value)} (stands : tab.startKey record cols = some key) :
    ∀ column ∈ key, column.2 ≠ .null := by
  have columns := Table.startKey_columns stands
  clear stands
  induction columns with
  | nil => exact nofun
  | cons first _ ih => exact List.forall_mem_cons.mpr ⟨startValue_ne_null first.2, ih⟩

/-- The order of rows by a key in one direction. -/
def Postgres.keyLe (pg : Postgres) (op : Comparison) (cols : List ℕ) (a b : Row) : Prop :=
  pg.rowLe (cols.map (·, op.descending)) a b = true

/-- The query of a START by the whole key finds the rows whose keys compare with that of the
record, in the order of the keys. -/
theorem getwhere_query {env : Env} {tab : Table} {record : List Byte} {keyid : ℕ} {op : Comparison}
    {cols : List ℕ} {key : List (ℕ × Value)} {tokens : List Token} {order : List (ℕ × Bool)}
    (known : tab.keys[keyid]? = some cols) (whole : partialColumns env tab keyid = 0)
    (digits : ∀ i ∈ cols, (tab.column i).tp = .numeric → (tab.column i).dec < (tab.column i).len)
    (stands : tab.startKey record cols = some key)
    (written : getwhere env tab record keyid op false = .ok (tokens, order)) (rows : List Row) :
    ∃ found, env.pg.query tokens order rows = some found ∧
      found.Perm (rows.filter fun row => env.pg.keyCompares op row key) ∧
      found.Pairwise (env.pg.keyLe op cols) := by
  unfold getwhere at written
  rw [known, whole] at written
  obtain ⟨⟨tokens', order'⟩, comps, written⟩ := bind_eq_ok.mp written
  dsimp only at written
  split at written
  case isTrue => cases written
  case isFalse =>
    cases written
    have nonempty : cols ≠ [] := by
      rintro rfl
      cases comps
    have after := adicionaComp_written (Nat.zero_add _) digits comps stands
    have read : readCondition tokens = some (startExpr op key) := by
      have words := after.words
      have parsed :=
        after.read (3 * tokens.length + 3) [] (by omega) (by exact nofun) (by exact nofun)
      rw [List.append_nil] at parsed
      unfold readCondition
      rw [parsed]
    obtain ⟨found, query, perm, sorted⟩ := env.pg.query_sorted order rows read
    refine ⟨found, query, ?_, ?_⟩
    · have key_ne : key ≠ [] := by
        rintro rfl
        exact nonempty (Table.map_fst_startKey stands).symm
      have same : (startExpr op key).holds env.pg = fun row => env.pg.keyCompares op row key := by
        funext row
        exact startExpr_holds env.pg op row key_ne (Table.startKey_ne_null stands)
      rwa [same] at perm
    · unfold Postgres.keyLe
      rw [← after.order]
      exact sorted

/-! ## The rows after a row -/

/-- Rows that differ in some column of a key. -/
def Differ (cols : List ℕ) (a b : Row) : Prop := ∃ i ∈ cols, a.getD i .null ≠ b.getD i .null

theorem Differ.symm {cols : List ℕ} {a b : Row} (differ : Differ cols a b) : Differ cols b a := by
  obtain ⟨i, member, different⟩ := differ
  exact ⟨i, member, different.symm⟩

/-- The columns of a key with the values of a row. -/
def rowKey (cols : List ℕ) (row : Row) : List (ℕ × Value) := cols.map fun i => (i, row.getD i .null)

/-- An inequality of different values is that of their order. -/
theorem Postgres.compares_strict (pg : Postgres) {op : Comparison} (inequality : op ≠ .eq)
    {left right : Value} (different : left ≠ right) (present : left ≠ .null)
    (present' : right ≠ .null) : pg.compares op.strict left right =
      if op.descending then pg.valueLe left right else pg.valueLe right left := by
  cases op with
  | eq => exact (inequality rfl).elim
  | _ => simp [Postgres.compares, Comparison.strict, Comparison.descending, different, present,
      present']

variable (pg : Postgres) {op : Comparison} {cols : List ℕ}

/-- A record whose fields stand for the values of a row has the key of the row. -/
theorem Table.startKey_eq_rowKey {tab : Table} {record : List Byte} {key : List (ℕ × Value)}
    {row : Row} (stands : tab.startKey record cols = some key)
    (values : ∀ i ∈ cols, ∀ value, startValue (tab.column i)
      (slice record (tab.column i).offset (tab.column i).len) = some value →
        value = row.getD i .null) : key = rowKey cols row := by
  have columns := Table.startKey_columns stands
  clear stands
  induction columns with
  | nil => rfl
  | @cons i column cols key first _ ih =>
      obtain ⟨j, value⟩ := column
      obtain ⟨rfl, valued⟩ := first
      rw [values j List.mem_cons_self value valued,
        ih fun i member => values i (List.mem_cons_of_mem _ member)]
      rfl

theorem Postgres.keyLe_cons (i : ℕ) (a b : Row) : pg.keyLe op (i :: cols) a b ↔
    if a.getD i .null = b.getD i .null then pg.keyLe op cols a b
    else (if op.descending then pg.valueLe (b.getD i .null) (a.getD i .null)
      else pg.valueLe (a.getD i .null) (b.getD i .null)) = true := by
  unfold Postgres.keyLe
  rw [List.map_cons, Postgres.rowLe]
  split
  · exact Iff.rfl
  · exact Iff.rfl

/-- Rows that are in order both ways have the same key. -/
theorem Postgres.keyLe_antisymm {a b : Row} (one : pg.keyLe op cols a b)
    (two : pg.keyLe op cols b a) : ¬ Differ cols a b := by
  rintro ⟨i, member, different⟩
  induction cols with
  | nil => cases member
  | cons j rest ih =>
      rw [pg.keyLe_cons] at one two
      by_cases same : a.getD j .null = b.getD j .null
      · rw [if_pos same] at one
        rw [if_pos same.symm] at two
        rcases List.mem_cons.mp member with rfl | member
        · exact different same
        · exact ih one two member
      · rw [if_neg same] at one
        rw [if_neg (Ne.symm same)] at two
        split at one
        case isTrue down =>
          rw [if_pos down] at two
          exact same (pg.valueLe_antisymm two one)
        case isFalse up =>
          rw [if_neg up] at two
          exact same (pg.valueLe_antisymm one two)

/-- What comes after a row that an inequality selects is selected too. -/
theorem Postgres.keyCompares_of_keyLe (inequality : op ≠ .eq) {a b : Row}
    (filled : ∀ i ∈ cols, a.getD i .null ≠ .null) (after : pg.keyLe op cols b a)
    {key : List (ℕ × Value)} (columns : key.map Prod.fst = cols)
    (present : ∀ column ∈ key, column.2 ≠ .null) (selected : pg.keyCompares op b key = true) :
    pg.keyCompares op a key = true := by
  induction key generalizing cols with
  | nil => exact selected
  | cons column rest ih =>
      obtain ⟨i, value⟩ := column
      subst columns
      rw [List.map_cons] at filled after
      have here : value ≠ .null := present (i, value) List.mem_cons_self
      have mine : a.getD i .null ≠ .null := filled i List.mem_cons_self
      rw [pg.keyLe_cons] at after
      unfold Postgres.keyCompares at selected ⊢
      by_cases same : b.getD i .null = a.getD i .null
      · rw [if_pos same] at after
        rw [same] at selected
        split
        case isTrue equal =>
          rw [if_pos equal] at selected
          exact ih (fun j member => filled j (List.mem_cons_of_mem _ member)) after rfl
            (fun column member => present column (List.mem_cons_of_mem _ member)) selected
        case isFalse different =>
          rw [if_neg different] at selected
          exact selected
      · rw [if_neg same] at after
        by_cases equal : b.getD i .null = value
        · have different : a.getD i .null ≠ value := fun mine => same (equal.trans mine.symm)
          rw [if_neg different, pg.compares_strict inequality different mine here, ← equal]
          exact after
        · rw [if_neg equal] at selected
          have theirs : b.getD i .null ≠ .null := by
            intro null
            rw [null] at selected
            simp [Postgres.compares] at selected
          rw [pg.compares_strict inequality equal theirs here] at selected
          have different : a.getD i .null ≠ value := by
            intro equal'
            rw [equal'] at after
            split at after
            case isTrue down =>
              rw [if_pos down] at selected
              exact equal (pg.valueLe_antisymm selected after)
            case isFalse up =>
              rw [if_neg up] at selected
              exact equal (pg.valueLe_antisymm after selected)
          rw [if_neg different, pg.compares_strict inequality different mine here]
          split at after
          case isTrue down =>
            rw [if_pos down] at selected ⊢
            exact pg.valueLe_trans after selected
          case isFalse up =>
            rw [if_neg up] at selected ⊢
            exact pg.valueLe_trans selected after

/-- The rows that an inequality with the key of a row selects are those after it, and the row
itself when the comparison includes it. -/
theorem Postgres.keyCompares_rowKey (inequality : op ≠ .eq) {a b : Row}
    (filled : ∀ i ∈ cols, a.getD i .null ≠ .null) (filled' : ∀ i ∈ cols, b.getD i .null ≠ .null) :
    pg.keyCompares op a (rowKey cols b) = true ↔
      pg.keyLe op cols b a ∧ (op.inclusive = true ∨ Differ cols a b) := by
  induction cols with
  | nil =>
      change op.inclusive = true ↔ true = true ∧ _
      refine ⟨fun inclusive => ⟨rfl, .inl inclusive⟩, ?_⟩
      rintro ⟨_, inclusive | ⟨i, member, _⟩⟩
      · exact inclusive
      · cases member
  | cons i rest ih =>
      have ih := ih (fun j member => filled j (List.mem_cons_of_mem _ member))
        fun j member => filled' j (List.mem_cons_of_mem _ member)
      rw [pg.keyLe_cons]
      unfold rowKey Postgres.keyCompares
      rw [List.map_cons]
      dsimp only
      by_cases same : a.getD i .null = b.getD i .null
      · rw [if_pos same, if_pos same.symm]
        have tail : Differ (i :: rest) a b ↔ Differ rest a b := by
          refine ⟨?_, fun ⟨j, member, different⟩ => ⟨j, List.mem_cons_of_mem _ member, different⟩⟩
          rintro ⟨j, member, different⟩
          rcases List.mem_cons.mp member with rfl | member
          · exact (different same).elim
          · exact ⟨j, member, different⟩
        rw [tail]
        exact ih
      · rw [if_neg same, if_neg (Ne.symm same), pg.compares_strict inequality same
          (filled i List.mem_cons_self) (filled' i List.mem_cons_self)]
        have differ : Differ (i :: rest) a b := ⟨i, List.mem_cons_self, same⟩
        exact ⟨fun after => ⟨after, .inr differ⟩, And.left⟩

/-- Where a key identifies rows, what a sorted selection has after a row are the rows that the
strict inequality with the key of the row selects, and with the row those that the other one
does. -/
theorem Postgres.perm_after {op' : Comparison} {key : List (ℕ × Value)} {rows front rest : List Row}
    {row : Row} (inequality : op ≠ .eq) (inequality' : op' ≠ .eq)
    (direction : op'.descending = op.descending) (columns : key.map Prod.fst = cols)
    (present : ∀ column ∈ key, column.2 ≠ .null)
    (filled : ∀ row ∈ rows, ∀ i ∈ cols, row.getD i .null ≠ .null)
    (identifies : rows.Pairwise (Differ cols))
    (found : (front ++ row :: rest).Perm (rows.filter fun row => pg.keyCompares op row key))
    (sorted : (front ++ row :: rest).Pairwise (pg.keyLe op cols)) :
    (if op'.inclusive then row :: rest else rest).Perm
      (rows.filter fun other => pg.keyCompares op' other (rowKey cols row)) := by
  have order : pg.keyLe op' cols = pg.keyLe op cols := by
    funext a b
    unfold Postgres.keyLe
    rw [direction]
  have inside : ∀ other ∈ front ++ row :: rest, other ∈ rows ∧ pg.keyCompares op other key = true :=
    fun other member => List.mem_filter.mp (found.subset member)
  have distinct : (front ++ row :: rest).Pairwise (Differ cols) :=
    (found.pairwise_iff Differ.symm).mpr (identifies.sublist List.filter_sublist)
  have here : row ∈ front ++ row :: rest := List.mem_append_right _ List.mem_cons_self
  have compares : ∀ other ∈ rows, (pg.keyCompares op' other (rowKey cols row) = true ↔
      pg.keyLe op cols row other ∧ (op'.inclusive = true ∨ Differ cols other row)) := by
    intro other member
    rw [← order]
    exact pg.keyCompares_rowKey inequality' (filled other member) (filled row (inside row here).1)
  -- what the second comparison selects is among what the first does
  have narrower : (rows.filter fun other => pg.keyCompares op' other (rowKey cols row)) =
      (rows.filter fun other => pg.keyCompares op other key).filter fun other =>
        pg.keyCompares op' other (rowKey cols row) := by
    rw [List.filter_filter]
    apply List.filter_congr
    intro other member
    cases selected : pg.keyCompares op' other (rowKey cols row) with
    | false => rfl
    | true =>
        have after := ((compares other member).mp selected).1
        exact (pg.keyCompares_of_keyLe inequality (filled other member) after columns present
          (inside row here).2).symm
  rw [List.pairwise_append] at sorted distinct
  obtain ⟨_, sortedRest, sortedAcross⟩ := sorted
  obtain ⟨_, distinctRest, distinctAcross⟩ := distinct
  have before : front.filter (fun other => pg.keyCompares op' other (rowKey cols row)) = [] := by
    rw [List.filter_eq_nil_iff]
    intro other member selected
    have after := ((compares other (inside other (List.mem_append_left _ member)).1).mp selected).1
    exact pg.keyLe_antisymm (sortedAcross other member row List.mem_cons_self) after
      (distinctAcross other member row List.mem_cons_self)
  have behind : rest.filter (fun other => pg.keyCompares op' other (rowKey cols row)) = rest := by
    rw [List.filter_eq_self]
    intro other member
    have among := (inside other (List.mem_append_right _ (List.mem_cons_of_mem _ member))).1
    exact (compares other among).mpr ⟨(List.pairwise_cons.mp sortedRest).1 other member,
      .inr ((List.pairwise_cons.mp distinctRest).1 other member).symm⟩
  have itself : pg.keyCompares op' row (rowKey cols row) = op'.inclusive := by
    rw [Bool.eq_iff_iff, compares row (inside row here).1]
    refine ⟨fun ⟨_, selected⟩ => selected.resolve_right ?_, fun inclusive => ⟨?_, .inl inclusive⟩⟩
    · rintro ⟨i, _, different⟩
      exact different rfl
    · exact (pg.rowLe_total _ row row).elim id id
  rw [narrower]
  refine List.Perm.trans (List.Perm.of_eq ?_) (found.filter _)
  rw [List.filter_append, before, List.nil_append, List.filter_cons, behind, itself]

/-- A value read into the record area and looked for again by START is the same value. -/
theorem startValue_of_fieldBytes {col : Column} {value sought : Value} {field : List Byte}
    (fits : value.Fits col) (present : value ≠ .null)
    (read : fieldBytes col (printValue col value) = .ok field)
    (stands : startValue col field = some sought) : sought = value := by
  unfold startValue at stands
  cases value with
  | null => exact (present rfl).elim
  | num number =>
      obtain ⟨numeric, n, rfl, small⟩ := fits
      rw [fieldBytes_num numeric (dec_lt_of_fieldBytes numeric read) small] at read
      cases read
      have clean := zero_notMem_numericField col.len_pos small
      have filled : (numericField col.len n).head? ≠ some 0 := fun zero =>
        clean (List.mem_of_mem_head? zero)
      simp only [numeric] at stands
      rw [if_neg filled] at stands
      split at stands
      case isFalse => cases stands
      case isTrue plain =>
        cases stands
        by_cases negative : n < 0
        · obtain ⟨front, last, _, decimal, _, _, shape⟩ := numericField_eq col.len_pos small
          rw [if_pos negative] at shape
          rw [shape, List.all_append, Bool.and_eq_true] at plain
          have digit := isDigit_iff.mp (List.all_eq_true.mp plain.2 _ List.mem_cons_self)
          rw [setSign_digitByte_val decimal] at digit
          omega
        · have field : numericField col.len n = (Decimal.fixed col.len n.natAbs).map digitByte := by
            simp only [numericField, negative, ↓reduceIte]
          have whole : (n.natAbs : ℚ) = n := by
            rw [← Int.cast_natCast, Int.natAbs_of_nonneg (by omega)]
          rw [field, textDigits_map_digitByte (Decimal.fixed_lt _ _), Decimal.value_fixed, whole]
  | chr text =>
      obtain ⟨character, short, trimmed, clean⟩ := fits
      rw [fieldBytes_chr character short] at read
      cases read
      simp only [character] at stands
      cases stands
      rw [cstr_eq_self (zero_notMem_blankFill clean _), blankFill, rtrim_append_blanks, trimmed]

end Pqfh
