import Pqfh.Handler.ScanOrder
import Pqfh.Handler.RoundTrip

/-! # What the text of a START says

The condition is read with the precedence of SQL, each literal as the value of the field it stands
for, whatever that is. By the whole key it is the lexicographic comparison of the keys. By a part
of the key it is the equality of the columns of the part, and the ORDER BY part is to name all the
columns of the key.

`escape` does not come to the end of a text with a quote, and the texts are written into buffers
of 257 bytes. After a partial key the ORDER BY part goes on one column too far, so that the column
right after the part is left out, and a part longer than the key is not stopped at the end of the
key.
-/

namespace Pqfh

/-- The literal with the text of a field of the record is read as the value of the field, and no
other one is behind its column. -/
def fieldReading (tab : Table) (record : List Byte) (value : ℕ → Value) (i : ℕ) (token : Token) :
    Option Value :=
  if token = startWord tab record i then some (value i) else none

theorem forall₂_fieldReading (value : ℕ → Value) (tab : Table) (record : List Byte)
    (cols : List ℕ) : List.Forall₂ (fun i column => column.1 = i ∧
      fieldReading tab record value i (startWord tab record i) = some column.2) cols
        (cols.map fun i => (i, value i)) := by
  induction cols with
  | nil => exact .nil
  | cons i rest ih => exact .cons ⟨rfl, if_pos rfl⟩ ih

variable {env : Env} {tab : Table} {record : List Byte} {keyid : ℕ} {op : Comparison}
  {cols : List ℕ}

theorem getwhere_iff {weak : Bool} {tokens : List Token} {order : List (ℕ × Bool)}
    (known : tab.keys[keyid]? = some cols) :
    getwhere env tab record keyid op weak = .ok (tokens, order) ↔
      (∃ front rest, front ++ rest = cols ∧
        Wrote tab record (partialColumns env tab keyid) weak cols.length
          (startOp (partialColumns env tab keyid) op) 0 front rest (tokens, order)) ∧
        orderSize tab order ≤ maxColLen := by
  unfold getwhere
  rw [known]
  dsimp only
  rw [bind_eq_ok, ← adicionaComp_iff]
  constructor
  · rintro ⟨⟨tokens', order'⟩, written, ended⟩
    by_cases room : maxColLen < orderSize tab order'
    · rw [if_pos room] at ended
      cases ended
    · rw [if_neg room] at ended
      cases ended
      exact ⟨written, Nat.le_of_not_lt room⟩
  · rintro ⟨written, room⟩
    exact ⟨_, written, if_neg (Nat.not_lt.mpr room)⟩

/-! ## The whole key -/

/-- A START by the whole key selects the rows whose keys stand in its relation to the key of the
record, and orders them by all the columns of the key in the direction of the relation. -/
def LexicographicText (env : Env) (tab : Table) (record : List Byte) (keyid : ℕ) (op : Comparison)
    (cols : List ℕ) : Prop :=
  ∃ tokens order, getwhere env tab record keyid op false = .ok (tokens, order) ∧
    order = cols.map (·, op.descending) ∧
    ∀ value : ℕ → Value, (∀ i ∈ cols, value i ≠ .null) →
      ∃ condition, readConditionAs (fieldReading tab record value) tokens = some condition ∧
        ∀ row, condition.holds env.pg row =
          env.pg.keyCompares op row (cols.map fun i => (i, value i))

/-- The words of a comparison are read whole. -/
theorem startWords_condition (op : Comparison) (tab : Table) (record : List Byte)
    (value : ℕ → Value) {cols : List ℕ} (nonempty : cols ≠ []) :
    readConditionAs (fieldReading tab record value) (startWords tab record op cols) =
      some (startExpr op (cols.map fun i => (i, value i))) := by
  obtain ⟨words, _, read⟩ : _ ∧ _ ∧
      ReadsAs (fieldReading tab record value) .disjunction (8 * cols.length)
      (startWords tab record op cols) (startExpr op (cols.map fun i => (i, value i))) :=
    startWords_reads (forall₂_fieldReading value tab record cols) nonempty
  exact read.condition (by omega)

/-- The text of a START by the whole key is the lexicographic comparison exactly when the key has a
column and its texts can be written. -/
theorem start_lexicographic_iff (known : tab.keys[keyid]? = some cols) (some : cols ≠ [])
    (whole : partialColumns env tab keyid = 0) :
    LexicographicText env tab record keyid op cols ↔
      WordsFit tab record op cols ∧ orderSize tab (cols.map (·, op.descending)) ≤ maxColLen := by
  have same : startOp (partialColumns env tab keyid) op = op := by
    rw [whole]
    rfl
  constructor
  · rintro ⟨tokens, order, written, ordered, _⟩
    obtain ⟨⟨front, rest, split, wrote⟩, room⟩ := (getwhere_iff known).mp written
    rw [same] at wrote
    have last := wrote.last
    rw [whole] at last
    have all : 0 + front.length = cols.length := last
    rw [← split, List.length_append] at all
    obtain rfl : rest = [] := List.length_eq_zero_iff.mp (by omega)
    rw [List.append_nil] at split
    subst split
    exact ⟨wrote.fits, ordered ▸ room⟩
  · rintro ⟨fits, room⟩
    refine ⟨startWords tab record op cols, cols.map (·, op.descending), ?_, rfl, ?_⟩
    · refine (getwhere_iff known).mpr ⟨⟨cols, [], List.append_nil _, ?_⟩, room⟩
      rw [same, whole]
      exact ⟨some, Nat.zero_add _, fun both => absurd both.1 (Nat.lt_irrefl 0), nofun, fits,
        by rw [show orderRest 0 false [] = [] from rfl, List.append_nil]⟩
    · intro value present
      refine ⟨_, startWords_condition op tab record value some, fun row => ?_⟩
      apply startExpr_holds
      · rwa [ne_eq, List.map_eq_nil_iff]
      · intro column member
        obtain ⟨i, here, rfl⟩ := List.mem_map.mp member
        exact present i here

/-- The key of one letter. -/
def letterTable : Table :=
  Table.opened 1 1 0 [] [⟨"letra", .character, 1, 0, 0, true, one_digit, no_decimals_of_one⟩]
    [[0]] 0
    (clearBuffers maxCols)

/-- The key of a letter, a digit and another letter. -/
def seriesTable : Table :=
  Table.opened 1 1 0 [] [⟨"serie", .character, 1, 0, 0, true, one_digit, no_decimals_of_one⟩,
    ⟨"numero", .numeric, 1, 0, 1, true, one_digit, no_decimals_of_one⟩,
    ⟨"letra", .character, 1, 0, 2, true, one_digit, no_decimals_of_one⟩] [[0, 1, 2]] 0
      (clearBuffers maxCols)

/-- The rows above the key A7B, from the first on, and those below it, from the last on. -/
theorem start_lexicographic_series :
    LexicographicText plainServer seriesTable [65, 55, 66] 0 .gt [0, 1, 2] ∧
      LexicographicText plainServer seriesTable [65, 55, 66] 0 .lt [0, 1, 2] := by
  have fits : ∀ i, (i = 0 ∨ i = 1 ∨ i = 2) → LiteralFits seriesTable [65, 55, 66] i := by
    rintro i (rfl | rfl | rfl)
    · exact ⟨Nat.le_add_left 1 2, Nat.le_add_left 1 255, fun _ => (by decide : 39 ∉ cstr [65])⟩
    · exact ⟨Nat.le_succ 2, Nat.le_add_left 1 255, fun text => nomatch text⟩
    · exact ⟨le_rfl, Nat.le_add_left 1 255, fun _ => (by decide : 39 ∉ cstr [66])⟩
  have first := fits 0 (.inl rfl)
  have second := fits 1 (.inr (.inl rfl))
  have third := fits 2 (.inr (.inr rfl))
  constructor
  · exact Iff.mpr (start_lexicographic_iff rfl (List.cons_ne_nil _ _) rfl)
      ⟨⟨first, by decide +kernel, second, by decide +kernel, third, by decide +kernel⟩,
        by decide +kernel⟩
  · exact Iff.mpr (start_lexicographic_iff rfl (List.cons_ne_nil _ _) rfl)
      ⟨⟨first, by decide +kernel, second, by decide +kernel, third, by decide +kernel⟩,
        by decide +kernel⟩

/-- A quote as the key: the text of the condition does not come to an end. -/
theorem start_misses_quote : ¬ LexicographicText plainServer letterTable [39] 0 .ge [0] := by
  rintro ⟨tokens, order, written, _⟩
  have stuck : (getwhere plainServer letterTable [39] 0 .ge false).toOption = none := by
    decide +kernel
  rw [written] at stuck
  cases stuck

/-! ## A part of the key -/

/-- A START by some columns of a key selects the rows that have the values of the record in them,
and delivers them in the order of the full key. -/
def PrefixText (env : Env) (tab : Table) (record : List Byte) (keyid : ℕ) (op : Comparison)
    (weak : Bool) (cols : List ℕ) (compared : ℕ) : Prop :=
  ∃ tokens order, getwhere env tab record keyid op weak = .ok (tokens, order) ∧
    order = cols.map (·, false) ∧
    (∀ rows, (env.pg.arrange (env.pg.rowLe order) rows).Pairwise (env.pg.keyLe .eq cols)) ∧
    ∀ value : ℕ → Value, (∀ i ∈ cols, value i ≠ .null) →
      ∃ condition, readConditionAs (fieldReading tab record value) tokens = some condition ∧
        ∀ row, condition.holds env.pg row =
          decide (∀ i ∈ cols.take compared, row.getD i .null = value i)

/-- The number of columns that a START by a part of a key of `n` columns is to compare. -/
def prefixColumns (partialKey n : ℕ) : ℕ := if 0 < partialKey then min partialKey n else n - 1

/-- An equality of keys is the equality of all columns. -/
theorem keyCompares_eq (pg : Postgres) (row : Row) (value : ℕ → Value) (cols : List ℕ)
    (present : ∀ i ∈ cols, value i ≠ .null) :
    pg.keyCompares .eq row (cols.map fun i => (i, value i)) =
      decide (∀ i ∈ cols, row.getD i .null = value i) := by
  induction cols with
  | nil => exact (decide_eq_true (by simp)).symm
  | cons i rest ih =>
      obtain ⟨here, later⟩ := List.forall_mem_cons.mp present
      rw [List.map_cons, Postgres.keyCompares, ih later]
      by_cases equal : row.getD i .null = value i
      · simp only [equal, ↓reduceIte, List.forall_mem_cons, true_and]
      · rw [if_neg equal]
        change pg.compares .eq _ _ = _
        rw [pg.compares_eq here, decide_eq_false equal]
        exact (decide_eq_false fun all => equal (all i List.mem_cons_self)).symm

/-- By a partial key the rows are selected and ordered as they should be just when the part is the
whole key, on a weak table when the key has a second column. -/
theorem start_prefix_iff {weak : Bool} (known : tab.keys[keyid]? = some cols)
    (part : 0 < partialColumns env tab keyid ∨ weak = true) (probes : weak = true → op = .eq) :
    PrefixText env tab record keyid op weak cols
        (prefixColumns (partialColumns env tab keyid) cols.length) ↔
      (if 0 < partialColumns env tab keyid then
          partialColumns env tab keyid = cols.length ∧ weak = false else 2 ≤ cols.length) ∧
        WordsFit tab record .eq
          (cols.take (prefixColumns (partialColumns env tab keyid) cols.length)) ∧
        orderSize tab (cols.map (·, false)) ≤ maxColLen := by
  generalize size : partialColumns env tab keyid = p at part ⊢
  have same : startOp p op = .eq := by
    unfold startOp
    split
    · rfl
    · rename_i zero
      exact probes (part.resolve_left zero)
  constructor
  · rintro ⟨tokens, order, written, ordered, _⟩
    obtain ⟨⟨front, rest, split, wrote⟩, room⟩ := (getwhere_iff known).mp written
    rw [size, same] at wrote
    have listed := (Prod.mk.inj wrote.result).2
    rw [ordered, ← split, List.map_append] at listed
    have listed : rest.map (·, false) = orderRest p weak rest := List.append_cancel_left listed
    have last := wrote.last
    rw [Nat.zero_add] at last
    have fits := wrote.fits
    have front_eq : front = cols.take front.length := by
      rw [← split, List.take_left]
    unfold comparedColumns at last
    unfold orderRest at listed
    unfold prefixColumns
    by_cases some : 0 < p
    · have strong : weak = false := Bool.eq_false_iff.mpr fun weak => wrote.one ⟨some, weak⟩
      rw [if_pos some] at last ⊢
      rw [strong, if_neg Bool.false_ne_true, if_pos some] at listed
      have lengths := congrArg List.length listed
      rw [List.length_map, List.length_map, List.length_drop] at lengths
      obtain rfl : rest = [] := List.length_eq_zero_iff.mp (by omega)
      rw [List.append_nil] at split
      subst split
      rw [if_pos some, ← last, min_self, List.take_length]
      exact ⟨⟨rfl, strong⟩, fits, ordered ▸ room⟩
    · have weak := part.resolve_left some
      rw [if_neg some, if_pos weak] at last
      rw [if_neg some, if_neg some, ← last, ← front_eq]
      have more := List.length_pos_iff.mpr wrote.some
      exact ⟨by omega, fits, ordered ▸ room⟩
  · rintro ⟨group, fits, room⟩
    have wrote : Wrote tab record p weak cols.length .eq 0
        (cols.take (prefixColumns p cols.length)) (cols.drop (prefixColumns p cols.length))
        (startWords tab record .eq (cols.take (prefixColumns p cols.length)),
          cols.map (·, false)) := by
      by_cases partly : 0 < p
      · rw [if_pos partly] at group
        obtain ⟨rfl, rfl⟩ := group
        have all : prefixColumns cols.length cols.length = cols.length := by
          rw [prefixColumns, if_pos partly, min_self]
        rw [all, List.take_length] at fits ⊢
        rw [List.drop_length]
        refine ⟨List.length_pos_iff.mp partly, ?_, fun both => Bool.false_ne_true both.2, nofun,
          fits, ?_⟩
        · rw [Nat.zero_add, comparedColumns, if_pos partly]
        · rw [orderRest, if_neg Bool.false_ne_true, if_pos partly]
          exact congrArg _ (List.append_nil _).symm
      · rw [if_neg partly] at group
        have all : prefixColumns p cols.length = cols.length - 1 := by
          rw [prefixColumns, if_neg partly]
        rw [all] at fits ⊢
        have one : (cols.drop (cols.length - 1)).length = 1 := by
          rw [List.length_drop]
          omega
        refine ⟨?_, ?_, fun both => partly both.1, fun _ => ?_, fits, ?_⟩
        · rw [ne_eq, ← List.length_eq_zero_iff, List.length_take]
          omega
        · rw [List.length_take, comparedColumns, if_neg partly, if_pos (part.resolve_left partly)]
          omega
        · rw [ne_eq, ← List.length_eq_zero_iff, one]
          exact Nat.one_ne_zero
        · rw [orderRest, if_pos (part.resolve_left partly), List.take_of_length_le one.le]
          change _ = (_, List.map (fun i => (i, false)) _ ++ _)
          rw [← List.map_append, List.take_append_drop]
    have written : getwhere env tab record keyid op weak =
        .ok (startWords tab record .eq (cols.take (prefixColumns p cols.length)),
          cols.map (·, false)) := by
      refine (getwhere_iff known).mpr ⟨⟨cols.take (prefixColumns p cols.length),
        cols.drop (prefixColumns p cols.length), List.take_append_drop _ _, ?_⟩, room⟩
      rw [size, same]
      exact wrote
    refine ⟨_, _, written, rfl, fun rows => ?_, fun value present => ?_⟩
    · exact env.pg.arrange_sorted _ _ (env.pg.rowLe_total _) (env.pg.rowLe_trans _)
    · refine ⟨_, startWords_condition .eq tab record value wrote.some, fun row => ?_⟩
      have present := fun i (member : i ∈ cols.take (prefixColumns p cols.length)) =>
        present i (List.mem_of_mem_take member)
      rw [← keyCompares_eq env.pg row value _ present]
      apply startExpr_holds
      · rw [ne_eq, List.map_eq_nil_iff]
        exact wrote.some
      · intro column member
        obtain ⟨i, here, rfl⟩ := List.mem_map.mp member
        exact present i here

/-- The key of a digit and a letter, the first columns of it set by PARTIAL. -/
def codeTable (partialKey : ℕ) : Table :=
  Table.opened 1 1 0 [] [⟨"numero", .numeric, 1, 0, 0, true, one_digit, no_decimals_of_one⟩,
    ⟨"letra", .character, 1, 0, 1, true, one_digit, no_decimals_of_one⟩] [[0, 1]] partialKey
      (clearBuffers maxCols)

/-- Both columns of the key as the part, and the number on a weak table. -/
theorem start_prefix_whole :
    PrefixText plainServer (codeTable 2) [49, 65] 0 .ge false [0, 1] (prefixColumns 2 2) ∧
      PrefixText plainServer (codeTable 0) [49, 65] 0 .eq true [0, 1] (prefixColumns 0 2) := by
  have fits : ∀ p i, (i = 0 ∨ i = 1) → LiteralFits (codeTable p) [49, 65] i := by
    rintro p i (rfl | rfl)
    · exact ⟨Nat.le_succ 1, Nat.le_add_left 1 255, fun text => nomatch text⟩
    · exact ⟨le_rfl, Nat.le_add_left 1 255, fun _ => (by decide : 39 ∉ cstr [65])⟩
  have all : 0 < partialColumns plainServer (codeTable 2) 0 := by decide
  have known : ∀ p, (codeTable p).keys[0]? = some [0, 1] := fun _ => rfl
  constructor
  · exact Iff.mpr (start_prefix_iff (known 2) (.inl all) fun weak => nomatch weak)
      ⟨⟨rfl, rfl⟩, ⟨fits 2 0 (.inl rfl), by decide +kernel, fits 2 1 (.inr rfl), by decide +kernel⟩,
        by decide +kernel⟩
  · exact Iff.mpr (start_prefix_iff (known 0) (.inr rfl) fun _ => rfl)
      ⟨le_rfl, ⟨fits 0 0 (.inl rfl), by decide +kernel⟩, by decide +kernel⟩

/-- The first of two columns as the part: the ORDER BY part does not name the second. -/
theorem start_prefix_misses_next :
    ¬ PrefixText plainServer (codeTable 1) [49, 65] 0 .ge false [0, 1] (prefixColumns 1 2) := by
  rintro ⟨tokens, order, written, ordered, _⟩
  have listed : (Prod.snd <$> getwhere plainServer (codeTable 1) [49, 65] 0 .ge false) =
      .ok [(0, false)] := by
    decide +kernel
  rw [written, ordered] at listed
  cases listed

end Pqfh
