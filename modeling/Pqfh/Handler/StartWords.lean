import Pqfh.Handler.Scan
import Pqfh.Postgres.Reading

/-! # The words of a START

`adiciona_comp` writes one comparison for each column of a key, up to the last one that is to be
compared: the last column of the key, the last of a partial key, or the last but one on a weak
table. The columns that follow are only added to the ORDER BY part. It returns when there is such
a column and every text has room (`Pqfh.WordsFit`); what it has written then are
`Pqfh.startWords`.
-/

namespace Pqfh

/-! ## Literals -/

/-- The literal of a key field. -/
def startWord (tab : Table) (record : List Byte) (i : ℕ) : Token :=
  let text := startText (tab.column i) (slice record (tab.column i).offset (tab.column i).len)
  match (tab.column i).tp with
  | .numeric => .number text
  | .character => .quoted text

/-- A key field that becomes a literal: it lies in the record, what is copied of it has room, and
it has no quote if it is a text. -/
structure LiteralFits (tab : Table) (record : List Byte) (i : ℕ) : Prop where
  inside : (tab.column i).offset + (tab.column i).len ≤ record.length
  room : (startBlock (tab.column i)
    (slice record (tab.column i).offset (tab.column i).len)).length ≤ maxColLen
  unquoted : (tab.column i).tp = .character →
    39 ∉ cstr (slice record (tab.column i).offset (tab.column i).len)

theorem startLiteral_iff {tab : Table} {record : List Byte} {i : ℕ} {word : Token} :
    startLiteral tab record i = .ok word ↔
      LiteralFits tab record i ∧ word = startWord tab record i := by
  unfold startLiteral startWord
  dsimp only
  split
  case isFalse outside =>
    refine ⟨nofun, ?_⟩
    rintro ⟨fits, _⟩
    exact (outside ⟨fits.inside, fits.room⟩).elim
  case isTrue inside =>
    cases type : (tab.column i).tp with
    | numeric =>
        refine ⟨fun written => ?_, fun fits => congrArg _ fits.2.symm⟩
        cases written
        exact ⟨⟨inside.1, inside.2, fun text => nomatch type.symm.trans text⟩, rfl⟩
    | character =>
        have text : startText (tab.column i)
            (slice record (tab.column i).offset (tab.column i).len) =
              cstr (slice record (tab.column i).offset (tab.column i).len) := by
          unfold startText startBlock
          rw [type]
        dsimp only
        rw [text]
        split
        case isTrue quoted =>
          refine ⟨nofun, ?_⟩
          rintro ⟨fits, _⟩
          exact (fits.unquoted type quoted).elim
        case isFalse unquoted =>
          refine ⟨fun written => ?_, fun fits => congrArg _ fits.2.symm⟩
          cases written
          exact ⟨⟨inside.1, inside.2, fun _ => unquoted⟩, rfl⟩

/-! ## Words that have room -/

/-- The words for a column that is the last one compared. -/
def lastWords (tab : Table) (record : List Byte) (op : Comparison) (i : ℕ) : List Token :=
  [.column i, .compare op, startWord tab record i]

/-- The words for a column before the last, without the parentheses closed after the rest. -/
def innerWords (tab : Table) (record : List Byte) (op : Comparison) (i : ℕ) : List Token :=
  if op = .eq then [.column i, .compare op, startWord tab record i, .and]
  else [.column i, .compare op.strict, startWord tab record i, .or, .opening, .column i,
    .compare .eq, startWord tab record i, .and, .opening]

/-- The comparison of some columns. -/
def startWords (tab : Table) (record : List Byte) (op : Comparison) : List ℕ → List Token
  | [] => []
  | [i] => lastWords tab record op i
  | i :: rest => innerWords tab record op i ++ startWords tab record op rest ++
      if op = .eq then [] else [.closing, .closing]

/-- The length of the text of the last comparison: a name, an operator and a literal. -/
def lastRoom (tab : Table) (record : List Byte) (op : Comparison) (i : ℕ) : ℕ :=
  (tab.column i).name.utf8ByteSize + op.size + (startWord tab record i).size tab + 2

/-- The length of the text before the comparison of the next column. An inequality takes the name
and the literal twice. -/
def innerRoom (tab : Table) (record : List Byte) (op : Comparison) (i : ℕ) : ℕ :=
  if op = .eq then (tab.column i).name.utf8ByteSize + (startWord tab record i).size tab + 8
  else 2 * (tab.column i).name.utf8ByteSize + 2 * (startWord tab record i).size tab + 19

theorem wordsSize_lastWords (tab : Table) (record : List Byte) (op : Comparison) (i : ℕ) :
    wordsSize tab (lastWords tab record op i) - 1 = lastRoom tab record op i := by
  simp only [wordsSize, lastWords, lastRoom, List.map_cons, List.map_nil, List.sum_cons,
    List.sum_nil, Token.size]
  omega

theorem wordsSize_innerWords (tab : Table) (record : List Byte) (op : Comparison) (i : ℕ) :
    wordsSize tab (innerWords tab record op i) = innerRoom tab record op i := by
  unfold wordsSize innerWords innerRoom
  cases op <;> simp [Token.size, Comparison.size, Comparison.strict] <;> omega

/-- The words of every column have room in the buffer. -/
def WordsFit (tab : Table) (record : List Byte) (op : Comparison) : List ℕ → Prop
  | [] => True
  | [i] => LiteralFits tab record i ∧ lastRoom tab record op i ≤ maxColLen
  | i :: rest => LiteralFits tab record i ∧ innerRoom tab record op i ≤ maxColLen ∧
      WordsFit tab record op rest

theorem startWords_cons {tab : Table} {record : List Byte} {op : Comparison} {i : ℕ} {rest : List ℕ}
    (more : rest ≠ []) : startWords tab record op (i :: rest) =
      innerWords tab record op i ++ startWords tab record op rest ++
        if op = .eq then [] else [.closing, .closing] := by
  obtain ⟨j, rest, rfl⟩ := List.exists_cons_of_ne_nil more
  rfl

theorem wordsFit_cons {tab : Table} {record : List Byte} {op : Comparison} {i : ℕ} {rest : List ℕ}
    (more : rest ≠ []) : WordsFit tab record op (i :: rest) ↔ LiteralFits tab record i ∧
      innerRoom tab record op i ≤ maxColLen ∧ WordsFit tab record op rest := by
  obtain ⟨j, rest, rfl⟩ := List.exists_cons_of_ne_nil more
  exact Iff.rfl

/-! ## What adiciona_comp writes -/

/-- The operator that is used: a partial key is compared with equality. -/
def startOp (partialKey : ℕ) (op : Comparison) : Comparison := if 0 < partialKey then .eq else op

theorem startOp_startOp (partialKey : ℕ) (op : Comparison) :
    startOp partialKey (startOp partialKey op) = startOp partialKey op := by
  unfold startOp
  split <;> rfl

/-- The number of columns to be compared, `last + 1`. -/
def comparedColumns (partialKey : ℕ) (weak : Bool) (ncols : ℕ) : ℕ :=
  if 0 < partialKey then partialKey else if weak then ncols - 1 else ncols

/-- What is added to the ORDER BY part for the columns that follow. -/
def orderRest (partialKey : ℕ) (weak : Bool) (rest : List ℕ) : List (ℕ × Bool) :=
  if weak then (rest.take 1).map (·, false)
  else if 0 < partialKey then (rest.drop 1).map (·, false) else []

/-- `adiciona_comp` has written the comparison of the columns up to the last to be compared. -/
structure Wrote (tab : Table) (record : List Byte) (partialKey : ℕ) (weak : Bool) (ncols : ℕ)
    (op : Comparison) (c : ℕ) (front rest : List ℕ)
    (result : List Token × List (ℕ × Bool)) : Prop where
  some : front ≠ []
  last : c + front.length = comparedColumns partialKey weak ncols
  one : ¬ (0 < partialKey ∧ weak = true)
  follows : weak = true → rest ≠ []
  fits : WordsFit tab record op front
  result : result = (startWords tab record op front,
    front.map (·, op.descending) ++ orderRest partialKey weak rest)

variable {tab : Table} {record : List Byte} {partialKey : ℕ} {weak : Bool} {ncols : ℕ}

/-- The last column compared. -/
theorem adicionaComp_last {op : Comparison} {c i : ℕ} {rest : List ℕ}
    {result : List Token × List (ℕ × Bool)} (last : c + 1 = comparedColumns partialKey weak ncols) :
    adicionaComp tab record partialKey weak ncols op c (i :: rest) = .ok result ↔
      Wrote tab record partialKey weak ncols (startOp partialKey op) c [i] rest result := by
  unfold adicionaComp startOp
  dsimp only
  generalize (if 0 < partialKey then Comparison.eq else op) = op
  rw [bind_eq_ok]
  change (∃ word, startLiteral tab record i = .ok word ∧
    (if c + 1 = comparedColumns partialKey weak ncols then _ else _) = _) ↔ _
  simp only [if_pos last, startLiteral_iff]
  constructor
  · rintro ⟨_, ⟨fits, rfl⟩, written⟩
    by_cases room : maxColLen < wordsSize tab (lastWords tab record op i) - 1
    · rw [show [.column i, .compare op, startWord tab record i] =
        lastWords tab record op i from rfl,
        if_pos room] at written
      cases written
    · rw [show [.column i, .compare op, startWord tab record i] =
        lastWords tab record op i from rfl,
        if_neg room] at written
      by_cases one : 0 < partialKey ∧ weak = true
      · rw [if_pos (by rw [one.2, decide_eq_true one.1]; rfl)] at written
        cases written
      · rw [if_neg (by rwa [Bool.and_eq_true, decide_eq_true_iff])] at written
        rw [wordsSize_lastWords] at room
        have fits : WordsFit tab record op [i] := ⟨fits, Nat.le_of_not_lt room⟩
        cases weak with
        | false =>
            cases written
            exact ⟨List.cons_ne_nil _ _, last, one, nofun, fits, rfl⟩
        | true =>
            cases rest with
            | nil => cases written
            | cons next rest =>
                cases written
                exact ⟨List.cons_ne_nil _ _, last, one, fun _ => List.cons_ne_nil _ _, fits, rfl⟩
  · intro wrote
    obtain ⟨fits, room⟩ := wrote.fits
    rw [← wordsSize_lastWords] at room
    refine ⟨_, ⟨fits, rfl⟩, ?_⟩
    rw [wrote.result, show [.column i, .compare op, startWord tab record i] =
      lastWords tab record op i from rfl, if_neg (Nat.not_lt.mpr room),
      if_neg (by rw [Bool.and_eq_true, decide_eq_true_iff]; exact wrote.one)]
    cases weak with
    | false => rfl
    | true =>
        obtain ⟨next, rest, rfl⟩ := List.exists_cons_of_ne_nil (wrote.follows rfl)
        rfl

/-- Words that have room are joined with what the other columns give. -/
theorem joined_iff {α β : Type} {size : ℕ} {rest : Except Stop α} {join : α → β} {result : β} :
    (if maxColLen < size then .error .undefined
      else rest >>= fun made => .ok (join made)) = Except.ok result ↔
      size ≤ maxColLen ∧ ∃ made, rest = .ok made ∧ result = join made := by
  split
  case isTrue full =>
    exact ⟨nofun, fun ⟨room, _⟩ => absurd room (Nat.not_le.mpr full)⟩
  case isFalse room =>
    rw [bind_eq_ok]
    constructor
    · rintro ⟨made, further, ended⟩
      cases ended
      exact ⟨Nat.le_of_not_lt room, made, further, rfl⟩
    · rintro ⟨_, made, further, rfl⟩
      exact ⟨made, further, rfl⟩

/-- A column before the last one compared. -/
theorem adicionaComp_inner {op : Comparison} {c i : ℕ} {rest : List ℕ}
    {result : List Token × List (ℕ × Bool)} (last : c + 1 ≠ comparedColumns partialKey weak ncols) :
    adicionaComp tab record partialKey weak ncols op c (i :: rest) = .ok result ↔
      LiteralFits tab record i ∧
        innerRoom tab record (startOp partialKey op) i ≤ maxColLen ∧
        ∃ tokens order,
          adicionaComp tab record partialKey weak ncols (startOp partialKey op) (c + 1)
            rest = .ok (tokens, order) ∧
          result = (innerWords tab record (startOp partialKey op) i ++ tokens ++
            (if startOp partialKey op = .eq then [] else [.closing, .closing]),
            (i, (startOp partialKey op).descending) :: order) := by
  rw [adicionaComp]
  unfold startOp
  dsimp only
  generalize (if 0 < partialKey then Comparison.eq else op) = op
  rw [bind_eq_ok]
  change (∃ word, startLiteral tab record i = .ok word ∧
    (if c + 1 = comparedColumns partialKey weak ncols then _ else if op = .eq then _ else _) = _) ↔
    _
  simp only [if_neg last, startLiteral_iff, ← wordsSize_innerWords]
  unfold innerWords
  by_cases equality : op = .eq
  · subst equality
    simp only [↓reduceIte, List.append_nil]
    constructor
    · rintro ⟨_, ⟨fits, rfl⟩, written⟩
      obtain ⟨room, ⟨tokens, order⟩, further, rfl⟩ := joined_iff.mp written
      exact ⟨fits, room, tokens, order, further, rfl⟩
    · rintro ⟨fits, room, tokens, order, further, rfl⟩
      exact ⟨_, ⟨fits, rfl⟩, joined_iff.mpr ⟨room, _, further, rfl⟩⟩
  · simp only [if_neg equality]
    constructor
    · rintro ⟨_, ⟨fits, rfl⟩, written⟩
      obtain ⟨room, ⟨tokens, order⟩, further, rfl⟩ := joined_iff.mp written
      exact ⟨fits, room, tokens, order, further, rfl⟩
    · rintro ⟨fits, room, tokens, order, further, rfl⟩
      exact ⟨_, ⟨fits, rfl⟩, joined_iff.mpr ⟨room, _, further, rfl⟩⟩

theorem adicionaComp_iff : ∀ {cols : List ℕ} {op : Comparison} {c : ℕ}
    {result : List Token × List (ℕ × Bool)},
    adicionaComp tab record partialKey weak ncols op c cols = .ok result ↔
      ∃ front rest, front ++ rest = cols ∧
        Wrote tab record partialKey weak ncols (startOp partialKey op) c front rest result := by
  intro cols
  induction cols with
  | nil =>
      intro op c result
      refine ⟨nofun, ?_⟩
      rintro ⟨front, rest, split, wrote⟩
      exact (wrote.some (List.append_eq_nil_iff.mp split).1).elim
  | cons i cols ih =>
      intro op c result
      by_cases last : c + 1 = comparedColumns partialKey weak ncols
      · rw [adicionaComp_last last]
        refine ⟨fun wrote => ⟨[i], cols, rfl, wrote⟩, ?_⟩
        rintro ⟨front, rest, split, wrote⟩
        obtain ⟨j, front, rfl⟩ := List.exists_cons_of_ne_nil wrote.some
        cases split
        have length := wrote.last
        rw [List.length_cons, ← last] at length
        obtain rfl : front = [] := List.length_eq_zero_iff.mp (by omega)
        exact wrote
      · rw [adicionaComp_inner last]
        simp only [ih, startOp_startOp]
        constructor
        · rintro ⟨fits, room, tokens, order, ⟨front, rest, rfl, wrote⟩, rfl⟩
          obtain ⟨rfl, rfl⟩ := Prod.mk.inj wrote.result
          refine ⟨i :: front, rest, rfl, List.cons_ne_nil _ _, ?_, wrote.one, wrote.follows,
            (wordsFit_cons wrote.some).mpr ⟨fits, room, wrote.fits⟩, ?_⟩
          · rw [List.length_cons, ← wrote.last]
            omega
          · rw [startWords_cons wrote.some]
            rfl
        · rintro ⟨front, rest, split, wrote⟩
          obtain ⟨j, front, rfl⟩ := List.exists_cons_of_ne_nil wrote.some
          cases split
          have more : front ≠ [] := by
            rintro rfl
            exact last wrote.last
          obtain ⟨fits, room, later⟩ := (wordsFit_cons more).mp wrote.fits
          refine ⟨fits, room, _, _, ⟨front, rest, rfl, more, ?_, wrote.one, wrote.follows, later,
            rfl⟩, ?_⟩
          · rw [← wrote.last, List.length_cons]
            omega
          · rw [wrote.result, startWords_cons more]
            rfl

theorem WordsFit.literals {op : Comparison} :
    ∀ {cols : List ℕ}, WordsFit tab record op cols → ∀ i ∈ cols, LiteralFits tab record i := by
  intro cols
  induction cols with
  | nil => exact fun _ => nofun
  | cons i rest ih =>
      intro fits
      by_cases last : rest = []
      · subst last
        exact List.forall_mem_singleton.mpr fits.1
      · obtain ⟨first, _, later⟩ := (wordsFit_cons last).mp fits
        exact List.forall_mem_cons.mpr ⟨first, ih later⟩

/-! ## What the words say -/

/-- The condition for a key. -/
def startExpr (op : Comparison) : List (ℕ × Value) → Expr
  | [] => .compare 0 op .null
  | (i, value) :: rest =>
      if rest = [] then .compare i op value
      else if op = .eq then .and (.compare i .eq value) (startExpr op rest)
      else .or (.compare i op.strict value) (.and (.compare i .eq value) (startExpr op rest))

/-- The words are read as the nested condition, and as a conjunction when it is an equality. -/
theorem startWords_reads {literal : ℕ → Token → Option Value} {op : Comparison} :
    ∀ {cols : List ℕ} {key : List (ℕ × Value)},
      List.Forall₂ (fun i column => column.1 = i ∧
        literal i (startWord tab record i) = some column.2) cols key → cols ≠ [] →
      3 * cols.length ≤ (startWords tab record op cols).length ∧
        (op = .eq → ReadsAs literal .conjunction (cols.length + 1)
          (startWords tab record op cols) (startExpr op key)) ∧
        ReadsAs literal .disjunction (8 * cols.length) (startWords tab record op cols)
          (startExpr op key) := by
  intro cols
  induction cols with
  | nil => exact fun _ nonempty => (nonempty rfl).elim
  | cons i rest ih =>
      intro key denotes _
      obtain ⟨⟨i', value⟩, key', ⟨rfl, denoted⟩, later, rfl⟩ :=
        List.forall₂_cons_left_iff.mp denotes
      by_cases last : rest = []
      · subst last
        cases later
        have read := readsAs_last denoted op
        exact ⟨le_rfl, fun _ => read, read.disjunction.mono (by rw [List.length_singleton]; omega)⟩
      · have more : key' ≠ [] := by
          rintro rfl
          exact last (List.length_eq_zero_iff.mp later.length_eq)
        obtain ⟨words, equal, read⟩ := ih later last
        have shape : startExpr op ((i', value) :: key') =
            if op = .eq then .and (.compare i' .eq value) (startExpr op key')
            else .or (.compare i' op.strict value)
                (.and (.compare i' .eq value) (startExpr op key')) :=
          if_neg more
        rw [startWords_cons last, List.length_cons]
        unfold innerWords
        by_cases equality : op = .eq
        · have whole := readsAs_eq denoted (equal equality) (by omega)
          simp only [if_pos equality, List.append_nil] at shape ⊢
          rw [← shape, ← equality] at whole
          refine ⟨?_, fun _ => whole, whole.disjunction.mono (by omega)⟩
          rw [List.length_append, List.length_cons, List.length_cons, List.length_cons]
          omega
        · have whole := readsAs_strict denoted op.strict read
          simp only [if_neg equality] at shape ⊢
          rw [← shape] at whole
          refine ⟨?_, fun equality' => absurd equality' equality, whole.mono (by omega)⟩
          rw [List.length_append, List.length_append, List.length_cons, List.length_cons,
            List.length_cons]
          omega

end Pqfh
