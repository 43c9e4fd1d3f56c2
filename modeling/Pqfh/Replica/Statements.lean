import Pqfh.Changelog.Decode
import Pqfh.Handler.WholeKey
import Pqfh.Replica.Clones

/-! # The values in the statements of a replica

The statements to the other database take their texts from the rows `tab->bufs` that the statement
just executed has filled, each column from the row `col->p`. The operations number the columns at
different moments: `op_write` numbers all of them each time; `op_rewrite` numbers the columns of its
UPDATE when it prepares it; `getwhere_prepared` numbers the columns of a key when a random read or a
DELETE is prepared. A statement that is executed again finds the numbers of whatever came last.

The other database is taken to accept the statements; one that it refuses ends the process.
-/

namespace Pqfh

/-! ## The numbers of the columns -/

/-- `col->p` of the columns, none while it is not set. -/
abbrev Places := ℕ → Option ℕ

/-- Columns numbered in their order, from `p` on. -/
def place : ℕ → List ℕ → Places → Places
  | _, [], places => places
  | p, i :: cols, places => place (p + 1) cols (Function.update places i (some p))

/-- The numbers after `op_read_random`, which calls `getwhere_prepared` when it prepares. -/
def readPlaces (st : State) (places : Places) : Places :=
  if st.fcd.openMode = 128 then places
  else match st.tab.readPrepared st.fcd.keyId with
    | some _ => places
    | none => place 0 (whereColumns st.tab.keys st.fcd.keyId) places

/-- The columns of the statement of an operation, in the order of its parameters. -/
def ReplicaOp.columns (op : ReplicaOp) (tab : Table) : List ℕ :=
  match op with
  | .write => List.range tab.columns.length
  | .rewrite => setColumns tab.columns ++ whereColumns tab.keys 0
  | .delete => whereColumns tab.keys 0

/-- Whether an operation leaves the numbers alone because its statement is prepared. -/
def ReplicaOp.prepared (op : ReplicaOp) (tab : Table) : Bool :=
  match op with
  | .write => false
  | .rewrite => tab.updPrepared
  | .delete => tab.delPrepared

/-- The numbers when the statement of an operation is executed. -/
def ReplicaOp.places (op : ReplicaOp) (tab : Table) (places : Places) : Places :=
  if op.prepared tab then places else place 0 (op.columns tab) places

/-! ## The statements -/

/-- The column of the table that a clone is mapped to. -/
def Table.source (tab : Table) (clone : Clone) : Option ℕ :=
  tab.columns.findIdx? fun col => ascii col.name = clone.col1

/-- A text as a literal: between quotes, unless it is a number. -/
def literalOf (col : Column) (text : List Byte) : List Byte :=
  match col.tp with
  | .numeric => text
  | .character => 39 :: text ++ [39]

/-- The literal of a clone: the text in the row of its column. -/
def cloneLiteral (tab : Table) (places : Places) (clone : Clone) : Except Stop (List Byte) :=
  match tab.source clone with
  | none => .ok []
  | some i =>
      match places i with
      | none => .error .undefined
      | some p =>
          if 0 ∈ tab.bufs.drop (p * rowSize) then
            .ok (literalOf (tab.column i) (rowText tab.bufs p))
          else .error .undefined

/-- A statement with its literals. -/
structure SentStatement where
  op : ReplicaOp
  schema : List Byte
  name : List Byte
  assigned : List (Clone × List Byte)
  conditions : List (Clone × List Byte)
  deriving DecidableEq

/-- Texts with another between them. -/
def joined (between : String) (texts : List (List Byte)) : List Byte :=
  (ascii between).intercalate texts

/-- Columns with their literals, as `col=literal`. -/
def equations (between : String) (entries : List (Clone × List Byte)) : List Byte :=
  joined between (entries.map fun entry => entry.1.col2 ++ ascii "=" ++ entry.2)

/-- The text of a statement. -/
def SentStatement.sql (sent : SentStatement) : List Byte :=
  let table := sent.schema ++ ascii "." ++ sent.name
  match sent.op with
  | .write => ascii "insert into " ++ table ++ ascii "(" ++
      joined ", " (sent.assigned.map fun entry => entry.1.col2) ++ ascii ") values (" ++
      joined ", " (sent.assigned.map Prod.snd) ++ ascii ")"
  | .rewrite => ascii "update " ++ table ++ ascii " set " ++ equations ", " sent.assigned ++
      ascii " where " ++ equations " and " sent.conditions
  | .delete => ascii "delete from " ++ table ++ ascii " where " ++ equations " and " sent.conditions

/-- `write_clone`, `rewrite_clone` and `delete_clone`. -/
def sendClone (op : ReplicaOp) (tab : Table) (places : Places) (statement : CloneStatement) :
    Except Stop SentStatement := do
  let assigned ← statement.assigned.mapM (cloneLiteral tab places)
  let conditions ← statement.conditions.mapM (cloneLiteral tab places)
  let sent := ⟨op, statement.schema, statement.name, statement.assigned.zip assigned,
    statement.conditions.zip conditions⟩
  if maxRecLen < sent.sql.length then .error .undefined else .ok sent

/-- `replica_write`, `replica_rewrite` and `replica_delete`, after a statement that succeeded. -/
def replicate (op : ReplicaOp) (clones : List Clone) (places : Places) (st : State) :
    Except Stop (List SentStatement) :=
  if st.fcd.status = stOk then (replicaStatements op clones).mapM (sendClone op st.tab places)
  else .ok []

/-! ## The operations -/

/-- An open table with the numbers of its columns. -/
structure Replicated where
  st : State
  places : Places

/-- `op_write` on a table with clones. -/
def replicaWrite (env : Env) (clones : List Clone) (sys : Replicated) :
    Except Stop (List SentStatement × Replicated) :=
  if sys.st.fcd.openMode = 128 then .ok ([], ⟨sys.st.setStatus stNotOpenedWrite, sys.places⟩)
  else do
    let keyid := sys.st.fcd.keyId
    let places := readPlaces (sys.st.setKeyId 0) sys.places
    let st ← opReadRandom env false false (sys.st.setKeyId 0)
    if st.fcd.status = stOk then return ([], ⟨(st.setStatus stDuplKey).setKeyId keyid, places⟩)
    else
      let places := ReplicaOp.write.places st.tab places
      let st ← insertRecord env st
      let sent ← replicate .write clones places st
      return (sent, ⟨st.setKeyId keyid, places⟩)

/-- `op_rewrite` on a table with clones. -/
def replicaRewrite (env : Env) (clones : List Clone) (sys : Replicated) :
    Except Stop (List SentStatement × Replicated) :=
  if sys.st.fcd.openMode = 128 then .ok ([], ⟨sys.st.setStatus stNotOpenedUpdel, sys.places⟩)
  else do
    let keyid := sys.st.fcd.keyId
    let record := sys.st.fcd.record
    let places := readPlaces (sys.st.resetScan.setKeyId 0) sys.places
    let st ← opReadRandom env false false (sys.st.resetScan.setKeyId 0)
    if st.fcd.status ≠ stOk then return ([], ⟨st.setKeyId keyid, places⟩)
    else if record = st.fcd.record then return ([], ⟨(st.setStatus stOk).setKeyId keyid, places⟩)
    else
      let _ ← getkbuf st.tab 0 record
      let places := ReplicaOp.rewrite.places st.tab places
      let st ← updateRecord env (st.setRecord record)
      let sent ← replicate .rewrite clones places st
      return (sent, ⟨st.setKeyId keyid, places⟩)

/-- `op_delete` on a table with clones. -/
def replicaDelete (env : Env) (clones : List Clone) (sys : Replicated) :
    Except Stop (List SentStatement × Replicated) :=
  if sys.st.fcd.openMode = 128 then .ok ([], ⟨sys.st.setStatus stNotOpenedUpdel, sys.places⟩)
  else do
    let places := readPlaces sys.st.resetScan sys.places
    let st ← opReadRandom env false false sys.st.resetScan
    if st.fcd.status ≠ stOk then return ([], ⟨st.setStatus stRecNotFound, places⟩)
    else
      let _ ← getkbuf st.tab 0 st.fcd.record
      let places := ReplicaOp.delete.places st.tab places
      let st ← deleteRecord env st
      let sent ← replicate .delete clones places st
      return (sent, ⟨st, places⟩)

/-- `op_read_random` on a table with clones, which sends nothing. -/
def replicaRead (env : Env) (withLock : Bool) (sys : Replicated) :
    Except Stop (List SentStatement × Replicated) := do
  let st ← opReadRandom env false withLock sys.st
  return ([], ⟨st, readPlaces sys.st sys.places⟩)

/-- Replication changes nothing of what `op_write` does. -/
theorem replicaWrite_ok {env : Env} {clones : List Clone} {sys sys' : Replicated}
    {sent : List SentStatement} (wrote : replicaWrite env clones sys = .ok (sent, sys')) :
    opWrite env sys.st = .ok sys'.st := by
  unfold replicaWrite at wrote
  split at wrote
  · rename_i closed
    cases wrote
    exact if_pos closed
  · rename_i opened
    obtain ⟨st₁, read, wrote⟩ := bind_eq_ok.mp wrote
    refine (if_neg opened).trans (bind_eq_ok.mpr ⟨st₁, read, ?_⟩)
    split at wrote
    · rename_i found
      cases wrote
      exact if_pos found
    · rename_i missing
      obtain ⟨st₂, inserted, wrote⟩ := bind_eq_ok.mp wrote
      obtain ⟨_, _, ended⟩ := bind_eq_ok.mp wrote
      cases ended
      exact (if_neg missing).trans (bind_eq_ok.mpr ⟨st₂, inserted, rfl⟩)

/-- Replication changes nothing of what `op_rewrite` does. -/
theorem replicaRewrite_ok {env : Env} {clones : List Clone} {sys sys' : Replicated}
    {sent : List SentStatement} (rewrote : replicaRewrite env clones sys = .ok (sent, sys')) :
    ∃ done, opRewrite env sys.st = .ok (done, sys'.st) := by
  unfold replicaRewrite at rewrote
  split at rewrote
  · rename_i closed
    cases rewrote
    exact ⟨false, if_pos closed⟩
  · rename_i opened
    obtain ⟨st₁, read, rewrote⟩ := bind_eq_ok.mp rewrote
    have ends : ∀ {result}, (if st₁.fcd.status ≠ stOk then
          Except.ok (false, st₁.setKeyId sys.st.fcd.keyId)
        else if sys.st.fcd.record = st₁.fcd.record then
          .ok (true, (st₁.setStatus stOk).setKeyId sys.st.fcd.keyId)
        else do
          let _ ← getkbuf st₁.tab 0 sys.st.fcd.record
          let st ← updateRecord env (st₁.setRecord sys.st.fcd.record)
          return (true, st.setKeyId sys.st.fcd.keyId)) = .ok result →
        opRewrite env sys.st = .ok result :=
      fun ended => (if_neg opened).trans (bind_eq_ok.mpr ⟨st₁, read, ended⟩)
    split at rewrote
    · rename_i missing
      cases rewrote
      exact ⟨false, ends (if_pos missing)⟩
    · rename_i found
      split at rewrote
      · rename_i same
        cases rewrote
        exact ⟨true, ends ((if_neg found).trans (if_pos same))⟩
      · rename_i changed
        obtain ⟨key, built, rewrote⟩ := bind_eq_ok.mp rewrote
        obtain ⟨st₂, updated, rewrote⟩ := bind_eq_ok.mp rewrote
        obtain ⟨_, _, ended⟩ := bind_eq_ok.mp rewrote
        cases ended
        exact ⟨true, ends ((if_neg found).trans ((if_neg changed).trans
          (bind_eq_ok.mpr ⟨key, built, bind_eq_ok.mpr ⟨st₂, updated, rfl⟩⟩)))⟩

/-- Replication changes nothing of what `op_delete` does. -/
theorem replicaDelete_ok {env : Env} {clones : List Clone} {sys sys' : Replicated}
    {sent : List SentStatement} (deleted : replicaDelete env clones sys = .ok (sent, sys')) :
    opDelete env sys.st = .ok sys'.st := by
  unfold replicaDelete at deleted
  split at deleted
  · rename_i closed
    cases deleted
    exact if_pos closed
  · rename_i opened
    obtain ⟨st₁, read, deleted⟩ := bind_eq_ok.mp deleted
    refine (if_neg opened).trans (bind_eq_ok.mpr ⟨st₁, read, ?_⟩)
    split at deleted
    · rename_i missing
      cases deleted
      exact if_pos missing
    · rename_i found
      obtain ⟨key, built, deleted⟩ := bind_eq_ok.mp deleted
      obtain ⟨st₂, removed, deleted⟩ := bind_eq_ok.mp deleted
      obtain ⟨_, _, ended⟩ := bind_eq_ok.mp deleted
      cases ended
      exact (if_neg found).trans (bind_eq_ok.mpr ⟨key, built, removed⟩)

/-! ## What the literals denote -/

/-- What the server reads after an opening quote: a text, where two quotes stand for one, and what
is left behind the closing quote. -/
def readQuoted : List Byte → Option (List Byte × List Byte)
  | [] => none
  | [byte] => if byte = 39 then some ([], []) else none
  | byte :: next :: rest =>
      if byte = 39 then
        if next = 39 then (readQuoted rest).map fun read => (39 :: read.1, read.2)
        else some ([], next :: rest)
      else (readQuoted (next :: rest)).map fun read => (byte :: read.1, read.2)

/-- The value of a literal, when the text is one and nothing else. -/
def literalValue (literal : List Byte) : Option Value :=
  if literal.head? = some 39 then
    (readQuoted literal.tail).bind fun read =>
      if read.2 = [] then some (.chr (rtrim read.1)) else none
  else (plainNumeral literal).map .num

/-- A text without quotes is read as it is. -/
theorem readQuoted_eq {text : List Byte} (plain : 39 ∉ text) :
    readQuoted (text ++ [39]) = some (text, []) := by
  induction text with
  | nil => rfl
  | cons byte text ih =>
      rw [List.mem_cons, not_or] at plain
      obtain ⟨next, rest, shape⟩ := List.exists_cons_of_ne_nil
        (List.append_ne_nil_of_right_ne_nil text (List.cons_ne_nil (39 : Byte) []))
      rw [List.cons_append, shape, readQuoted, if_neg (Ne.symm plain.1), ← shape, ih plain.2]
      rfl

/-- A text as a literal has the value that the text has as a parameter, when it has no quotes, and a
number has only digits, signs and points. -/
theorem literalValue_literalOf {pg : Postgres} {col : Column} {text : List Byte} {value : Value}
    (plain : col.tp = .character → 39 ∉ text) (numeral : col.tp = .numeric → text.all numeralChar)
    (denotes : pg.denote col text = some value) :
    literalValue (literalOf col text) = some value := by
  unfold literalOf
  unfold Postgres.denote at denotes
  cases type : col.tp with
  | numeric =>
      simp only [type] at denotes ⊢
      obtain ⟨number, denoted, rfl⟩ := Option.map_eq_some_iff.mp denotes
      have chars := numeral type
      have number' : plainNumeral text = some number := by
        unfold Postgres.numeral at denoted
        split at denoted
        · rename_i plain
          rw [plain]
          exact denoted
        · rw [pg.other_plain text chars] at denoted
          cases denoted
      have digits : text.head? ≠ some 39 := by
        intro quote
        have member := List.mem_of_mem_head? quote
        exact absurd (List.all_eq_true.mp chars 39 member) (by decide)
      rw [literalValue, if_neg digits, number']
      rfl
  | character =>
      simp only [type] at denotes ⊢
      cases denotes
      rw [List.cons_append, literalValue, if_pos (List.head?_cons ..), List.tail_cons,
        readQuoted_eq (plain type)]
      rfl

end Pqfh
