import Pqfh.Handler.Ops
import Pqfh.Postgres.Query

/-! # START, READ NEXT and READ PREVIOUS

`op_start` declares a cursor for the rows that a comparison with the key fields of the
record selects, and fetches the first of them at once. The first READ after it gives out
what stands in the record area; later ones fetch on. When the key of a START is the key of
the row read last, the cursor is used on (`Pqfh.shortcut`).

`getwhere` writes the condition and the ORDER BY part of the query. The names and the words
of both are written into buffers of 257 bytes.
-/

namespace Pqfh

def stEof : Status := (49, 48)

/-! ## The query -/

/-- The operators that look backwards, `op[0] == '<'`. -/
def Comparison.descending : Comparison → Bool
  | .lt | .le => true
  | _ => false

/-- The operator of a column before the last, `op[0]`. -/
def Comparison.strict : Comparison → Comparison
  | .ge => .gt
  | .le => .lt
  | op => op

/-- The length of an operator. -/
def Comparison.size : Comparison → ℕ
  | .ge | .le => 2
  | _ => 1

/-- The length of the buffers for texts of columns, `MAX_COL_LEN`. -/
def maxColLen : ℕ := 256

/-- What `adiciona_comp` puts into its buffer for a key field. -/
def startBlock (col : Column) (field : List Byte) : List Byte :=
  match col.tp with
  | .numeric =>
      if field.head? = some 0 then List.replicate col.len 48 else pointed col field
  | .character => field

/-- The text of a key field in the condition. -/
def startText (col : Column) (field : List Byte) : List Byte := cstr (startBlock col field)

/-- A key field as a literal. `escape` does not come to an end on a text with a quote. -/
def startLiteral (tab : Table) (record : List Byte) (i : ℕ) : Except Stop Token :=
  let col := tab.column i
  let field := slice record col.offset col.len
  if col.offset + col.len ≤ record.length ∧ (startBlock col field).length ≤ maxColLen then
    match col.tp with
    | .numeric => .ok (.number (startText col field))
    | .character =>
        if 39 ∈ startText col field then .error .undefined
        else .ok (.quoted (startText col field))
  else .error .undefined

/-- The length of a word in the text of the condition. -/
def Token.size (tab : Table) : Token → ℕ
  | .column i => (tab.column i).name.utf8ByteSize
  | .compare op => op.size
  | .number text => text.length
  | .quoted text => text.length + 2
  | .and => 3
  | .or => 2
  | .opening | .closing => 1

/-- The length of words with a blank after each. -/
def wordsSize (tab : Table) (tokens : List Token) : ℕ :=
  (tokens.map fun token => token.size tab + 1).sum

/-- The length of the ORDER BY part. -/
def orderSize (tab : Table) (order : List (ℕ × Bool)) : ℕ :=
  (order.map fun entry =>
    (tab.column entry.1).name.utf8ByteSize + (if entry.2 then 5 else 0)).sum + (order.length - 1)

/-- `adiciona_comp` for the columns of a key from position `c` on: the words of the condition,
and the columns of the ORDER BY part. -/
def adicionaComp (tab : Table) (record : List Byte) (partialKey : ℕ) (weak : Bool) (ncols : ℕ) :
    Comparison → ℕ → List ℕ → Except Stop (List Token × List (ℕ × Bool))
  | _, _, [] => .error .undefined
  | op, c, i :: rest => do
      let op := if 0 < partialKey then .eq else op
      let literal ← startLiteral tab record i
      let last := if 0 < partialKey then partialKey else if weak then ncols - 1 else ncols
      if c + 1 = last then
        let tokens := [.column i, .compare op, literal]
        if maxColLen < wordsSize tab tokens - 1 then .error .undefined
        -- the loop over the columns after a partial key leaves `c` past them
        else if 0 < partialKey && weak then .error .undefined
        else
          match weak, rest with
          | true, [] => .error .undefined
          | true, next :: _ => return (tokens, [(i, op.descending), (next, false)])
          | false, _ =>
              return (tokens, (i, op.descending) ::
                if 0 < partialKey then (rest.drop 1).map (·, false) else [])
      else if op = .eq then
        let tokens := [.column i, .compare op, literal, .and]
        if maxColLen < wordsSize tab tokens then .error .undefined
        else
          let (tokens', order) ← adicionaComp tab record partialKey weak ncols op (c + 1) rest
          return (tokens ++ tokens', (i, false) :: order)
      else
        let tokens := [.column i, .compare op.strict, literal, .or, .opening, .column i,
          .compare .eq, literal, .and, .opening]
        if maxColLen < wordsSize tab tokens then .error .undefined
        else
          let (tokens', order) ← adicionaComp tab record partialKey weak ncols op (c + 1) rest
          return (tokens ++ tokens' ++ [.closing, .closing], (i, op.descending) :: order)

/-- The tables for which `force_partial` cuts key 1 to two columns: names that begin with
`intori`. -/
def intori : List Byte := [105, 110, 116, 111, 114, 105]

/-- The number of columns of a partial key, 0 for the whole key. -/
def partialColumns (env : Env) (tab : Table) (keyid : ℕ) : ℕ :=
  if env.forcePartial && tab.name.take 6 = intori && keyid = 1 then 2 else tab.partialKey

/-- `getwhere`. -/
def getwhere (env : Env) (tab : Table) (record : List Byte) (keyid : ℕ) (op : Comparison)
    (weak : Bool) : Except Stop (List Token × List (ℕ × Bool)) :=
  match tab.keys[keyid]? with
  | none => .ok ([], [])
  | some cols => do
      let (tokens, order) ← adicionaComp tab record (partialColumns env tab keyid) weak cols.length
        op 0 cols
      if maxColLen < orderSize tab order then .error .undefined else return (tokens, order)

/-! ## Reading on -/

/-- A key copied with `strcpy` into a buffer on the stack: after a NUL the buffer is as it
was. -/
def stackCopy (stack : ℕ → Byte) (key : List Byte) : List Byte :=
  (List.range key.length).map fun i =>
    let text := cstr key
    if i < text.length then text.getD i 0 else if i = text.length then 0 else stack i

/-- `memcpy` of bytes and a NUL to the start of a buffer. -/
def copyOver (bytes buffer : List Byte) : List Byte :=
  bytes ++ 0 :: buffer.drop (bytes.length + 1)

/-- The end of `op_next_prev`: remember the row just read. -/
def State.remember (dir : Dir) (kbuf : List Byte) (st : State) : State :=
  match dir with
  | .n => { st with tab := { st.tab with
      bufNext := copyOver kbuf st.tab.bufNext
      recNext := st.fcd.record } }
  | .p => { st with tab := { st.tab with
      bufPrev := copyOver kbuf st.tab.bufPrev
      recPrev := st.fcd.record } }

/-- The part of `op_next_prev` that fetches a row. -/
def fetchNextPrev (stack : ℕ → Byte) (dir : Dir) (st : State) : Except Stop State := do
  let (conn, row) := st.conn.fetch st.tab.handle
  let st := st.setConn conn
  match row with
  | none => return st.setStatus stEof
  | some row =>
      let record ← pq2cob st.tab.columns row st.fcd.record
      let st := (st.setRecord record).setStatus stOk
      let key ← getkbuf st.tab st.fcd.keyId record
      return st.remember dir (stackCopy stack key)

/-- `op_next_prev`. -/
def opNextPrev (stack : ℕ → Byte) (dir : Dir) (st : State) : Except Stop State :=
  if st.fcd.openMode = 128 then .ok (st.setStatus stNotOpenedRead)
  else if st.tab.first then
    .ok ({ st with tab := { st.tab with first := false } }.setStatus stOk)
  else if st.eofStart then .ok (st.setStatus stEof)
  else
    let forget := { st with tab := { st.tab with restart := none } }
    if st.tab.restart = some dir then
      .ok ((forget.setRecord
        (match dir with | .n => st.tab.recNext | .p => st.tab.recPrev)).setStatus
        stOk)
    else fetchNextPrev stack dir forget

/-! ## op_start -/

/-- `close_cursor`. -/
def State.closeCursor (st : State) : State :=
  if st.tab.cursor then
    { st with
      conn := st.conn.closeCursor st.tab.handle
      tab := { st.tab with cursor := false } }
  else st

/-- The direction of a START. -/
def Comparison.dir (op : Comparison) : Dir := if op.descending then .p else .n

/-- Whether `op_start` uses the open cursor on: the key is that of the row read last in the
direction of the START. -/
def shortcut (op : Comparison) (kbuf : List Byte) (st : State) : Bool :=
  match op.dir with
  | .n => st.tab.keyNext = some st.fcd.keyId && kbuf = st.tab.bufNext.take kbuf.length
  | .p => st.tab.keyPrev = some st.fcd.keyId && kbuf = st.tab.bufPrev.take kbuf.length

/-- What `op_start` does instead of a query: the next READ is to give the row again when the
comparison includes it. -/
def restartScan (op : Comparison) (st : State) : State :=
  match op with
  | .ge => { st with tab := { st.tab with restart := some .n } }
  | .le => { st with tab := { st.tab with restart := some .p } }
  | _ => st

/-- The part of `op_start` that declares the cursor and reads the first row. -/
def declareScan (env : Env) (weak : Bool) (stack : ℕ → Byte) (op : Comparison) (st : State) :
    Except Stop State := do
  let closed := st.closeCursor
  let st := { closed with tab := { closed.tab with cursor := true } }
  let (tokens, order) ← getwhere env st.tab st.fcd.record st.fcd.keyId
    (if weak then .eq else op) weak
  let (conn, done) := st.conn.declare env.pg st.tab.handle st.tab.relation tokens order
  if !done then .error .exit
  else
    let st := st.setConn conn
    let st := { st with tab := match op.dir with
      | .n => { st.tab with first := false, keyNext := some st.fcd.keyId }
      | .p => { st.tab with first := false, keyPrev := some st.fcd.keyId } }
    let st ← opNextPrev stack op.dir st
    if st.fcd.status = stEof then
      return { st with tab := { st.tab with first := false } }.setStatus stRecNotFound
    else return { st with tab := { st.tab with first := true } }

/-- `op_start`. `weak` is set when the table is accessed as a weak entity. The two stacks are
those of `op_start` and of the read in it. -/
def opStart (env : Env) (weak : Bool) (stack inner : ℕ → Byte) (op : Comparison) (st : State) :
    Except Stop State :=
  if st.fcd.openMode = 128 then .ok (st.setStatus stNotOpenedRead)
  else do
    let st := { st with eofStart := false }
    let key ← getkbuf st.tab st.fcd.keyId st.fcd.record
    if shortcut op (stackCopy stack key) st then return (restartScan op st).setStatus stOk
    else if weak then
      let st ← opReadRandom env true false st
      if st.fcd.status ≠ stOk then return { st.setStatus stRecNotFound with eofStart := true }
      else declareScan env weak inner op st
    else declareScan env weak inner op st

end Pqfh
