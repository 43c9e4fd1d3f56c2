import Pqfh.Core.List2

/-! # The status filter

Every call of `pqfh` starts with `get_mode`, which reads the file `.pqfh`: its first character is
the mode, and the codes on its second line go to the list `stlog`. Each call appends them to what
the calls before it left there.
-/

namespace Pqfh

open LinkedHeap

/-- The heap and the globals that `get_mode` sets. The `mode` is that of `pqfh`. -/
structure ModeState where
  heap : Heap Item
  stlog : Option ℕ
  mode : Byte
  forcePartial : Bool
  lockManual : Bool

/-- A code goes to the end of the list. -/
def appendCode (malloc : Allocator Item) (code : List Byte) (out : Heap Item × Option ℕ) :
    Option (Heap Item × Option ℕ) := do
  let (heap, item) ← list2Append malloc out.1 out.2 (code ++ [0]) 3
  some (heap, some item)

/-- The loop of `get_mode` over the bytes behind the first one: whether a newline was read, the
characters in `st`, and the list. -/
def modeLoop (malloc : Allocator Item) :
    List Byte → Bool → List Byte → Heap Item × Option ℕ → Option (Heap Item × Option ℕ)
  | [], _, _, out => some out
  | ch :: rest, lf, st, out =>
      if ch = 10 then
        if !lf then modeLoop malloc rest true st out
        else if st.length = 2 then appendCode malloc st out
        else some out
      else if !lf then modeLoop malloc rest lf st out
      else if ch = 32 then do
        let out ← if st.length = 2 then appendCode malloc st out else some out
        modeLoop malloc rest lf [] out
      else if st.length < 2 then modeLoop malloc rest lf (st ++ [ch]) out
      else modeLoop malloc rest lf st out

/-- What `get_mode` makes of the mode character: `a` and `b` ask for partial keys, `L` logs. -/
def adjustMode (mode : Byte) (st : ModeState) : ModeState :=
  if mode = 97 then { st with mode := 65, forcePartial := true, lockManual := true }
  else if mode = 98 then { st with mode := 66, forcePartial := true, lockManual := false }
  else if mode = 76 then { st with mode := 87 }
  else { st with mode := mode }

/-- `get_mode`, with the content of the file if there is one. -/
def getMode (malloc : Allocator Item) (file : Option (List Byte)) (st : ModeState) :
    Option ModeState :=
  match file with
  | none => some { st with mode := 73 }
  | some content => do
      let (heap, stlog) ← modeLoop malloc content.tail false [] (st.heap, st.stlog)
      let stlog ← list2First heap stlog
      some (adjustMode (content.headD 73) { st with heap := heap, stlog := stlog })

/-- The loop of `is_stlog`. -/
def stlogLoop (heap : Heap Item) (status : Byte × Byte) : ℕ → Option ℕ → Option Bool
  | _, none => some false
  | 0, some _ => none
  | steps + 1, some ptr => do
      let node ← heap.lookup ptr
      if node.item.buf[0]? = some status.1 ∧ node.item.buf[1]? = some status.2 then some true
      else stlogLoop heap status steps node.next

/-- `is_stlog`. -/
def isStlog (st : ModeState) (status : Byte × Byte) : Option Bool :=
  if status.1 = 57 then some true
  else stlogLoop st.heap status st.heap.entries.length st.stlog

/-- The codes in the nodes from one on, as the loop of `is_stlog` meets them. -/
def codesFrom (heap : Heap Item) : ℕ → Option ℕ → Option (List (List Byte))
  | _, none => some []
  | 0, some _ => none
  | steps + 1, some ptr => do
      let node ← heap.lookup ptr
      let others ← codesFrom heap steps node.next
      some (node.item.buf.take 2 :: others)

/-- The codes in `stlog`. -/
def ModeState.codes (st : ModeState) : Option (List (List Byte)) :=
  codesFrom st.heap st.heap.entries.length st.stlog

/-- A process that calls `pqfh` so many times while the file stays as it is. In between, and in
what the calls do afterwards, the nodes of `stlog` are kept. -/
inductive PqfhCalls (content : List Byte) : ℕ → ModeState → Prop where
  | start {st : ModeState} (empty : st.stlog = none) : PqfhCalls content 0 st
  | call {n : ℕ} {st st' : ModeState} {heap : Heap Item} (malloc : Allocator Item)
      (earlier : PqfhCalls content n st) (kept : NodesKept st.heap st.stlog heap)
      (ran : getMode malloc (some content) { st with heap := heap } = some st') :
      PqfhCalls content (n + 1) st'

/-! ## The words of the file -/

/-- The words on a line. -/
def wordsOf (line : List Byte) : List (List Byte) := line.splitOn 32

/-- The two-character codes on the second line. -/
def codesOf (content : List Byte) : List (List Byte) :=
  (wordsOf ((content.splitOn 10).getD 1 [])).filter (·.length = 2)

/-- The words of a line behind which a space or a newline stands. -/
def separated (lines : List (List Byte)) (line : ℕ) : List (List Byte) :=
  if line + 1 < lines.length then wordsOf (lines.getD line [])
  else (wordsOf (lines.getD line [])).dropLast

/-- The words that `get_mode` looks at. Its second line begins behind the first newline that is not
the first byte of the file. -/
def wordsRead (content : List Byte) : List (List Byte) :=
  separated (content.splitOn 10) (if content.head? = some 10 then 2 else 1)

/-- The list holds the codes of the second line and nothing else, each once. -/
structure LoadedOnce (content : List Byte) (codes : List (List Byte)) : Prop where
  once : codes.Nodup
  exact : ∀ code, code ∈ codes ↔ code ∈ codesOf content

/-- Only the first call finds a word of two characters or more; no two of these begin alike, each
of them begins with a code of the second line, and each of these codes begins one of them. -/
structure ReadOnce (content : List Byte) (n : ℕ) : Prop where
  first : n = 1 ∨ ∀ word ∈ wordsRead content, word.length < 2
  distinct : ((wordsRead content).filter (2 ≤ ·.length)).Pairwise (·.take 2 ≠ ·.take 2)
  begins : ∀ word ∈ wordsRead content, 2 ≤ word.length → word.take 2 ∈ codesOf content
  separate : ∀ code ∈ codesOf content, ∃ word ∈ wordsRead content, word.take 2 = code

/-- A file whose first line is not empty and whose second line ends in a newline. -/
def Regular (content : List Byte) : Prop :=
  content.head? ≠ some 10 ∧ 2 < (content.splitOn 10).length

/-! ## What one call stores -/

/-- The codes that the loop appends from its state on. -/
def storedCodes : List Byte → List Byte → List (List Byte)
  | _, [] => []
  | st, ch :: rest =>
      if ch = 10 then if st.length = 2 then [st] else []
      else if ch = 32 then (if st.length = 2 then [st] else []) ++ storedCodes [] rest
      else if st.length < 2 then storedCodes (st ++ [ch]) rest
      else storedCodes st rest

/-- The words of two characters or more, cut to two. -/
def heads (words : List (List Byte)) : List (List Byte) :=
  (words.filter (2 ≤ ·.length)).map (·.take 2)

/-- A head is the first two bytes of a word that has two. -/
theorem mem_heads {words : List (List Byte)} {code : List Byte} :
    code ∈ heads words ↔ ∃ word ∈ words, 2 ≤ word.length ∧ word.take 2 = code := by
  rw [heads, List.mem_map]
  constructor
  · rintro ⟨word, member, rfl⟩
    obtain ⟨inside, long⟩ := List.mem_filter.mp member
    exact ⟨word, inside, of_decide_eq_true long, rfl⟩
  · rintro ⟨word, inside, long, rfl⟩
    exact ⟨word, List.mem_filter.mpr ⟨inside, decide_eq_true long⟩, rfl⟩

/-- The heads of two lists follow one another. -/
theorem heads_append (front rest : List (List Byte)) :
    heads (front ++ rest) = heads front ++ heads rest := by
  rw [heads, List.filter_append, List.map_append]
  rfl

/-- What `st` holds at the end of a word is kept if it is full. -/
theorem heads_singleton (word : List Byte) :
    heads [word] = if (word.take 2).length = 2 then [word.take 2] else [] := by
  rw [List.length_take, heads]
  by_cases long : 2 ≤ word.length
  · rw [if_pos (Nat.min_eq_left long), List.filter_singleton, decide_eq_true long]
    rfl
  · rw [if_neg (by omega), List.filter_singleton, decide_eq_false long]
    rfl

/-- A word of two bytes has a head, a shorter one none. -/
theorem heads_cons (word : List Byte) (rest : List (List Byte)) :
    heads (word :: rest) =
      (if (word.take 2).length = 2 then [word.take 2] else []) ++ heads rest := by
  rw [← heads_singleton, ← heads_append]
  rfl

/-- A line is read word by word. The state is the beginning of the word that is being read. -/
theorem storedCodes_line (rest : List Byte) {line : List Byte} (whole : 10 ∉ line)
    {word : List Byte} (inside : 32 ∉ word) :
    storedCodes (word.take 2) (line ++ rest) =
      heads (wordsOf (word ++ line)).dropLast ++
        storedCodes (((wordsOf (word ++ line)).getLastD []).take 2) rest := by
  induction line generalizing word with
  | nil =>
      rw [List.append_nil, wordsOf, List.splitOn_eq_singleton inside]
      rfl
  | cons ch line ih =>
      obtain ⟨newline, later⟩ := not_or.mp (mt List.mem_cons.mpr whole)
      rw [List.cons_append, storedCodes, if_neg (Ne.symm newline)]
      by_cases space : ch = 32
      · subst space
        have words : wordsOf (word ++ 32 :: line) = word :: wordsOf line :=
          List.splitOn_append_cons_self_of_not_mem inside line
        have next := ih later (List.not_mem_nil : (32 : Byte) ∉ [])
        rw [List.nil_append, List.take_nil] at next
        obtain ⟨first, others, split⟩ := List.exists_cons_of_ne_nil (List.splitOn_ne_nil 32 line)
        have shape : wordsOf line = first :: others := split
        rw [if_pos rfl, words, next, ← List.append_assoc, shape, List.dropLast_cons_cons,
          heads_cons, List.getLastD_cons, List.getLastD_cons, List.getLastD_cons]
      · have longer : 32 ∉ word ++ [ch] := fun member =>
          (List.mem_append.mp member).elim inside fun only =>
            space (List.mem_singleton.mp only).symm
        have next := ih later longer
        rw [List.append_assoc, List.singleton_append] at next
        rw [if_neg space, ← next]
        by_cases short : word.length < 2
        · rw [if_pos (by rw [List.length_take]; omega), List.take_of_length_le short.le,
            List.take_of_length_le (by rw [List.length_append, List.length_singleton]; omega)]
        · rw [if_neg (by rw [List.length_take]; omega),
            List.take_append_of_le_length (Nat.not_lt.mp short)]

/-- What a call stores of a line, up to its newline or to the end of the file. -/
theorem storedCodes_eq (bytes : List Byte) :
    storedCodes [] bytes = heads (separated (bytes.splitOn 10) 0) := by
  by_cases ends : 10 ∈ bytes
  · obtain ⟨line, rest, rfl, whole⟩ := List.eq_append_cons_of_mem ends
    have read := storedCodes_line (10 :: rest) whole (List.not_mem_nil : (32 : Byte) ∉ [])
    rw [List.nil_append, List.take_nil] at read
    obtain ⟨first, others, split⟩ := List.exists_cons_of_ne_nil (List.splitOn_ne_nil 10 rest)
    have words : wordsOf line ≠ [] := List.splitOn_ne_nil 32 line
    rw [read, storedCodes, if_pos rfl, ← heads_singleton, ← heads_append,
      List.getLastD_eq_getLast?, List.getLast?_eq_getLast_of_ne_nil words, Option.getD_some,
      List.dropLast_append_getLast, List.splitOn_append_cons_self_of_not_mem whole, split,
      separated, if_pos (by rw [List.length_cons, List.length_cons]; omega)]
    rfl
  · have read := storedCodes_line [] ends (List.not_mem_nil : (32 : Byte) ∉ [])
    rw [List.append_nil, List.nil_append, List.take_nil] at read
    rw [read, storedCodes, List.append_nil, List.splitOn_eq_singleton ends]
    rfl

/-- The lines behind the first one are numbered from it. -/
theorem separated_cons (first : List Byte) (lines : List (List Byte)) (line : ℕ) :
    separated (first :: lines) (line + 1) = separated lines line := by
  rw [separated, separated, List.getD_cons_succ]
  simp only [List.length_cons, Nat.add_lt_add_iff_right]

/-- There is nothing on a line behind the last one. -/
theorem separated_nil (line : ℕ) : separated [] line = [] := by
  rw [separated, if_neg (show ¬ line + 1 < ([] : List (List Byte)).length from Nat.not_lt_zero _)]
  rfl

/-- From the first newline behind the first byte on, the words that are read. -/
theorem wordsRead_newline (first : Byte) {line : List Byte} (rest : List Byte) (whole : 10 ∉ line) :
    wordsRead (first :: (line ++ 10 :: rest)) = separated (rest.splitOn 10) 0 := by
  rw [wordsRead, List.head?_cons]
  by_cases newline : first = 10
  · subst newline
    have lines : (10 :: (line ++ 10 :: rest)).splitOn 10 = [] :: line :: rest.splitOn 10 := by
      rw [← List.splitOn_append_cons_self_of_not_mem whole]
      exact List.splitOn_append_cons_self_of_not_mem List.not_mem_nil _
    rw [if_pos rfl, lines, separated_cons, separated_cons]
  · have apart : 10 ∉ first :: line := List.not_mem_cons_of_ne_of_not_mem (Ne.symm newline) whole
    have lines : (first :: (line ++ 10 :: rest)).splitOn 10 = (first :: line) :: rest.splitOn 10 :=
      List.splitOn_append_cons_self_of_not_mem apart rest
    rw [if_neg (mt Option.some.inj newline), lines, separated_cons]

/-- Without a newline behind the first byte nothing is read. -/
theorem wordsRead_whole {content : List Byte} (whole : 10 ∉ content.tail) :
    wordsRead content = [] := by
  cases content with
  | nil => rfl
  | cons first rest =>
      rw [wordsRead, List.head?_cons]
      change 10 ∉ rest at whole
      by_cases newline : first = 10
      · subst newline
        have lines : (10 :: rest).splitOn 10 = [[], rest] := by
          rw [← List.splitOn_eq_singleton whole]
          exact List.splitOn_append_cons_self_of_not_mem List.not_mem_nil rest
        rw [if_pos rfl, lines, separated_cons, separated_cons, separated_nil]
      · have apart : 10 ∉ first :: rest :=
          List.not_mem_cons_of_ne_of_not_mem (Ne.symm newline) whole
        rw [if_neg (mt Option.some.inj newline), List.splitOn_eq_singleton apart, separated_cons,
          separated_nil]

/-! ## The list -/

/-- What a node keeps of a code: its characters and a NUL. -/
def codeItem (code : List Byte) : Item := ⟨code ++ [0], 3⟩

/-- The pointer designates a node of a list that keeps these codes. -/
def KeepsCodes (out : Heap Item × Option ℕ) (codes : List (List Byte)) : Prop :=
  ∃ nodes, Represents out.1 nodes ∧ Designates out.2 nodes ∧
    nodes.map Prod.snd = codes.map codeItem

/-- A code that is appended stands behind those that were kept. -/
theorem KeepsCodes.append {out : Heap Item × Option ℕ} {codes : List (List Byte)}
    (keeps : KeepsCodes out codes) (malloc : Allocator Item) {code : List Byte}
    (two : code.length = 2) :
    ∃ out', appendCode malloc code out = some out' ∧ KeepsCodes out' (codes ++ [code]) := by
  obtain ⟨nodes, linked, points, kept⟩ := keeps
  have copied : copyBuffer (code ++ [0]) 3 = codeItem code := by
    rw [copyBuffer, if_neg (by decide), List.take_of_length_le
      (by rw [List.length_append, two]; rfl)]
    rfl
  obtain ⟨heap', new, ran, longer⟩ := appendItem_designated malloc linked points (codeItem code)
  refine ⟨(heap', some new), ?_, _, longer, ?_, ?_⟩
  · rw [appendCode, list2Append, copied, ran]
    rfl
  · have inside : (new, codeItem code) ∈ nodes ++ [(new, codeItem code)] :=
      List.mem_append_right nodes List.mem_cons_self
    exact mem_addresses inside
  · rw [List.map_append, List.map_append, kept]
    rfl

/-- The loop from the second line on appends what it stores. -/
theorem modeLoop_line (malloc : Allocator Item) (bytes : List Byte) {st : List Byte}
    {out : Heap Item × Option ℕ} {codes : List (List Byte)} (keeps : KeepsCodes out codes) :
    ∃ out', modeLoop malloc bytes true st out = some out' ∧
      KeepsCodes out' (codes ++ storedCodes st bytes) := by
  induction bytes generalizing st out codes with
  | nil => exact ⟨out, rfl, by rwa [storedCodes, List.append_nil]⟩
  | cons ch rest ih =>
      rw [modeLoop, storedCodes]
      by_cases newline : ch = 10
      · rw [if_pos newline, if_pos newline, if_neg (by decide)]
        by_cases full : st.length = 2
        · rw [if_pos full, if_pos full]
          exact keeps.append malloc full
        · rw [if_neg full, if_neg full, List.append_nil]
          exact ⟨out, rfl, keeps⟩
      · rw [if_neg newline, if_neg newline, if_neg (by decide)]
        by_cases space : ch = 32
        · rw [if_pos space, if_pos space, ← List.append_assoc]
          by_cases full : st.length = 2
          · obtain ⟨out₁, ran, longer⟩ := keeps.append malloc full
            rw [if_pos full, if_pos full, ran]
            exact ih longer
          · rw [if_neg full, if_neg full, List.append_nil]
            exact ih keeps
        · rw [if_neg space, if_neg space]
          by_cases short : st.length < 2
          · rw [if_pos short, if_pos short]
            exact ih keeps
          · rw [if_neg short, if_neg short]
            exact ih keeps

/-- Up to the first newline the loop only reads. -/
theorem modeLoop_skip (malloc : Allocator Item) {line : List Byte} (whole : 10 ∉ line)
    (rest : List Byte) (out : Heap Item × Option ℕ) :
    modeLoop malloc (line ++ rest) false [] out = modeLoop malloc rest false [] out := by
  induction line with
  | nil => rfl
  | cons ch line ih =>
      obtain ⟨newline, later⟩ := not_or.mp (mt List.mem_cons.mpr whole)
      rw [List.cons_append, modeLoop, if_neg (Ne.symm newline),
        if_pos (show (!false) = true from rfl)]
      exact ih later

/-- One run of the loop over a file. -/
theorem modeLoop_content (malloc : Allocator Item) (content : List Byte)
    {out : Heap Item × Option ℕ} {codes : List (List Byte)} (keeps : KeepsCodes out codes) :
    ∃ out', modeLoop malloc content.tail false [] out = some out' ∧
      KeepsCodes out' (codes ++ heads (wordsRead content)) := by
  by_cases ends : 10 ∈ content.tail
  · obtain ⟨line, rest, shape, whole⟩ := List.eq_append_cons_of_mem ends
    cases content with
    | nil => cases ends
    | cons first tail =>
        obtain rfl : tail = line ++ 10 :: rest := shape
        obtain ⟨out', ran, longer⟩ := modeLoop_line malloc rest keeps
        refine ⟨out', ?_, ?_⟩
        · rw [List.tail_cons, modeLoop_skip malloc whole, modeLoop, if_pos rfl]
          exact ran
        · rwa [wordsRead_newline first rest whole, ← storedCodes_eq]
  · refine ⟨out, ?_, ?_⟩
    · rw [← List.append_nil content.tail, modeLoop_skip malloc ends]
      rfl
    · rwa [wordsRead_whole ends, heads, List.filter_nil, List.map_nil, List.append_nil]

/-- The list `stlog` keeps these codes, and is held by its first node. -/
def ModeState.Keeps (st : ModeState) (codes : List (List Byte)) : Prop :=
  ∃ nodes, Represents st.heap nodes ∧ st.stlog = firstOf nodes none ∧
    nodes.map Prod.snd = codes.map codeItem

variable {content : List Byte} {n : ℕ} {st st' : ModeState} {codes : List (List Byte)}

/-- The mode changes no code. -/
theorem adjustMode_keeps (mode : Byte) (keeps : st.Keeps codes) :
    (adjustMode mode st).Keeps codes := by
  unfold adjustMode
  split
  · exact keeps
  split
  · exact keeps
  split
  · exact keeps
  · exact keeps

/-- A call appends what it finds in the file. -/
theorem ModeState.Keeps.getMode (keeps : st.Keeps codes) (malloc : Allocator Item)
    (content : List Byte) :
    ∃ st', getMode malloc (some content) st = some st' ∧
      st'.Keeps (codes ++ heads (wordsRead content)) := by
  obtain ⟨nodes, linked, first, kept⟩ := keeps
  have points : Designates st.stlog nodes := first ▸ designates_firstOf nodes
  have start : KeepsCodes (st.heap, st.stlog) codes := ⟨nodes, linked, points, kept⟩
  obtain ⟨⟨heap', stlog⟩, ran, nodes', linked', points', kept'⟩ :=
    modeLoop_content malloc content start
  have after : ModeState.Keeps { st with heap := heap', stlog := firstOf nodes' none }
      (codes ++ heads (wordsRead content)) := ⟨nodes', linked', rfl, kept'⟩
  refine ⟨_, ?_, adjustMode_keeps (content.headD 73) after⟩
  rw [Pqfh.getMode]
  dsimp only
  rw [ran]
  dsimp only [Option.bind_eq_bind, Option.bind_some]
  rw [list2First_designated linked' points']
  rfl

/-- Codes are kept over a heap that keeps their nodes. -/
theorem ModeState.Keeps.nodesKept {heap : Heap Item} (keeps : st.Keeps codes)
    (same : NodesKept st.heap st.stlog heap) :
    ModeState.Keeps { st with heap := heap } codes := by
  obtain ⟨nodes, linked, first, kept⟩ := keeps
  refine ⟨nodes, linked.congr (same nodes linked ?_), first, kept⟩
  rw [first]
  exact designates_firstOf nodes

/-- Every call leaves another copy. -/
theorem PqfhCalls.keeps (calls : PqfhCalls content n st) :
    st.Keeps (List.replicate n (heads (wordsRead content))).flatten := by
  induction calls with
  | start empty => exact ⟨[], trivial, empty, rfl⟩
  | call malloc _ same ran ih =>
      obtain ⟨_, again, longer⟩ := (ih.nodesKept same).getMode malloc content
      obtain rfl := Option.some.inj (ran.symm.trans again)
      rwa [List.replicate_succ', List.flatten_append, List.flatten_singleton]

/-- What the loop of `is_stlog` meets. -/
theorem codesFrom_eq {heap : Heap Item} {nodes : List (ℕ × Item)} {before : Option ℕ}
    (linked : Segment heap before nodes none) {steps : ℕ} (enough : nodes.length ≤ steps) :
    codesFrom heap steps (firstOf nodes none) = some (nodes.map fun node => node.2.buf.take 2) := by
  induction nodes generalizing before steps with
  | nil => rw [firstOf, codesFrom]; rfl
  | cons node rest ih =>
      cases steps with
      | zero => cases enough
      | succ steps =>
          rw [firstOf, codesFrom, linked.1]
          dsimp only [Option.bind_eq_bind, Option.bind_some]
          rw [ih linked.2 (Nat.le_of_succ_le_succ enough)]
          rfl

/-- The codes that are kept can be read. -/
theorem ModeState.Keeps.codes_eq (keeps : st.Keeps codes) (two : ∀ code ∈ codes, code.length = 2) :
    st.codes = some codes := by
  obtain ⟨nodes, linked, first, kept⟩ := keeps
  rw [ModeState.codes, first, codesFrom_eq linked linked.length_le]
  have items : nodes.map (fun node => node.2.buf.take 2) =
      (nodes.map Prod.snd).map fun item => item.buf.take 2 := by
    rw [List.map_map]
    rfl
  rw [items, kept, List.map_map]
  refine congrArg some (List.map_congr_left (fun code member => ?_) |>.trans (List.map_id codes))
  exact List.take_left' (two code member)

/-- A code that was copied has two bytes. -/
theorem length_of_mem_copies {code : List Byte} {words : List (List Byte)}
    (member : code ∈ (List.replicate n (heads words)).flatten) : code.length = 2 := by
  obtain ⟨copy, inside, member⟩ := List.mem_flatten.mp member
  rw [List.eq_of_mem_replicate inside] at member
  obtain ⟨word, _, long, rfl⟩ := mem_heads.mp member
  exact List.length_take_of_le long

/-! ## When the codes are loaded once -/

/-- There is no head exactly when every word is shorter than two bytes. -/
theorem heads_eq_nil {words : List (List Byte)} :
    heads words = [] ↔ ∀ word ∈ words, word.length < 2 := by
  constructor
  · intro empty word member
    by_contra long
    have kept := mem_heads.mpr ⟨word, member, Nat.not_lt.mp long, rfl⟩
    rw [empty] at kept
    cases kept
  · intro short
    refine List.eq_nil_iff_forall_not_mem.mpr fun code member => ?_
    obtain ⟨word, inside, long, _⟩ := mem_heads.mp member
    exact absurd (short word inside) (Nat.not_lt.mpr long)

/-- The heads are distinct when no two words begin alike. -/
theorem nodup_heads {words : List (List Byte)} :
    (heads words).Nodup ↔ (words.filter (2 ≤ ·.length)).Pairwise (·.take 2 ≠ ·.take 2) := by
  rw [heads, List.Nodup, List.pairwise_map]

/-- A code is among the copies when it is in the list. -/
theorem mem_copies {list : List (List Byte)} {code : List Byte} (called : 1 ≤ n) :
    code ∈ (List.replicate n list).flatten ↔ code ∈ list := by
  rw [List.mem_flatten]
  constructor
  · rintro ⟨copy, inside, member⟩
    exact List.eq_of_mem_replicate inside ▸ member
  · intro member
    exact ⟨list, List.mem_replicate.mpr ⟨by omega, rfl⟩, member⟩

/-- Two copies of a code are one too many. -/
theorem nodup_copies {list : List (List Byte)} (called : 1 ≤ n) :
    (List.replicate n list).flatten.Nodup ↔ list.Nodup ∧ (n = 1 ∨ list = []) := by
  obtain ⟨m, rfl⟩ : ∃ m, n = m + 1 := ⟨n - 1, by omega⟩
  rw [List.replicate_succ, List.flatten_cons]
  constructor
  · intro once
    obtain ⟨single, _, apart⟩ := List.nodup_append.mp once
    refine ⟨single, ?_⟩
    by_cases last : m = 0
    · exact .inl (by omega)
    · refine .inr (List.eq_nil_iff_forall_not_mem.mpr fun code member => ?_)
      exact apart code member code ((mem_copies (by omega)).mpr member) rfl
  · rintro ⟨single, last | rfl⟩
    · obtain rfl : m = 0 := by omega
      rwa [List.replicate_zero, List.flatten_nil, List.append_nil]
    · rw [List.nil_append, List.flatten_replicate_nil]
      exact List.nodup_nil

/-- Each of the codes has two bytes. -/
theorem mem_codesOf {code : List Byte} (member : code ∈ codesOf content) : code.length = 2 :=
  of_decide_eq_true (List.mem_filter.mp member).2

/-- What is in the list after so many calls, and what the words of the file say about it. -/
theorem loadedOnce_iff (called : 1 ≤ n) :
    LoadedOnce content (List.replicate n (heads (wordsRead content))).flatten ↔
      ReadOnce content n := by
  constructor
  · rintro ⟨once, exact'⟩
    obtain ⟨single, last⟩ := (nodup_copies called).mp once
    exact {
      first := last.imp_right heads_eq_nil.mp
      distinct := nodup_heads.mp single
      begins := fun word member long =>
        (exact' _).mp ((mem_copies called).mpr (mem_heads.mpr ⟨word, member, long, rfl⟩))
      separate := fun code member => by
        obtain ⟨word, inside, _, same⟩ :=
          mem_heads.mp ((mem_copies called).mp ((exact' code).mpr member))
        exact ⟨word, inside, same⟩ }
  · rintro ⟨first, distinct, begins, separate⟩
    refine ⟨(nodup_copies called).mpr ⟨nodup_heads.mpr distinct, first.imp_right heads_eq_nil.mpr⟩,
      fun code => ?_⟩
    rw [mem_copies called, mem_heads]
    constructor
    · rintro ⟨word, inside, long, rfl⟩
      exact begins word inside long
    · intro member
      obtain ⟨word, inside, rfl⟩ := separate code member
      have two := mem_codesOf member
      rw [List.length_take] at two
      exact ⟨word, inside, by omega, rfl⟩

/-- In a regular file all words of the second line are read. -/
theorem Regular.wordsRead_eq (regular : Regular content) :
    wordsRead content = wordsOf ((content.splitOn 10).getD 1 []) := by
  obtain ⟨first, lines⟩ := regular
  rw [wordsRead, if_neg first, separated, if_pos lines]

/-- For a regular file there is more to say: the words are no longer than two characters, and no
code is on the line twice. -/
theorem Regular.readOnce_iff (regular : Regular content) :
    ReadOnce content n ↔
      (n = 1 ∨ ∀ word ∈ wordsRead content, word.length < 2) ∧
        (∀ word ∈ wordsRead content, word.length ≤ 2) ∧ (codesOf content).Nodup := by
  have codes : codesOf content = (wordsRead content).filter (·.length = 2) := by
    rw [regular.wordsRead_eq]
    rfl
  constructor
  · rintro ⟨first, distinct, begins, _⟩
    refine ⟨first, fun word member => ?_, ?_⟩
    · by_contra long
      have begun := begins word member (by omega)
      have inside := (List.mem_filter.mp (codes ▸ begun)).1
      have two := mem_codesOf begun
      have same : word = word.take 2 := by
        refine List.inj_on_of_nodup_map (nodup_heads.mpr distinct) ?_ ?_ ?_
        · exact List.mem_filter.mpr ⟨member, decide_eq_true (by omega)⟩
        · exact List.mem_filter.mpr ⟨inside, decide_eq_true (by omega)⟩
        · rw [List.take_take, Nat.min_self]
      rw [← same] at two
      omega
    · rw [codes]
      have fewer : ((wordsRead content).filter (·.length = 2)).Sublist
          ((wordsRead content).filter (2 ≤ ·.length)) :=
        List.monotone_filter_right _ fun word two =>
          decide_eq_true (of_decide_eq_true two).ge
      exact (distinct.sublist fewer).imp fun differ same => differ (congrArg _ same)
  · rintro ⟨first, short, once⟩
    have whole : ∀ word ∈ wordsRead content, 2 ≤ word.length → word ∈ codesOf content :=
      fun word member long => codes ▸ List.mem_filter.mpr ⟨member,
        decide_eq_true (le_antisymm (short word member) long)⟩
    have same : (wordsRead content).filter (2 ≤ ·.length) = codesOf content := by
      rw [codes]
      refine List.filter_congr fun word member => decide_eq_decide.mpr ?_
      have few := short word member
      omega
    exact {
      first := first
      distinct := by
        rw [same]
        refine once.imp_of_mem fun {left right} here there differ alike => differ ?_
        rwa [List.take_of_length_le (mem_codesOf here).le,
          List.take_of_length_le (mem_codesOf there).le] at alike
      begins := fun word member long => by
        rw [List.take_of_length_le (short word member)]
        exact whole word member long
      separate := fun code member =>
        ⟨code, (List.mem_filter.mp (codes ▸ member)).1,
          List.take_of_length_le (mem_codesOf member).le⟩ }

/-- After any number of calls the list holds the codes of the second line, each once, exactly when
the words say so: in a regular file this takes that only one call was made, or that there is no
code to find. The next call returns, whatever happens to the heap before. -/
theorem stlog_loadedOnce_iff (calls : PqfhCalls content n st) (called : 1 ≤ n) :
    (∃ codes, st.codes = some codes ∧ (LoadedOnce content codes ↔ ReadOnce content n)) ∧
      (Regular content → (ReadOnce content n ↔
        (n = 1 ∨ ∀ word ∈ wordsRead content, word.length < 2) ∧
          (∀ word ∈ wordsRead content, word.length ≤ 2) ∧ (codesOf content).Nodup)) ∧
      ∀ (malloc : Allocator Item) (heap : Heap Item), NodesKept st.heap st.stlog heap →
        ∃ st', getMode malloc (some content) { st with heap := heap } = some st' := by
  have keeps := calls.keeps
  refine ⟨⟨_, keeps.codes_eq fun code => length_of_mem_copies, loadedOnce_iff called⟩,
    Regular.readOnce_iff, fun malloc heap same => ?_⟩
  obtain ⟨st', ran, _⟩ := (keeps.nodesKept same).getMode malloc content
  exact ⟨st', ran⟩

/-! ## What the filter answers -/

/-- The item of a code begins with its two bytes. -/
theorem codeItem_starts {code : List Byte} (two : code.length = 2) (first second : Byte) :
    ((codeItem code).buf[0]? = some first ∧ (codeItem code).buf[1]? = some second) ↔
      [first, second] = code := by
  obtain ⟨a, b, rfl⟩ := List.length_eq_two.mp two
  constructor
  · rintro ⟨⟨⟩, ⟨⟩⟩
    rfl
  · rintro ⟨⟩
    exact ⟨rfl, rfl⟩

/-- The loop over the list says whether the code of a status is in it. -/
theorem stlogLoop_eq {heap : Heap Item} {nodes : List (ℕ × Item)} {before : Option ℕ}
    (status : Byte × Byte) (linked : Segment heap before nodes none)
    (kept : nodes.map Prod.snd = codes.map codeItem) (two : ∀ code ∈ codes, code.length = 2)
    {steps : ℕ} (enough : nodes.length ≤ steps) :
    stlogLoop heap status steps (firstOf nodes none) =
      some (decide ([status.1, status.2] ∈ codes)) := by
  induction nodes generalizing before codes steps with
  | nil =>
      obtain rfl := List.map_eq_nil_iff.mp kept.symm
      rw [firstOf, stlogLoop]
      rfl
  | cons node rest ih =>
      obtain ⟨code, others, rfl, item, later⟩ := List.map_eq_cons_iff.mp kept.symm
      obtain ⟨here, after⟩ := List.forall_mem_cons.mp two
      cases steps with
      | zero => cases enough
      | succ steps =>
          rw [firstOf, stlogLoop, linked.1]
          dsimp only [Option.bind_eq_bind, Option.bind_some]
          rw [← item]
          by_cases found : [status.1, status.2] = code
          · rw [if_pos ((codeItem_starts here _ _).mpr found),
              decide_eq_true (List.mem_cons.mpr (.inl found))]
          · rw [if_neg (mt (codeItem_starts here _ _).mp found),
              ih linked.2 later.symm after (Nat.le_of_succ_le_succ enough)]
            refine congrArg some (decide_eq_decide.mpr ?_)
            rw [List.mem_cons, or_iff_right found]

/-- What the filter answers does not depend on the number of calls. -/
theorem isStlog_calls (calls : PqfhCalls content n st) (called : 1 ≤ n) (status : Byte × Byte) :
    isStlog st status = some (decide (status.1 = 57) ||
      decide ([status.1, status.2] ∈ heads (wordsRead content))) := by
  obtain ⟨nodes, linked, first, kept⟩ := calls.keeps
  rw [isStlog]
  by_cases fatal : status.1 = 57
  · rw [if_pos fatal, decide_eq_true fatal, Bool.true_or]
  · rw [if_neg fatal, first, decide_eq_false fatal, Bool.false_or,
      stlogLoop_eq status linked kept (fun code => length_of_mem_copies) linked.length_le]
    exact congrArg some (decide_eq_decide.mpr (mem_copies called))

/-! ## Two files -/

/-- The calls can be made. -/
theorem exists_calls (content : List Byte) (n : ℕ) : ∃ st, PqfhCalls content n st := by
  induction n with
  | zero => exact ⟨⟨∅, none, 73, false, true⟩, .start rfl⟩
  | succ n ih =>
      obtain ⟨st, calls⟩ := ih
      obtain ⟨st', ran, _⟩ := calls.keeps.getMode (Allocator.bump Item) content
      exact ⟨st', calls.call _ (fun _ _ _ _ _ => rfl) ran⟩

/-- A file with two codes on its second line. -/
def twoCodes : List Byte := ascii "I" ++ [10] ++ ascii "23 35" ++ [10]

/-- A file that ends behind its only code. -/
def openEnd : List Byte := ascii "I" ++ [10] ++ ascii "23"

/-- The second call leaves each code in the list twice, and a code at the end of the file is not
stored. -/
theorem stlog_loadedOnce_fails :
    (∃ st, PqfhCalls twoCodes 2 st ∧
        st.codes = some [ascii "23", ascii "35", ascii "23", ascii "35"] ∧
        ¬ LoadedOnce twoCodes [ascii "23", ascii "35", ascii "23", ascii "35"]) ∧
      ∃ st, PqfhCalls openEnd 1 st ∧ st.codes = some [] ∧ ¬ LoadedOnce openEnd [] := by
  constructor
  · obtain ⟨st, calls⟩ := exists_calls twoCodes 2
    have shape : (List.replicate 2 (heads (wordsRead twoCodes))).flatten =
        [ascii "23", ascii "35", ascii "23", ascii "35"] := by decide
    have codes := calls.keeps.codes_eq fun code => length_of_mem_copies
    refine ⟨st, calls, shape ▸ codes, fun loaded => ?_⟩
    exact absurd loaded.once (by decide)
  · obtain ⟨st, calls⟩ := exists_calls openEnd 1
    have shape : (List.replicate 1 (heads (wordsRead openEnd))).flatten = [] := by decide
    have codes := calls.keeps.codes_eq fun code => length_of_mem_copies
    refine ⟨st, calls, shape ▸ codes, fun loaded => ?_⟩
    have stored := (loaded.exact (ascii "23")).mpr (by decide)
    cases stored

/-- One call loads the codes of a file that ends in a newline. -/
theorem stlog_loadedOnce_first :
    ∃ st codes, PqfhCalls twoCodes 1 st ∧ st.codes = some codes ∧ LoadedOnce twoCodes codes := by
  obtain ⟨st, calls⟩ := exists_calls twoCodes 1
  obtain ⟨⟨codes, read, loaded⟩, _⟩ := stlog_loadedOnce_iff calls le_rfl
  refine ⟨st, codes, calls, read, loaded.mpr ?_⟩
  exact ⟨.inl rfl, by decide, by decide, by decide⟩

end Pqfh
