import Pqfh.Core.List2
import Pqfh.Handler.MetaCache

/-! # The program stack and the table cache

Two lists that the handler holds by their last nodes: the names of the programs that run, and the
cache of tables. In any run of the process, whatever else happens to the heap, the one is a stack
and the other takes entries in and gives them up by their names.
-/

namespace Pqfh

open LinkedHeap

/-! ## The program stack -/

/-- The heap and `call_stack`. -/
structure Calls where
  heap : Heap Item
  callStack : Option ℕ

/-- `program`. -/
def Calls.program (malloc : Allocator Item) (name : List Byte) (st : Calls) : Option Calls := do
  let (heap, item) ← list2Append malloc st.heap st.callStack name ((cstr name).length + 1)
  some ⟨heap, some item⟩

/-- `exit_program`. -/
def Calls.exitProgram (st : Calls) : Option Calls :=
  match st.callStack with
  | none => some st
  | some list => do
      let (heap, list) ← list2Remove st.heap list
      some ⟨heap, list⟩

/-- The text `progname` that the signal handlers and error logs read. -/
def Calls.progname (st : Calls) : Option (List Byte) :=
  match st.callStack with
  | none => some []
  | some list => (st.heap.lookup list).map fun node => cstr node.item.buf

/-- What a process does: the two functions, and everything else. -/
inductive StackOp where
  | program (name : List Byte)
  | exitProgram
  | other

/-- What is left of everything else is that it keeps the nodes of the stack. -/
inductive StackStep : Calls → StackOp → Calls → Prop where
  | program {st st' : Calls} (malloc : Allocator Item) {name : List Byte}
      (ran : st.program malloc name = some st') : StackStep st (.program name) st'
  | exitProgram {st st' : Calls} (ran : st.exitProgram = some st') : StackStep st .exitProgram st'
  | other {st : Calls} {heap : Heap Item} (same : NodesKept st.heap st.callStack heap) :
      StackStep st .other { st with heap := heap }

/-- A run of the process, from the start on. -/
inductive StackRun : List StackOp → Calls → Prop where
  | start (heap : Heap Item) : StackRun [] ⟨heap, none⟩
  | step {ops : List StackOp} {op : StackOp} {st st' : Calls} (earlier : StackRun ops st)
      (next : StackStep st op st') : StackRun (ops ++ [op]) st'

/-- The same on a stack of texts. -/
def StackOp.apply (names : List (List Byte)) : StackOp → List (List Byte)
  | .program name => cstr name :: names
  | .exitProgram => names.tail
  | .other => names

/-- The list keeps the names on the stack, the top one last. -/
def Calls.Stacked (st : Calls) (names : List (List Byte)) : Prop :=
  ∃ items, HeldByLast st.heap st.callStack items ∧
    items.map (fun item => cstr item.buf) = names

variable {st st' : Calls} {names : List (List Byte)}

/-- The copy of a text reads as the text. -/
theorem cstr_copyBuffer (name : List Byte) :
    cstr (copyBuffer name ((cstr name).length + 1)).buf = cstr name := by
  rw [copyBuffer, if_neg (Nat.succ_ne_zero _)]
  induction name with
  | nil => rfl
  | cons first rest ih =>
      by_cases ends : first = 0
      · subst ends
        rfl
      · rw [cstr_cons ends, List.length_cons, List.take_succ_cons, cstr_cons ends]
        exact congrArg _ ih

/-- A program that is called stands on top. -/
theorem Calls.Stacked.program (stacked : st.Stacked names) (malloc : Allocator Item)
    (name : List Byte) :
    ∃ st', st.program malloc name = some st' ∧ st'.Stacked (cstr name :: names) := by
  obtain ⟨items, held, rfl⟩ := stacked
  obtain ⟨heap', new, ran, longer⟩ := held.append malloc (copyBuffer name ((cstr name).length + 1))
  refine ⟨⟨heap', some new⟩, ?_, _, longer, ?_⟩
  · rw [Calls.program, list2Append, ran]
    rfl
  · rw [List.map_cons, cstr_copyBuffer]

/-- A program that exits leaves those below it. -/
theorem Calls.Stacked.exitProgram (stacked : st.Stacked names) :
    ∃ st', st.exitProgram = some st' ∧ st'.Stacked names.tail := by
  obtain ⟨heap, callStack⟩ := st
  obtain ⟨items, held, rfl⟩ := stacked
  cases callStack with
  | none =>
      obtain rfl := held.eq_nil
      exact ⟨_, rfl, [], held, rfl⟩
  | some list =>
      obtain ⟨heap', pointer, removed, shorter⟩ := held.pop
      refine ⟨⟨heap', pointer⟩, ?_, _, shorter, List.map_tail⟩
      rw [Calls.exitProgram]
      dsimp only
      rw [removed]
      rfl

/-- The name on top is that of the program that runs. -/
theorem Calls.Stacked.progname (stacked : st.Stacked names) :
    st.progname = some (names.head?.getD []) := by
  obtain ⟨heap, callStack⟩ := st
  obtain ⟨items, held, rfl⟩ := stacked
  cases callStack with
  | none =>
      obtain rfl := held.eq_nil
      rfl
  | some list =>
      obtain ⟨item, items, prior, rfl, found⟩ := held.lookup
      rw [Calls.progname]
      dsimp only
      rw [found]
      rfl

/-- Every step stacks the names as it should. -/
theorem StackStep.stacked {op : StackOp} (step : StackStep st op st') (stacked : st.Stacked names) :
    st'.Stacked (op.apply names) := by
  cases step with
  | program malloc ran =>
      obtain ⟨_, same, after⟩ := stacked.program malloc _
      obtain rfl := Option.some.inj (ran.symm.trans same)
      exact after
  | exitProgram ran =>
      obtain ⟨_, same, after⟩ := stacked.exitProgram
      obtain rfl := Option.some.inj (ran.symm.trans same)
      exact after
  | other same =>
      obtain ⟨items, held, kept⟩ := stacked
      exact ⟨items, held.nodesKept same, kept⟩

/-- Every run stacks the names as it should. -/
theorem StackRun.stacked {ops : List StackOp} (run : StackRun ops st) :
    st.Stacked (ops.foldl StackOp.apply []) := by
  induction run with
  | start heap => exact ⟨[], heldByLast_null heap, rfl⟩
  | step _ next ih =>
      rw [List.foldl_append]
      exact next.stacked ih

/-! ## The table cache -/

/-- The heap and `cache`. -/
structure Cached where
  heap : Heap CacheEntry
  cache : Option ℕ

/-- `cache_put`, from the entry on that it makes of the table. -/
def Cached.cachePut (malloc : Allocator CacheEntry) (entry : CacheEntry) (st : Cached) :
    Option Cached := do
  let (heap, item) ← appendItem malloc st.heap st.cache entry
  some ⟨heap, some item⟩

/-- The loop of `cache_remove` up to the node of the table. -/
def searchLoop (heap : Heap CacheEntry) (name : List Byte) : ℕ → Option ℕ → Option (Option ℕ)
  | _, none => some none
  | 0, some _ => none
  | steps + 1, some ptr => do
      let node ← heap.lookup ptr
      if node.item.name = name then some (some ptr) else searchLoop heap name steps node.prior

/-- `cache_remove`. -/
def Cached.cacheRemove (name : List Byte) (st : Cached) : Option Cached := do
  match ← searchLoop st.heap name st.heap.entries.length st.cache with
  | none => some st
  | some ptr => do
      let (heap, cache) ← list2Remove st.heap ptr
      let cache ← list2Last heap cache
      some ⟨heap, cache⟩

/-- What a process does: the two functions, and everything else. -/
inductive CacheOp where
  | put (entry : CacheEntry)
  | remove (name : List Byte)
  | other

inductive CacheStep : Cached → CacheOp → Cached → Prop where
  | put {st st' : Cached} (malloc : Allocator CacheEntry) {entry : CacheEntry}
      (ran : st.cachePut malloc entry = some st') : CacheStep st (.put entry) st'
  | remove {st st' : Cached} {name : List Byte} (ran : st.cacheRemove name = some st') :
      CacheStep st (.remove name) st'
  | other {st : Cached} {heap : Heap CacheEntry} (same : NodesKept st.heap st.cache heap) :
      CacheStep st .other { st with heap := heap }

/-- A run of the process, from the start on. -/
inductive CacheRun : List CacheOp → Cached → Prop where
  | start (heap : Heap CacheEntry) : CacheRun [] ⟨heap, none⟩
  | step {ops : List CacheOp} {op : CacheOp} {st st' : Cached} (earlier : CacheRun ops st)
      (next : CacheStep st op st') : CacheRun (ops ++ [op]) st'

/-- The same on the list of the entries, the entry made last first. -/
def CacheOp.apply (entries : List CacheEntry) : CacheOp → List CacheEntry
  | .put entry => entry :: entries
  | .remove name => cacheRemove entries name
  | .other => entries

/-- The list keeps the entries of the cache. -/
def Cached.Holds (st : Cached) (entries : List CacheEntry) : Prop :=
  HeldByLast st.heap st.cache entries

/-- The loop over the list finds the first entry of the name. -/
theorem searchLoop_eq {heap : Heap CacheEntry} {nodes : List (ℕ × CacheEntry)} {after : Option ℕ}
    (name : List Byte) (linked : Segment heap none nodes after) {steps : ℕ}
    (enough : nodes.length ≤ steps) :
    searchLoop heap name steps (lastOf none nodes) =
      some ((nodes.reverse.find? fun node => node.2.name = name).map Prod.fst) := by
  induction nodes using List.reverseRecOn generalizing after steps with
  | nil => rw [lastOf, searchLoop]; rfl
  | append_singleton left node ih =>
      rw [List.length_append, List.length_singleton] at enough
      cases steps with
      | zero => cases enough
      | succ steps =>
          rw [lastOf_concat, searchLoop, linked.lookup, List.reverse_append, List.reverse_singleton,
            List.singleton_append, List.find?_cons]
          dsimp only [Option.bind_eq_bind, Option.bind_some]
          by_cases here : node.2.name = name
          · rw [if_pos here, decide_eq_true here]
            rfl
          · rw [if_neg here, decide_eq_false here]
            exact ih (segment_append.mp linked).1 (Nat.le_of_succ_le_succ enough)

variable {cached cached' : Cached} {entries : List CacheEntry}

/-- An entry that is put is in the cache. -/
theorem Cached.Holds.cachePut (holds : cached.Holds entries) (malloc : Allocator CacheEntry)
    (entry : CacheEntry) :
    ∃ cached', cached.cachePut malloc entry = some cached' ∧ cached'.Holds (entry :: entries) := by
  obtain ⟨heap', new, ran, longer⟩ := HeldByLast.append malloc holds entry
  refine ⟨⟨heap', some new⟩, ?_, longer⟩
  rw [Cached.cachePut, ran]
  rfl

/-- An entry that is removed is in the cache no more. -/
theorem Cached.Holds.cacheRemove (holds : cached.Holds entries) (name : List Byte) :
    ∃ cached', cached.cacheRemove name = some cached' ∧
      cached'.Holds (Pqfh.cacheRemove entries name) := by
  obtain ⟨heap, cache⟩ := cached
  obtain ⟨nodes, linked, last, kept⟩ := holds
  dsimp only at linked last
  have turned : entries = nodes.reverse.map Prod.snd := by
    rw [List.map_reverse, kept, List.reverse_reverse]
  have searched := searchLoop_eq name linked linked.length_le
  rw [← last] at searched
  cases found : nodes.reverse.find? fun node => node.2.name = name with
  | none =>
      rw [found] at searched
      have absent : ∀ entry ∈ entries, ¬ decide (entry.name = name) := by
        intro entry member
        rw [turned] at member
        obtain ⟨node, inside, rfl⟩ := List.mem_map.mp member
        exact List.find?_eq_none.mp found node inside
      refine ⟨⟨heap, cache⟩, ?_, nodes, linked, last, ?_⟩
      · rw [Cached.cacheRemove]
        dsimp only
        rw [searched]
        rfl
      · rw [Pqfh.cacheRemove, List.eraseP_of_forall_not absent]
        exact kept
  | some node =>
      obtain ⟨named, before, behind, shape, others⟩ := List.find?_eq_some_iff_append.mp found
      have split : nodes = behind.reverse ++ node :: before.reverse := by
        rw [← List.reverse_reverse nodes, shape, List.reverse_append, List.reverse_cons,
          List.append_assoc, List.singleton_append]
      subst split
      obtain ⟨heap', pointer, removed, shorter, again⟩ := HeldByLast.remove linked
      rw [found] at searched
      refine ⟨⟨heap', _⟩, ?_, _, shorter, rfl, ?_⟩
      · rw [Cached.cacheRemove]
        dsimp only
        rw [searched]
        dsimp only [Option.bind_eq_bind, Option.bind_some, Option.map_some]
        rw [removed]
        dsimp only [Option.bind_some]
        rw [again]
        rfl
      · have passed : ∀ entry ∈ before.map Prod.snd, ¬ decide (entry.name = name) := by
          intro entry member
          obtain ⟨other, inside, rfl⟩ := List.mem_map.mp member
          have unlike := others other inside
          simpa using unlike
        have erased : Pqfh.cacheRemove entries name =
            before.map Prod.snd ++ behind.map Prod.snd := by
          rw [turned, shape, List.map_append, List.map_cons, Pqfh.cacheRemove,
            List.eraseP_append_right _ passed]
          exact congrArg _ (List.eraseP_cons_of_pos named)
        rw [erased, List.reverse_append, List.map_append, List.map_reverse, List.map_reverse]

/-- Every step keeps the sequence of the cache. -/
theorem CacheStep.holds {op : CacheOp} (step : CacheStep cached op cached')
    (holds : cached.Holds entries) : cached'.Holds (op.apply entries) := by
  cases step with
  | put malloc ran =>
      obtain ⟨_, same, after⟩ := holds.cachePut malloc _
      obtain rfl := Option.some.inj (ran.symm.trans same)
      exact after
  | remove ran =>
      obtain ⟨_, same, after⟩ := holds.cacheRemove _
      obtain rfl := Option.some.inj (ran.symm.trans same)
      exact after
  | other same => exact HeldByLast.nodesKept holds same

/-- Every run keeps the sequence of the cache. -/
theorem CacheRun.holds {ops : List CacheOp} (run : CacheRun ops cached) :
    cached.Holds (ops.foldl CacheOp.apply []) := by
  induction run with
  | start heap => exact heldByLast_null heap
  | step _ next ih =>
      rw [List.foldl_append]
      exact next.holds ih

/-! ## All of it -/

/-- What the functions of `list2.c` do with a list, from one of its nodes. -/
structure ActsAsSequence (heap : Heap Item) (nodes : List (ℕ × Item)) (list : ℕ) : Prop where
  append : ∀ (malloc : Allocator Item) (buf : List Byte) (size : ℕ), ∃ heap' new,
    list2Append malloc heap (some list) buf size = some (heap', new) ∧
      Represents heap' (nodes ++ [(new, copyBuffer buf size)]) ∧ new ∉ heap ∧
        SameBut (new :: addresses nodes) heap heap'
  remove : ∀ left item right, nodes = left ++ (list, item) :: right → ∃ heap',
    list2Remove heap list = some (heap', (right.head?.or left.getLast?).map Prod.fst) ∧
      Removed heap heap' left (list, item) right
  first : list2First heap (some list) = some (nodes.head?.map Prod.fst)
  last : list2Last heap (some list) = some (nodes.getLast?.map Prod.fst)
  size : list2Size heap (some list) = some nodes.length
  get : ∀ i : ℤ, list2Get heap (some list) i =
    some (if 0 ≤ i then nodes[i.toNat]?.map Prod.fst else none)
  free : ∃ heap', list2Free heap (some list) = some (heap', none) ∧
    (∀ address ∈ addresses nodes, address ∉ heap') ∧ SameBut (addresses nodes) heap heap'

/-- The names stand on a stack: the next call puts one on top or takes the top one off. -/
structure ActsAsStack (st : Calls) (names : List (List Byte)) : Prop where
  stacked : st.Stacked names
  top : st.progname = some (names.head?.getD [])
  program : ∀ (malloc : Allocator Item) (name : List Byte), ∃ st',
    st.program malloc name = some st' ∧ st'.Stacked (cstr name :: names)
  exitProgram : ∃ st', st.exitProgram = some st' ∧ st'.Stacked names.tail

/-- The entries are in the cache: the next call takes one in or gives one up. -/
structure ActsAsCache (st : Cached) (entries : List CacheEntry) : Prop where
  holds : st.Holds entries
  put : ∀ (malloc : Allocator CacheEntry) (entry : CacheEntry), ∃ st',
    st.cachePut malloc entry = some st' ∧ st'.Holds (entry :: entries)
  remove : ∀ name, ∃ st', st.cacheRemove name = some st' ∧
    st'.Holds (Pqfh.cacheRemove entries name)

/-- From any node of a list its functions answer for the sequence that the heap represents, and
leave the other cells of the heap as they are. So in every run the program stack is a stack, and the
cache takes in and gives up its entries. -/
theorem list2_sequence :
    (∀ {heap : Heap Item} {nodes : List (ℕ × Item)} {list : ℕ}, Represents heap nodes →
        list ∈ addresses nodes → ActsAsSequence heap nodes list) ∧
      (∀ {ops : List StackOp} {st : Calls}, StackRun ops st →
        ActsAsStack st (ops.foldl StackOp.apply [])) ∧
      ∀ {ops : List CacheOp} {st : Cached}, CacheRun ops st →
        ActsAsCache st (ops.foldl CacheOp.apply []) := by
  refine ⟨?_, ?_, ?_⟩
  · intro heap nodes list linked member
    exact {
      append := fun malloc buf size => appendItem_eq malloc linked member (copyBuffer buf size)
      remove := by
        intro left item right shape
        subst shape
        obtain ⟨heap', removed, one⟩ := list2Remove_eq linked
        rw [firstOf_lastOf] at removed
        exact ⟨heap', removed, one⟩
      first := (list2First_eq linked member).trans (congrArg some (firstOf_eq_head? nodes))
      last := (list2Last_eq linked member).trans (congrArg some (lastOf_eq_getLast? nodes))
      size := list2Size_eq linked member
      get := list2Get_eq linked member
      free := list2Free_eq linked member }
  · intro ops st run
    have stacked := run.stacked
    exact {
      stacked := stacked
      top := stacked.progname
      program := stacked.program
      exitProgram := stacked.exitProgram }
  · intro ops st run
    have holds := run.holds
    exact {
      holds := holds
      put := holds.cachePut
      remove := holds.cacheRemove }

/-- Two nodes that keep a letter each. -/
def letterNodes : List (ℕ × Item) := [(1, ⟨[65, 0], 2⟩), (2, ⟨[66, 0], 2⟩)]

def letterHeap : Heap Item :=
  AList.insert 2 ⟨⟨[66, 0], 2⟩, none, some 1⟩ (AList.insert 1 ⟨⟨[65, 0], 2⟩, some 2, none⟩ ∅)

/-- The last of two nodes, a program that was called, and an entry that was put into the cache. -/
theorem list2_sequence_two :
    ActsAsSequence letterHeap letterNodes 2 ∧
      (∃ st, StackRun [.program (ascii "A")] st ∧ ActsAsStack st [ascii "A"]) ∧
        ∃ st, CacheRun [.put ⟨[], [], true, [], [], 0, []⟩] st ∧
          ActsAsCache st [⟨[], [], true, [], [], 0, []⟩] := by
  refine ⟨list2_sequence.1 ⟨rfl, rfl, trivial⟩ (by decide), ?_, ?_⟩
  · obtain ⟨st, ran, _⟩ := (StackRun.start ∅).stacked.program (Allocator.bump Item) (ascii "A")
    have run := (StackRun.start ∅).step (.program _ ran)
    exact ⟨st, run, list2_sequence.2.1 run⟩
  · obtain ⟨st, ran, _⟩ := (CacheRun.start ∅).holds.cachePut (Allocator.bump CacheEntry)
      ⟨[], [], true, [], [], 0, []⟩
    have run := (CacheRun.start ∅).step (.put _ ran)
    exact ⟨st, run, list2_sequence.2.2 run⟩

end Pqfh
