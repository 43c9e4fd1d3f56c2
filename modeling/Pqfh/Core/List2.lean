import Pqfh.Core.Bytes
import Pqfh.Foundation.LinkedHeap

/-! # The lists of the handler

`list2.c` over a heap. A list is handed around as a pointer to any of its nodes; the null pointer
is the empty list. There is no result where the source reads through a pointer that designates no
node, or where a loop does not end: one that takes more steps than there are nodes goes round in a
circle. A counter does not overflow in the 32-bit process, which has no room for so many nodes.
-/

namespace Pqfh

open LinkedHeap

variable {β : Type}

/-- `list2_first`. -/
def list2First (heap : Heap β) : Option ℕ → Option (Option ℕ)
  | none => some none
  | some list => (follow Cell.prior heap heap.entries.length list).map some

/-- `list2_last`. -/
def list2Last (heap : Heap β) : Option ℕ → Option (Option ℕ)
  | none => some none
  | some list => (follow Cell.next heap heap.entries.length list).map some

/-- `list2_append`, from the copy of the buffer on. -/
def appendItem (malloc : Allocator β) (heap : Heap β) (list : Option ℕ) (item : β) :
    Option (Heap β × ℕ) := do
  let last ← list2Last heap list
  let address := malloc.address heap
  let heap := heap.insert address ⟨item, none, none⟩
  match last with
  | none => some (heap, address)
  | some last => do
      let heap ← setNext heap last (some address)
      let heap ← setPrior heap address (some last)
      some (heap, address)

/-- What a node keeps of a buffer. -/
structure Item where
  buf : List Byte
  size : ℕ
  deriving DecidableEq

/-- The copy that `list2_append` makes. A size of zero stands for that of a text. -/
def copyBuffer (buf : List Byte) (size : ℕ) : Item :=
  let size := if size = 0 then (cstr buf).length + 1 else size
  ⟨buf.take size, size⟩

/-- `list2_append`. -/
def list2Append (malloc : Allocator Item) (heap : Heap Item) (list : Option ℕ) (buf : List Byte)
    (size : ℕ) : Option (Heap Item × ℕ) :=
  appendItem malloc heap list (copyBuffer buf size)

/-- `list2_remove`, with the calls that may still be made. -/
def removeNode : ℕ → Heap β → ℕ → Option (Heap β × Option ℕ)
  | 0, _, _ => none
  | calls + 1, heap, item => do
      let node ← heap.lookup item
      match node.next, node.prior with
      | none, none => some (heap.erase item, none)
      | none, some prior => do
          let heap ← setNext heap prior none
          let heap ← setPrior heap item none
          let (heap, _) ← removeNode calls heap item
          some (heap, some prior)
      | some next, none => do
          let heap ← setPrior heap next none
          let heap ← setNext heap item none
          let (heap, _) ← removeNode calls heap item
          some (heap, some next)
      | some next, some prior => do
          let heap ← setPrior heap next (some prior)
          let heap ← setNext heap prior (some next)
          let heap ← setNext heap item none
          let heap ← setPrior heap item none
          let (heap, _) ← removeNode calls heap item
          some (heap, some next)

/-- `list2_remove`. It calls itself once at most, on a node that is alone by then. -/
def list2Remove (heap : Heap β) (item : ℕ) : Option (Heap β × Option ℕ) := removeNode 2 heap item

/-- The loop of `list2_free`. -/
def freeLoop : ℕ → Heap β → Option ℕ → Option (Heap β)
  | _, heap, none => some heap
  | 0, _, some _ => none
  | steps + 1, heap, some list => do
      let (heap, list) ← list2Remove heap list
      freeLoop steps heap list

/-- `list2_free`. -/
def list2Free (heap : Heap β) (list : Option ℕ) : Option (Heap β × Option ℕ) := do
  let list ← list2First heap list
  let heap ← freeLoop heap.entries.length heap list
  some (heap, none)

/-- The loop of `list2_size`. -/
def sizeLoop (heap : Heap β) : ℕ → ℕ → Option ℕ → Option ℕ
  | _, sz, none => some sz
  | 0, _, some _ => none
  | steps + 1, sz, some ptr => do
      let node ← heap.lookup ptr
      sizeLoop heap steps (sz + 1) node.next

/-- `list2_size`. -/
def list2Size (heap : Heap β) (list : Option ℕ) : Option ℕ := do
  let ptr ← list2First heap list
  sizeLoop heap heap.entries.length 0 ptr

/-- The loop of `list2_get`. -/
def getLoop (heap : Heap β) (i : ℤ) : ℕ → ℤ → Option ℕ → Option (Option ℕ)
  | _, _, none => some none
  | 0, _, some _ => none
  | steps + 1, j, some ptr =>
      if j = i then some (some ptr)
      else do
        let node ← heap.lookup ptr
        getLoop heap i steps (j + 1) node.next

/-- `list2_get`. -/
def list2Get (heap : Heap β) (list : Option ℕ) (i : ℤ) : Option (Option ℕ) := do
  let ptr ← list2First heap list
  getLoop heap i heap.entries.length 0 ptr

/-! ## From any node to the ends -/

variable {heap : Heap β} {nodes left right : List (ℕ × β)} {node : ℕ × β} {list : ℕ}

/-- A node of a list with the nodes on both sides. -/
theorem exists_around (member : list ∈ addresses nodes) :
    ∃ left node right, nodes = left ++ node :: right ∧ node.1 = list := by
  obtain ⟨node, inside, rfl⟩ := List.mem_map.mp member
  obtain ⟨left, right, rfl⟩ := List.append_of_mem inside
  exact ⟨left, node, right, rfl, rfl⟩

/-- From any node the first one is found. -/
theorem list2First_eq (linked : Represents heap nodes) (member : list ∈ addresses nodes) :
    list2First heap (some list) = some (firstOf nodes none) := by
  obtain ⟨left, node, right, rfl, rfl⟩ := exists_around member
  have room := linked.length_le
  rw [List.length_append, List.length_cons] at room
  rw [list2First, follow_prior linked (by omega)]
  cases left with
  | nil => rfl
  | cons first left => rfl

/-- From any node the last one is found. -/
theorem list2Last_eq (linked : Represents heap nodes) (member : list ∈ addresses nodes) :
    list2Last heap (some list) = some (lastOf none nodes) := by
  obtain ⟨left, node, right, rfl, rfl⟩ := exists_around member
  have room := linked.length_le
  rw [List.length_append, List.length_cons] at room
  rw [list2Last, follow_next (segment_append.mp linked).2 (by omega), lastOf_append]
  obtain ⟨address, _, last⟩ := exists_lastOf_cons (lastOf none left) node right
  rw [last]
  rfl

/-! ## Appending -/

/-- An item appended to no list makes one. -/
theorem appendItem_null (malloc : Allocator β) (heap : Heap β) (item : β) :
    ∃ heap' new, appendItem malloc heap none item = some (heap', new) ∧
      Represents heap' [(new, item)] ∧ new ∉ heap ∧ SameBut [new] heap heap' :=
  ⟨_, malloc.address heap, rfl, ⟨AList.lookup_insert heap, trivial⟩, malloc.unused heap,
    sameBut_insert heap _ _⟩

/-- An item is appended behind the last node. -/
theorem appendItem_eq (malloc : Allocator β) (linked : Represents heap nodes)
    (member : list ∈ addresses nodes) (item : β) :
    ∃ heap' new, appendItem malloc heap (some list) item = some (heap', new) ∧
      Represents heap' (nodes ++ [(new, item)]) ∧ new ∉ heap ∧
        SameBut (new :: addresses nodes) heap heap' := by
  have last := list2Last_eq linked member
  rcases List.eq_nil_or_concat nodes with rfl | ⟨left, node, rfl⟩
  · cases member
  rw [List.concat_eq_append] at linked last ⊢
  rw [lastOf_concat] at last
  have once := linked.nodup
  rw [addresses_append] at once
  have apart : node.1 ∉ addresses left := fun inside =>
    (List.nodup_append.mp once).2.2 _ inside _ List.mem_cons_self rfl
  let new := malloc.address heap
  have fresh : new ∉ heap := malloc.unused heap
  have outside : new ∉ addresses (left ++ [node]) := fun inside => fresh (linked.mem inside)
  have other : new ≠ node.1 := fun same =>
    outside (same ▸ mem_addresses (List.mem_append_right left List.mem_cons_self))
  have grown := linked.insert outside ⟨item, none, none⟩
  have joined := grown.insert_last apart (some new)
  have written := setNext_eq grown.lookup (some new)
  let linkedHeap : Heap β := AList.insert node.1 ⟨node.2, some new, lastOf none left⟩
    (heap.insert new ⟨item, none, none⟩)
  have alone : linkedHeap.lookup new = some ⟨item, none, none⟩ :=
    (AList.lookup_insert_ne other).trans (AList.lookup_insert heap)
  have closed := setPrior_eq alone (some node.1)
  have ran : appendItem malloc heap (some list) item =
      some (linkedHeap.insert new ⟨item, none, some node.1⟩, new) := by
    unfold appendItem
    rw [last]
    dsimp only [Option.bind_eq_bind, Option.bind_some]
    rw [written]
    dsimp only [Option.bind_some]
    rw [closed]
    rfl
  refine ⟨_, new, ran, ?_, fresh, ?_⟩
  · refine segment_append.mpr ⟨joined.insert outside _, ?_⟩
    rw [lastOf_concat]
    exact ⟨AList.lookup_insert _, trivial⟩
  · have ends : node.1 ∈ addresses (left ++ [node]) :=
      mem_addresses (List.mem_append_right left List.mem_cons_self)
    exact (((SameBut.refl _ heap).insert List.mem_cons_self _).insert
      (List.mem_cons_of_mem _ ends) _).insert List.mem_cons_self _

/-! ## Removing -/

/-- A node alone is removed, and no list is left. -/
theorem removeNode_alone {item : ℕ} {value : β}
    (found : heap.lookup item = some ⟨value, none, none⟩) (calls : ℕ) :
    removeNode (calls + 1) heap item = some (heap.erase item, none) := by
  rw [removeNode, found]
  rfl

/-- A heap in which a node was taken out of its list, before it is freed. -/
structure TakenOut (heap loose : Heap β) (left : List (ℕ × β)) (node : ℕ × β)
    (right : List (ℕ × β)) : Prop where
  alone : loose.lookup node.1 = some ⟨node.2, none, none⟩
  linked : Represents loose (left ++ right)
  same : SameBut (addresses (left ++ node :: right)) heap loose

/-- What freeing a node of a list comes to. -/
structure Removed (heap heap' : Heap β) (left : List (ℕ × β)) (node : ℕ × β)
    (right : List (ℕ × β)) : Prop where
  linked : Represents heap' (left ++ right)
  freed : node.1 ∉ heap'
  same : SameBut (addresses (left ++ node :: right)) heap heap'

/-- The nodes of a list are different from a node between them. -/
theorem apart_of_represents (linked : Represents heap (left ++ node :: right)) :
    node.1 ∉ addresses left ∧ node.1 ∉ addresses right ∧
      ∀ address ∈ addresses left, address ∉ addresses right := by
  have once := linked.nodup
  rw [addresses_append, addresses_cons] at once
  obtain ⟨_, behind, split⟩ := List.nodup_append.mp once
  refine ⟨fun inside => split _ inside _ List.mem_cons_self rfl, (List.nodup_cons.mp behind).1, ?_⟩
  exact fun address before after => split _ before _ (List.mem_cons_of_mem _ after) rfl

/-- A node taken out of the links is freed. -/
theorem TakenOut.removed {loose : Heap β} (out : TakenOut heap loose left node right)
    (linked : Represents heap (left ++ node :: right)) :
    Removed heap (loose.erase node.1) left node right where
  linked := by
    obtain ⟨before, after, _⟩ := apart_of_represents linked
    refine out.linked.erase ?_
    rw [addresses_append]
    exact fun inside => (List.mem_append.mp inside).elim before after
  freed member := (AList.mem_erase.mp member).1 rfl
  same := out.same.erase (mem_addresses (List.mem_append_right left List.mem_cons_self))

/-- The last node is removed, which is not the only one. -/
theorem list2Remove_last {neighbour : ℕ × β}
    (linked : Represents heap (left ++ [neighbour] ++ [node])) :
    ∃ heap', list2Remove heap node.1 = some (heap', some neighbour.1) ∧
      Removed heap heap' (left ++ [neighbour]) node [] := by
  obtain ⟨before, _, _⟩ := apart_of_represents linked
  have front := (segment_append.mp linked).1
  have apart : neighbour.1 ∉ addresses left := by
    rw [List.append_assoc] at linked
    exact (apart_of_represents linked).1
  have other : node.1 ≠ neighbour.1 := fun same =>
    before (same ▸ mem_addresses (List.mem_append_right left List.mem_cons_self))
  have here : heap.lookup node.1 = some ⟨node.2, none, some neighbour.1⟩ := by
    have found := linked.lookup
    rwa [lastOf_concat] at found
  let ended : Heap β := heap.insert neighbour.1 ⟨neighbour.2, none, lastOf none left⟩
  have stays : ended.lookup node.1 = some ⟨node.2, none, some neighbour.1⟩ :=
    (AList.lookup_insert_ne other).trans here
  let loose : Heap β := ended.insert node.1 ⟨node.2, none, none⟩
  have out : TakenOut heap loose (left ++ [neighbour]) node [] := {
    alone := AList.lookup_insert ended
    linked := by
      rw [List.append_nil]
      exact (front.insert_last apart none).insert before _
    same := by
      refine ((SameBut.refl _ heap).insert ?_ _).insert ?_ _
      · exact mem_addresses (List.mem_append_left _
          (List.mem_append_right left List.mem_cons_self))
      · exact mem_addresses (List.mem_append_right _ List.mem_cons_self) }
  refine ⟨_, ?_, out.removed linked⟩
  unfold list2Remove
  rw [removeNode, here]
  dsimp only [Option.bind_eq_bind, Option.bind_some]
  rw [setNext_eq front.lookup]
  dsimp only [Option.bind_some]
  rw [setPrior_eq stays]
  dsimp only [Option.bind_some]
  rw [removeNode_alone out.alone]
  rfl

/-- The first node is removed, which is not the only one. -/
theorem list2Remove_first {neighbour : ℕ × β}
    (linked : Represents heap (node :: neighbour :: right)) :
    ∃ heap', list2Remove heap node.1 = some (heap', some neighbour.1) ∧
      Removed heap heap' [] node (neighbour :: right) := by
  obtain ⟨_, after, _⟩ := apart_of_represents
    (show Represents heap ([] ++ node :: neighbour :: right) from linked)
  obtain ⟨here, behind⟩ := linked
  have apart : neighbour.1 ∉ addresses right :=
    (apart_of_represents (show Represents heap ([node] ++ neighbour :: right) from
      ⟨here, behind⟩)).2.1
  have other : node.1 ≠ neighbour.1 := List.ne_of_not_mem_cons after
  let begun : Heap β := heap.insert neighbour.1 ⟨neighbour.2, firstOf right none, none⟩
  have stays : begun.lookup node.1 = some ⟨node.2, some neighbour.1, none⟩ :=
    (AList.lookup_insert_ne other).trans here
  let loose : Heap β := begun.insert node.1 ⟨node.2, none, none⟩
  have out : TakenOut heap loose [] node (neighbour :: right) := {
    alone := AList.lookup_insert begun
    linked := (behind.insert_first apart none).insert after _
    same := ((SameBut.refl _ heap).insert
      (List.mem_cons_of_mem _ List.mem_cons_self) _).insert List.mem_cons_self _ }
  refine ⟨_, ?_, out.removed ⟨here, behind⟩⟩
  unfold list2Remove
  rw [removeNode, here]
  dsimp only [Option.bind_eq_bind, Option.bind_some, firstOf]
  rw [setPrior_eq behind.1]
  dsimp only [Option.bind_some]
  rw [setNext_eq stays]
  dsimp only [Option.bind_some]
  rw [removeNode_alone out.alone]
  rfl

/-- A node between two others is removed. -/
theorem list2Remove_middle {before after : ℕ × β}
    (linked : Represents heap (left ++ [before] ++ node :: after :: right)) :
    ∃ heap', list2Remove heap node.1 = some (heap', some after.1) ∧
      Removed heap heap' (left ++ [before]) node (after :: right) := by
  obtain ⟨early, late, split⟩ := apart_of_represents linked
  obtain ⟨front, here, behind⟩ := segment_append.mp linked
  rw [lastOf_concat] at here
  have once := front.nodup
  rw [addresses_append] at once
  have apart : before.1 ∉ addresses left := fun inside =>
    (List.nodup_append.mp once).2.2 _ inside _ List.mem_cons_self rfl
  have ends : before.1 ∈ addresses (left ++ [before]) :=
    mem_addresses (List.mem_append_right left List.mem_cons_self)
  have away : after.1 ∉ addresses (left ++ [before]) := fun inside =>
    split _ inside List.mem_cons_self
  have alone : after.1 ∉ addresses right := by
    have regrouped : Represents heap (left ++ [before] ++ [node] ++ after :: right) := by
      rw [List.append_assoc (left ++ [before])]
      exact linked
    exact (apart_of_represents regrouped).2.1
  let pointed : Heap β := heap.insert after.1 ⟨after.2, firstOf right none, some before.1⟩
  let joined : Heap β := pointed.insert before.1 ⟨before.2, some after.1, lastOf none left⟩
  let halved : Heap β := joined.insert node.1 ⟨node.2, none, some before.1⟩
  let loose : Heap β := halved.insert node.1 ⟨node.2, none, none⟩
  have front' : Segment pointed none (left ++ [before]) (some node.1) := front.insert away _
  have behind' : Segment pointed (some before.1) (after :: right) none :=
    behind.insert_first alone (some before.1)
  have stays : joined.lookup node.1 = some ⟨node.2, some after.1, some before.1⟩ :=
    (AList.lookup_insert_ne (ne_of_mem_of_not_mem ends early).symm).trans
      ((AList.lookup_insert_ne (List.ne_of_not_mem_cons late)).trans here)
  have out : TakenOut heap loose (left ++ [before]) node (after :: right) := {
    alone := AList.lookup_insert halved
    linked := by
      refine segment_append.mpr ⟨?_, ?_⟩
      · exact ((front'.insert_last apart (some after.1)).insert early _).insert early _
      · rw [lastOf_concat]
        exact ((behind'.insert (split _ ends) _).insert late _).insert late _
    same := by
      rw [addresses_append]
      have self : node.1 ∈ addresses (left ++ [before]) ++ addresses (node :: after :: right) :=
        List.mem_append_right _ List.mem_cons_self
      refine ((((SameBut.refl _ heap).insert ?_ _).insert ?_ _).insert self _).insert self _
      · exact List.mem_append_right _ (List.mem_cons_of_mem _ List.mem_cons_self)
      · exact List.mem_append_left _ ends }
  refine ⟨_, ?_, out.removed linked⟩
  unfold list2Remove
  rw [removeNode, here]
  dsimp only [Option.bind_eq_bind, Option.bind_some, firstOf]
  rw [setPrior_eq behind.1]
  dsimp only [Option.bind_some]
  rw [setNext_eq front'.lookup]
  dsimp only [Option.bind_some]
  rw [setNext_eq stays]
  dsimp only [Option.bind_some]
  rw [setPrior_eq (AList.lookup_insert joined)]
  dsimp only [Option.bind_some]
  rw [removeNode_alone out.alone]
  rfl

/-- A node is removed from the list, and the answer is the node after it, the one before it when it
was the last, or null. -/
theorem list2Remove_eq (linked : Represents heap (left ++ node :: right)) :
    ∃ heap', list2Remove heap node.1 = some (heap', firstOf right (lastOf none left)) ∧
      Removed heap heap' left node right := by
  rcases List.eq_nil_or_concat left with rfl | ⟨left, before, rfl⟩
  · cases right with
    | nil =>
        have out : TakenOut heap heap [] node [] := ⟨linked.1, trivial, SameBut.refl _ heap⟩
        exact ⟨_, removeNode_alone linked.1 1, out.removed linked⟩
    | cons after right => exact list2Remove_first linked
  · rw [List.concat_eq_append] at linked ⊢
    rw [lastOf_concat]
    cases right with
    | nil => exact list2Remove_last linked
    | cons after right => exact list2Remove_middle linked

/-- The node after a place in a list, else the one before it. -/
theorem firstOf_lastOf (left right : List (ℕ × β)) :
    firstOf right (lastOf none left) = (right.head?.or left.getLast?).map Prod.fst := by
  cases right with
  | nil => exact lastOf_eq_getLast? left
  | cons after right => rfl

/-! ## The loops over a list -/

/-- The loop frees every node. -/
theorem freeLoop_eq (linked : Represents heap nodes) {steps : ℕ} (enough : nodes.length ≤ steps) :
    ∃ heap', freeLoop steps heap (firstOf nodes none) = some heap' ∧
      (∀ address ∈ addresses nodes, address ∉ heap') ∧ SameBut (addresses nodes) heap heap' := by
  induction nodes generalizing heap steps with
  | nil => exact ⟨heap, by rw [firstOf, freeLoop], nofun, SameBut.refl _ heap⟩
  | cons node rest ih =>
      cases steps with
      | zero => cases enough
      | succ steps =>
          obtain ⟨heap₁, removed, one⟩ := list2Remove_eq
            (show Represents heap ([] ++ node :: rest) from linked)
          obtain ⟨heap', freed, gone, same⟩ := ih one.linked (Nat.le_of_succ_le_succ enough)
          have outside : node.1 ∉ addresses rest := (List.nodup_cons.mp linked.nodup).1
          refine ⟨heap', ?_, ?_, one.same.trans (same.mono (List.subset_cons_self _ _))⟩
          · rw [firstOf, freeLoop, removed]
            exact freed
          · intro address inside
            rcases List.mem_cons.mp inside with rfl | later
            · apply AList.lookup_eq_none.mp
              exact (same _ outside).trans (AList.lookup_eq_none.mpr one.freed)
            · exact gone address later

/-- The loop counts every node. -/
theorem sizeLoop_eq {before : Option ℕ} (linked : Segment heap before nodes none) {steps : ℕ}
    (enough : nodes.length ≤ steps) (sz : ℕ) :
    sizeLoop heap steps sz (firstOf nodes none) = some (sz + nodes.length) := by
  induction nodes generalizing before steps sz with
  | nil => rw [firstOf, sizeLoop, List.length_nil, Nat.add_zero]
  | cons node rest ih =>
      cases steps with
      | zero => cases enough
      | succ steps =>
          rw [firstOf, sizeLoop, linked.1]
          exact (ih linked.2 (Nat.le_of_succ_le_succ enough) (sz + 1)).trans
            (congrArg some (by rw [List.length_cons]; omega))

/-- The loop goes to the node with the index. -/
theorem getLoop_eq {before : Option ℕ} (linked : Segment heap before nodes none) {steps : ℕ}
    (enough : nodes.length ≤ steps) (i j : ℤ) :
    getLoop heap i steps j (firstOf nodes none) =
      some (if j ≤ i then nodes[(i - j).toNat]?.map Prod.fst else none) := by
  induction nodes generalizing before steps j with
  | nil =>
      rw [firstOf, getLoop]
      split
      · rfl
      · rfl
  | cons node rest ih =>
      cases steps with
      | zero => cases enough
      | succ steps =>
          rw [firstOf, getLoop]
          by_cases here : j = i
          · rw [if_pos here, if_pos here.le, here, Int.sub_self]
            rfl
          · rw [if_neg here, linked.1]
            refine (ih linked.2 (Nat.le_of_succ_le_succ enough) (j + 1)).trans ?_
            by_cases later : j + 1 ≤ i
            · rw [if_pos later, if_pos (by omega : j ≤ i),
                show (i - j).toNat = (i - (j + 1)).toNat + 1 by omega]
              rfl
            · rw [if_neg later, if_neg (by omega : ¬ j ≤ i)]

/-- A list is freed whole. -/
theorem list2Free_eq (linked : Represents heap nodes) (member : list ∈ addresses nodes) :
    ∃ heap', list2Free heap (some list) = some (heap', none) ∧
      (∀ address ∈ addresses nodes, address ∉ heap') ∧ SameBut (addresses nodes) heap heap' := by
  obtain ⟨heap', freed, gone, same⟩ := freeLoop_eq linked linked.length_le
  refine ⟨heap', ?_, gone, same⟩
  rw [list2Free, list2First_eq linked member]
  dsimp only [Option.bind_eq_bind, Option.bind_some]
  rw [freed]
  rfl

/-- The size of a list is the number of its nodes. -/
theorem list2Size_eq (linked : Represents heap nodes) (member : list ∈ addresses nodes) :
    list2Size heap (some list) = some nodes.length := by
  rw [list2Size, list2First_eq linked member]
  exact (sizeLoop_eq linked linked.length_le 0).trans (by rw [Nat.zero_add])

/-- An index inside of the list gives its node, any other none. -/
theorem list2Get_eq (linked : Represents heap nodes) (member : list ∈ addresses nodes) (i : ℤ) :
    list2Get heap (some list) i =
      some (if 0 ≤ i then nodes[i.toNat]?.map Prod.fst else none) := by
  rw [list2Get, list2First_eq linked member]
  exact (getLoop_eq linked linked.length_le i 0).trans (by rw [Int.sub_zero])

/-! ## A list with a pointer to one of its nodes -/

/-- The pointer designates one of the nodes, or is null for no nodes. -/
def Designates : Option ℕ → List (ℕ × β) → Prop
  | none, nodes => nodes = []
  | some address, nodes => address ∈ addresses nodes

/-- The nodes of the list that a pointer designates are left as they are. -/
def NodesKept (heap : Heap β) (list : Option ℕ) (heap' : Heap β) : Prop :=
  ∀ nodes, Represents heap nodes → Designates list nodes →
    ∀ node ∈ nodes, heap'.lookup node.1 = heap.lookup node.1

/-- The last node stands for its list. -/
theorem designates_lastOf (nodes : List (ℕ × β)) : Designates (lastOf none nodes) nodes := by
  cases nodes with
  | nil => rfl
  | cons node rest =>
      obtain ⟨address, inside, ends⟩ := exists_lastOf_cons none node rest
      rw [ends]
      exact inside

/-- The first node stands for its list. -/
theorem designates_firstOf (nodes : List (ℕ × β)) : Designates (firstOf nodes none) nodes := by
  cases nodes with
  | nil => rfl
  | cons node rest => exact List.mem_cons_self

/-- The first node is found from the pointer that stands for a list. -/
theorem list2First_designated {list : Option ℕ} (linked : Represents heap nodes)
    (points : Designates list nodes) : list2First heap list = some (firstOf nodes none) := by
  cases list with
  | none =>
      cases points
      rfl
  | some address => exact list2First_eq linked points

/-- An item is appended to the list that a pointer stands for. -/
theorem appendItem_designated (malloc : Allocator β) {list : Option ℕ}
    (linked : Represents heap nodes) (points : Designates list nodes) (item : β) :
    ∃ heap' new, appendItem malloc heap list item = some (heap', new) ∧
      Represents heap' (nodes ++ [(new, item)]) := by
  cases list with
  | none =>
      cases points
      obtain ⟨heap', new, ran, alone, _⟩ := appendItem_null malloc heap item
      exact ⟨heap', new, ran, alone⟩
  | some address =>
      obtain ⟨heap', new, ran, longer, _⟩ := appendItem_eq malloc linked points item
      exact ⟨heap', new, ran, longer⟩

/-! ## A list that is held by its last node -/

/-- The pointer designates the last node of a list that keeps these items, the last one first. -/
def HeldByLast (heap : Heap β) (list : Option ℕ) (items : List β) : Prop :=
  ∃ nodes, Represents heap nodes ∧ list = lastOf none nodes ∧
    nodes.map Prod.snd = items.reverse

/-- No list is held by a null pointer. -/
theorem heldByLast_null (heap : Heap β) : HeldByLast heap none [] := ⟨[], trivial, rfl, rfl⟩

variable {items : List β} {pointer : Option ℕ}

/-- A list stays held as long as its nodes are kept. -/
theorem HeldByLast.nodesKept {heap' : Heap β} (held : HeldByLast heap pointer items)
    (same : NodesKept heap pointer heap') : HeldByLast heap' pointer items := by
  obtain ⟨nodes, linked, rfl, kept⟩ := held
  exact ⟨nodes, linked.congr (same nodes linked (designates_lastOf nodes)), rfl, kept⟩

/-- An item that is appended is held with the others. -/
theorem HeldByLast.append (malloc : Allocator β) (held : HeldByLast heap pointer items) (item : β) :
    ∃ heap' new, appendItem malloc heap pointer item = some (heap', new) ∧
      HeldByLast heap' (some new) (item :: items) := by
  obtain ⟨nodes, linked, rfl, kept⟩ := held
  obtain ⟨heap', new, ran, longer⟩ :=
    appendItem_designated malloc linked (designates_lastOf nodes) item
  have ends := lastOf_concat none nodes (new, item)
  refine ⟨heap', new, ran, _, longer, ends.symm, ?_⟩
  rw [List.map_append, kept, List.reverse_cons]
  rfl

/-- A null pointer holds no item. -/
theorem HeldByLast.eq_nil (held : HeldByLast heap none items) : items = [] := by
  obtain ⟨nodes, _, last, kept⟩ := held
  cases nodes with
  | nil => exact List.reverse_eq_nil_iff.mp kept.symm
  | cons node rest =>
      obtain ⟨address, _, ends⟩ := exists_lastOf_cons none node rest
      rw [ends] at last
      cases last

/-- The last node keeps the first of the items. -/
theorem HeldByLast.lookup (held : HeldByLast heap (some list) items) :
    ∃ item rest prior, items = item :: rest ∧ heap.lookup list = some ⟨item, none, prior⟩ := by
  obtain ⟨nodes, linked, last, kept⟩ := held
  rcases List.eq_nil_or_concat nodes with rfl | ⟨left, node, rfl⟩
  · cases last
  rw [List.concat_eq_append] at linked last kept
  rw [lastOf_concat] at last
  obtain rfl := Option.some.inj last
  refine ⟨node.2, (left.map Prod.snd).reverse, _, ?_, linked.lookup⟩
  have turned := congrArg List.reverse kept
  rw [List.reverse_reverse, List.map_append, List.reverse_append] at turned
  exact turned.symm

/-- Removing the last node leaves the list held by the one before it. -/
theorem HeldByLast.pop (held : HeldByLast heap (some list) items) :
    ∃ heap' pointer, list2Remove heap list = some (heap', pointer) ∧
      HeldByLast heap' pointer items.tail := by
  obtain ⟨nodes, linked, last, kept⟩ := held
  rcases List.eq_nil_or_concat nodes with rfl | ⟨left, node, rfl⟩
  · cases last
  rw [List.concat_eq_append] at linked last kept
  rw [lastOf_concat] at last
  obtain rfl := Option.some.inj last
  obtain ⟨heap', removed, one⟩ := list2Remove_eq linked
  refine ⟨heap', _, removed, left, ?_, rfl, ?_⟩
  · have shorter := one.linked
    rwa [List.append_nil] at shorter
  · have split := congrArg List.reverse kept
    rw [List.reverse_reverse, List.map_append, List.reverse_append] at split
    rw [← split]
    exact (List.reverse_reverse _).symm

/-- Removing any node, after which the last one is asked for again. -/
theorem HeldByLast.remove (linked : Represents heap (left ++ node :: right)) :
    ∃ heap' pointer, list2Remove heap node.1 = some (heap', pointer) ∧
      Represents heap' (left ++ right) ∧
        list2Last heap' pointer = some (lastOf none (left ++ right)) := by
  obtain ⟨heap', removed, one⟩ := list2Remove_eq linked
  refine ⟨heap', _, removed, one.linked, ?_⟩
  cases right with
  | cons after right =>
      apply list2Last_eq one.linked
      exact mem_addresses (List.mem_append_right left List.mem_cons_self)
  | nil =>
      rw [List.append_nil]
      cases left with
      | nil => rfl
      | cons first left =>
          obtain ⟨address, inside, ends⟩ := exists_lastOf_cons none first left
          have shorter := one.linked
          rw [List.append_nil] at shorter
          rw [firstOf, ends, list2Last_eq shorter inside, ends]

end Pqfh
