import Mathlib.Data.List.AList
import Mathlib.Data.List.Induction
import Mathlib.Tactic.Common

/-! # Doubly linked lists in a heap

The nodes of a list are cells of a heap that point to each other. A heap represents a sequence of
nodes when the pointers of each node lead to its neighbours in the sequence.
-/

namespace LinkedHeap

variable {α : Type}

/-- A node with its pointers. `none` is the null pointer. -/
structure Cell (α : Type) where
  item : α
  next : Option ℕ
  prior : Option ℕ
  deriving Repr, DecidableEq

/-- The allocated cells by their addresses. -/
abbrev Heap (α : Type) := AList fun _ : ℕ => Cell α

/-- An allocator: it gives addresses at which no cell stands. -/
structure Allocator (α : Type) where
  address : Heap α → ℕ
  unused : ∀ heap, address heap ∉ heap

/-- Write the pointer of a cell to the next one. There is no result at an address without a cell. -/
def setNext (heap : Heap α) (address : ℕ) (next : Option ℕ) : Option (Heap α) :=
  (heap.lookup address).map fun cell => heap.insert address { cell with next := next }

/-- Write the pointer of a cell to the prior one. -/
def setPrior (heap : Heap α) (address : ℕ) (prior : Option ℕ) : Option (Heap α) :=
  (heap.lookup address).map fun cell => heap.insert address { cell with prior := prior }

/-- Follow the pointers of one direction as far as they lead. There is no result where they lead to
an address without a cell, or have not ended after so many steps. -/
def follow (pointer : Cell α → Option ℕ) (heap : Heap α) : ℕ → ℕ → Option ℕ
  | 0, _ => none
  | fuel + 1, address => do
      let cell ← heap.lookup address
      match pointer cell with
      | none => some address
      | some other => follow pointer heap fuel other

/-! ## Sequences of nodes -/

/-- The address where the nodes begin, or what comes after them. -/
def firstOf : List (ℕ × α) → Option ℕ → Option ℕ
  | [], after => after
  | node :: _, _ => some node.1

/-- The address where the nodes end, or what comes before them. -/
def lastOf : Option ℕ → List (ℕ × α) → Option ℕ
  | before, [] => before
  | _, node :: rest => lastOf (some node.1) rest

/-- The nodes stand in the heap and point to each other, from what comes before them to what comes
after them. -/
def Segment (heap : Heap α) : Option ℕ → List (ℕ × α) → Option ℕ → Prop
  | _, [], _ => True
  | before, node :: rest, after =>
      heap.lookup node.1 = some ⟨node.2, firstOf rest after, before⟩ ∧
        Segment heap (some node.1) rest after

/-- The nodes are a list of the heap, from its first node to its last. -/
def Represents (heap : Heap α) (nodes : List (ℕ × α)) : Prop := Segment heap none nodes none

/-- The addresses of the nodes. -/
def addresses (nodes : List (ℕ × α)) : List ℕ := nodes.map Prod.fst

/-- Only cells at these addresses differ. -/
def SameBut (changed : List ℕ) (heap heap' : Heap α) : Prop :=
  ∀ address ∉ changed, heap'.lookup address = heap.lookup address

variable {heap heap' : Heap α} {nodes left right rest : List (ℕ × α)} {node : ℕ × α}
  {before after : Option ℕ} {address : ℕ}

/-- The empty list has no address. -/
@[simp] theorem addresses_nil : addresses ([] : List (ℕ × α)) = [] := rfl

/-- The addresses of a list begin with that of its first node. -/
@[simp] theorem addresses_cons (node : ℕ × α) (rest : List (ℕ × α)) :
    addresses (node :: rest) = node.1 :: addresses rest := rfl

/-- The addresses of two lists, one behind the other. -/
@[simp] theorem addresses_append (left right : List (ℕ × α)) :
    addresses (left ++ right) = addresses left ++ addresses right := List.map_append

/-- Each node has its address among them. -/
theorem mem_addresses (member : node ∈ nodes) : node.1 ∈ addresses nodes :=
  List.mem_map_of_mem member

/-- The first address of two lists, one behind the other. -/
@[simp] theorem firstOf_append (left right : List (ℕ × α)) (after : Option ℕ) :
    firstOf (left ++ right) after = firstOf left (firstOf right after) := by
  cases left with
  | nil => rfl
  | cons node left => rfl

/-- The last address of two lists, one behind the other. -/
@[simp] theorem lastOf_append (before : Option ℕ) (left right : List (ℕ × α)) :
    lastOf before (left ++ right) = lastOf (lastOf before left) right := by
  induction left generalizing before with
  | nil => rfl
  | cons node left ih => exact ih (some node.1)

/-- Where nodes begin does not depend on what comes after them. -/
theorem firstOf_concat (left : List (ℕ × α)) (node : ℕ × α) (after : Option ℕ) :
    firstOf (left ++ [node]) after = firstOf (left ++ [node]) none := by
  cases left with
  | nil => rfl
  | cons first left => rfl

/-- The last address is that of the last node. -/
theorem lastOf_concat (before : Option ℕ) (left : List (ℕ × α)) (node : ℕ × α) :
    lastOf before (left ++ [node]) = some node.1 := lastOf_append before left [node]

/-- The first address, by the head of the list. -/
theorem firstOf_eq_head? (nodes : List (ℕ × α)) :
    firstOf nodes none = nodes.head?.map Prod.fst := by
  cases nodes with
  | nil => rfl
  | cons node rest => rfl

/-- The last address, by the last of the list. -/
theorem lastOf_eq_getLast? (nodes : List (ℕ × α)) :
    lastOf none nodes = nodes.getLast?.map Prod.fst := by
  rcases List.eq_nil_or_concat nodes with rfl | ⟨left, node, rfl⟩
  · rfl
  · rw [List.concat_eq_append, lastOf_concat, List.getLast?_concat]
    rfl

/-- Nodes end at one of them. -/
theorem exists_lastOf_cons (before : Option ℕ) (node : ℕ × α) (rest : List (ℕ × α)) :
    ∃ address ∈ addresses (node :: rest), lastOf before (node :: rest) = some address := by
  induction rest generalizing before node with
  | nil => exact ⟨node.1, List.mem_cons_self, rfl⟩
  | cons other rest ih =>
      obtain ⟨address, inside, last⟩ := ih (some node.1) other
      exact ⟨address, List.mem_cons_of_mem _ inside, last⟩

/-! ## Segments -/

/-- A segment splits at any node. -/
theorem segment_append :
    Segment heap before (left ++ right) after ↔
      Segment heap before left (firstOf right after) ∧
        Segment heap (lastOf before left) right after := by
  induction left generalizing before with
  | nil => exact ⟨fun linked => ⟨trivial, linked⟩, And.right⟩
  | cons node left ih =>
      rw [List.cons_append, Segment, Segment, ih, firstOf_append, and_assoc]
      rfl

/-- What stands at a node, told from its neighbours. -/
theorem Segment.lookup (linked : Segment heap before (left ++ node :: right) after) :
    heap.lookup node.1 = some ⟨node.2, firstOf right after, lastOf before left⟩ :=
  (segment_append.mp linked).2.1

/-- A segment is known by its own nodes. -/
theorem Segment.congr (linked : Segment heap before nodes after)
    (same : ∀ node ∈ nodes, heap'.lookup node.1 = heap.lookup node.1) :
    Segment heap' before nodes after := by
  induction nodes generalizing before with
  | nil => trivial
  | cons node rest ih =>
      refine ⟨(same node List.mem_cons_self).trans linked.1, ih linked.2 ?_⟩
      exact fun other inside => same other (List.mem_cons_of_mem _ inside)

/-- A segment stands when none of its cells changed. -/
theorem Segment.frame {changed : List ℕ} (linked : Segment heap before nodes after)
    (same : SameBut changed heap heap') (apart : ∀ address ∈ addresses nodes, address ∉ changed) :
    Segment heap' before nodes after :=
  linked.congr fun _ inside => same _ (apart _ (mem_addresses inside))

/-- The cells of a segment are in the heap. -/
theorem Segment.mem (linked : Segment heap before nodes after)
    (inside : address ∈ addresses nodes) : address ∈ heap := by
  obtain ⟨node, member, rfl⟩ := List.mem_map.mp inside
  obtain ⟨left, right, rfl⟩ := List.append_of_mem member
  apply AList.lookup_isSome.mp
  rw [linked.lookup]
  rfl

/-- Nodes that nothing comes before are different nodes: the prior pointers of a node that stood
twice would lead back without end. -/
theorem Segment.nodup (linked : Segment heap none nodes after) : (addresses nodes).Nodup := by
  induction nodes using List.reverseRecOn generalizing after with
  | nil => exact List.nodup_nil
  | append_singleton left node ih =>
      have once := ih (segment_append.mp linked).1
      rw [addresses_append]
      refine List.nodup_append.mpr ⟨once, List.nodup_singleton _, ?_⟩
      rintro address inside _ only rfl
      obtain rfl := List.mem_singleton.mp only
      obtain ⟨twin, member, same⟩ := List.mem_map.mp inside
      obtain ⟨front, back, rfl⟩ := List.append_of_mem member
      have here := linked.lookup
      have there := (segment_append.mp linked).1.lookup
      rw [same, here] at there
      have meet : lastOf none (front ++ twin :: back) = lastOf none front :=
        congrArg Cell.prior (Option.some.inj there)
      rw [lastOf_append] at meet
      obtain ⟨last, late, ends⟩ := exists_lastOf_cons (lastOf none front) twin back
      rw [ends] at meet
      rw [addresses_append] at once
      cases front with
      | nil => cases meet
      | cons first front =>
          obtain ⟨other, early, begins⟩ := exists_lastOf_cons none first front
          rw [begins] at meet
          exact (List.nodup_append.mp once).2.2 _ early _ late (Option.some.inj meet).symm

/-- A list has no more nodes than the heap has cells. -/
theorem Represents.length_le (linked : Represents heap nodes) :
    nodes.length ≤ heap.entries.length := by
  have inside : addresses nodes ⊆ heap.keys := fun address member =>
    AList.mem_keys.mp (Segment.mem linked member)
  have few := (List.subperm_of_subset (Segment.nodup linked) inside).length_le
  rwa [addresses, List.length_map, AList.keys, List.keys, List.length_map] at few

/-! ## Writing to cells -/

/-- The next pointer of a cell is set. -/
theorem setNext_eq {cell : Cell α} (found : heap.lookup address = some cell) (next : Option ℕ) :
    setNext heap address next = some (heap.insert address { cell with next := next }) := by
  rw [setNext, found]
  rfl

/-- The prior pointer of a cell is set. -/
theorem setPrior_eq {cell : Cell α} (found : heap.lookup address = some cell) (prior : Option ℕ) :
    setPrior heap address prior = some (heap.insert address { cell with prior := prior }) := by
  rw [setPrior, found]
  rfl

/-- A heap is the same as itself. -/
theorem SameBut.refl (changed : List ℕ) (heap : Heap α) : SameBut changed heap heap :=
  fun _ _ => rfl

/-- Changes of the same cells, one after the other, are one. -/
theorem SameBut.trans {changed : List ℕ} {heap'' : Heap α} (first : SameBut changed heap heap')
    (second : SameBut changed heap' heap'') : SameBut changed heap heap'' :=
  fun address outside => (second address outside).trans (first address outside)

/-- More cells may have changed. -/
theorem SameBut.mono {changed more : List ℕ} (same : SameBut changed heap heap')
    (inside : changed ⊆ more) : SameBut more heap heap' :=
  fun address outside => same address fun member => outside (inside member)

/-- Inserting changes the cell that is inserted. -/
theorem sameBut_insert (heap : Heap α) (address : ℕ) (cell : Cell α) :
    SameBut [address] heap (heap.insert address cell) :=
  fun _ outside => AList.lookup_insert_ne (List.ne_of_not_mem_cons outside)

/-- Erasing changes the cell that is erased. -/
theorem sameBut_erase (heap : Heap α) (address : ℕ) : SameBut [address] heap (heap.erase address) :=
  fun _ outside => AList.lookup_erase_ne (List.ne_of_not_mem_cons outside)

/-- Inserting a cell that may change changes no other one. -/
theorem SameBut.insert {changed : List ℕ} (same : SameBut changed heap heap')
    (inside : address ∈ changed) (cell : Cell α) :
    SameBut changed heap (heap'.insert address cell) :=
  fun _ outside => (AList.lookup_insert_ne (ne_of_mem_of_not_mem inside outside).symm).trans
    (same _ outside)

/-- Erasing a cell that may change changes no other one. -/
theorem SameBut.erase {changed : List ℕ} (same : SameBut changed heap heap')
    (inside : address ∈ changed) : SameBut changed heap (heap'.erase address) :=
  fun _ outside => (AList.lookup_erase_ne (ne_of_mem_of_not_mem inside outside).symm).trans
    (same _ outside)

/-- A segment stands when a cell outside of it is inserted. -/
theorem Segment.insert (linked : Segment heap before nodes after)
    (outside : address ∉ addresses nodes) (cell : Cell α) :
    Segment (heap.insert address cell) before nodes after :=
  linked.frame (sameBut_insert heap address cell) fun _ inside only =>
    outside (List.mem_singleton.mp only ▸ inside)

/-- A segment stands when a cell outside of it is erased. -/
theorem Segment.erase (linked : Segment heap before nodes after)
    (outside : address ∉ addresses nodes) : Segment (heap.erase address) before nodes after :=
  linked.frame (sameBut_erase heap address) fun _ inside only =>
    outside (List.mem_singleton.mp only ▸ inside)

/-- The last of the nodes gets another node after it. -/
theorem Segment.insert_last (linked : Segment heap before (left ++ [node]) after)
    (once : node.1 ∉ addresses left) (after' : Option ℕ) :
    Segment (heap.insert node.1 ⟨node.2, after', lastOf before left⟩) before (left ++ [node])
      after' := by
  have front : Segment heap before left (some node.1) := (segment_append.mp linked).1
  exact segment_append.mpr ⟨front.insert once _, AList.lookup_insert heap, trivial⟩

/-- The first of the nodes gets another node before it. -/
theorem Segment.insert_first (linked : Segment heap before (node :: right) after)
    (once : node.1 ∉ addresses right) (before' : Option ℕ) :
    Segment (heap.insert node.1 ⟨node.2, firstOf right after, before'⟩) before' (node :: right)
      after :=
  ⟨AList.lookup_insert heap, linked.2.insert once _⟩

/-! ## Following the pointers -/

/-- The prior pointers lead to the first node. -/
theorem follow_prior (linked : Segment heap none (left ++ node :: right) after) {fuel : ℕ}
    (enough : left.length < fuel) :
    follow Cell.prior heap fuel node.1 = firstOf (left ++ [node]) none := by
  induction left using List.reverseRecOn generalizing node right fuel with
  | nil =>
      cases fuel with
      | zero => cases enough
      | succ fuel =>
          rw [follow, linked.lookup]
          rfl
  | append_singleton left neighbour ih =>
      rw [List.length_append, List.length_singleton] at enough
      cases fuel with
      | zero => cases enough
      | succ fuel =>
          have found := linked.lookup
          rw [lastOf_concat] at found
          rw [List.append_assoc, List.singleton_append] at linked
          rw [follow, found, firstOf_append, firstOf_concat]
          exact ih linked (Nat.lt_of_succ_lt_succ enough)

/-- The next pointers lead to the last node. -/
theorem follow_next (linked : Segment heap before (node :: rest) none) {fuel : ℕ}
    (enough : rest.length < fuel) :
    follow Cell.next heap fuel node.1 = lastOf before (node :: rest) := by
  induction rest generalizing before node fuel with
  | nil =>
      cases fuel with
      | zero => cases enough
      | succ fuel =>
          rw [follow, linked.1]
          rfl
  | cons neighbour rest ih =>
      rw [List.length_cons] at enough
      cases fuel with
      | zero => cases enough
      | succ fuel =>
          rw [follow, linked.1]
          exact ih linked.2 (Nat.lt_of_succ_lt_succ enough)

/-! ## An allocator -/

/-- The address after the largest one in use. -/
def Heap.top (heap : Heap α) : ℕ := heap.keys.foldr max 0 + 1

/-- No member is above the greatest one. -/
theorem le_foldr_max {list : List ℕ} (member : address ∈ list) : address ≤ list.foldr max 0 := by
  induction list with
  | nil => cases member
  | cons first rest ih =>
      rw [List.foldr_cons]
      rcases List.mem_cons.mp member with rfl | later
      · exact le_max_left _ _
      · exact le_trans (ih later) (le_max_right _ _)

/-- The allocator that never gives an address twice while a larger one is in use. -/
def Allocator.bump (α : Type) : Allocator α where
  address := Heap.top
  unused _ member := Nat.not_succ_le_self _ (le_foldr_max (AList.mem_keys.mp member))

end LinkedHeap
