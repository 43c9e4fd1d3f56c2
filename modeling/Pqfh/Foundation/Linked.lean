import Mathlib.Data.List.Basic
import Mathlib.Tactic.Common

/-! # Doubly linked lists

A pointer into a doubly linked list designates one of its nodes; from there the nodes before and
after it can be reached. `none` is the null pointer, the empty list.
-/

namespace Linked

variable {α : Type}

/-- A node with the nodes before it, the nearest first, and the nodes after it. -/
structure Node (α : Type) where
  prior : List α
  buf : α
  next : List α
  deriving Repr, DecidableEq

/-- A pointer to a node, or null. -/
abbrev Pointer (α : Type) := Option (Node α)

/-- Follow the pointers to the prior node as far as they go. -/
def rewind : List α → α → List α → Node α
  | [], buf, next => ⟨[], buf, next⟩
  | before :: prior, buf, next => rewind prior before (buf :: next)

/-- Follow the pointers to the next node as far as they go. -/
def advance : List α → α → List α → Node α
  | prior, buf, [] => ⟨prior, buf, []⟩
  | prior, buf, after :: next => advance (buf :: prior) after next

/-- The first node of the list. -/
def first (list : Pointer α) : Pointer α :=
  list.map fun node => rewind node.prior node.buf node.next

/-- The last node of the list. -/
def last (list : Pointer α) : Pointer α :=
  list.map fun node => advance node.prior node.buf node.next

/-- A new node after the last one; the pointer designates it. -/
def append (list : Pointer α) (buf : α) : Pointer α :=
  match last list with
  | none => some ⟨[], buf, []⟩
  | some node => some ⟨node.buf :: node.prior, buf, []⟩

/-- The nodes from the one designated on. -/
def onward : Pointer α → List α
  | none => []
  | some node => node.buf :: node.next

/-- Change what the node so many nodes onward holds. -/
def setOnward (list : Pointer α) (i : ℕ) (buf : α) : Pointer α :=
  match list, i with
  | none, _ => none
  | some node, 0 => some { node with buf := buf }
  | some node, i + 1 => some { node with next := node.next.set i buf }

/-- All nodes of the list. -/
def nodes : Pointer α → List α
  | none => []
  | some node => node.prior.reverse ++ node.buf :: node.next

/-! ## Where the pointers lead -/

theorem onward_rewind :
    ∀ (prior : List α) (buf : α) (next : List α),
      onward (some (rewind prior buf next)) = prior.reverse ++ buf :: next
  | [], _, _ => rfl
  | before :: prior, buf, next => by
      rw [rewind, onward_rewind prior before, List.reverse_cons, List.append_assoc]
      rfl

/-- From the first node on there are all nodes. -/
theorem onward_first (list : Pointer α) : onward (first list) = nodes list := by
  cases list with
  | none => rfl
  | some node => exact onward_rewind node.prior node.buf node.next

theorem nodes_advance :
    ∀ (prior : List α) (buf : α) (next : List α),
      nodes (some (advance prior buf next)) = prior.reverse ++ buf :: next ∧
        (advance prior buf next).next = []
  | _, _, [] => ⟨rfl, rfl⟩
  | prior, buf, after :: next => by
      obtain ⟨same, ended⟩ := nodes_advance (buf :: prior) after next
      refine ⟨?_, ended⟩
      rw [advance, same, List.reverse_cons, List.append_assoc]
      rfl

/-- A new node comes after all others. -/
theorem nodes_append (list : Pointer α) (buf : α) :
    nodes (append list buf) = nodes list ++ [buf] := by
  cases list with
  | none => rfl
  | some node =>
      obtain ⟨same, ended⟩ := nodes_advance node.prior node.buf node.next
      simp only [append, last, Option.map_some, nodes, List.reverse_cons] at same ⊢
      rw [ended] at same
      rw [same]

/-- From the new node on there is nothing else. -/
theorem onward_append (list : Pointer α) (buf : α) : onward (append list buf) = [buf] := by
  unfold append
  split
  · rfl
  · rfl

theorem onward_setOnward (list : Pointer α) (i : ℕ) (buf : α) :
    onward (setOnward list i buf) = (onward list).set i buf := by
  cases list with
  | none => rfl
  | some node =>
      cases i with
      | zero => rfl
      | succ i => rfl

end Linked
