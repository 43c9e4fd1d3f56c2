import Pqfh.Core.Bytes

/-! # Abnormal ends

The handler is C code inside the process of a COBOL program. Besides returning, a call
can end the process, or run into behaviour that C leaves undefined.
-/

namespace Pqfh

/-- How a call fails to return. -/
inductive Stop where
  /-- `exit(-1)`. -/
  | exit
  /-- A null pointer read, or a write outside a buffer. -/
  | undefined
  deriving Repr, DecidableEq

@[simp] theorem ok_bind {α β : Type} (middle : α) (rest : α → Except Stop β) :
    ((Except.ok middle : Except Stop α) >>= rest) = rest middle := rfl

@[simp] theorem error_bind {α β : Type} (stop : Stop) (rest : α → Except Stop β) :
    ((Except.error stop : Except Stop α) >>= rest) = .error stop := rfl

/-- What a call that returned computed, step by step. -/
theorem bind_eq_ok {α β : Type} {first : Except Stop α} {rest : α → Except Stop β} {result : β} :
    (first >>= rest) = .ok result ↔ ∃ middle, first = .ok middle ∧ rest middle = .ok result := by
  cases first with
  | error stop => exact ⟨nofun, by rintro ⟨_, impossible, _⟩; cases impossible⟩
  | ok middle => exact ⟨fun ended => ⟨middle, rfl, ended⟩, by rintro ⟨_, ⟨⟩, ended⟩; exact ended⟩

theorem map_eq_ok {α β : Type} {first : Except Stop α} {f : α → β} {result : β} :
    f <$> first = .ok result ↔ ∃ middle, first = .ok middle ∧ f middle = result := by
  cases first with
  | error stop => exact ⟨nofun, by rintro ⟨_, impossible, _⟩; cases impossible⟩
  | ok middle =>
      constructor
      · intro ended
        exact ⟨middle, rfl, Except.ok.inj ended⟩
      · rintro ⟨_, ⟨⟩, rfl⟩
        rfl

/-- Each element of a list that a map could treat has its result. -/
theorem mapM_getElem? {α β : Type} {f : α → Option β} :
    ∀ {list : List α} {results : List β}, list.mapM f = some results →
      ∀ {i : ℕ} {a : α}, list[i]? = some a → ∃ b, f a = some b ∧ results[i]? = some b := by
  intro list
  induction list with
  | nil => intro results _ i a present; cases present
  | cons first rest ih =>
      intro results mapped i a present
      rw [List.mapM_cons] at mapped
      obtain ⟨b, here, mapped⟩ := Option.bind_eq_some_iff.mp mapped
      obtain ⟨others, later, result⟩ := Option.bind_eq_some_iff.mp mapped
      cases result
      cases i with
      | zero =>
          cases present
          exact ⟨b, here, rfl⟩
      | succ i => exact ih later present

theorem length_mapM {α β : Type} {f : α → Option β} :
    ∀ {list : List α} {results : List β}, list.mapM f = some results →
      results.length = list.length := by
  intro list
  induction list with
  | nil => intro results mapped; cases mapped; rfl
  | cons first rest ih =>
      intro results mapped
      rw [List.mapM_cons] at mapped
      obtain ⟨b, _, mapped⟩ := Option.bind_eq_some_iff.mp mapped
      obtain ⟨others, later, result⟩ := Option.bind_eq_some_iff.mp mapped
      cases result
      rw [List.length_cons, List.length_cons, ih later]

/-- A map that treats every element of a list. -/
theorem mapM_eq_map {α β : Type} {f : α → Option β} {g : α → β} :
    ∀ {list : List α}, (∀ a ∈ list, f a = some (g a)) → list.mapM f = some (list.map g) := by
  intro list
  induction list with
  | nil => intro _; rfl
  | cons first rest ih =>
      intro each
      have later := ih fun a member => each a (List.mem_cons_of_mem _ member)
      rw [List.mapM_cons, each first List.mem_cons_self, later]
      rfl

/-- A loop over a list returns when each of its steps does. -/
theorem mapM_eq_ok {α β : Type} {f : α → Except Stop β} :
    ∀ {list : List α} {results : List β}, list.mapM f = .ok results ↔
      List.Forall₂ (fun a b => f a = .ok b) list results := by
  intro list
  induction list with
  | nil =>
      intro results
      constructor
      · intro mapped
        cases mapped
        exact .nil
      · intro related
        cases related
        rfl
  | cons first rest ih =>
      intro results
      rw [List.mapM_cons]
      constructor
      · intro mapped
        obtain ⟨b, here, mapped⟩ := bind_eq_ok.mp mapped
        obtain ⟨others, later, result⟩ := bind_eq_ok.mp mapped
        cases result
        exact .cons here (ih.mp later)
      · intro related
        cases related with
        | cons here later =>
            rw [here, ok_bind, ih.mpr later]
            rfl

/-- A loop each step of which returns something related to the element. -/
theorem mapM_returns {α β : Type} {f : α → Except Stop β} {R : α → β → Prop} :
    ∀ {list : List α}, (∀ a ∈ list, ∃ b, f a = .ok b ∧ R a b) →
      ∃ results, list.mapM f = .ok results ∧ List.Forall₂ R list results := by
  intro list
  induction list with
  | nil =>
      intro _
      exact ⟨[], rfl, .nil⟩
  | cons first rest ih =>
      intro each
      obtain ⟨b, here, related⟩ := each first List.mem_cons_self
      obtain ⟨others, later, all⟩ := ih fun a member => each a (List.mem_cons_of_mem _ member)
      refine ⟨b :: others, ?_, .cons related all⟩
      rw [List.mapM_cons, here, ok_bind, later]
      rfl

theorem forall₂_mem_right {α β : Type} {R : α → β → Prop} {list : List α} {results : List β}
    (related : List.Forall₂ R list results) {b : β} (member : b ∈ results) : ∃ a ∈ list, R a b := by
  induction related with
  | nil => cases member
  | cons here _ ih =>
      rcases List.mem_cons.mp member with rfl | later
      · exact ⟨_, List.mem_cons_self, here⟩
      · obtain ⟨a, among, related⟩ := ih later
        exact ⟨a, List.mem_cons_of_mem _ among, related⟩

/-! ## Writing to a buffer -/

/-- `memcpy` into a buffer. -/
def writeAt (buffer : List Byte) (place : ℕ) (bytes : List Byte) : Except Stop (List Byte) :=
  if place + bytes.length ≤ buffer.length then
    .ok (buffer.take place ++ bytes ++ buffer.drop (place + bytes.length))
  else .error .undefined

theorem writeAt_eq_ok {buffer bytes buffer' : List Byte} {place : ℕ} :
    writeAt buffer place bytes = .ok buffer' ↔ place + bytes.length ≤ buffer.length ∧
      buffer' = buffer.take place ++ bytes ++ buffer.drop (place + bytes.length) := by
  unfold writeAt
  by_cases room : place + bytes.length ≤ buffer.length
  · simp only [room, ↓reduceIte, Except.ok.injEq, true_and, eq_comm]
  · simp only [room, ↓reduceIte, reduceCtorEq, false_and]

end Pqfh
