import Mathlib.Logic.Basic

/-! # Steps that an exception may end

A step on a state of a type `σ` is an `Except σ σ`: it returns the next state, or ends with an
exception. Nothing is rolled back, so that an exception has a state, too: what the steps before it
have left. The rules are for sequences of steps and for loops: what holds of the state that is left,
what makes every step return, and how two runs go alike.
-/

namespace Abrupt

variable {σ τ ι : Type}

/-- The state after a step, however it ends. -/
def final : Except σ σ → σ
  | .ok s => s
  | .error s => s

/-- The step ends with an exception. -/
def Raises (x : Except σ σ) : Prop := ∃ s, x = .error s

/-- The step returns, in a state with a property. -/
def Returns (P : σ → Prop) (x : Except σ σ) : Prop := ∃ s, x = .ok s ∧ P s

/-- A property of the state that is left, and that the step returns when `ok` holds. -/
structure Keeps (ok : Prop) (P : σ → Prop) (x : Except σ σ) : Prop where
  final : P (final x)
  returns : ok → ¬ Raises x

/-- Two steps end in the same way, in states that are related. -/
inductive Rel (R : σ → τ → Prop) : Except σ σ → Except τ τ → Prop
  | ok {s : σ} {t : τ} : R s t → Rel R (.ok s) (.ok t)
  | error {s : σ} {t : τ} : R s t → Rel R (.error s) (.error t)

/-- A computation that is done returns what it has. -/
theorem returns_of_ok {P : σ → Prop} {s : σ} (here : P s) : Returns P (.ok s) := ⟨s, rfl, here⟩

/-- A weaker promise is kept as well. -/
theorem Returns.mono {P Q : σ → Prop} {x : Except σ σ} (before : Returns P x)
    (weaker : ∀ s, P s → Q s) : Returns Q x := by
  obtain ⟨s, rfl, here⟩ := before
  exact returns_of_ok (weaker s here)

/-- Two computations that return, one after the other, return. -/
theorem Returns.bind {P Q : σ → Prop} {x : Except σ σ} {f : σ → Except σ σ} (first : Returns P x)
    (next : ∀ s, P s → Returns Q (f s)) : Returns Q (x >>= f) := by
  obtain ⟨s, rfl, here⟩ := first
  exact next s here

/-- A loop returns when each of its turns does. -/
theorem Returns.foldlM {P : σ → Prop} {f : σ → ι → Except σ σ} {places : List ι}
    (turn : ∀ s, P s → ∀ i ∈ places, Returns P (f s i)) {s : σ} (first : P s) :
    Returns P (places.foldlM f s) := by
  induction places generalizing s with
  | nil => exact returns_of_ok first
  | cons i places ih =>
      rw [List.foldlM_cons]
      exact (turn s first i List.mem_cons_self).bind fun s here =>
        ih (fun s here i member => turn s here i (List.mem_cons_of_mem _ member)) here

/-- A computation that is done does not raise. -/
theorem not_raises_ok {s : σ} : ¬ Raises (.ok s : Except σ σ) := by
  rintro ⟨_, impossible⟩
  cases impossible

/-- An error raises. -/
theorem raises_error (s : σ) : Raises (.error s : Except σ σ) := ⟨s, rfl⟩

/-- Behind a computation that is done the next one decides. -/
theorem raises_bind_ok {x : Except σ σ} {s : σ} (first : x = .ok s) (f : σ → Except σ σ) :
    Raises (x >>= f) ↔ Raises (f s) := by
  rw [first]
  rfl

/-- An error is raised by what follows it as well. -/
theorem raises_bind_error {x : Except σ σ} {s : σ} (first : x = .error s) (f : σ → Except σ σ) :
    Raises (x >>= f) := by
  rw [first]
  exact raises_error s

/-- Only the first step can throw. -/
theorem raises_bind_iff {x : Except σ σ} {f : σ → Except σ σ} (returns : ∀ s, ¬ Raises (f s)) :
    Raises (x >>= f) ↔ Raises x := by
  cases x with
  | ok s => exact ⟨fun raises => (returns s raises).elim, fun raises => (not_raises_ok raises).elim⟩
  | error s => exact ⟨fun _ => raises_error s, fun _ => raises_error s⟩

/-- Two branches, each with its own condition. -/
theorem raises_ite {p : Prop} [Decidable p] {x y : Except σ σ} {P Q : Prop}
    (yes : p → (Raises x ↔ P)) (no : ¬ p → (Raises y ↔ Q)) :
    Raises (if p then x else y) ↔ if p then P else Q := by
  split
  · exact yes ‹_›
  · exact no ‹_›

namespace Keeps

variable {ok : Prop} {P : σ → Prop}

/-- What is done keeps the property it has. -/
theorem of_ok {s : σ} (here : P s) : Keeps ok P (.ok s) :=
  ⟨here, fun _ raises => by obtain ⟨_, impossible⟩ := raises; cases impossible⟩

/-- An exception, when it is not said that there is none. -/
theorem of_error {s : σ} (here : P s) (not_ok : ¬ ok) : Keeps ok P (.error s) :=
  ⟨here, fun promise => absurd promise not_ok⟩

/-- A computation that keeps its promise returns. -/
theorem toReturns {x : Except σ σ} (keeps : Keeps ok P x) (promise : ok) : Returns P x := by
  cases x with
  | ok s => exact returns_of_ok keeps.final
  | error s => exact absurd ⟨s, rfl⟩ (keeps.returns promise)

/-- Two computations that keep a property, one after the other, keep it. -/
theorem bind {x : Except σ σ} {f : σ → Except σ σ} (first : Keeps ok P x)
    (next : ∀ s, P s → Keeps ok P (f s)) : Keeps ok P (x >>= f) := by
  cases x with
  | ok s => exact next s first.final
  | error s => exact ⟨first.final, fun promise => absurd ⟨s, rfl⟩ (first.returns promise)⟩

/-- A loop keeps what each of its turns keeps. -/
theorem foldlM {f : σ → ι → Except σ σ} {places : List ι}
    (turn : ∀ s, P s → ∀ i ∈ places, Keeps ok P (f s i)) {s : σ} (first : P s) :
    Keeps ok P (places.foldlM f s) := by
  induction places generalizing s with
  | nil => exact of_ok first
  | cons i places ih =>
      rw [List.foldlM_cons]
      exact (turn s first i List.mem_cons_self).bind fun s here =>
        ih (fun s here i member => turn s here i (List.mem_cons_of_mem _ member)) here

end Keeps

namespace Rel

variable {R : σ → τ → Prop}

/-- Computations that are related end in related states. -/
theorem final {x : Except σ σ} {y : Except τ τ} (alike : Rel R x y) :
    R (Abrupt.final x) (Abrupt.final y) := by
  cases alike with
  | ok here => exact here
  | error here => exact here

/-- Computations that are related raise alike. -/
theorem raises {x : Except σ σ} {y : Except τ τ} (alike : Rel R x y) (raises : Raises x) :
    Raises y := by
  obtain ⟨s, rfl⟩ := raises
  cases alike with
  | error here => exact ⟨_, rfl⟩

/-- Two computations that keep a property, one after the other, keep it. -/
theorem bind {x : Except σ σ} {y : Except τ τ} {f : σ → Except σ σ} {g : τ → Except τ τ}
    (first : Rel R x y) (next : ∀ s t, R s t → Rel R (f s) (g t)) : Rel R (x >>= f) (y >>= g) := by
  cases first with
  | ok here => exact next _ _ here
  | error here => exact .error here

/-- A loop keeps what each of its turns keeps. -/
theorem foldlM {f : σ → ι → Except σ σ} {g : τ → ι → Except τ τ} {places : List ι}
    (turn : ∀ s t i, R s t → Rel R (f s i) (g t i)) {s : σ} {t : τ} (first : R s t) :
    Rel R (places.foldlM f s) (places.foldlM g t) := by
  induction places generalizing s t with
  | nil => exact .ok first
  | cons i places ih =>
      rw [List.foldlM_cons, List.foldlM_cons]
      exact (turn s t i first).bind fun s t here => ih here

/-- Two steps that take the same branch. -/
theorem ite {p : Prop} [Decidable p] {x x' : Except σ σ} {y y' : Except τ τ}
    (yes : p → Rel R x y) (no : ¬ p → Rel R x' y') :
    Rel R (if p then x else x') (if p then y else y') := by
  split
  · exact yes ‹_›
  · exact no ‹_›

end Rel

end Abrupt
