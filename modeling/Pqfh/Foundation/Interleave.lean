import Mathlib.Data.List.Basic
import Mathlib.Tactic.Common

/-! # Interleaved runs

A system takes calls one after the other, each on a part of it, and answers each. What is shared
between the parts may carry over from one to another. A part is isolated in a run when its own
calls, made alone and in the same order, get the same answers (`Interleave.Run.isolated`): it is
enough that some relation between the two systems is kept by the calls on the part, which must be
answered alike, and by the calls on the others.
-/

namespace Interleave

variable {ω κ α ι : Type*}

/-- A run: the calls with their answers, the latest first, and the system after them. Each call
is allowed by a rule that looks at what came before. -/
inductive Run (step : ω → κ → α → ω → Prop) (allowed : List (κ × α) → ω → κ → Prop) (initial : ω) :
    List (κ × α) → ω → Prop where
  | begin : Run step allowed initial [] initial
  | called {trace : List (κ × α)} {sys sys' : ω} {call : κ} {answer : α} :
      Run step allowed initial trace sys → allowed trace sys call → step sys call answer sys' →
      Run step allowed initial ((call, answer) :: trace) sys'

/-- Every call is allowed. -/
def always : List (κ × α) → ω → κ → Prop := fun _ _ _ => True

variable {step : ω → κ → α → ω → Prop} {allowed : List (κ × α) → ω → κ → Prop} {initial sys : ω}
  {trace : List (κ × α)}

/-- What holds at first and is kept by every allowed call holds after every run. -/
theorem Run.invariant {kept : List (κ × α) → ω → Prop} (first : kept [] initial)
    (next : ∀ trace sys call answer sys', allowed trace sys call → step sys call answer sys' →
      kept trace sys → kept ((call, answer) :: trace) sys')
    (run : Run step allowed initial trace sys) : kept trace sys := by
  induction run with
  | begin => exact first
  | called _ allows stepped ih => exact next _ _ _ _ _ allows stepped ih

/-- What holds of all calls of a run may be added to its rule. -/
theorem Run.such (property : κ → Prop) (run : Run step allowed initial trace sys)
    (all : ∀ entry ∈ trace, property entry.1) :
    Run step (fun trace sys call => property call ∧ allowed trace sys call) initial trace sys := by
  induction run with
  | begin => exact .begin
  | @called trace sys sys' call answer _ allows stepped ih =>
      have earlier := ih fun entry member => all entry (List.mem_cons_of_mem _ member)
      exact .called earlier ⟨all (call, answer) List.mem_cons_self, allows⟩ stepped

/-- Where a step has one outcome, the calls of a run determine the answers. -/
theorem Run.deterministic (property : κ → Prop)
    (functional : ∀ sys call answer sys' answer' sys'', property call → step sys call answer sys' →
      step sys call answer' sys'' → answer = answer' ∧ sys' = sys'')
    {allowed' : List (κ × α) → ω → κ → Prop} (run : Run step allowed initial trace sys) :
    ∀ {trace' : List (κ × α)} {sys' : ω}, Run step allowed' initial trace' sys' →
      (∀ entry ∈ trace, property entry.1) → trace.map Prod.fst = trace'.map Prod.fst →
      trace = trace' ∧ sys = sys' := by
  induction run with
  | begin =>
      intro trace' sys' run' _ same
      cases run' with
      | begin => exact ⟨rfl, rfl⟩
      | called => cases same
  | @called trace sys next call answer _ _ stepped ih =>
      intro trace' sys' run' all same
      cases run' with
      | begin => cases same
      | called run' _ stepped' =>
          obtain ⟨rfl, rest⟩ := List.cons.inj same
          obtain ⟨rfl, rfl⟩ :=
            ih run' (fun entry member => all entry (List.mem_cons_of_mem _ member)) rest
          obtain ⟨rfl, rfl⟩ :=
            functional _ _ _ _ _ _ (all (call, answer) List.mem_cons_self) stepped
            stepped'
          exact ⟨rfl, rfl⟩

section Execute

variable (call : ω → κ → Option (α × ω)) (allows : List (κ × α) → ω → κ → Bool)

/-- Make calls one after the other, as long as each is allowed and answered. -/
def execute : List κ → List (κ × α) × ω → Option (List (κ × α) × ω)
  | [], result => some result
  | next :: calls, (trace, sys) =>
      if allows trace sys next then
        (call sys next).bind fun outcome => execute calls ((next, outcome.1) :: trace, outcome.2)
      else none

/-- Calls that are made are a run. -/
theorem execute_run (sound : ∀ sys next answer sys', call sys next = some (answer, sys') →
      step sys next answer sys')
    (ruled : ∀ trace sys next, allows trace sys next = true → allowed trace sys next)
    (calls : List κ) :
    ∀ {trace trace' : List (κ × α)} {sys sys' : ω}, Run step allowed initial trace sys →
      execute call allows calls (trace, sys) = some (trace', sys') →
      Run step allowed initial trace' sys' ∧
        trace'.map Prod.fst = calls.reverse ++ trace.map Prod.fst := by
  induction calls with
  | nil =>
      intro trace trace' sys sys' run made
      cases made
      exact ⟨run, rfl⟩
  | cons next calls ih =>
      intro trace trace' sys sys' run made
      simp only [execute] at made
      split at made
      · rename_i allowed
        obtain ⟨outcome, called, rest⟩ := Option.bind_eq_some_iff.mp made
        obtain ⟨run', calls'⟩ := ih (.called run (ruled _ _ _ allowed) (sound _ _ _ _ called)) rest
        exact ⟨run', by rw [calls']; simp⟩
      · cases made

end Execute

section Parts

variable [DecidableEq ι] (part : κ → ι) (i : ι)

/-- The calls on a part, with their answers. -/
def own (trace : List (κ × α)) : List (κ × α) := trace.filter fun entry => part entry.1 = i

@[simp] theorem own_nil : own part i ([] : List (κ × α)) = [] := rfl

theorem own_cons_same {call : κ} (same : part call = i) (answer : α) (trace : List (κ × α)) :
    own part i ((call, answer) :: trace) = (call, answer) :: own part i trace := by
  simp [own, same]

theorem own_mem {entry : κ × α} {trace : List (κ × α)} (member : entry ∈ own part i trace) :
    entry ∈ trace := List.mem_of_mem_filter member

/-- The calls on a part among all calls. -/
theorem own_calls (trace : List (κ × α)) :
    (own part i trace).map Prod.fst = (trace.map Prod.fst).filter fun call => part call = i := by
  rw [own, List.filter_map]
  rfl

theorem own_cons_other {call : κ} (other : part call ≠ i) (answer : α) (trace : List (κ × α)) :
    own part i ((call, answer) :: trace) = own part i trace := by
  simp [own, other]

/-- The calls on a part get the answers that they get alone, when a relation between the system
and a system that takes these calls alone is kept by every call. -/
theorem Run.isolated {τ : Type*} {aloneStep : τ → κ → α → τ → Prop} {start : τ}
    (related : List (κ × α) → ω → τ → Prop) (first : related [] initial start)
    (others : ∀ trace sys alone call answer sys', part call ≠ i → allowed trace sys call →
      step sys call answer sys' → related trace sys alone →
        related ((call, answer) :: trace) sys' alone)
    (owns : ∀ trace sys alone call answer sys', part call = i → allowed trace sys call →
      step sys call answer sys' → related trace sys alone →
      ∃ alone', aloneStep alone call answer alone' ∧ related ((call, answer) :: trace) sys' alone')
    (run : Run step allowed initial trace sys) :
    ∃ alone, Run aloneStep always start (own part i trace) alone ∧ related trace sys alone := by
  induction run with
  | begin => exact ⟨start, .begin, first⟩
  | @called trace sys sys' call answer _ allows stepped ih =>
      obtain ⟨alone, runAlone, relates⟩ := ih
      by_cases same : part call = i
      · obtain ⟨alone', steppedAlone, relates'⟩ := owns _ _ _ _ _ _ same allows stepped relates
        rw [own_cons_same part i same]
        exact ⟨alone', .called runAlone trivial steppedAlone, relates'⟩
      · rw [own_cons_other part i same]
        exact ⟨alone, runAlone, others _ _ _ _ _ _ same allows stepped relates⟩

end Parts

end Interleave
