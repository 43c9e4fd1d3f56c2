import Mathlib.Data.List.Lex
import Mathlib.Data.Set.Finite.List
import Mathlib.Order.Fin.Basic
import Mathlib.Order.WellFoundedSet

/-! # Putting one text for another

One step of a substitution puts a text for an occurrence of another. Where the two texts differ
at a first place, every step moves the whole text in one direction of the lexicographic order
(`Pqfh.Rewriting.Diverges.lex_of_replaces`), so that a text once passed does not come again.
With this, with the length of the text where it shrinks and with the room that is left where it
grows, no sequence of steps within a bound goes on for ever
(`Pqfh.Rewriting.wellFounded_replaces`).
-/

namespace Pqfh.Rewriting

variable {α : Type*}

/-- One occurrence of a text is replaced. -/
def Replaces (old new text text' : List α) : Prop :=
  ∃ before after, text = before ++ old ++ after ∧ text' = before ++ new ++ after

theorem Replaces.length {old new text text' : List α} (step : Replaces old new text text') :
    text'.length + old.length = text.length + new.length := by
  obtain ⟨before, after, rfl, rfl⟩ := step
  simp only [List.length_append]
  omega

/-- Two texts differ at a first place, and there the new one comes before the old one. -/
structure Diverges (r : α → α → Prop) (old new : List α) where
  common : List α
  oldLetter : α
  newLetter : α
  oldRest : List α
  newRest : List α
  old_eq : old = common ++ oldLetter :: oldRest
  new_eq : new = common ++ newLetter :: newRest
  less : r newLetter oldLetter

section Order

variable {r : α → α → Prop}

/-- A text with the new name comes before any that goes on as with the old one up to the place
where they differ. -/
theorem Diverges.lex_before {old new : List α} (diverges : Diverges r old new)
    (before after : List α) {other : List α}
    (goesOn : before ++ (diverges.common ++ [diverges.oldLetter]) <+: other) :
    List.Lex r (before ++ new ++ after) other := by
  obtain ⟨rest, rfl⟩ := goesOn
  have shape : before ++ new ++ after =
      (before ++ diverges.common) ++ diverges.newLetter :: (diverges.newRest ++ after) := by
    conv_lhs => rw [diverges.new_eq]
    simp only [List.append_assoc, List.cons_append]
  have shape' : before ++ (diverges.common ++ [diverges.oldLetter]) ++ rest =
      (before ++ diverges.common) ++ diverges.oldLetter :: rest := by
    simp only [List.append_assoc, List.cons_append, List.nil_append]
  rw [shape, shape']
  exact List.Lex.append_left r (List.Lex.rel diverges.less) _

theorem Diverges.lex_of_replaces {old new text text' : List α} (diverges : Diverges r old new)
    (step : Replaces old new text text') : List.Lex r text' text := by
  obtain ⟨before, after, rfl, rfl⟩ := step
  refine diverges.lex_before before after ⟨diverges.oldRest ++ after, ?_⟩
  conv_rhs => rw [diverges.old_eq]
  simp only [List.append_assoc, List.cons_append, List.nil_append]

theorem lex_isStrictTotalOrder [IsStrictTotalOrder α r] :
    IsStrictTotalOrder (List α) (List.Lex r) :=
  { isStrictWeakOrder_of_isOrderConnected with }

theorem diverges_of_ne [LinearOrder α] {old new : List α} (notBefore : ¬ old <+: new)
    (notAfter : ¬ new <+: old) :
    Nonempty (Diverges (· < ·) old new) ∨ Nonempty (Diverges (· > ·) old new) := by
  induction old generalizing new with
  | nil => exact absurd (List.nil_prefix) notBefore
  | cons letter old ih =>
      cases new with
      | nil => exact absurd (List.nil_prefix) notAfter
      | cons letter' new =>
          rcases lt_trichotomy letter' letter with less | rfl | greater
          · exact .inl ⟨⟨[], letter, letter', old, new, rfl, rfl, less⟩⟩
          · have notBefore' : ¬ old <+: new :=
              fun inside => notBefore ((List.prefix_cons_inj letter').mpr inside)
            have notAfter' : ¬ new <+: old :=
              fun inside => notAfter ((List.prefix_cons_inj letter').mpr inside)
            rcases ih notBefore' notAfter' with ⟨⟨diverges⟩⟩ | ⟨⟨diverges⟩⟩
            · exact .inl ⟨{ diverges with
                common := letter' :: diverges.common
                old_eq := congrArg (List.cons letter') diverges.old_eq
                new_eq := congrArg (List.cons letter') diverges.new_eq }⟩
            · exact .inr ⟨{ diverges with
                common := letter' :: diverges.common
                old_eq := congrArg (List.cons letter') diverges.old_eq
                new_eq := congrArg (List.cons letter') diverges.new_eq }⟩
          · exact .inr ⟨⟨[], letter, letter', old, new, rfl, rfl, greater⟩⟩

end Order

/-- A step between texts of a bounded length. -/
def BoundedStep (old new : List α) (bound : ℕ) (text' text : List α) : Prop :=
  Replaces old new text text' ∧ text.length ≤ bound ∧ text'.length ≤ bound

theorem wellFounded_of_diverges [Finite α] {r : α → α → Prop} [IsStrictTotalOrder α r]
    {old new : List α} (diverges : Diverges r old new) (bound : ℕ) :
    WellFounded (BoundedStep old new bound) := by
  have := lex_isStrictTotalOrder (r := r)
  have finite : {text : List α | text.length ≤ bound}.Finite := List.finite_length_le α bound
  have ordered := Set.wellFoundedOn_iff.mp (finite.wellFoundedOn (r := List.Lex r))
  refine Subrelation.wf ?_ ordered
  rintro text' text ⟨step, before, after⟩
  exact ⟨diverges.lex_of_replaces step, after, before⟩

/-- No substitution of another text goes on for ever within a bound. -/
theorem wellFounded_replaces [LinearOrder α] [Finite α] {old new : List α} (different : old ≠ new)
    (bound : ℕ) : WellFounded (BoundedStep old new bound) := by
  rcases lt_trichotomy new.length old.length with shorter | equal | longer
  · refine Subrelation.wf ?_ (measure (List.length (α := α))).wf
    rintro text' text ⟨step, -, -⟩
    have sizes := step.length
    exact show text'.length < text.length by omega
  · have notBefore : ¬ old <+: new := fun inside => different (inside.eq_of_length equal.symm)
    have notAfter : ¬ new <+: old := fun inside => different (inside.eq_of_length equal).symm
    rcases diverges_of_ne notBefore notAfter with ⟨⟨diverges⟩⟩ | ⟨⟨diverges⟩⟩
    · exact wellFounded_of_diverges diverges bound
    · exact wellFounded_of_diverges diverges bound
  · refine Subrelation.wf ?_ (measure fun text : List α => bound - text.length).wf
    rintro text' text ⟨step, -, inside⟩
    have sizes := step.length
    exact show bound - text'.length < bound - text.length by omega

end Pqfh.Rewriting
