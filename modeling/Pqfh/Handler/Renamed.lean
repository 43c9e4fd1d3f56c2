import Pqfh.Foundation.Rewriting
import Pqfh.Handler.Open

/-! # The definitions of the indexes of a new table

`create_table` makes the indexes of a new table from the definitions of those of the
dictionary's table: it puts the name of the new table after the name of the index, and then puts
it for the name of the dictionary's table, searching again from the start of the text after each
substitution. The loop never runs for ever within the buffer
(`Pqfh.wellFounded_substitution`), but it runs out of the buffer where the new name brings the
old one back, and it may replace what it has itself put together. When it does neither is the
subject of `Pqfh.renameIndex_exact`.
-/

namespace Pqfh

open Rewriting

/-! ## Searching -/

/-- `strstr` finds the first place of the pattern. -/
theorem strstr_eq_some {pattern : List Byte} :
    ∀ {text before after : List Byte}, strstr pattern text = some (before, after) →
      text = before ++ pattern ++ after ∧
        ∀ before' after', text = before' ++ pattern ++ after' → before.length ≤ before'.length := by
  intro text
  induction text with
  | nil =>
      intro before after found
      unfold strstr at found
      split at found
      · rename_i empty
        obtain ⟨rfl, rfl⟩ := Prod.mk.inj (Option.some.inj found)
        rw [empty]
        exact ⟨rfl, fun _ _ _ => Nat.zero_le _⟩
      · cases found
  | cons byte rest ih =>
      intro before after found
      unfold strstr at found
      split at found
      · rename_i here
        obtain ⟨tail, shape⟩ := List.isPrefixOf_iff_prefix.mp here
        obtain ⟨rfl, rfl⟩ := Prod.mk.inj (Option.some.inj found)
        refine ⟨?_, fun _ _ _ => Nat.zero_le _⟩
        rw [← shape, List.drop_left, List.nil_append]
      · rename_i elsewhere
        obtain ⟨⟨front, back⟩, later, shape⟩ := Option.map_eq_some_iff.mp found
        obtain ⟨rfl, rfl⟩ := Prod.mk.inj shape
        obtain ⟨split, first⟩ := ih later
        refine ⟨congrArg (List.cons byte) split, ?_⟩
        intro before' after' shape'
        cases before' with
        | nil =>
            have starts : pattern <+: byte :: rest := ⟨after', shape'.symm⟩
            exact absurd (List.isPrefixOf_iff_prefix.mpr starts) elsewhere
        | cons byte' before' =>
            have tails := (List.cons.inj shape').2
            exact Nat.succ_le_succ (first before' after' tails)

/-- `strstr` finds nothing exactly when the pattern stands nowhere. -/
theorem strstr_eq_none_iff {pattern text : List Byte} :
    strstr pattern text = none ↔ ¬ pattern <:+: text := by
  constructor
  · intro absent
    rintro ⟨before, after, shape⟩
    induction text generalizing before with
    | nil =>
        have empty : pattern = [] :=
          List.append_eq_nil_iff.mp (List.append_eq_nil_iff.mp shape).1 |>.2
        rw [strstr, if_pos empty] at absent
        cases absent
    | cons byte rest ih =>
        rw [strstr] at absent
        split at absent
        · cases absent
        · rename_i elsewhere
          cases before with
          | nil =>
              have starts : pattern <+: byte :: rest := ⟨after, shape⟩
              exact elsewhere (List.isPrefixOf_iff_prefix.mpr starts)
          | cons byte' before =>
              exact ih (Option.map_eq_none_iff.mp absent) before (List.cons.inj shape).2
  · intro outside
    cases found : strstr pattern text with
    | none => rfl
    | some parts =>
        obtain ⟨before, after⟩ := parts
        exact absurd ⟨before, after, (strstr_eq_some found).1.symm⟩ outside

/-! ## The substitution -/

/-- A definition is made of texts that are kept and of occurrences of the name of the
dictionary's table. -/
inductive Part where
  | kept (text : List Byte)
  | name

def Part.text (name : List Byte) : Part → List Byte
  | .kept text => text
  | .name => name

/-- The definition with a name in all the places of the dictionary's. -/
def fillParts (name : List Byte) (parts : List Part) : List Byte :=
  parts.flatMap (Part.text name)

/-- The parts of a text, from its start on; it has no more occurrences than bytes. -/
def partsIn (dictname : List Byte) : ℕ → List Byte → List Part
  | 0, text => [.kept text]
  | n + 1, text =>
      match strstr dictname text with
      | none => [.kept text]
      | some (before, after) => .kept before :: .name :: partsIn dictname n after

def partsOf (dictname text : List Byte) : List Part := partsIn dictname text.length text

/-- The parts of a definition whose index has got the name of the new table after its own. -/
def definitionParts (dictname name indexname indexdef : List Byte) : List Part :=
  match strstr indexname indexdef with
  | none => partsOf dictname indexdef
  | some (before, after) =>
      partsOf dictname (before ++ indexname) ++ .kept (95 :: name) :: partsOf dictname after

/-- The definition that the index of the new table is to have. -/
def renamedDefinition (dictname name indexname indexdef : List Byte) : List Byte :=
  fillParts name (definitionParts dictname name indexname indexdef)

example :
  renamedDefinition (ascii "cli") (ascii "novo") (ascii "pk") (ascii "INDEX pk ON cli (a)") =
    ascii "INDEX pk_novo ON novo (a)" := by decide

/-- No parts make no text. -/
@[simp] theorem fillParts_nil (name : List Byte) : fillParts name [] = [] := rfl

/-- A part that is kept stands as it is. -/
@[simp] theorem fillParts_kept (name text : List Byte) (parts : List Part) :
    fillParts name (.kept text :: parts) = text ++ fillParts name parts := rfl

/-- The place of a name is filled with the name. -/
@[simp] theorem fillParts_name (name : List Byte) (parts : List Part) :
    fillParts name (.name :: parts) = name ++ fillParts name parts := rfl

/-- Parts are filled one after the other. -/
@[simp] theorem fillParts_append (name : List Byte) (parts parts' : List Part) :
    fillParts name (parts ++ parts') = fillParts name parts ++ fillParts name parts' :=
  List.flatMap_append

/-- A text that is split at a name and filled with that name is the text. -/
theorem fillParts_partsIn (dictname : List Byte) (n : ℕ) (text : List Byte) :
    fillParts dictname (partsIn dictname n text) = text := by
  induction n generalizing text with
  | zero => exact List.append_nil text
  | succ n ih =>
      unfold partsIn
      split
      · exact List.append_nil text
      · rename_i before after found
        rw [fillParts_kept, fillParts_name, ih, (strstr_eq_some found).1, List.append_assoc]

/-- The parts of a text, filled with the name they were split at, are the text. -/
theorem fillParts_partsOf (dictname text : List Byte) :
    fillParts dictname (partsOf dictname text) = text := fillParts_partsIn dictname _ text

/-- The definition the loop starts with. -/
theorem fillParts_definitionParts (dictname name indexname indexdef : List Byte) :
    fillParts dictname (definitionParts dictname name indexname indexdef) =
      match strstr indexname indexdef with
      | none => indexdef
      | some (before, after) => before ++ indexname ++ 95 :: name ++ after := by
  unfold definitionParts
  split
  · exact fillParts_partsOf dictname indexdef
  · rw [fillParts_append, fillParts_kept, fillParts_partsOf, fillParts_partsOf]
    simp only [List.append_assoc]

/-- A shorter name makes a text that is no longer. -/
theorem length_fillParts_le {name name' : List Byte} (shorter : name.length ≤ name'.length)
    (parts : List Part) : (fillParts name parts).length ≤ (fillParts name' parts).length := by
  induction parts with
  | nil => exact le_rfl
  | cons part parts ih =>
      cases part with
      | kept text =>
          rw [fillParts_kept, fillParts_kept, List.length_append, List.length_append]
          omega
      | name =>
          rw [fillParts_name, fillParts_name, List.length_append, List.length_append]
          omega

/-! ## The loop -/

/-- One iteration of the loop, within the buffer. -/
def Substitutes (dictname name text' text : List Byte) : Prop :=
  (∃ before after, strstr dictname text = some (before, after) ∧
    text' = before ++ name ++ after) ∧ text.length ≤ maxColLen ∧ text'.length ≤ maxColLen

/-- One name cannot be put for another for ever. -/
theorem wellFounded_substitution {dictname name : List Byte} (different : dictname ≠ name) :
    WellFounded (Substitutes dictname name) := by
  refine Subrelation.wf ?_ (wellFounded_replaces different maxColLen)
  rintro text' text ⟨⟨before, after, found, rfl⟩, sizes⟩
  exact ⟨⟨before, after, (strstr_eq_some found).1, rfl⟩, sizes⟩

/-- A text is kept in the buffer when it fits. -/
theorem inBuffer_eq_ok {text result : List Byte} :
    inBuffer text = .ok result ↔ text.length ≤ maxColLen ∧ result = text := by
  unfold inBuffer
  split
  · rename_i long
    constructor
    · intro failed
      cases failed
    · rintro ⟨short, -⟩
      omega
  · rename_i short
    rw [Except.ok.injEq, eq_comm, iff_and_self]
    exact fun _ => Nat.le_of_not_lt short

/-- One turn of the loop ends it, or puts the new name at the first place of the old one. -/
theorem replaceNames_succ {dictname name text result : List Byte} {n : ℕ} :
    replaceNames dictname name (n + 1) text = .ok result ↔
      (strstr dictname text = none ∧ result = text) ∨
      ∃ before after, strstr dictname text = some (before, after) ∧
        (before ++ name ++ after).length ≤ maxColLen ∧
        replaceNames dictname name n (before ++ name ++ after) = .ok result := by
  rw [replaceNames]
  cases found : strstr dictname text with
  | none =>
      simp only [Except.ok.injEq, true_and, reduceCtorEq, false_and, exists_false, or_false]
      exact eq_comm
  | some parts =>
      obtain ⟨before, after⟩ := parts
      rw [bind_eq_ok]
      constructor
      · rintro ⟨text', room, rest⟩
        obtain ⟨fits, rfl⟩ := inBuffer_eq_ok.mp room
        exact .inr ⟨before, after, rfl, fits, rest⟩
      · rintro (⟨absent, -⟩ | ⟨before', after', same, fits, rest⟩)
        · cases absent
        · obtain ⟨rfl, rfl⟩ := Prod.mk.inj (Option.some.inj same)
          exact ⟨_, inBuffer_eq_ok.mpr ⟨fits, rfl⟩, rest⟩

/-- The loop ends with a text that has no occurrence and is in the buffer. -/
theorem replaceNames_ends {dictname name : List Byte} :
    ∀ {n : ℕ} {text result : List Byte}, text.length ≤ maxColLen →
      replaceNames dictname name n text = .ok result →
      strstr dictname result = none ∧ result.length ≤ maxColLen := by
  intro n
  induction n with
  | zero =>
      intro text result _ ran
      cases ran
  | succ n ih =>
      intro text result fits ran
      rcases replaceNames_succ.mp ran with ⟨absent, rfl⟩ | ⟨before, after, -, fits', rest⟩
      · exact ⟨absent, fits⟩
      · exact ih fits' rest

/-- Where the two names differ at a first place, the loop only goes one way. -/
theorem replaceNames_lex {r : Byte → Byte → Prop} [IsStrictTotalOrder Byte r]
    {dictname name : List Byte} (diverges : Diverges r dictname name) :
    ∀ {n : ℕ} {text result : List Byte}, replaceNames dictname name n text = .ok result →
      result = text ∨ List.Lex r result text := by
  have := lex_isStrictTotalOrder (r := r)
  intro n
  induction n with
  | zero =>
      intro text result ran
      cases ran
  | succ n ih =>
      intro text result ran
      rcases replaceNames_succ.mp ran with ⟨-, rfl⟩ | ⟨before, after, found, -, rest⟩
      · exact .inl rfl
      · have step := diverges.lex_of_replaces ⟨before, after, (strstr_eq_some found).1, rfl⟩
        rcases ih rest with rfl | less
        · exact .inr step
        · exact .inr (trans_of (List.Lex r) less step)

/-- Each substitution leaves the text that the substitution of the next occurrence leaves, and
at the end there is no occurrence. The text up to the next occurrence comes first. -/
def Steady (dictname name : List Byte) : List Byte → List Part → Prop
  | front, [] => strstr dictname front = none
  | front, .kept text :: parts => Steady dictname name (front ++ text) parts
  | front, .name :: parts =>
      (strstr dictname (front ++ dictname ++ fillParts dictname parts)).map
          (fun found => found.1 ++ name ++ found.2) =
        some (front ++ name ++ fillParts dictname parts) ∧
      Steady dictname name (front ++ name) parts

instance decidableSteady (dictname name : List Byte) :
    ∀ front parts, Decidable (Steady dictname name front parts)
  | front, [] => inferInstanceAs (Decidable (strstr dictname front = none))
  | front, .kept text :: parts => decidableSteady dictname name (front ++ text) parts
  | front, .name :: parts =>
      have := decidableSteady dictname name (front ++ name) parts
      inferInstanceAs (Decidable (_ ∧ _))

/-- The loop fills every place when none of its substitutions makes a new one. -/
theorem replaceNames_of_steady {dictname name : List Byte} :
    ∀ {parts : List Part} {n : ℕ} {front : List Byte}, parts.length < n →
      Steady dictname name front parts →
      (front ++ fillParts dictname parts).length ≤ maxColLen →
      (front ++ fillParts name parts).length ≤ maxColLen →
      replaceNames dictname name n (front ++ fillParts dictname parts) =
        .ok (front ++ fillParts name parts) := by
  intro parts
  induction parts with
  | nil =>
      intro n front enough steady _ _
      obtain ⟨n, rfl⟩ := Nat.exists_eq_succ_of_ne_zero (Nat.ne_zero_of_lt enough)
      rw [fillParts_nil, fillParts_nil, List.append_nil]
      exact replaceNames_succ.mpr (.inl ⟨steady, rfl⟩)
  | cons part parts ih =>
      intro n front enough steady fits fits'
      cases part with
      | kept text =>
          rw [fillParts_kept, ← List.append_assoc] at fits fits' ⊢
          rw [fillParts_kept, ← List.append_assoc]
          exact ih ((Nat.lt_succ_self _).trans enough) steady fits fits'
      | name =>
          obtain ⟨n, rfl⟩ := Nat.exists_eq_succ_of_ne_zero (Nat.ne_zero_of_lt enough)
          obtain ⟨step, rest⟩ := steady
          obtain ⟨⟨before, after⟩, found, text⟩ := Option.map_eq_some_iff.mp step
          rw [fillParts_name, ← List.append_assoc] at fits fits' ⊢
          rw [fillParts_name, ← List.append_assoc]
          have between : (front ++ name ++ fillParts dictname parts).length ≤ maxColLen := by
            simp only [List.length_append] at fits fits' ⊢
            rcases le_total name.length dictname.length with shorter | longer
            · omega
            · have grows := length_fillParts_le longer parts
              omega
          refine replaceNames_succ.mpr (.inr ⟨before, after, found, ?_, ?_⟩)
          · rw [text]
            exact between
          · rw [text]
            exact ih (Nat.lt_of_succ_lt_succ enough) rest between fits'

/-- A text that the loop comes to by an occurrence before the next one does not become the text
that the substitution of the next one leads to. -/
theorem no_return {r : Byte → Byte → Prop} [IsStrictTotalOrder Byte r] {dictname name : List Byte}
    (diverges : Diverges r dictname name) {front before after rest tail : List Byte} {n : ℕ}
    (same : before ++ dictname ++ after = front ++ dictname ++ rest)
    (earlier : before.length < front.length) :
    replaceNames dictname name n (before ++ name ++ after) ≠ .ok (front ++ name ++ tail) := by
  intro ran
  have := lex_isStrictTotalOrder (r := r)
  have old : dictname = diverges.common ++ [diverges.oldLetter] ++ diverges.oldRest := by
    conv_lhs => rw [diverges.old_eq]
    rw [List.append_assoc, List.singleton_append]
  have goesOn : before ++ (diverges.common ++ [diverges.oldLetter]) <+:
      front ++ name ++ tail := by
    have inside : before ++ (diverges.common ++ [diverges.oldLetter]) <+:
        front ++ dictname ++ rest := by
      rw [← same]
      refine ⟨diverges.oldRest ++ after, ?_⟩
      conv_rhs => rw [old]
      simp only [List.append_assoc]
    have inside' : front ++ diverges.common <+: front ++ dictname ++ rest := by
      refine ⟨[diverges.oldLetter] ++ diverges.oldRest ++ rest, ?_⟩
      conv_rhs => rw [old]
      simp only [List.append_assoc]
    have short : (before ++ (diverges.common ++ [diverges.oldLetter])).length ≤
        (front ++ diverges.common).length := by
      simp only [List.length_append, List.length_singleton]
      omega
    refine (List.prefix_of_prefix_length_le inside inside' short).trans ?_
    refine ⟨diverges.newLetter :: diverges.newRest ++ tail, ?_⟩
    conv_rhs => rw [diverges.new_eq]
    simp only [List.append_assoc, List.cons_append]
  have above := diverges.lex_before before after goesOn
  rcases replaceNames_lex diverges ran with equal | less
  · rw [equal] at above
    exact irrefl_of (List.Lex r) _ above
  · exact irrefl_of (List.Lex r) _ (trans_of (List.Lex r) less above)

/-- A loop that filled the places made no new one on its way. -/
theorem steady_of_replaceNames {dictname name : List Byte} (notInside : ¬ name <+: dictname) :
    ∀ {parts : List Part} {n : ℕ} {front : List Byte},
      replaceNames dictname name n (front ++ fillParts dictname parts) =
        .ok (front ++ fillParts name parts) →
      strstr dictname (front ++ fillParts name parts) = none →
      Steady dictname name front parts := by
  intro parts
  induction parts with
  | nil =>
      intro n front _ absent
      rwa [fillParts_nil, List.append_nil] at absent
  | cons part parts ih =>
      intro n front ran absent
      cases part with
      | kept text =>
          rw [fillParts_kept, ← List.append_assoc] at absent
          rw [fillParts_kept, fillParts_kept, ← List.append_assoc, ← List.append_assoc] at ran
          exact ih ran absent
      | name =>
          rw [fillParts_name, ← List.append_assoc] at absent
          rw [fillParts_name, fillParts_name, ← List.append_assoc, ← List.append_assoc] at ran
          cases n with
          | zero => cases ran
          | succ n =>
              rcases replaceNames_succ.mp ran with ⟨none, -⟩ | ⟨before, after, found, -, rest⟩
              · exact absurd ⟨front, fillParts dictname parts, rfl⟩ (strstr_eq_none_iff.mp none)
              · obtain ⟨shape, first⟩ := strstr_eq_some found
                have early := first front (fillParts dictname parts) rfl
                rcases early.eq_or_lt with here | earlier
                · -- The occurrence that the loop finds is the next one.
                  have aligned : front ++ (dictname ++ fillParts dictname parts) =
                      before ++ (dictname ++ after) := by
                    rw [← List.append_assoc, ← List.append_assoc]
                    exact shape
                  obtain ⟨same, after_eq⟩ := List.append_inj aligned here.symm
                  have tail := List.append_cancel_left after_eq
                  rw [← same, ← tail] at rest found
                  refine ⟨?_, ih rest absent⟩
                  rw [found]
                  rfl
                · -- It has begun in what is done.
                  have notBefore : ¬ dictname <+: name := by
                    rintro ⟨more, longer⟩
                    refine strstr_eq_none_iff.mp absent
                      ⟨front, more ++ fillParts name parts, ?_⟩
                    rw [← longer]
                    simp only [List.append_assoc]
                  rcases diverges_of_ne notBefore notInside with ⟨⟨diverges⟩⟩ | ⟨⟨diverges⟩⟩
                  · exact absurd rest (no_return diverges shape.symm earlier)
                  · exact absurd rest (no_return diverges shape.symm earlier)

/-! ## create_table -/

/-- The definition is renamed when all its texts fit the buffers and the loop ends. -/
theorem renameIndex_eq_ok {dictname name indexname indexdef result : List Byte} :
    renameIndex dictname name indexname indexdef = .ok result ↔
      indexname.length ≤ maxColLen ∧ indexdef.length ≤ maxColLen ∧
        (fillParts dictname (definitionParts dictname name indexname indexdef)).length ≤
          maxColLen ∧
        replaceNames dictname name (256 ^ 257)
          (fillParts dictname (definitionParts dictname name indexname indexdef)) =
            .ok result := by
  rw [fillParts_definitionParts]
  generalize turns : 256 ^ 257 = n
  unfold renameIndex
  rw [turns, bind_eq_ok]
  simp only [inBuffer_eq_ok]
  constructor
  · rintro ⟨_, ⟨short, same⟩, ran⟩
    obtain ⟨_, room, rest⟩ := bind_eq_ok.mp ran
    obtain ⟨fits, same'⟩ := inBuffer_eq_ok.mp room
    rw [same, same'] at rest
    refine ⟨short, fits, ?_⟩
    cases found : strstr indexname indexdef with
    | none =>
        rw [found] at rest
        exact ⟨fits, rest⟩
    | some parts =>
        rw [found] at rest
        obtain ⟨_, room', loop⟩ := bind_eq_ok.mp rest
        obtain ⟨fits', rfl⟩ := inBuffer_eq_ok.mp room'
        exact ⟨fits', loop⟩
  · rintro ⟨short, fits, fits', loop⟩
    refine ⟨indexname, ⟨short, rfl⟩, bind_eq_ok.mpr ⟨indexdef, inBuffer_eq_ok.mpr ⟨fits, rfl⟩, ?_⟩⟩
    cases found : strstr indexname indexdef with
    | none =>
        rw [found] at loop
        exact loop
    | some parts =>
        rw [found] at fits' loop
        exact bind_eq_ok.mpr ⟨_, inBuffer_eq_ok.mpr ⟨fits', rfl⟩, loop⟩

/-- Each place of a name makes two parts at most. -/
theorem length_partsIn_le (dictname : List Byte) (n : ℕ) (text : List Byte) :
    (partsIn dictname n text).length ≤ 2 * n + 1 := by
  induction n generalizing text with
  | zero => exact le_rfl
  | succ n ih =>
      unfold partsIn
      split
      · rw [List.length_singleton]
        omega
      · rename_i before after _
        have rest := ih after
        simp only [List.length_cons]
        omega

/-- A definition has so many parts at most, by its length. -/
theorem length_definitionParts_le (dictname name indexname indexdef : List Byte) :
    (definitionParts dictname name indexname indexdef).length ≤
      2 * indexdef.length + 3 := by
  unfold definitionParts
  split
  · exact (length_partsIn_le _ _ _).trans (Nat.le_add_right _ 2)
  · rename_i before after found
    have shape := congrArg List.length (strstr_eq_some found).1
    have front := length_partsIn_le dictname (before ++ indexname).length (before ++ indexname)
    have back := length_partsIn_le dictname after.length after
    simp only [List.length_append, List.length_cons, partsOf] at shape front back ⊢
    omega

/-- There are more turns than parts. -/
theorem length_definitionParts_lt (dictname name indexname : List Byte) {indexdef : List Byte}
    (fits : indexdef.length ≤ maxColLen) :
    (definitionParts dictname name indexname indexdef).length < 256 ^ 257 := by
  have few := length_definitionParts_le dictname name indexname indexdef
  have more : ∀ turns, 2 < turns → maxColLen * maxColLen < 256 ^ turns := by
    intro turns enough
    rw [← pow_two]
    exact Nat.pow_lt_pow_right (by decide) enough
  have few' : 2 * indexdef.length + 3 ≤ maxColLen * maxColLen := by
    calc 2 * indexdef.length + 3 ≤ 2 * maxColLen + 3 := by omega
      _ ≤ maxColLen * maxColLen := by decide
  exact (few.trans few').trans_lt (more 257 (by decide))

/-- The texts are in the buffer, and no substitution meets what an earlier one has put there. -/
structure NamesApart (dictname name indexname indexdef : List Byte) : Prop where
  indexname_fits : indexname.length ≤ maxColLen
  indexdef_fits : indexdef.length ≤ maxColLen
  unique_fits :
    (fillParts dictname (definitionParts dictname name indexname indexdef)).length ≤ maxColLen
  renamed_fits : (renamedDefinition dictname name indexname indexdef).length ≤ maxColLen
  steady : Steady dictname name [] (definitionParts dictname name indexname indexdef)

/-- The loop does not run for ever within the buffer. It comes to the definition that the new
index is to have where the names are apart, and, unless the new name is the start of the
dictionary's, only there. -/
theorem renameIndex_exact {dictname name : List Byte} (different : dictname ≠ name)
    (indexname indexdef : List Byte) :
    WellFounded (Substitutes dictname name) ∧
      (NamesApart dictname name indexname indexdef →
        renameIndex dictname name indexname indexdef =
          .ok (renamedDefinition dictname name indexname indexdef)) ∧
      (¬ name <+: dictname →
        renameIndex dictname name indexname indexdef =
          .ok (renamedDefinition dictname name indexname indexdef) →
        NamesApart dictname name indexname indexdef) := by
  refine ⟨wellFounded_substitution different, ?_, ?_⟩
  · rintro ⟨short, fits, fits', fits'', steady⟩
    refine renameIndex_eq_ok.mpr ⟨short, fits, fits', ?_⟩
    have enough := length_definitionParts_lt dictname name indexname fits
    generalize 256 ^ 257 = n at enough ⊢
    exact @replaceNames_of_steady dictname name _ n [] enough steady fits' fits''
  · intro notInside ran
    obtain ⟨short, fits, fits', loop⟩ := renameIndex_eq_ok.mp ran
    obtain ⟨absent, fits''⟩ := replaceNames_ends fits' loop
    have steady := @steady_of_replaceNames dictname name notInside _ _ [] loop absent
    exact ⟨short, fits, fits', fits'', steady⟩

/-- An index of `cli` is renamed to one of `novo`, and nothing else of its text changes. -/
theorem renameIndex_novo :
    WellFounded (Substitutes (ascii "cli") (ascii "novo")) ∧
      renameIndex (ascii "cli") (ascii "novo") (ascii "pk") (ascii "INDEX pk ON cli (a)") =
        .ok (renamedDefinition (ascii "cli") (ascii "novo") (ascii "pk")
          (ascii "INDEX pk ON cli (a)")) := by
  have different : ascii "cli" ≠ ascii "novo" := by decide
  obtain ⟨ends, exact, -⟩ :=
    renameIndex_exact different (ascii "pk") (ascii "INDEX pk ON cli (a)")
  exact ⟨ends, exact ⟨by decide, by decide, by decide, by decide, by decide⟩⟩

/-- A new name that contains the dictionary's brings it back with every substitution. -/
theorem renameIndex_contained :
    renameIndex (ascii "cli") (ascii "cli2") (ascii "pk") (ascii "INDEX pk ON cli (a)") ≠
      .ok (renamedDefinition (ascii "cli") (ascii "cli2") (ascii "pk")
        (ascii "INDEX pk ON cli (a)")) := by
  intro ran
  obtain ⟨-, -, fits, loop⟩ := renameIndex_eq_ok.mp ran
  exact absurd (replaceNames_ends fits loop).1 (by decide)

end Pqfh
