import Pqfh.Json.Parse

/-! # What the parser can build

Whatever its tokens are, the parser only appends children, never takes an error back, and
builds an element from the texts of its tokens.
-/

namespace Pqfh.Json

/-- What can be read back of an element: a name that neither ends the object nor is passed
over, and a value that is a token `lex` can deliver and that its parser takes for a value. -/
structure Readable (inObject : Bool) (element : JElement) : Prop where
  name : inObject = true → ∀ name, element.name = some name →
    leavesObject (Token.first ⟨tokString, name⟩) = false ∧ name.getLast? ≠ some 92
  value : ∀ value, element.value = some value → Token.Possible ⟨element.tp, value⟩ ∧
    (if inObject then opensValue else leavesArray) (Token.first ⟨element.tp, value⟩) = false

/-- What reading tokens does to the children read before and to `ok`. -/
structure Appended (inObject : Bool) (tokens : List Token) (children : List JElement)
    (ok : Bool) (parsed : Parsed) : Prop where
  rest : ∀ token ∈ parsed.1, token ∈ tokens
  noted : parsed.2.2 = true → ok = true
  children : ∃ more, parsed.2.1 = children ++ more ∧ (parsed.2.2 = true →
    (∀ token ∈ tokens, token.Possible) → ∀ child ∈ more, Throughout Readable inObject child)

variable {inObject : Bool} {tokens later : List Token} {children : List JElement}
  {ok ok' : Bool} {child : JElement} {parsed inner : Parsed} {tok colon value : Token}

theorem Appended.refl : Appended inObject tokens children ok (later, children, ok) ↔
    ∀ token ∈ later, token ∈ tokens := by
  constructor
  · exact fun appended => appended.rest
  · intro rest
    refine ⟨rest, id, [], (List.append_nil children).symm, ?_⟩
    intro _ _ child member
    cases member

/-- Nothing is appended by tokens passed over. -/
theorem Appended.skip (appended : Appended inObject later children ok parsed)
    (rest : ∀ token ∈ later, token ∈ tokens) :
    Appended inObject tokens children ok parsed := by
  obtain ⟨more, appends, readable⟩ := appended.children
  refine ⟨fun token member => rest token (appended.rest token member), appended.noted, more,
    appends, fun fine possible => readable fine ?_⟩
  exact fun token member => possible token (rest token member)

/-- A child is appended, then the later tokens are read. -/
theorem Appended.cons (appended : Appended inObject later (children ++ [child]) ok' parsed)
    (rest : ∀ token ∈ later, token ∈ tokens) (noted : ok' = true → ok = true)
    (readable : ok' = true → (∀ token ∈ tokens, token.Possible) →
      Throughout Readable inObject child) :
    Appended inObject tokens children ok parsed := by
  obtain ⟨more, appends, fine⟩ := appended.children
  refine ⟨fun token member => rest token (appended.rest token member),
    fun ended => noted (appended.noted ended), child :: more, ?_, ?_⟩
  · rw [appends, List.append_assoc, List.singleton_append]
  · intro ended possible other member
    rcases List.mem_cons.mp member with rfl | member
    · exact readable (appended.noted ended) possible
    · exact fine ended (fun token old => possible token (rest token old)) other member

/-- What was read inside an element with no children before. -/
theorem Appended.inside (appended : Appended inObject tokens [] ok inner)
    (ended : inner.2.2 = true) (possible : ∀ token ∈ tokens, token.Possible) :
    ∀ child ∈ inner.2.1, Throughout Readable inObject child := by
  obtain ⟨more, appends, readable⟩ := appended.children
  rw [appends, List.nil_append]
  exact readable ended possible

theorem readable_item (plain : leavesArray tok.first = false) (possible : tok.Possible) :
    Throughout Readable false ⟨none, tok.tp, some tok.buf, []⟩ := by
  refine .intro ⟨nofun, ?_⟩ nofun
  rintro _ ⟨⟩
  exact ⟨possible, plain⟩

theorem readable_nested {name : Option (List Byte)} {tp : Byte} {nested : List JElement}
    (named : inObject = true → ∀ text, name = some text →
      leavesObject (Token.first ⟨tokString, text⟩) = false ∧ text.getLast? ≠ some 92)
    (below : ∀ child ∈ nested, Throughout Readable (tp = tpObject) child) :
    Throughout Readable inObject ⟨name, tp, none, nested⟩ :=
  .intro ⟨named, nofun⟩ below

/-- A name without an error is a string token. -/
theorem readable_name (plain : leavesObject tok.first = false) (possible : tok.Possible)
    (fine : (ok && tok.tp = tokString && colon.buf = [58]) = true) :
    ∀ text, some tok.buf = some text →
      leavesObject (Token.first ⟨tokString, text⟩) = false ∧ text.getLast? ≠ some 92 := by
  rintro _ ⟨⟩
  simp only [Bool.and_eq_true, decide_eq_true_eq] at fine
  exact ⟨plain, possible.string fine.1.2⟩

theorem ok_of_member (fine : (ok && tok.tp = tokString && colon.buf = [58]) = true) :
    ok = true := by
  simp only [Bool.and_eq_true] at fine
  exact fine.1.1

theorem memberFrom_appended
    (ih : ∀ shorter : List Token, shorter.length ≤ tokens.length →
      ∀ {children : List JElement} {ok : Bool} {parsed : Parsed},
        (arrayFrom shorter children ok = .ok parsed →
          Appended false shorter children ok parsed) ∧
        (objectFrom shorter children ok = .ok parsed →
          Appended true shorter children ok parsed))
    (plain : leavesObject tok.first = false)
    (ended : memberFrom tok colon value tokens children ok = .ok parsed) :
    Appended true (tok :: colon :: value :: tokens) children ok parsed := by
  have behind : ∀ token ∈ tokens, token ∈ tok :: colon :: value :: tokens := fun token member =>
    List.mem_cons_of_mem _ (List.mem_cons_of_mem _ (List.mem_cons_of_mem _ member))
  unfold memberFrom at ended
  split_ifs at ended with bracket brace
  · obtain ⟨inner, opened, rest⟩ := bind_eq_ok.mp ended
    have inside := (ih tokens le_rfl).1 opened
    refine ((ih inner.1 (arrayFrom_suffix opened)).2 rest).cons
      (fun token member => behind token (inside.rest token member))
      (fun fine => ok_of_member (inside.noted fine)) fun fine possible => ?_
    exact readable_nested
      (fun _ => readable_name plain (possible _ List.mem_cons_self) (inside.noted fine))
      (inside.inside fine fun token member => possible token (behind token member))
  · obtain ⟨inner, opened, rest⟩ := bind_eq_ok.mp ended
    have inside := (ih tokens le_rfl).2 opened
    refine ((ih inner.1 (objectFrom_suffix opened)).2 rest).cons
      (fun token member => behind token (inside.rest token member))
      (fun fine => ok_of_member (inside.noted fine)) fun fine possible => ?_
    exact readable_nested
      (fun _ => readable_name plain (possible _ List.mem_cons_self) (inside.noted fine))
      (inside.inside fine fun token member => possible token (behind token member))
  · refine ((ih tokens le_rfl).2 ended).cons behind (fun fine => ok_of_member fine)
      fun fine possible => .intro ⟨?_, ?_⟩ nofun
    · exact fun _ => readable_name plain (possible _ List.mem_cons_self) fine
    · rintro _ ⟨⟩
      refine ⟨possible value (List.mem_cons_of_mem _ (List.mem_cons_of_mem _
        List.mem_cons_self)), ?_⟩
      simp only [↓reduceIte, opensValue, Bool.or_eq_false_iff, decide_eq_false_iff_not]
      exact ⟨bracket, brace⟩

theorem parse_appended (n : ℕ) : ∀ tokens : List Token, tokens.length ≤ n →
    ∀ {children : List JElement} {ok : Bool} {parsed : Parsed},
      (arrayFrom tokens children ok = .ok parsed → Appended false tokens children ok parsed) ∧
      (objectFrom tokens children ok = .ok parsed →
        Appended true tokens children ok parsed) := by
  induction n with
  | zero =>
      intro tokens few children ok parsed
      obtain rfl : tokens = [] := List.length_eq_zero_iff.mp (Nat.le_zero.mp few)
      constructor
      · rw [arrayFrom_nil]
        rintro ⟨⟩
        exact Appended.refl.mpr fun _ => id
      · rw [objectFrom_nil]
        rintro ⟨⟩
        exact Appended.refl.mpr fun _ => id
  | succ n ih =>
      intro tokens few children ok parsed
      cases tokens with
      | nil => exact ih [] (Nat.zero_le n)
      | cons tok tokens =>
          rw [List.length_cons, Nat.succ_le_succ_iff] at few
          have behind : ∀ token ∈ tokens, token ∈ tok :: tokens := fun _ =>
            List.mem_cons_of_mem tok
          constructor
          · intro ended
            by_cases close : tok.first = 93
            · rw [arrayFrom_close close] at ended
              cases ended
              exact Appended.refl.mpr behind
            by_cases comma : tok.first = 44
            · rw [arrayFrom_comma comma] at ended
              exact ((ih tokens few).1 ended).skip behind
            by_cases brace : tok.first = 123
            · rw [arrayFrom_object brace] at ended
              obtain ⟨inner, opened, rest⟩ := bind_eq_ok.mp ended
              have inside := (ih tokens few).2 opened
              refine ((ih inner.1 ((objectFrom_suffix opened).trans few)).1 rest).cons
                (fun token member => behind token (inside.rest token member)) inside.noted
                fun fine possible => ?_
              exact readable_nested nofun
                (inside.inside fine fun token member => possible token (behind token member))
            have plain : leavesArray tok.first = false := by
              simp only [leavesArray, close, comma, brace, decide_false, Bool.or_self]
            rw [arrayFrom_value plain] at ended
            exact ((ih tokens few).1 ended).cons behind id fun _ possible =>
              readable_item plain (possible tok List.mem_cons_self)
          · intro ended
            by_cases close : tok.first = 125
            · rw [objectFrom_close close] at ended
              cases ended
              exact Appended.refl.mpr behind
            by_cases comma : tok.first = 44
            · rw [objectFrom_comma comma] at ended
              exact ((ih tokens few).2 ended).skip behind
            have plain : leavesObject tok.first = false := by
              simp only [leavesObject, close, comma, decide_false, Bool.or_self]
            match tokens with
            | [] =>
                rw [objectFrom_short plain (by decide)] at ended
                cases ended
            | [other] =>
                rw [objectFrom_short plain (by rw [List.length_singleton]; decide)] at ended
                cases ended
            | colon :: value :: tokens =>
                rw [objectFrom_member plain] at ended
                refine memberFrom_appended (fun shorter fewer => ih shorter ?_) plain ended
                simp only [List.length_cons] at few
                omega

theorem arrayFrom_appended (ended : arrayFrom tokens children ok = .ok parsed) :
    Appended false tokens children ok parsed :=
  (parse_appended tokens.length tokens le_rfl).1 ended

theorem objectFrom_appended (ended : objectFrom tokens children ok = .ok parsed) :
    Appended true tokens children ok parsed :=
  (parse_appended tokens.length tokens le_rfl).2 ended

/-- The tree of a successful parse can be read back in all that is not a literal. -/
theorem parse_readable {json : List Byte} {root : JElement}
    (parsed : parse json = .ok (true, root)) :
    ∀ child ∈ root.children, Throughout Readable (root.tp = tpObject) child := by
  have possible := lex_possible json
  unfold parse at parsed
  cases read : lex json with
  | nil =>
      rw [read] at parsed
      cases parsed
  | cons tok tokens =>
      rw [read] at parsed possible
      have behind : ∀ token ∈ tokens, token.Possible := fun token member =>
        possible token (List.mem_cons_of_mem _ member)
      simp only at parsed
      split_ifs at parsed
      · obtain ⟨inner, opened, ended⟩ := bind_eq_ok.mp parsed
        rw [Except.ok.injEq, Prod.mk.injEq] at ended
        obtain ⟨fine, rfl⟩ := ended
        exact (arrayFrom_appended opened).inside fine behind
      · obtain ⟨inner, opened, ended⟩ := bind_eq_ok.mp parsed
        rw [Except.ok.injEq, Prod.mk.injEq] at ended
        obtain ⟨fine, rfl⟩ := ended
        exact (objectFrom_appended opened).inside fine behind
      · cases parsed

end Pqfh.Json
