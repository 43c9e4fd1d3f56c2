import Pqfh.Json.ParseSpec
import Pqfh.Json.Print

/-! # Printing a tree and parsing the text -/

namespace Pqfh.Json

/-! ## The trees -/

/-- What an element is made of. An array does not print arrays. -/
inductive Form : Bool → JElement → Prop where
  | string {inObject : Bool} {name : Option (List Byte)} {value : List Byte}
      (escaped : EscapedBody value) : Form inObject ⟨name, tpString, some value, []⟩
  | number {inObject : Bool} {name : Option (List Byte)} {value : List Byte}
      (number : IsNumber value) : Form inObject ⟨name, tpNumber, some value, []⟩
  | bool {inObject : Bool} {name : Option (List Byte)} {value : List Byte}
      (literal : value = ascii "true" ∨ value = ascii "false") :
      Form inObject ⟨name, tpBool, some value, []⟩
  | array {name : Option (List Byte)} {children : List JElement} :
      Form true ⟨name, tpArray, none, children⟩
  | object {inObject : Bool} {name : Option (List Byte)} {children : List JElement} :
      Form inObject ⟨name, tpObject, none, children⟩

/-- An element of a tree: the members of an object have names, the others have none. -/
structure WellFormed (inObject : Bool) (element : JElement) : Prop where
  name : if inObject then ∃ name, element.name = some name ∧ EscapedBody name
    else element.name = none
  form : Form inObject element

/-- A tree that stands for a text: an array or an object. -/
structure Document (root : JElement) : Prop where
  name : root.name = none
  value : root.value = none
  tp : root.tp = tpArray ∨ root.tp = tpObject
  children : ∀ child ∈ root.children, Throughout WellFormed (root.tp = tpObject) child

/-- The condition on an element: no literal, and nothing that the parser takes for something
else. -/
structure ReadsBack (inObject : Bool) (element : JElement) : Prop where
  literal : element.tp ≠ tpBool
  readable : Readable inObject element

/-! ## Reading lines -/

variable {tokens : List Token} {children acc : List JElement} {ok : Bool} {parsed : Parsed}

/-- The end of a line is a blank. -/
theorem lexFrom_newline (rest : List Byte) :
    lexFrom (.start 0) (10 :: rest) = lexFrom (.start 0) rest :=
  lexFrom_white (by decide) rest

/-- So is a space. -/
theorem lexFrom_blank (rest : List Byte) :
    lexFrom (.start 0) (32 :: rest) = lexFrom (.start 0) rest :=
  lexFrom_white (by decide) rest

/-- The character behind a child. -/
def IsComma (comma : Byte) : Prop := comma = 32 ∨ comma = 44

/-- Behind each child but the last there is a comma, and a space behind that one. -/
theorem commaAfter_isComma (rest : List JElement) : IsComma (commaAfter rest) := by
  unfold commaAfter
  split_ifs
  · exact .inl rfl
  · exact .inr rfl

/-- What stands behind an element of an array is passed over. -/
theorem arrayFrom_behind {comma : Byte} (known : IsComma comma) (rest : List Byte) :
    arrayFrom (lexFrom (.start 0) (comma :: 10 :: rest)) acc ok =
      arrayFrom (lexFrom (.start 0) rest) acc ok := by
  rcases known with rfl | rfl
  · rw [lexFrom_blank, lexFrom_newline]
  · rw [lexFrom_symbol (by decide), arrayFrom_comma rfl, lexFrom_newline]

/-- What stands behind a member is passed over. -/
theorem objectFrom_behind {comma : Byte} (known : IsComma comma) (rest : List Byte) :
    objectFrom (lexFrom (.start 0) (comma :: 10 :: rest)) acc ok =
      objectFrom (lexFrom (.start 0) rest) acc ok := by
  rcases known with rfl | rfl
  · rw [lexFrom_blank, lexFrom_newline]
  · rw [lexFrom_symbol (by decide), objectFrom_comma rfl, lexFrom_newline]

/-- It ends a number. -/
theorem not_digit_of_isComma {comma : Byte} (known : IsComma comma) :
    ¬ (isDigit comma ∨ comma = 46) := by
  rcases known with rfl | rfl <;> decide

/-- A name is read as a string and a colon. -/
theorem lexFrom_nameText {name : List Byte} (escaped : EscapedBody name)
    (closed : name.getLast? ≠ some 92) (rest : List Byte) :
    lexFrom (.start 0) (nameText name ++ rest) =
      ⟨tokString, name⟩ :: ⟨tokSymbol, [58]⟩ :: lexFrom (.start 0) rest := by
  have shape : nameText name ++ rest = 34 :: (name ++ 34 :: 58 :: 32 :: rest) := by
    simp only [nameText, List.cons_append, List.append_assoc, List.nil_append]
  rw [shape, lexFrom_string escaped closed, lexFrom_symbol (by decide), lexFrom_blank]

/-- A literal is read as the other one. -/
theorem lexFrom_literal {value : List Byte}
    (literal : value = ascii "true" ∨ value = ascii "false") (rest : List Byte) :
    ∃ other tokens, other ≠ value ∧ opensValue (Token.first ⟨tokBool, other⟩) = false ∧
      leavesArray (Token.first ⟨tokBool, other⟩) = false ∧
      lexFrom (.start 0) (value ++ rest) = ⟨tokBool, other⟩ :: tokens := by
  rcases literal with rfl | rfl
  · obtain ⟨tokens, read⟩ := lexFrom_true rest
    exact ⟨ascii "false", tokens, by decide, by decide, by decide, read⟩
  · refine ⟨ascii "true", _, by decide, by decide, by decide,
      lexFrom_other (by decide) ?_⟩
    rintro ⟨_, same⟩
    exact absurd (List.cons.inj same).1 (by decide)

/-- A child of an object is read back by `parse_object`. -/
def MemberRead (child : JElement) : Prop :=
  ∀ (level : ℕ) (comma : Byte) (lines : List (List Byte)), IsComma comma →
    appendMember level comma child = .ok lines →
    ∀ (rest : List Byte) (acc : List JElement) (ok : Bool),
      objectFrom (lexFrom (.start 0) (joined lines ++ rest)) acc ok =
        objectFrom (lexFrom (.start 0) rest) (acc ++ [child]) ok

/-- A child of an array is read back by `parse_array`. -/
def ElementRead (child : JElement) : Prop :=
  ∀ (level : ℕ) (comma : Byte) (lines : List (List Byte)), IsComma comma →
    appendElement level comma child = .ok lines →
    ∀ (rest : List Byte) (acc : List JElement) (ok : Bool),
      arrayFrom (lexFrom (.start 0) (joined lines ++ rest)) acc ok =
        arrayFrom (lexFrom (.start 0) rest) (acc ++ [child]) ok

/-- Members that are read back one by one are read back together. -/
theorem members_read (read : ∀ child ∈ children, MemberRead child) {level : ℕ}
    {lines : List (List Byte)} (done : appendMembers level children = .ok lines)
    (rest : List Byte) (acc : List JElement) (ok : Bool) :
    objectFrom (lexFrom (.start 0) (joined lines ++ rest)) acc ok =
      objectFrom (lexFrom (.start 0) rest) (acc ++ children) ok := by
  induction children generalizing lines acc with
  | nil =>
      unfold appendMembers at done
      cases done
      rw [List.append_nil]
      rfl
  | cons child children ih =>
      unfold appendMembers at done
      obtain ⟨first, here, done⟩ := bind_eq_ok.mp done
      obtain ⟨others, behind, done⟩ := bind_eq_ok.mp done
      cases done
      rw [joined_append, List.append_assoc,
        read child List.mem_cons_self _ _ _ (commaAfter_isComma children) here,
        ih (fun other member => read other (List.mem_cons_of_mem _ member)) behind,
        List.append_assoc, List.singleton_append]

/-- So are elements. -/
theorem elements_read (read : ∀ child ∈ children, ElementRead child) {level : ℕ}
    {lines : List (List Byte)} (done : appendElements level children = .ok lines)
    (rest : List Byte) (acc : List JElement) (ok : Bool) :
    arrayFrom (lexFrom (.start 0) (joined lines ++ rest)) acc ok =
      arrayFrom (lexFrom (.start 0) rest) (acc ++ children) ok := by
  induction children generalizing lines acc with
  | nil =>
      unfold appendElements at done
      cases done
      rw [List.append_nil]
      rfl
  | cons child children ih =>
      unfold appendElements at done
      obtain ⟨first, here, done⟩ := bind_eq_ok.mp done
      obtain ⟨others, behind, done⟩ := bind_eq_ok.mp done
      cases done
      rw [joined_append, List.append_assoc,
        read child List.mem_cons_self _ _ _ (commaAfter_isComma children) here,
        ih (fun other member => read other (List.mem_cons_of_mem _ member)) behind,
        List.append_assoc, List.singleton_append]

/-! ## Scalars -/

/-- A string, a number or a literal as it is printed. -/
def scalarText (tp : Byte) (value : List Byte) : List Byte :=
  if tp = tpString then 34 :: (value ++ [34]) else value

/-- The types of the elements without children. -/
def IsScalar (tp : Byte) : Prop := tp = tpString ∨ tp = tpNumber ∨ tp = tpBool

/-- A line that was printed behind its indentation. -/
theorem joined_line {level : ℕ} {text : List Byte} {lines : List (List Byte)}
    (done : (tab level >>= fun indent => printed (indent ++ text) >>= fun line =>
      Except.ok [line]) = .ok lines) :
    joined lines = List.replicate level 9 ++ (text ++ [10]) := by
  obtain ⟨indent, tabbed, written⟩ := bind_eq_ok.mp done
  obtain ⟨line, made, ended⟩ := bind_eq_ok.mp written
  cases ended
  rw [printed_eq_ok made, tab_eq_ok tabbed, joined_singleton, List.append_assoc]

/-- A member with a plain value is one line. -/
theorem appendMember_scalar {tp : Byte} (scalar : IsScalar tp) {level : ℕ} {comma : Byte}
    {name value : List Byte} {below : List JElement} {lines : List (List Byte)}
    (done : appendMember level comma ⟨some name, tp, some value, below⟩ = .ok lines) :
    joined lines = List.replicate level 9 ++
      (nameText name ++ (scalarText tp value ++ [comma, 10])) := by
  unfold appendMember at done
  simp only [textOf, ok_bind] at done
  unfold scalarText
  split_ifs at done ⊢ with string other
  · rw [joined_line done]
    simp only [List.append_assoc, List.cons_append, List.nil_append]
  · rw [joined_line done]
    simp only [List.append_assoc, List.cons_append, List.nil_append]
  · exact absurd scalar (not_or.mpr ⟨string, other⟩)
  · exact absurd scalar (not_or.mpr ⟨string, other⟩)

/-- So is an element with a plain value. -/
theorem appendElement_scalar {tp : Byte} (scalar : IsScalar tp) {level : ℕ} {comma : Byte}
    {value : List Byte} {below : List JElement} {lines : List (List Byte)}
    (done : appendElement level comma ⟨none, tp, some value, below⟩ = .ok lines) :
    joined lines = List.replicate level 9 ++ (scalarText tp value ++ [comma, 10]) := by
  have notObject : tp ≠ tpObject := by
    rcases scalar with rfl | rfl | rfl <;> decide
  unfold appendElement at done
  simp only [textOf, ok_bind, if_neg notObject] at done
  unfold scalarText
  split_ifs at done ⊢ with string other
  · rw [joined_line done]
    simp only [List.append_assoc, List.cons_append, List.nil_append]
  · rw [joined_line done]
    simp only [List.append_assoc, List.cons_append, List.nil_append]

/-- A string or a number that `lex` can deliver is read as it stands. -/
theorem lexFrom_scalar {inObject : Bool} {element : JElement} {value : List Byte}
    (form : Form inObject element) (valued : element.value = some value)
    (literal : element.tp ≠ tpBool) (possible : Token.Possible ⟨element.tp, value⟩)
    {comma : Byte} (known : IsComma comma) (rest : List Byte) :
    lexFrom (.start 0) (scalarText element.tp value ++ comma :: rest) =
      ⟨element.tp, value⟩ :: lexFrom (.start 0) (comma :: rest) := by
  cases form with
  | string escaped =>
      cases valued
      unfold scalarText
      rw [if_pos rfl, List.cons_append, List.append_assoc]
      exact lexFrom_string escaped (possible.string rfl) _
  | number number =>
      cases valued
      obtain ⟨first, digits, rfl, digit⟩ := possible.number rfl
      unfold scalarText
      rw [if_neg (show ¬ tpNumber = tpString by decide), List.cons_append]
      exact lexFrom_number digit
        (fun ch member => number.digits ch (List.mem_cons_of_mem _ member))
        (not_digit_of_isComma known) rest
  | bool _ => exact absurd rfl literal
  | array => cases valued
  | object => cases valued

/-- What has a value has one of the three plain types. -/
theorem isScalar_of_value {inObject : Bool} {element : JElement} {value : List Byte}
    (form : Form inObject element) (valued : element.value = some value) :
    IsScalar element.tp ∧ element.children = [] := by
  cases form with
  | string _ => exact ⟨.inl rfl, rfl⟩
  | number _ => exact ⟨.inr (.inl rfl), rfl⟩
  | bool _ => exact ⟨.inr (.inr rfl), rfl⟩
  | array => cases valued
  | object => cases valued

/-- A member with a plain value that reads back is read back. -/
theorem memberRead_scalar {element : JElement} {name value : List Byte}
    (formed : WellFormed true element) (back : ReadsBack true element)
    (named : element.name = some name) (valued : element.value = some value) :
    MemberRead element := by
  intro level comma lines known done rest acc ok
  obtain ⟨escapedName, same, escaped⟩ := formed.name
  obtain rfl := Option.some.inj (named.symm.trans same)
  obtain ⟨plainName, closed⟩ := back.readable.name rfl name named
  obtain ⟨possible, plainValue⟩ := back.readable.value value valued
  obtain ⟨scalar, childless⟩ := isScalar_of_value formed.form valued
  have read := fun rest => lexFrom_scalar formed.form valued back.literal possible known rest
  obtain ⟨elementName, tp, elementValue, below⟩ := element
  cases named
  cases valued
  cases childless
  rw [appendMember_scalar scalar done]
  simp only [List.append_assoc, List.cons_append, List.nil_append]
  rw [lexFrom_indent, lexFrom_nameText escaped closed, read, objectFrom_member plainName,
    memberFrom_value plainValue, objectFrom_behind known]
  simp only [decide_true, Bool.and_true]

/-- So is an element with a plain value. -/
theorem elementRead_scalar {element : JElement} {value : List Byte}
    (formed : WellFormed false element) (back : ReadsBack false element)
    (valued : element.value = some value) : ElementRead element := by
  intro level comma lines known done rest acc ok
  have named : element.name = none := formed.name
  obtain ⟨possible, plainValue⟩ := back.readable.value value valued
  obtain ⟨scalar, childless⟩ := isScalar_of_value formed.form valued
  have read := fun rest => lexFrom_scalar formed.form valued back.literal possible known rest
  obtain ⟨elementName, tp, elementValue, below⟩ := element
  cases named
  cases valued
  cases childless
  rw [appendElement_scalar scalar done]
  simp only [List.append_assoc, List.cons_append, List.nil_append]
  rw [lexFrom_indent, read, arrayFrom_value plainValue, arrayFrom_behind known]

/-! ## Arrays and objects -/

/-- A member with an array is read back when its elements are. -/
theorem memberRead_array {name : List Byte} (escaped : EscapedBody name)
    (plain : leavesObject (Token.first ⟨tokString, name⟩) = false)
    (closed : name.getLast? ≠ some 92) (read : ∀ child ∈ children, ElementRead child) :
    MemberRead ⟨some name, tpArray, none, children⟩ := by
  intro level comma lines known done rest acc ok
  obtain ⟨inner, between, text⟩ := bracketed_eq_ok (show
    bracketed 91 93 level (some name) comma (appendElements (level + 1) children) = .ok lines
    from done)
  rw [text]
  unfold openingText
  simp only [List.append_assoc, List.cons_append, List.nil_append]
  rw [lexFrom_indent, lexFrom_nameText escaped closed, lexFrom_symbol (by decide),
    lexFrom_newline, objectFrom_member plain, memberFrom_array rfl, elements_read read between,
    lexFrom_indent, lexFrom_symbol (by decide), arrayFrom_close rfl, ok_bind,
    objectFrom_behind known]
  simp only [decide_true, Bool.and_true, List.nil_append]

/-- A member with an object is read back when its members are. -/
theorem memberRead_object {name : List Byte} (escaped : EscapedBody name)
    (plain : leavesObject (Token.first ⟨tokString, name⟩) = false)
    (closed : name.getLast? ≠ some 92) (read : ∀ child ∈ children, MemberRead child) :
    MemberRead ⟨some name, tpObject, none, children⟩ := by
  intro level comma lines known done rest acc ok
  obtain ⟨inner, between, text⟩ := bracketed_eq_ok (show
    bracketed 123 125 level (some name) comma (appendMembers (level + 1) children) = .ok lines
    from done)
  rw [text]
  unfold openingText
  simp only [List.append_assoc, List.cons_append, List.nil_append]
  rw [lexFrom_indent, lexFrom_nameText escaped closed, lexFrom_symbol (by decide),
    lexFrom_newline, objectFrom_member plain, memberFrom_object rfl,
    members_read read between, lexFrom_indent, lexFrom_symbol (by decide), objectFrom_close rfl,
    ok_bind, objectFrom_behind known]
  simp only [decide_true, Bool.and_true, List.nil_append]

/-- An object in an array is read back when its members are. -/
theorem elementRead_object (read : ∀ child ∈ children, MemberRead child) :
    ElementRead ⟨none, tpObject, none, children⟩ := by
  intro level comma lines known done rest acc ok
  obtain ⟨inner, between, text⟩ := bracketed_eq_ok (show
    bracketed 123 125 (level + 1) none comma (appendMembers (level + 2) children) = .ok lines
    from done)
  rw [text]
  unfold openingText
  simp only [List.append_assoc, List.cons_append, List.nil_append]
  rw [lexFrom_indent, lexFrom_symbol (by decide), lexFrom_newline, arrayFrom_object rfl,
    members_read read between, lexFrom_indent, lexFrom_symbol (by decide), objectFrom_close rfl,
    ok_bind, arrayFrom_behind known, List.nil_append]

/-- A child in its place is read back. -/
def ChildRead (inObject : Bool) (child : JElement) : Prop :=
  if inObject then MemberRead child else ElementRead child

/-- The condition is enough. -/
theorem childRead {inObject : Bool} {child : JElement}
    (formed : Throughout WellFormed inObject child)
    (back : Throughout ReadsBack inObject child) : ChildRead inObject child := by
  induction formed with
  | @intro inObject child here _ ih =>
      have below : ∀ other ∈ child.children, ChildRead (child.tp = tpObject) other :=
        fun other member => ih other member (back.children other member)
      have self := back.here
      cases inObject with
      | true =>
          obtain ⟨name, named, escaped⟩ := here.name
          obtain ⟨plain, closed⟩ := self.readable.name rfl name named
          cases valued : child.value with
          | some value => exact memberRead_scalar here self named valued
          | none =>
              obtain ⟨elementName, tp, elementValue, children⟩ := child
              cases named
              cases here.form with
              | array => exact memberRead_array escaped plain closed below
              | object => exact memberRead_object escaped plain closed below
              | string _ => cases valued
              | number _ => cases valued
              | bool _ => cases valued
      | false =>
          have named : child.name = none := here.name
          cases valued : child.value with
          | some value => exact elementRead_scalar here self valued
          | none =>
              obtain ⟨elementName, tp, elementValue, children⟩ := child
              cases named
              cases here.form with
              | object => exact elementRead_object below
              | string _ => cases valued
              | number _ => cases valued
              | bool _ => cases valued

/-! ## Literals

A literal is read as the other one, and what comes behind it may be read as anything. The
child in its place is then not the one that was printed, and no later token changes that.
-/

/-- Whatever is read from a child of an object on, the child is not among the members. -/
def MemberBroken (child : JElement) : Prop :=
  ∀ (level : ℕ) (comma : Byte) (lines : List (List Byte)), IsComma comma →
    appendMember level comma child = .ok lines →
    ∀ (rest : List Byte) (acc : List JElement) (ok : Bool) (parsed : Parsed),
      objectFrom (lexFrom (.start 0) (joined lines ++ rest)) acc ok = .ok parsed →
      parsed.2.2 = true → ¬ acc ++ [child] <+: parsed.2.1

/-- Whatever is read from a child of an array on, the child is not among the elements. -/
def ElementBroken (child : JElement) : Prop :=
  ∀ (level : ℕ) (comma : Byte) (lines : List (List Byte)), IsComma comma →
    appendElement level comma child = .ok lines →
    ∀ (rest : List Byte) (acc : List JElement) (ok : Bool) (parsed : Parsed),
      arrayFrom (lexFrom (.start 0) (joined lines ++ rest)) acc ok = .ok parsed →
      parsed.2.2 = true → ¬ acc ++ [child] <+: parsed.2.1

/-- The children read do not begin with a child when another one was read in its place. -/
theorem Appended.misses {inObject : Bool} {child other : JElement}
    (appended : Appended inObject tokens (acc ++ [other]) ok parsed) (different : other ≠ child) :
    ¬ acc ++ [child] <+: parsed.2.1 := by
  obtain ⟨more, appends, -⟩ := appended.children
  rw [appends, List.append_assoc, List.prefix_append_right_inj, List.singleton_append,
    List.cons_prefix_cons]
  exact fun same => different same.1.symm

/-- Nor with a longer list that begins with it. -/
theorem misses_longer {child : JElement} {found : List JElement}
    (broken : ¬ acc ++ [child] <+: found) (rest : List JElement) :
    ¬ acc ++ child :: rest <+: found := by
  intro whole
  refine broken (List.IsPrefix.trans ?_ whole)
  rw [List.prefix_append_right_inj, List.cons_prefix_cons]
  exact ⟨rfl, List.nil_prefix⟩

/-- One member that is not read back spoils the object. -/
theorem members_broken
    (each : ∀ child ∈ children, (Throughout ReadsBack true child → MemberRead child) ∧
      (¬ Throughout ReadsBack true child → MemberBroken child))
    (some : ∃ child ∈ children, ¬ Throughout ReadsBack true child) {level : ℕ}
    {lines : List (List Byte)} (done : appendMembers level children = .ok lines)
    {rest : List Byte}
    (ended : objectFrom (lexFrom (.start 0) (joined lines ++ rest)) acc ok = .ok parsed)
    (fine : parsed.2.2 = true) : ¬ acc ++ children <+: parsed.2.1 := by
  induction children generalizing lines acc with
  | nil =>
      obtain ⟨_, member, _⟩ := some
      cases member
  | cons child children ih =>
      unfold appendMembers at done
      obtain ⟨first, here, done⟩ := bind_eq_ok.mp done
      obtain ⟨others, behind, done⟩ := bind_eq_ok.mp done
      cases done
      rw [joined_append, List.append_assoc] at ended
      have known := commaAfter_isComma children
      by_cases back : Throughout ReadsBack true child
      · rw [(each child List.mem_cons_self).1 back _ _ _ known here] at ended
        obtain ⟨other, member, wrong⟩ := some
        have later : other ∈ children := by
          rcases List.mem_cons.mp member with rfl | later
          · exact absurd back wrong
          · exact later
        rw [show acc ++ child :: children = (acc ++ [child]) ++ children by
          rw [List.append_assoc, List.singleton_append]]
        exact ih (fun other member => each other (List.mem_cons_of_mem _ member))
          ⟨other, later, wrong⟩ behind ended
      · exact misses_longer
          ((each child List.mem_cons_self).2 back _ _ _ known here _ _ _ _ ended fine) children

/-- One element that is not read back spoils the array. -/
theorem elements_broken
    (each : ∀ child ∈ children, (Throughout ReadsBack false child → ElementRead child) ∧
      (¬ Throughout ReadsBack false child → ElementBroken child))
    (some : ∃ child ∈ children, ¬ Throughout ReadsBack false child) {level : ℕ}
    {lines : List (List Byte)} (done : appendElements level children = .ok lines)
    {rest : List Byte}
    (ended : arrayFrom (lexFrom (.start 0) (joined lines ++ rest)) acc ok = .ok parsed)
    (fine : parsed.2.2 = true) : ¬ acc ++ children <+: parsed.2.1 := by
  induction children generalizing lines acc with
  | nil =>
      obtain ⟨_, member, _⟩ := some
      cases member
  | cons child children ih =>
      unfold appendElements at done
      obtain ⟨first, here, done⟩ := bind_eq_ok.mp done
      obtain ⟨others, behind, done⟩ := bind_eq_ok.mp done
      cases done
      rw [joined_append, List.append_assoc] at ended
      have known := commaAfter_isComma children
      by_cases back : Throughout ReadsBack false child
      · rw [(each child List.mem_cons_self).1 back _ _ _ known here] at ended
        obtain ⟨other, member, wrong⟩ := some
        have later : other ∈ children := by
          rcases List.mem_cons.mp member with rfl | later
          · exact absurd back wrong
          · exact later
        rw [show acc ++ child :: children = (acc ++ [child]) ++ children by
          rw [List.append_assoc, List.singleton_append]]
        exact ih (fun other member => each other (List.mem_cons_of_mem _ member))
          ⟨other, later, wrong⟩ behind ended
      · exact misses_longer
          ((each child List.mem_cons_self).2 back _ _ _ known here _ _ _ _ ended fine) children

/-- A literal in a member is not read back. -/
theorem memberBroken_literal {name value : List Byte} {below : List JElement}
    (escaped : EscapedBody name)
    (plain : leavesObject (Token.first ⟨tokString, name⟩) = false)
    (closed : name.getLast? ≠ some 92) (literal : value = ascii "true" ∨ value = ascii "false") :
    MemberBroken ⟨some name, tpBool, some value, below⟩ := by
  intro level comma lines known done rest acc ok parsed ended fine
  rw [appendMember_scalar (.inr (.inr rfl)) done] at ended
  unfold scalarText at ended
  rw [if_neg (by decide)] at ended
  simp only [List.append_assoc] at ended
  obtain ⟨other, tokens, different, plainValue, -, read⟩ :=
    lexFrom_literal literal ([comma, 10] ++ rest)
  rw [lexFrom_indent, lexFrom_nameText escaped closed, read, objectFrom_member plain,
    memberFrom_value plainValue] at ended
  refine (objectFrom_appended ended).misses fun same => different ?_
  injection same with _ _ valued _
  exact Option.some.inj valued

/-- Nor is one in an array. -/
theorem elementBroken_literal {value : List Byte} {below : List JElement}
    (literal : value = ascii "true" ∨ value = ascii "false") :
    ElementBroken ⟨none, tpBool, some value, below⟩ := by
  intro level comma lines known done rest acc ok parsed ended fine
  rw [appendElement_scalar (.inr (.inr rfl)) done] at ended
  unfold scalarText at ended
  rw [if_neg (by decide)] at ended
  simp only [List.append_assoc] at ended
  obtain ⟨other, tokens, different, -, plainValue, read⟩ :=
    lexFrom_literal literal ([comma, 10] ++ rest)
  rw [lexFrom_indent, read, arrayFrom_value plainValue] at ended
  refine (arrayFrom_appended ended).misses fun same => different ?_
  injection same with _ _ valued _
  exact Option.some.inj valued

/-- A member with an array is spoilt by one of its elements. -/
theorem memberBroken_array {name : List Byte} (escaped : EscapedBody name)
    (plain : leavesObject (Token.first ⟨tokString, name⟩) = false)
    (closed : name.getLast? ≠ some 92)
    (each : ∀ child ∈ children, (Throughout ReadsBack false child → ElementRead child) ∧
      (¬ Throughout ReadsBack false child → ElementBroken child))
    (broken : ∃ child ∈ children, ¬ Throughout ReadsBack false child) :
    MemberBroken ⟨some name, tpArray, none, children⟩ := by
  intro level comma lines known done rest acc ok parsed ended fine
  obtain ⟨inner, between, text⟩ := bracketed_eq_ok (show
    bracketed 91 93 level (some name) comma (appendElements (level + 1) children) = .ok lines
    from done)
  rw [text] at ended
  unfold openingText at ended
  simp only [List.append_assoc, List.cons_append, List.nil_append] at ended
  rw [lexFrom_indent, lexFrom_nameText escaped closed, lexFrom_symbol (by decide),
    lexFrom_newline, objectFrom_member plain, memberFrom_array rfl] at ended
  obtain ⟨found, opened, later⟩ := bind_eq_ok.mp ended
  have appended := objectFrom_appended later
  have missing := elements_broken each broken between opened (appended.noted fine)
  refine appended.misses fun same => missing ?_
  injection same with _ _ _ below
  rw [List.nil_append, below]

/-- A member with an object is spoilt by one of its members. -/
theorem memberBroken_object {name : List Byte} (escaped : EscapedBody name)
    (plain : leavesObject (Token.first ⟨tokString, name⟩) = false)
    (closed : name.getLast? ≠ some 92)
    (each : ∀ child ∈ children, (Throughout ReadsBack true child → MemberRead child) ∧
      (¬ Throughout ReadsBack true child → MemberBroken child))
    (broken : ∃ child ∈ children, ¬ Throughout ReadsBack true child) :
    MemberBroken ⟨some name, tpObject, none, children⟩ := by
  intro level comma lines known done rest acc ok parsed ended fine
  obtain ⟨inner, between, text⟩ := bracketed_eq_ok (show
    bracketed 123 125 level (some name) comma (appendMembers (level + 1) children) = .ok lines
    from done)
  rw [text] at ended
  unfold openingText at ended
  simp only [List.append_assoc, List.cons_append, List.nil_append] at ended
  rw [lexFrom_indent, lexFrom_nameText escaped closed, lexFrom_symbol (by decide),
    lexFrom_newline, objectFrom_member plain, memberFrom_object rfl] at ended
  obtain ⟨found, opened, later⟩ := bind_eq_ok.mp ended
  have appended := objectFrom_appended later
  have missing := members_broken each broken between opened (appended.noted fine)
  refine appended.misses fun same => missing ?_
  injection same with _ _ _ below
  rw [List.nil_append, below]

/-- An object in an array is spoilt by one of its members. -/
theorem elementBroken_object
    (each : ∀ child ∈ children, (Throughout ReadsBack true child → MemberRead child) ∧
      (¬ Throughout ReadsBack true child → MemberBroken child))
    (broken : ∃ child ∈ children, ¬ Throughout ReadsBack true child) :
    ElementBroken ⟨none, tpObject, none, children⟩ := by
  intro level comma lines known done rest acc ok parsed ended fine
  obtain ⟨inner, between, text⟩ := bracketed_eq_ok (show
    bracketed 123 125 (level + 1) none comma (appendMembers (level + 2) children) = .ok lines
    from done)
  rw [text] at ended
  unfold openingText at ended
  simp only [List.append_assoc, List.cons_append, List.nil_append] at ended
  rw [lexFrom_indent, lexFrom_symbol (by decide), lexFrom_newline, arrayFrom_object rfl] at ended
  obtain ⟨found, opened, later⟩ := bind_eq_ok.mp ended
  have appended := arrayFrom_appended later
  have missing := members_broken each broken between opened (appended.noted fine)
  refine appended.misses fun same => missing ?_
  injection same with _ _ _ below
  rw [List.nil_append, below]

/-- A child in its place is lost. -/
def ChildBroken (inObject : Bool) (child : JElement) : Prop :=
  if inObject then MemberBroken child else ElementBroken child

/-- What can be read but does not read back has a child that does not. -/
theorem exists_not_readsBack {inObject : Bool} {element : JElement}
    (literal : element.tp ≠ tpBool) (readable : Readable inObject element)
    (wrong : ¬ Throughout ReadsBack inObject element) :
    ∃ child ∈ element.children, ¬ Throughout ReadsBack (element.tp = tpObject) child := by
  by_contra none
  simp only [not_exists, not_and, not_not] at none
  exact wrong (.intro ⟨literal, readable⟩ none)

/-- A child that does not read back is not read back. -/
theorem childBroken {inObject : Bool} {child : JElement}
    (formed : Throughout WellFormed inObject child)
    (readable : Throughout Readable inObject child)
    (wrong : ¬ Throughout ReadsBack inObject child) : ChildBroken inObject child := by
  induction formed with
  | @intro inObject child here below ih =>
      have each : ∀ other ∈ child.children,
          (Throughout ReadsBack (child.tp = tpObject) other →
            ChildRead (child.tp = tpObject) other) ∧
          (¬ Throughout ReadsBack (child.tp = tpObject) other →
            ChildBroken (child.tp = tpObject) other) := fun other member =>
        ⟨childRead (below other member), ih other member (readable.children other member)⟩
      have lost : child.tp ≠ tpBool → ∃ other ∈ child.children,
          ¬ Throughout ReadsBack (child.tp = tpObject) other :=
        fun literal => exists_not_readsBack literal readable.here wrong
      cases inObject with
      | true =>
          obtain ⟨name, named, escaped⟩ := here.name
          obtain ⟨plain, closed⟩ := readable.here.name rfl name named
          obtain ⟨elementName, tp, elementValue, children⟩ := child
          cases named
          cases here.form with
          | array =>
              exact
              memberBroken_array escaped plain closed each
                (lost (show ¬ tpArray = tpBool by decide))
          | object =>
              exact
              memberBroken_object escaped plain closed each
                (lost (show ¬ tpObject = tpBool by decide))
          | bool literal => exact memberBroken_literal escaped plain closed literal
          | string _ =>
              obtain ⟨_, member, _⟩ := lost (show ¬ tpString = tpBool by decide)
              cases member
          | number _ =>
              obtain ⟨_, member, _⟩ := lost (show ¬ tpNumber = tpBool by decide)
              cases member
      | false =>
          have named : child.name = none := here.name
          obtain ⟨elementName, tp, elementValue, children⟩ := child
          cases named
          cases here.form with
          | object =>
              exact elementBroken_object each (lost (show ¬ tpObject = tpBool by decide))
          | bool literal => exact elementBroken_literal literal
          | string _ =>
              obtain ⟨_, member, _⟩ := lost (show ¬ tpString = tpBool by decide)
              cases member
          | number _ =>
              obtain ⟨_, member, _⟩ := lost (show ¬ tpNumber = tpBool by decide)
              cases member

/-! ## The whole text -/

/-- No NUL is printed for a child in its place. -/
def ChildClean (inObject : Bool) (child : JElement) : Prop :=
  ∀ (level : ℕ) (comma : Byte) (lines : List (List Byte)), IsComma comma →
    (if inObject then appendMember level comma child else appendElement level comma child) =
      .ok lines → 0 ∉ joined lines

/-- The indentation has no zero byte. -/
theorem zero_notMem_replicate (level : ℕ) : (0 : Byte) ∉ List.replicate level (9 : Byte) :=
  fun member => absurd (List.eq_of_mem_replicate member) (by decide)

/-- A name has no zero byte. -/
theorem zero_notMem_nameText {name : List Byte} (escaped : EscapedBody name) :
    0 ∉ nameText name := by
  have clean := escaped.clean
  unfold nameText
  simp only [List.mem_cons, List.mem_append, List.not_mem_nil, or_false, not_or]
  exact ⟨by decide, clean, by decide, by decide, by decide⟩

/-- What stands behind a child is no zero byte. -/
theorem IsComma.nonzero {comma : Byte} (known : IsComma comma) : (0 : Byte) ≠ comma := by
  rcases known with rfl | rfl <;> decide

/-- A plain value has no zero byte. -/
theorem zero_notMem_scalarText {inObject : Bool} {element : JElement} {value : List Byte}
    (form : Form inObject element) (valued : element.value = some value) :
    0 ∉ scalarText element.tp value := by
  unfold scalarText
  cases form with
  | string escaped =>
      cases valued
      have clean := escaped.clean
      simp only [↓reduceIte, List.mem_cons, List.mem_append, List.not_mem_nil, or_false, not_or]
      exact ⟨by decide, clean, by decide⟩
  | number number =>
      cases valued
      rw [if_neg (show ¬ tpNumber = tpString by decide)]
      exact fun member => absurd (number.digits 0 member) (by decide)
  | bool literal =>
      cases valued
      rw [if_neg (show ¬ tpBool = tpString by decide)]
      rcases literal with rfl | rfl <;> decide
  | array => cases valued
  | object => cases valued

/-- What stands in brackets has none when the lines between them have none. -/
theorem bracketed_clean {opening closing comma : Byte} {level : ℕ} {name : Option (List Byte)}
    {inner : Except Stop (List (List Byte))} {lines : List (List Byte)}
    (brackets : (0 : Byte) ≠ opening ∧ (0 : Byte) ≠ closing) (known : IsComma comma)
    (named : ∀ text, name = some text → EscapedBody text)
    (below : ∀ found, inner = .ok found → 0 ∉ joined found)
    (done : bracketed opening closing level name comma inner = .ok lines) :
    0 ∉ joined lines := by
  obtain ⟨found, between, text⟩ := bracketed_eq_ok done
  have opened : 0 ∉ openingText name opening := by
    unfold openingText
    cases name with
    | none =>
        simp only [List.mem_singleton]
        exact brackets.1
    | some name =>
        simp only [List.mem_append, List.mem_singleton, not_or]
        exact ⟨zero_notMem_nameText (named name rfl), brackets.1⟩
  rw [text]
  simp only [List.mem_append, List.mem_cons, List.not_mem_nil, or_false, not_or]
  exact ⟨zero_notMem_replicate level, opened, by decide, below found between,
    zero_notMem_replicate level, brackets.2, known.nonzero, by decide⟩

/-- The lines of members have no zero byte. -/
theorem members_clean (each : ∀ child ∈ children, ChildClean true child) {level : ℕ}
    {lines : List (List Byte)} (done : appendMembers level children = .ok lines) :
    0 ∉ joined lines := by
  induction children generalizing lines with
  | nil =>
      unfold appendMembers at done
      cases done
      exact List.not_mem_nil
  | cons child children ih =>
      unfold appendMembers at done
      obtain ⟨first, here, done⟩ := bind_eq_ok.mp done
      obtain ⟨others, behind, done⟩ := bind_eq_ok.mp done
      cases done
      rw [joined_append, List.mem_append, not_or]
      exact ⟨each child List.mem_cons_self _ _ _ (commaAfter_isComma children) here,
        ih (fun other member => each other (List.mem_cons_of_mem _ member)) behind⟩

/-- The lines of elements have no zero byte. -/
theorem elements_clean (each : ∀ child ∈ children, ChildClean false child) {level : ℕ}
    {lines : List (List Byte)} (done : appendElements level children = .ok lines) :
    0 ∉ joined lines := by
  induction children generalizing lines with
  | nil =>
      unfold appendElements at done
      cases done
      exact List.not_mem_nil
  | cons child children ih =>
      unfold appendElements at done
      obtain ⟨first, here, done⟩ := bind_eq_ok.mp done
      obtain ⟨others, behind, done⟩ := bind_eq_ok.mp done
      cases done
      rw [joined_append, List.mem_append, not_or]
      exact ⟨each child List.mem_cons_self _ _ _ (commaAfter_isComma children) here,
        ih (fun other member => each other (List.mem_cons_of_mem _ member)) behind⟩

/-- The lines of any child of a tree have no zero byte. -/
theorem childClean {inObject : Bool} {child : JElement}
    (formed : Throughout WellFormed inObject child) : ChildClean inObject child := by
  induction formed with
  | @intro inObject child here _ ih =>
      intro level comma lines known done
      cases inObject with
      | true =>
          obtain ⟨name, named, escaped⟩ := here.name
          have texts : ∀ text, some name = some text → EscapedBody text := by
            rintro _ ⟨⟩
            exact escaped
          cases valued : child.value with
          | some value =>
              have clean := zero_notMem_scalarText here.form valued
              have scalar := (isScalar_of_value here.form valued).1
              obtain ⟨elementName, tp, elementValue, children⟩ := child
              cases named
              cases valued
              rw [appendMember_scalar scalar done]
              simp only [List.mem_append, List.mem_cons, List.not_mem_nil, or_false, not_or]
              exact ⟨zero_notMem_replicate level, zero_notMem_nameText escaped, clean,
                known.nonzero, by decide⟩
          | none =>
              obtain ⟨elementName, tp, elementValue, children⟩ := child
              cases named
              cases here.form with
              | array =>
                  exact bracketed_clean (by decide) known texts
                    (fun _ between => elements_clean ih between) done
              | object =>
                  exact bracketed_clean (by decide) known texts
                    (fun _ between => members_clean ih between) done
              | string _ => cases valued
              | number _ => cases valued
              | bool _ => cases valued
      | false =>
          have named : child.name = none := here.name
          cases valued : child.value with
          | some value =>
              have clean := zero_notMem_scalarText here.form valued
              have scalar := (isScalar_of_value here.form valued).1
              obtain ⟨elementName, tp, elementValue, children⟩ := child
              cases named
              cases valued
              rw [appendElement_scalar scalar done]
              simp only [List.mem_append, List.mem_cons, List.not_mem_nil, or_false, not_or]
              exact ⟨zero_notMem_replicate level, clean, known.nonzero, by decide⟩
          | none =>
              obtain ⟨elementName, tp, elementValue, children⟩ := child
              cases named
              cases here.form with
              | object =>
                  exact bracketed_clean (by decide) known (fun _ named => by cases named)
                    (fun _ between => members_clean ih between) done
              | string _ => cases valued
              | number _ => cases valued
              | bool _ => cases valued

/-- A text that begins with a square bracket is parsed as an array. -/
theorem parse_array {text : List Byte} (clean : 0 ∉ text) :
    parse (91 :: text) = (do
      let parsed ← arrayFrom (lexFrom (.start 0) text) [] true
      .ok (parsed.2.2, ⟨none, tpArray, none, parsed.2.1⟩)) := by
  unfold parse
  rw [lex_symbol (by decide) clean]
  rfl

/-- A text that begins with a brace is parsed as an object. -/
theorem parse_object {text : List Byte} (clean : 0 ∉ text) :
    parse (123 :: text) = (do
      let parsed ← objectFrom (lexFrom (.start 0) text) [] true
      .ok (parsed.2.2, ⟨none, tpObject, none, parsed.2.1⟩)) := by
  unfold parse
  rw [lex_symbol (by decide) clean]
  rfl

/-- The text of an array: a bracket, its elements, and a bracket. -/
theorem tostring_array (formed : ∀ child ∈ children, Throughout WellFormed false child)
    {text : List Byte} (printed : tostring ⟨none, tpArray, none, children⟩ = .ok text) :
    ∃ inner, appendElements 1 children = .ok inner ∧
      text = 91 :: 10 :: (joined inner ++ [93, 32, 10]) ∧
        0 ∉ 10 :: (joined inner ++ [93, 32, 10]) := by
  unfold tostring at printed
  obtain ⟨lines, made, ended⟩ := bind_eq_ok.mp printed
  cases ended
  obtain ⟨inner, between, text⟩ := bracketed_eq_ok (show
    bracketed 91 93 0 none 32 (appendElements 1 children) = .ok lines from made)
  refine ⟨inner, between, text, ?_⟩
  have clean := elements_clean (fun child member => childClean (formed child member)) between
  simp only [List.mem_append, List.mem_cons, List.not_mem_nil, or_false, not_or]
  exact ⟨by decide, clean, by decide, by decide, by decide⟩

/-- The text of an object: a brace, its members, and a brace. -/
theorem tostring_object (formed : ∀ child ∈ children, Throughout WellFormed true child)
    {text : List Byte} (printed : tostring ⟨none, tpObject, none, children⟩ = .ok text) :
    ∃ inner, appendMembers 1 children = .ok inner ∧
      text = 123 :: 10 :: (joined inner ++ [125, 32, 10]) ∧
        0 ∉ 10 :: (joined inner ++ [125, 32, 10]) := by
  unfold tostring at printed
  obtain ⟨lines, made, ended⟩ := bind_eq_ok.mp printed
  cases ended
  obtain ⟨inner, between, text⟩ := bracketed_eq_ok (show
    bracketed 123 125 0 none 32 (appendMembers 1 children) = .ok lines from made)
  refine ⟨inner, between, text, ?_⟩
  have clean := members_clean (fun child member => childClean (formed child member)) between
  simp only [List.mem_append, List.mem_cons, List.not_mem_nil, or_false, not_or]
  exact ⟨by decide, clean, by decide, by decide, by decide⟩

/-- A printed tree is parsed back to itself exactly when it has no literal, and no name, no
string and no number that the lexer or the parser takes for something else. -/
theorem json_roundtrip_iff {root : JElement} (document : Document root) {text : List Byte}
    (printed : tostring root = .ok text) :
    parse text = .ok (true, root) ↔
      ∀ child ∈ root.children, Throughout ReadsBack (root.tp = tpObject) child := by
  obtain ⟨name, tp, value, children⟩ := root
  obtain ⟨named, valued, kind, formed⟩ := document
  cases named
  cases valued
  simp only at kind formed ⊢
  constructor
  · intro parsed
    have readable := parse_readable parsed
    by_contra wrong
    simp only [not_forall] at wrong
    obtain ⟨bad, member, broken⟩ := wrong
    rcases kind with rfl | rfl
    · obtain ⟨inner, between, rfl, clean⟩ := tostring_array formed printed
      rw [parse_array clean, lexFrom_newline] at parsed
      obtain ⟨found, opened, ended⟩ := bind_eq_ok.mp parsed
      rw [Except.ok.injEq, Prod.mk.injEq, JElement.mk.injEq] at ended
      refine elements_broken (fun child member => ⟨childRead (formed child member),
        childBroken (formed child member) (readable child member)⟩) ⟨bad, member, broken⟩
        between opened ended.1 ?_
      rw [ended.2.2.2.2, List.nil_append]
    · obtain ⟨inner, between, rfl, clean⟩ := tostring_object formed printed
      rw [parse_object clean, lexFrom_newline] at parsed
      obtain ⟨found, opened, ended⟩ := bind_eq_ok.mp parsed
      rw [Except.ok.injEq, Prod.mk.injEq, JElement.mk.injEq] at ended
      refine members_broken (fun child member => ⟨childRead (formed child member),
        childBroken (formed child member) (readable child member)⟩) ⟨bad, member, broken⟩
        between opened ended.1 ?_
      rw [ended.2.2.2.2, List.nil_append]
  · intro back
    rcases kind with rfl | rfl
    · obtain ⟨inner, between, rfl, clean⟩ := tostring_array formed printed
      rw [parse_array clean, lexFrom_newline, elements_read (fun child member =>
        childRead (formed child member) (back child member)) between,
        lexFrom_symbol (by decide), arrayFrom_close rfl]
      rfl
    · obtain ⟨inner, between, rfl, clean⟩ := tostring_object formed printed
      rw [parse_object clean, lexFrom_newline, members_read (fun child member =>
        childRead (formed child member) (back child member)) between,
        lexFrom_symbol (by decide), objectFrom_close rfl]
      rfl

/-- A text without quotes and backslashes needs no escapes. -/
theorem escapedBody_of_plain {body : List Byte}
    (plain : ∀ ch ∈ body, ch ≠ 0 ∧ ch ≠ 34 ∧ ch ≠ 92) : EscapedBody body := by
  induction body with
  | nil => exact .nil
  | cons ch body ih =>
      obtain ⟨visible, unquoted, unescaped⟩ := plain ch List.mem_cons_self
      exact .plain visible unquoted unescaped
        (ih fun other member => plain other (List.mem_cons_of_mem _ member))

/-- A value that is no tree is read back by what `lex` and its parser make of it. -/
theorem readsBack_leaf {inObject : Bool} {name : Option (List Byte)} {tp : Byte}
    {value : List Byte} (literal : tp ≠ tpBool)
    (named : ∀ text ∈ name, leavesObject (Token.first ⟨tokString, text⟩) = false ∧
      text.getLast? ≠ some 92)
    (possible : Token.Possible ⟨tp, value⟩)
    (valued : leavesArray (Token.first ⟨tp, value⟩) = false ∧
      opensValue (Token.first ⟨tp, value⟩) = false) :
    Throughout ReadsBack inObject ⟨name, tp, some value, []⟩ := by
  refine .intro ⟨literal, fun _ text same => named text same, ?_⟩ nofun
  rintro _ ⟨⟩
  refine ⟨possible, ?_⟩
  cases inObject with
  | true => exact valued.2
  | false => exact valued.1

/-- An array or an object reads back when everything in it does. -/
theorem readsBack_nested {inObject : Bool} {name : Option (List Byte)} {tp : Byte}
    {children : List JElement} (literal : tp ≠ tpBool)
    (named : ∀ text ∈ name, leavesObject (Token.first ⟨tokString, text⟩) = false ∧
      text.getLast? ≠ some 92)
    (below : ∀ child ∈ children, Throughout ReadsBack (tp = tpObject) child) :
    Throughout ReadsBack inObject ⟨name, tp, none, children⟩ :=
  .intro ⟨literal, fun _ text same => named text same, nofun⟩ below

/-- An object with a number, a text with a quote in it, and an array of a number and of an object
whose text has a backslash. -/
def nota : JElement :=
  ⟨none, tpObject, none, [⟨some (ascii "id"), tpNumber, some (ascii "7.5"), []⟩,
    ⟨some (ascii "nome"), tpString, some (ascii "a\\\"b"), []⟩,
    ⟨some (ascii "itens"), tpArray, none, [⟨none, tpNumber, some (ascii "1"), []⟩,
      ⟨none, tpObject, none, [⟨some (ascii "x"), tpString, some (ascii "y\\\\z"), []⟩]⟩]⟩]⟩

/-- It stands for a text. -/
theorem nota_document : Document nota := by
  have named (name : List Byte) (plain : ∀ ch ∈ name, ch ≠ 0 ∧ ch ≠ 34 ∧ ch ≠ 92) :
      ∃ text, some name = some text ∧ EscapedBody text := ⟨name, rfl, escapedBody_of_plain plain⟩
  have letter {ch : Byte} {body : List Byte} (plain : ch ≠ 0 ∧ ch ≠ 34 ∧ ch ≠ 92)
      (rest : EscapedBody body) : EscapedBody (ch :: body) :=
    .plain plain.1 plain.2.1 plain.2.2 rest
  have childless {inObject : Bool} : ∀ child ∈ ([] : List JElement),
      Throughout WellFormed inObject child := fun _ member => absurd member List.not_mem_nil
  have item : Throughout WellFormed false
      ⟨none, tpObject, none, [⟨some (ascii "x"), tpString, some (ascii "y\\\\z"), []⟩]⟩ := by
    refine .intro ⟨rfl, .object⟩ fun child member => ?_
    obtain rfl := List.mem_singleton.mp member
    exact .intro ⟨named _ (by decide +kernel), .string (letter (by decide)
      (.escape (by decide) (letter (by decide) .nil)))⟩ childless
  refine ⟨rfl, rfl, .inr rfl, ?_⟩
  simp only [nota, List.forall_mem_cons, List.not_mem_nil, IsEmpty.forall_iff, implies_true,
    and_true]
  refine ⟨.intro ⟨named _ (by decide +kernel), .number ⟨by decide, by decide +kernel,
      by decide +kernel⟩⟩ childless,
    .intro ⟨named _ (by decide +kernel), .string (letter (by decide)
      (.escape (by decide) (letter (by decide) .nil)))⟩ childless,
    .intro ⟨named _ (by decide +kernel), .array⟩ ?_⟩
  simp only [List.forall_mem_cons, List.not_mem_nil, IsEmpty.forall_iff, implies_true, and_true]
  exact ⟨.intro ⟨rfl, .number ⟨by decide, by decide +kernel, by decide +kernel⟩⟩ childless, item⟩

/-- The nested tree, with its escapes, comes back. -/
theorem json_roundtrip_nested :
    ∃ text, tostring nota = .ok text ∧ parse text = .ok (true, nota) := by
  have named {name : List Byte} (fine : leavesObject (Token.first ⟨tokString, name⟩) = false ∧
      name.getLast? ≠ some 92) : ∀ text ∈ some name,
        leavesObject (Token.first ⟨tokString, text⟩) = false ∧ text.getLast? ≠ some 92 := by
    rintro _ ⟨⟩
    exact fine
  have unnamed : ∀ text ∈ (none : Option (List Byte)),
      leavesObject (Token.first ⟨tokString, text⟩) = false ∧ text.getLast? ≠ some 92 :=
    fun text member => absurd member (Option.not_mem_none text)
  have string {value : List Byte} (closed : value.getLast? ≠ some 92) :
      Token.Possible ⟨tpString, value⟩ :=
    ⟨fun _ => closed, fun wrong => absurd wrong (show ¬ tpString = tokNumber by decide)⟩
  have number {first : Byte} {value : List Byte} (digit : isDigit first) :
      Token.Possible ⟨tpNumber, first :: value⟩ :=
    ⟨fun wrong => absurd wrong (show ¬ tpNumber = tokString by decide),
      fun _ => ⟨first, value, rfl, digit⟩⟩
  cases printed : tostring nota with
  | error stop =>
      have returns : (tostring nota).toOption.isSome := by decide +kernel
      rw [printed] at returns
      cases returns
  | ok text =>
      refine ⟨text, rfl, (json_roundtrip_iff nota_document printed).mpr ?_⟩
      simp only [nota, List.forall_mem_cons, List.not_mem_nil, IsEmpty.forall_iff, implies_true,
        and_true]
      refine ⟨readsBack_leaf (by decide) (named (by decide)) (number (by decide)) (by decide),
        readsBack_leaf (by decide) (named (by decide)) (string (by decide)) (by decide),
        readsBack_nested (by decide) (named (by decide)) ?_⟩
      simp only [List.forall_mem_cons, List.not_mem_nil, IsEmpty.forall_iff, implies_true,
        and_true]
      refine ⟨readsBack_leaf (by decide) unnamed (number (by decide)) (by decide),
        readsBack_nested (by decide) unnamed fun child member => ?_⟩
      obtain rfl := List.mem_singleton.mp member
      exact readsBack_leaf (by decide) (named (by decide)) (string (by decide)) (by decide)

/-- An object with one member, a literal. -/
def switched : JElement :=
  ⟨none, tpObject, none, [⟨some (ascii "on"), tpBool, some (ascii "true"), []⟩]⟩

/-- The literal `true` comes back as `false`. -/
theorem json_roundtrip_switched :
    Document switched ∧ tostring switched = .ok (ascii "\x7b\n\t\"on\": true \n\x7d \n") ∧
      parse (ascii "\x7b\n\t\"on\": true \n\x7d \n") ≠ .ok (true, switched) := by
  refine ⟨⟨rfl, rfl, .inr rfl, fun child member => ?_⟩, by decide +kernel, fun parsed => ?_⟩
  · obtain rfl := List.mem_singleton.mp member
    refine .intro ⟨⟨_, rfl, ?_⟩, .bool (.inl rfl)⟩ nofun
    exact .plain (by decide) (by decide) (by decide)
      (.plain (by decide) (by decide) (by decide) .nil)
  · have values := congrArg
      (Except.map fun result : Bool × JElement => result.2.children.map (·.value)) parsed
    exact absurd values (by decide +kernel)

end Pqfh.Json
