import Pqfh.Core.Stop
import Pqfh.Json.Element

/-! # Printing a tree of elements

`tostring` collects lines, each put together in one buffer, with tabs up to the level. An
object in an array stands two levels deeper than the array.
-/

namespace Pqfh.Json

/-- `tab`: a buffer of 17 characters. -/
def tab (n : ℕ) : Except Stop (List Byte) :=
  if n ≤ 16 then .ok (List.replicate n 9) else .error .undefined

/-- `sprintf` to a buffer of 65537 characters. -/
def printed (line : List Byte) : Except Stop (List Byte) :=
  if line.length ≤ 65536 then .ok line else .error .undefined

/-- A text for `%s`, which is not NULL. -/
def textOf : Option (List Byte) → Except Stop (List Byte)
  | some text => .ok text
  | none => .error .undefined

/-- `"name": ` -/
def nameText (name : List Byte) : List Byte := 34 :: (name ++ [34, 58, 32])

/-- The start of the first line of an array or an object. -/
def openingText (name : Option (List Byte)) (opening : Byte) : List Byte :=
  match name with
  | some name => nameText name ++ [opening]
  | none => [opening]

/-- `ptr->next == NULL ? ' ' : ','` -/
def commaAfter (rest : List JElement) : Byte := if rest.isEmpty then 32 else 44

/-- A line with the opening bracket, the lines of the children and one with the closing
bracket. -/
def bracketed (opening closing : Byte) (level : ℕ) (name : Option (List Byte)) (comma : Byte)
    (children : Except Stop (List (List Byte))) : Except Stop (List (List Byte)) := do
  let indent ← tab level
  let head ← printed (indent ++ openingText name opening)
  let inner ← children
  let tail ← printed (indent ++ [closing, comma])
  .ok (head :: inner ++ [tail])

/-- `appendObject`, given its loop over the children. -/
def appendObject (level : ℕ) (name : Option (List Byte)) (comma : Byte)
    (children : Except Stop (List (List Byte))) : Except Stop (List (List Byte)) :=
  bracketed 123 125 level name comma children

/-- `appendArray`, given its loop over the children. -/
def appendArray (level : ℕ) (name : Option (List Byte)) (comma : Byte)
    (children : Except Stop (List (List Byte))) : Except Stop (List (List Byte)) :=
  bracketed 91 93 level name comma children

mutual

/-- The loop of `appendObject` over the children. -/
def appendMembers (level : ℕ) : List JElement → Except Stop (List (List Byte))
  | [] => .ok []
  | child :: rest => do
      let lines ← appendMember level (commaAfter rest) child
      let others ← appendMembers level rest
      .ok (lines ++ others)

/-- A child of an object. -/
def appendMember (level : ℕ) (comma : Byte) : JElement → Except Stop (List (List Byte))
  | ⟨name, tp, value, children⟩ =>
      if tp = tpString then do
        let indent ← tab level
        let name ← textOf name
        let value ← textOf value
        let line ← printed (indent ++ (nameText name ++ 34 :: (value ++ [34, comma])))
        .ok [line]
      else if tp = tpNumber ∨ tp = tpBool then do
        let indent ← tab level
        let name ← textOf name
        let value ← textOf value
        let line ← printed (indent ++ (nameText name ++ (value ++ [comma])))
        .ok [line]
      else if tp = tpArray then appendArray level name comma (appendElements (level + 1) children)
      else if tp = tpObject then appendObject level name comma (appendMembers (level + 1) children)
      else .error .exit

/-- The loop of `appendArray` over the children. -/
def appendElements (level : ℕ) : List JElement → Except Stop (List (List Byte))
  | [] => .ok []
  | child :: rest => do
      let lines ← appendElement level (commaAfter rest) child
      let others ← appendElements level rest
      .ok (lines ++ others)

/-- A child of an array. -/
def appendElement (level : ℕ) (comma : Byte) : JElement → Except Stop (List (List Byte))
  | ⟨name, tp, value, children⟩ =>
      if tp = tpObject then
        appendObject (level + 1) name comma (appendMembers (level + 2) children)
      else if tp = tpString then do
        let indent ← tab level
        let value ← textOf value
        let line ← printed (indent ++ 34 :: (value ++ [34, comma]))
        .ok [line]
      else if tp = tpNumber ∨ tp = tpBool then do
        let indent ← tab level
        let value ← textOf value
        let line ← printed (indent ++ (value ++ [comma]))
        .ok [line]
      else .error .exit

end

/-- The lines as one text. -/
def joined (lines : List (List Byte)) : List Byte := lines.flatMap (· ++ [10])

/-- `tostring` -/
def tostring (root : JElement) : Except Stop (List Byte) := do
  let lines ←
    if root.tp = tpArray then appendArray 0 root.name 32 (appendElements 1 root.children)
    else appendObject 0 root.name 32 (appendMembers 1 root.children)
  .ok (joined lines)

/-! ## What was printed -/

theorem joined_append (front back : List (List Byte)) :
    joined (front ++ back) = joined front ++ joined back :=
  List.flatMap_append

theorem joined_cons (line : List Byte) (rest : List (List Byte)) :
    joined (line :: rest) = line ++ 10 :: joined rest := by
  unfold joined
  rw [List.flatMap_cons, List.append_assoc, List.singleton_append]

theorem joined_singleton (line : List Byte) : joined [line] = line ++ [10] := by
  rw [joined_cons]
  rfl

theorem tab_eq_ok {n : ℕ} {indent : List Byte} (done : tab n = .ok indent) :
    indent = List.replicate n 9 := by
  unfold tab at done
  split_ifs at done
  cases done
  rfl

theorem printed_eq_ok {line line' : List Byte} (done : printed line = .ok line') :
    line' = line := by
  unfold printed at done
  split_ifs at done
  cases done
  rfl

/-- A bracketed element as a text. -/
theorem bracketed_eq_ok {opening closing comma : Byte} {level : ℕ} {name : Option (List Byte)}
    {children : Except Stop (List (List Byte))} {lines : List (List Byte)}
    (done : bracketed opening closing level name comma children = .ok lines) :
    ∃ inner, children = .ok inner ∧
      joined lines = List.replicate level 9 ++ (openingText name opening ++ 10 ::
        (joined inner ++ (List.replicate level 9 ++ [closing, comma, 10]))) := by
  unfold bracketed at done
  obtain ⟨indent, tabbed, done⟩ := bind_eq_ok.mp done
  obtain ⟨head, first, done⟩ := bind_eq_ok.mp done
  obtain ⟨inner, between, done⟩ := bind_eq_ok.mp done
  obtain ⟨tail, last, done⟩ := bind_eq_ok.mp done
  cases done
  obtain rfl := tab_eq_ok tabbed
  obtain rfl := printed_eq_ok first
  obtain rfl := printed_eq_ok last
  refine ⟨inner, between, ?_⟩
  rw [List.cons_append, joined_cons, joined_append, joined_singleton]
  simp only [List.append_assoc, List.cons_append, List.nil_append]

end Pqfh.Json
