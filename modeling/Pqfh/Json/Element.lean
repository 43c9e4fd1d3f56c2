import Pqfh.Core.Bytes

/-! # Elements of a JSON text -/

namespace Pqfh.Json

/-- `jelement_t`. The children stand in the order in which `list2_append` got them. -/
structure JElement where
  name : Option (List Byte)
  tp : Byte
  value : Option (List Byte)
  children : List JElement

def tpArray : Byte := 65
def tpObject : Byte := 79
def tpString : Byte := 83
def tpNumber : Byte := 78
def tpBool : Byte := 66

/-- A property of an element, given whether it stands in an object, that holds of the element
and of everything below it. -/
inductive Throughout (P : Bool → JElement → Prop) : Bool → JElement → Prop where
  | intro {inObject : Bool} {element : JElement} (here : P inObject element)
      (below : ∀ child ∈ element.children, Throughout P (element.tp = tpObject) child) :
      Throughout P inObject element

variable {P : Bool → JElement → Prop} {inObject : Bool} {element : JElement}

theorem Throughout.here (all : Throughout P inObject element) : P inObject element := by
  cases all with
  | intro here _ => exact here

theorem Throughout.children (all : Throughout P inObject element) :
    ∀ child ∈ element.children, Throughout P (element.tp = tpObject) child := by
  cases all with
  | intro _ below => exact below

end Pqfh.Json
