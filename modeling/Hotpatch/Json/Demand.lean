import Hotpatch.Failure
import Hotpatch.Json.Value

/-! What a use demands of a value of any make: a value that doesn't have it is refused. -/

namespace Hotpatch.Json

def text : Json → Except Fault String
  | str s => .ok s
  | _ => .error .illTyped

/-- The items a value consists of. -/
def items (j : Json) : Except Fault (List Json) :=
  match j.items? with
  | some js => .ok js
  | none => .error .illTyped

/-- Items that all have to be texts. -/
def allTexts (js : List Json) : Except Fault (List String) := js.mapM text

/-- The items of a value, or none where it counts as not given. -/
def itemsIfTrue (j : Json) : Except Fault (List Json) :=
  if j.isTrue then j.items else .ok []

def ofTexts (ss : List String) : Json := arr (ss.map str)

end Hotpatch.Json
