import Hotpatch.Text.Blank
import Hotpatch.Text.Word
import Hotpatch.Text.Match

/-!
The banner a compiler prints or leaves in its objects: a program name, a vendor in parentheses and
the version. `versionOf` keeps the version alone.
-/

namespace Hotpatch.Banner

def isProgram (c : Char) : Bool := Text.isWord c || c = '.' || c = '+' || c = '-'

/-- What follows a program name and a vendor in parentheses; the name may be missing. -/
def afterVendor? (cs : List Char) : Option (List Char) :=
  match (cs.dropWhile isProgram).dropWhile Text.isBlank with
  | '(' :: r => (Text.cut? ')' r).map fun p => p.2.dropWhile Text.isBlank
  | _ => none

def versionOf (banner : String) : String :=
  let cs := Text.strip Text.isBlank banner.toList
  String.ofList (Text.strip Text.isBlank ((afterVendor? cs).getD cs))

end Hotpatch.Banner
