import Hotpatch.Command
import Hotpatch.Json.Demand

/-! Building targets of a source tree with make. -/

namespace Hotpatch.Kbuild

structure Make where
  program : String
  deriving DecidableEq, Repr

namespace Make

def standard : Make := ⟨"make"⟩

/-- The arguments that build some targets with some jobs at once. -/
def argv (m : Make) (targets jobs extra : Json) : Except Fault (List Json) := do
  let extras ← extra.itemsIfTrue
  return .str m.program :: .str ("-j" ++ jobs.shown) :: extras ++ (← targets.items)

def build (m : Make) (tree : String) (targets jobs : Json) (environment : List (String × String))
    (extra : Json) : Act Command.Result := do
  let argv ← Act.ofExcept (m.argv targets jobs extra >>= Json.allTexts)
  Command.run argv (some tree) environment

end Make

end Hotpatch.Kbuild
