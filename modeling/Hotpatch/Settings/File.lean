import Hotpatch.Json.Parser
import Hotpatch.Settings

/-!
Settings in JSON files: one object with a member for each setting. A file that is read may leave out
any of them, but may not have others. Main definitions: `Settings.load`, `Settings.save`.
-/

namespace Hotpatch.Settings

def source : String := "livepatch_build.config.settings"

/-- The names in a value that are to be checked. -/
def namesIn (j : Json) : Except Fault (List String) := do
  match j with
  | .obj ms => return ms.map Prod.fst
  | j => Json.allTexts (← j.items)

/-- The settings in a JSON value. -/
def ofJson (h : Host) (j : Json) : Except Fault Settings := do
  match (← namesIn j).filter fun n => (Field.ofTitle? n).isNone with
  | [] => match j with
    | .obj ms => ofMembers h ms
    | _ => throw .illTyped
  | unknown =>
    let names := ", ".intercalate unknown.eraseDups.mergeSort
    throw (.failure (.configuration ("unknown settings: " ++ names)))

/-- The cause in a message for a text that is not read. -/
def flawText : Json.Flaw → Except Fault String
  | .malformed => .ok "<JSONDecodeError>"
  | .tooLong digits =>
    .ok ("Exceeds the limit (4300 digits) for integer string conversion: value has " ++
      toString digits ++ " digits; use sys.set_int_max_str_digits() to increase the limit")
  | .tooDeep => .error .tooDeep

/-- Reads a JSON file, or gives the cause why it can't be read. -/
def readJson (path : String) : Act (Except String Json) := do
  match ← Act.attempt (Act.readText path) with
  | .error (.disk e) => return .error e.message
  | .error (.undecodable e) => return .error e.message
  | .error (.invalid m) => return .error m
  | .error e => throw e
  | .ok text => match Json.parse text with
    | .ok j => return .ok j
    | .error f => return .error (← Act.ofExcept (flawText f))

/-- Reads settings from a file. -/
def load (path : String) : Act Settings := do
  match ← readJson path with
  | .error why => refuse ("error loading settings file " ++ path ++ ": " ++ why)
  | .ok j => Act.ofExcept (ofJson (← read) j)

/-- Writes settings to a file, which keeps what was written if an integer has too many digits. -/
def save (s : Settings) (path : String) : Act Unit := do
  match s.toJson.cut? with
  | some text =>
    Act.change (·.write · path (Text.encode text))
    throw (.invalid ("Exceeds the limit (4300 digits) for integer string conversion; " ++
      "use sys.set_int_max_str_digits() to increase the limit"))
  | none =>
    Act.change (·.write · path (Text.encode s.toJson.renderIndented))
    Log.info source ("Settings saved to: " ++ path)

end Hotpatch.Settings
