import Hotpatch.Command
import Hotpatch.Json.Demand
import Hotpatch.Staging

/-!
Making a module of the differences: they are linked into one object, which may get a checksum of
itself, and a tool turns it into a module.
-/

namespace Hotpatch

structure Assembler where
  moduleTool : Json
  linker : String
  objcopy : String
  linkFlags : List Json

namespace Assembler

def source : String := "livepatch_build.diff.module_assembler"

def checksumSection : String := ".kpatch.checksum"

def link (a : Assembler) (objects : List String) (output : String) : Act Unit := do
  Act.makeDirs (parent output)
  let flags ← Act.ofExcept (Json.allTexts a.linkFlags)
  let r ← Command.run ([a.linker, "-r"] ++ flags ++ ["-o", output] ++ objects) none []
  if !r.succeeded then
    Act.fail (.build ("failed to link " ++ toString objects.length ++ " patch object(s)"))

/-- Adds the digest of the linked object to it, ended by a zero, and gives the digest. -/
def embedChecksum (a : Assembler) (linked : String) : Act String := do
  let checksum ← Staging.digest linked "md5"
  let file := under (parent linked) "checksum.tmp"
  Act.change (·.write · file (Text.encode checksum ++ [0]))
  let r ← Command.run [a.objcopy, "--add-section", checksumSection ++ "=" ++ file, linked] none []
  if !r.succeeded then Act.fail (.build ("failed to add " ++ checksumSection ++ " to " ++ linked))
  Log.debug source ("Patch checksum: " ++ checksum)
  return checksum

/-- Makes the module; the tool has to leave it where it is expected. -/
def buildModule (a : Assembler) (linked name output : String) : Act Unit := do
  Act.makeDirs (parent output)
  let tool ← Act.ofExcept a.moduleTool.text
  let r ← Command.run [tool, linked, output] none [("MODNAME", name)]
  let made ← if r.succeeded then Act.present output else pure false
  if !made then Act.fail (.build (tool ++ " failed to build " ++ fileName output))

end Assembler

end Hotpatch
