import Hotpatch.Proofs.Kbuild.Config
import Hotpatch.Proofs.Layout
import Hotpatch.Toolchain

/-! Compilers are compared by their versions alone. What is left of a banner is the text behind the
vendor in parentheses, whatever the program is called and whoever the vendor is, and whatever stands in
parentheses in the version itself; so the compiler is taken exactly when its version is that of the
kernel. -/

namespace Hotpatch

open Act

namespace Text

section Strip

variable {p : Char → Bool} {as bs cs : List Char} {c : Char}

end Strip

section Lines

variable {c : Char} {line rest : List Char}

end Lines

end Text

namespace Banner

variable {p v : String} {front gap vs : List Char}

end Banner

namespace Elf

variable {bs : Bytes} {v : String}

end Elf

namespace Toolchain

variable {h : Host} {t u : Site} {c : Toolchain} {image p v v' w w' rest : String} {o : Outcome}
variable {bs : Bytes} {host : Option String}

section Sample

/-- A version with parentheses of its own. -/
def sampleVersion : String := "8.3.1 20190311 (Red Hat 8.3.1-5)"

def sampleComment : Bytes := Layout.sampleText ("GCC: (GNU) " ++ sampleVersion)

/-- An image of a comment and the names of its two sections. -/
def sampleKernel : Bytes :=
  [0x7f, 0x45, 0x4c, 0x46, 1, 1, 1, 0, 0, 0, 0, 0, 0, 0, 0, 0, 2, 0, 20, 0, 1, 0, 0, 0, 0, 0, 0, 0,
    0, 0, 0, 0, 112, 0, 0, 0, 0, 0, 0, 0, 52, 0, 0, 0, 0, 0, 40, 0, 2, 0, 1, 0] ++
    sampleComment ++ Layout.sampleText ".comment" ++ Layout.sampleText ".names" ++
    Layout.sampleHeader 0 1 52 44 ++ Layout.sampleHeader 9 3 96 16

def sampleAnswer : Outcome where
  status := 0
  output := some ("gcc-8 (Red Hat) " ++ sampleVersion ++ "\nCopyright")
  errors := none
  interruptAfter := none
  family := ⟨true, [], ⟨10, true, true, false⟩⟩

def sampleHost : Host := { Layout.sampleHost with react _ _ d := ⟨d, .ok sampleAnswer⟩ }

def sampleSite : Site :=
  { Layout.sampleSite with disk := ⟨[(["vmlinux"], .file ⟨sampleKernel, 0, 0⟩)], 1⟩ }

end Sample

end Toolchain

end Hotpatch
