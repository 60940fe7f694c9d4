import Hotpatch.Proofs.Pipeline.Cache
import Hotpatch.Proofs.Pipeline.Run

/-! Entering and leaving the workspace of a run. Once it is entered its log stands, and from then on
a failing run leaves the files of a directory outside of the cache as the tools left them. A run
that got hold of its module can't fail any more while it leaves. -/

namespace Hotpatch

open Act

variable {h : Host} {K O p q : Place} {ok : String → File → Prop} {w : Workspace} {t : Site}

namespace Workspace

section Enter

variable (hcwd : h.cwd.IsProper) (hw : Place.of h.cwd w.cache = K) (hO : ¬ K <+: O)
include hcwd

include hw hO

end Enter

end Workspace

namespace Holding

variable {d₀ : Disk} {n : Option Node}

end Holding

namespace Workspace

variable {d₀ : Disk} {n : Option Node} {x : String}

end Workspace

end Hotpatch
