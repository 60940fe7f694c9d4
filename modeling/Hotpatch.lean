import Hotpatch.Main
import Hotpatch.Proofs.Pipeline.Patches
import Hotpatch.Proofs.Pipeline.Delivery
import Hotpatch.Proofs.Patch.Session
import Hotpatch.Proofs.Patch.Atomic
import Hotpatch.Proofs.Kbuild.Ambiguity
import Hotpatch.Proofs.Module.Faults
import Hotpatch.Proofs.Module.Accounts
import Hotpatch.Proofs.Module.Assembled
import Hotpatch.Proofs.Module.Sequence
import Hotpatch.Proofs.Module.Naming
import Hotpatch.Proofs.Kbuild.Additions
import Hotpatch.Proofs.Kbuild.Followed
import Hotpatch.Proofs.Kbuild.Words
import Hotpatch.Proofs.Kbuild.Rules
import Hotpatch.Proofs.Kbuild.Walk
import Hotpatch.Proofs.Kbuild.Config
import Hotpatch.Proofs.Kbuild.Roundtrip
import Hotpatch.Proofs.Build.Snapshot
import Hotpatch.Proofs.Build.Shelves
import Hotpatch.Proofs.Build.Harvest
import Hotpatch.Proofs.Build.Units
import Hotpatch.Proofs.Build.SourceCache
import Hotpatch.Proofs.CommandLine.Saved
import Hotpatch.Proofs.Gaps.Run
import Hotpatch.Proofs.Settings.Loading
import Hotpatch.Proofs.Build.Return
import Hotpatch.Proofs.Build.Diagnostic
import Hotpatch.Proofs.Layout
import Hotpatch.Proofs.Patterns
import Hotpatch.Proofs.Interrupt
import Hotpatch.Proofs.Kbuild.Pairing
import Hotpatch.Proofs.Toolchain
