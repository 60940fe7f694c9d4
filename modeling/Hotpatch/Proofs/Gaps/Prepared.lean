import Hotpatch.Proofs.Gaps.Settings

/-! The gaps outside of the builds: in the workspace and the source cache, and in what is found out about
configuration, tools and kernel image. -/

namespace Hotpatch

open Act Fault

variable {h : Host}

namespace Workspace

variable {w : Workspace}

/-- The gaps in entering a workspace. What the file system refuses while it is prepared is told as a
failure, but not what it refuses of the log. -/
inductive EntryGap (w : Workspace) (e : Fault) : {β : Type} → Act β → Except Fault β → Prop
  | prepare : (∀ d, e ≠ .disk d) → w.EntryGap e w.prepare (.error e)
  | log : w.EntryGap e (Log.setup (some w.logFile) w.debug) (.error e)

/-- The gaps in leaving a workspace. A log that is not there is no refusal. -/
inductive ExitGap (w : Workspace) (e : Fault) : {β : Type} → Act β → Except Fault β → Prop
  | scratch : w.ExitGap e (Act.change (·.removeTree · w.scratch)) (.error e)
  | unlink : (∀ p, e ≠ .disk (.failed .notFound p)) →
    w.ExitGap e (Act.change (·.unlink · w.logFile)) (.error e)

end Workspace

namespace SourceCache

variable {c : SourceCache}

/-- The gaps of a source cache. Only what the file system refuses while a source is thrown away is told
as a failure; a tool that isn't started is not. -/
inductive Gap (c : SourceCache) (e : Fault) : {β : Type} → Act β → Except Fault β → Prop
  | version : c.Gap e c.version (.error e)
  | clear : (∀ d, e ≠ .disk d) → c.Gap e c.clear (.error e)
  | directory : c.Gap e (Staging.ensureDirectory c.dir) (.error e)
  | fetch (argv : List String) : c.Gap e (Tool.start ⟨argv, none, .streamed []⟩) (.error e)
  | arrival : c.Gap e (Act.isDir c.tree) (.error e)
  | tag (content : Bytes) : c.Gap e (Act.change (·.write · c.tag content)) (.error e)

variable {version : String} {words : List String}

end SourceCache

namespace Elf

/-- What is read of an image may be what no reader of images expects. -/
inductive Gap {α : Type} (path : String) (look : Image → Except ImageFault α) (e : Fault) :
    {β : Type} → Act β → Except Fault β → Prop
  | inspect : unreadable? e = none → Gap path look e (Elf.inspect path look) (.error e)

end Elf

namespace Toolchain

end Toolchain

namespace Layout

/-- The gaps in finding the sizes of some records in an image: debug information that nobody expects,
and sizes that are neither numbers of a printable length nor marks. -/
inductive Gap (image : String) (names : List String) (e : Fault) :
    {β : Type} → Act β → Except Fault β → Prop
  | image {β : Type} {a : Act β} {r : Except Fault β} : Elf.Gap image look e a r → Gap image names e a r
  | definitions (fault : Option ImageFault) (ds : List Definition) : Elf.unreadable? e = none →
    Gap image names e (Act.ofExcept (firsts names fault ds [])) (.error e)
  | size {name : String} (v : Option Dwarf.Value) : name ∈ names →
    Gap image names e (Act.ofExcept (usable name v)) (.error e)
  | text (size : Json) : Gap image names e (Act.ofExcept (sizeText size)) (.error e)

end Layout

end Hotpatch
