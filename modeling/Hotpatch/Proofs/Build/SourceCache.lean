import Hotpatch.Proofs.Build.Harvest
import Hotpatch.Proofs.Build.Request
import Hotpatch.Proofs.Text

/-! Requests for sources, one after the other, on one cache directory. The tag is what links the source
that is there to a version: it stands only while the source is the one that the latest fetch left. -/

namespace Hotpatch

open Act

theorem Act.readText_of_find {h : Host} {t : Site} {p : String} {q : Place} {f : File} {text : String}
    (ht : t.disk.find h.cwd p = .ok (q, .file f)) (hf : f.content = Text.encode text) :
    readText p h t = (.ok (String.ofList (Text.unify text.toList)), t) := by
  have hquery := query_apply h t (·.read · p)
  rw [Disk.read, Disk.open?, ht, Except.map, hf] at hquery
  rw [readText, bind_ok hquery, Text.decode_encode]
  rfl

namespace SourceCache

/-- A version that is told as it was written. -/
def IsPlain (version : String) : Prop := Text.trim version = version ∧ '\r' ∉ version.toList

instance (version : String) : Decidable (IsPlain version) :=
  inferInstanceAs (Decidable (_ ∧ _))

variable {c : SourceCache} {h : Host} {t t' : Site} {f : Fetch} {r : Request}

/-- No log file is the tag or in the source. -/
def Apart (c : SourceCache) (h : Host) (t : Site) : Prop :=
  ∀ q n, .file q n ∈ t.sinks → q ≠ Place.of h.cwd c.tag ∧ ¬ Place.of h.cwd c.tree <+: q

/-- The source stands as a fetch that succeeded left it, and the tag tells its version. -/
structure Holds (c : SourceCache) (cwd : Place) (f : Fetch) (d : Disk) : Prop where
  tag : ∃ g, d.find cwd c.tag = .ok (Place.of cwd c.tag, .file g) ∧
    g.content = Text.encode (f.version ++ "\n")
  tree : d.find cwd c.tree = .ok (Place.of cwd c.tree, .dir)
  nodes : ∀ q, Place.of cwd c.tree <+: q → d.node? q = f.disk.node? q
  exited : ∃ o, f.ending = .ok o ∧ o.status = 0 ∧ o.interruptAfter = none

def Untagged (c : SourceCache) (cwd : Place) (d : Disk) : Prop := d.node? (Place.of cwd c.tag) = none

/-- A fact about the tree, while no log file is the tag or in the source. -/
def Calm (c : SourceCache) (h : Host) (J : Disk → Prop) (t : Site) : Prop := J t.disk ∧
  ∀ q n, .file q n ∈ t.sinks → q ≠ Place.of h.cwd c.tag ∧ ¬ Place.of h.cwd c.tree <+: q

variable {J : Disk → Prop} {d d' : Disk} {cwd q : Place}

theorem Calm.heard (hJ : ∀ d q n b, q ≠ Place.of h.cwd c.tag → ¬ Place.of h.cwd c.tree <+: q →
    J d → J (d.append q n b)) : Heard h (c.Calm h J) := by
  refine ⟨fun r t ht => ?_, fun _ _ _ ht => ht⟩
  obtain ⟨hdisk, hsinks⟩ := Log.emit_keeps (h := h) (r := r)
    (fun d q n b hq => hJ d q n b (ht.2 q n hq).1 (ht.2 q n hq).2) ht.1
  refine ⟨hdisk, ?_⟩
  rw [hsinks]
  exact ht.2

theorem Untagged.heard : Heard h (c.Calm h (c.Untagged h.cwd)) :=
  Calm.heard fun d _ n b htag _ hd => (Disk.node?_append_ne d n b htag.symm).trans hd

theorem Holds.append {n : Nat} {b : Bytes} (hd : c.Holds cwd f d) (htag : q ≠ Place.of cwd c.tag)
    (htree : ¬ Place.of cwd c.tree <+: q) : c.Holds cwd f (d.append q n b) := by
  have stays : ∀ p, ¬ q = p → (d.append q n b).node? p = d.node? p := fun p hp =>
    Disk.node?_append_ne d n b fun heq => hp heq.symm
  have found : ∀ {s p x}, q ≠ p → d.find cwd s = .ok (p, x) →
      (d.append q n b).find cwd s = .ok (p, x) := by
    intro s p x hp hfind
    refine Disk.find_mono hfind (fun m _ hm => ?_) ((stays p hp).trans (Disk.find_ok hfind).2)
    rwa [Disk.isDirAt_append]
  obtain ⟨g, hg, hcontent⟩ := hd.tag
  have hne : q ≠ Place.of cwd c.tree := by
    intro heq
    rw [heq] at htree
    exact htree (List.prefix_refl _)
  refine ⟨⟨g, found htag hg, hcontent⟩, found hne hd.tree, fun p hp => ?_, hd.exited⟩
  · rw [stays p fun heq => htree (heq ▸ hp)]
    exact hd.nodes p hp

theorem Holds.heard : Heard h (c.Calm h (c.Holds h.cwd f)) :=
  Calm.heard fun _ _ _ _ htag htree hd => hd.append htag htree

section Version

end Version

section Clearing

variable (hl : Leading h.cwd c.dir)
include hl

omit hl in
/-- A tool is started in a cache without a tag. -/
theorem started {P : Site → Prop} {a : Act Start} (ha : Leads h P (c.Calm h (c.Untagged h.cwd)) a) :
    Yields h P (a >>= fun s => pure (some s)) (fun o t => o ≠ none ∧ c.Calm h (c.Untagged h.cwd) t)
      (c.Calm h (c.Untagged h.cwd)) :=
  ha.then (fun _ => .pure fun _ ht => ⟨nofun, ht⟩) fun _ => id

end Clearing

section Fetching

variable {D : Disk} {e : Ending}

/-- What a tool has left at the source, which has no tag yet. -/
def Left (c : SourceCache) (cwd : Place) (D d : Disk) : Prop :=
  c.Untagged cwd d ∧ ∀ q, Place.of cwd c.tree <+: q → d.node? q = D.node? q

theorem Left.heard : Heard h (c.Calm h (c.Left h.cwd D)) := by
  refine Calm.heard fun d q n b htag htree hd => ⟨?_, fun p hp => ?_⟩
  · exact (Disk.node?_append_ne d n b htag.symm).trans hd.1
  · rw [Disk.node?_append_ne d n b fun heq : p = q => htree (heq ▸ hp)]
    exact hd.2 p hp

end Fetching

/-- The cache after requests, with the latest fetch there was. -/
def step (c : SourceCache) (h : Host) (k : Site × Option Fetch) (r : Request) : Site × Option Fetch :=
  ((c.serve r h k.1).2, (c.fetched r h k.1).or k.2)

section Serving

variable {k : Site × Option Fetch} {res : Except Fault String}

end Serving

/-- A tool that leaves the version in a file; without a version it leaves half a source and fails. -/
def sampleHost : Host where
  cwd := []
  home := "/root"
  machine := "x86_64"
  cpus := some 1
  environment := []
  hasTool _ := true
  react _ start d :=
    let status : Int := if start.argv.getD 1 "" = "" then 1 else 0
    ⟨(d.put ["cache", "src"] .dir).store ["cache", "src", "Makefile"]
        (Text.encode (start.argv.getD 1 "")) 0,
      .ok ⟨status, none, none, none, true, [], 1, true, true, false⟩⟩

def sampleSite : Site where
  disk := ⟨[(["cache"], .dir)], 1⟩
  events := []
  records := []
  sinks := []
  console := []
  series := ⟨"/src", [], .pending, 0⟩

end SourceCache

end Hotpatch
