import Hotpatch.Build.Differential
import Hotpatch.Proofs.Act
import Hotpatch.Proofs.Disk
import Hotpatch.Proofs.Patch.Trace

/-! Facts about a site that the work around the patches leaves true. `Robust` lists what such a fact
has to stand: logging, tools that run in no tree, and changes of the file tree at the paths of
`mine`. Every action made of these keeps the fact. What paths the program makes of names that it
finds in the tree is for the fact to tell: it allows only names of `seen` there. Work that starts no
tool asks less of a fact: that it is `Placid`; what only logs and notes events asks no more than that
it is `Heard`. -/

namespace Hotpatch

open Act

/-- Whether a path is one of `mine`, and every path to what is in it under some name. -/
def Within (mine : String → Prop) (p : String) : Prop :=
  mine p ∧ ∀ n : String, '/' ∉ n.toList → mine (glue p n)

theorem within_true (p : String) : Within (fun _ => True) p := ⟨trivial, fun _ _ => trivial⟩

/-- A fact that stands logging, and events that start nothing. -/
structure Heard (h : Host) (I : Site → Prop) : Prop where
  emit : ∀ r, Keeps h I (Log.emit r)
  record : ∀ e : Event, e.isRun = false → Keeps h I (record e)

/-- A fact that stands all work but the start of tools. -/
structure Placid (h : Host) (mine seen : String → Prop) (I : Site → Prop) : Prop
    extends Heard h I where
  names : ∀ t, I t → ∀ q ∈ t.disk.nodes, ∀ n ∈ q.1, seen n
  makeDirs : ∀ p, Keeps h I (makeDirs p)
  write : ∀ p c, mine p → Keeps h I (change (·.write · p c))
  copy : ∀ a b, Within mine b → Keeps h I (change (·.copy · a b))
  unlink : ∀ p, mine p → Keeps h I (change (·.unlink · p))
  removeTree : ∀ p, mine p → Keeps h I (change (·.removeTree · p))
  /-- Only core files are moved away from where they are. -/
  move : ∀ tree name b, Differential.isCoreName name = true → seen name → Within mine b →
    Keeps h I (change (·.move · (under tree name) b))

structure Robust (h : Host) (mine seen : String → Prop) (I : Site → Prop) : Prop
    extends Placid h mine seen I where
  launch : ∀ s : Start, s.cwd = none → Keeps h I (Tool.launch s)

theorem Act.change_apply (h : Host) (t : Site) (q : Disk → Place → Except DiskError Disk) :
    change q h t = match q t.disk h.cwd with
      | .ok d => (.ok (), { t with disk := d })
      | .error e => (.error (.ofDisk e), t) := by
  have hq := query_apply h t q
  rcases hd : q t.disk h.cwd with e | d
  · rw [hd] at hq
    rw [change, bind_error hq]
  · rw [hd] at hq
    rw [change, bind_ok hq]
    rfl

theorem Act.makeDirs_apply (h : Host) (t : Site) (p : String) :
    ∃ r, makeDirs p h t = (r, { t with disk := (t.disk.makeDirs h.cwd p).1 }) := by
  rw [makeDirs, bind_ok (a := disk) (v := t.disk) (u := t) rfl, bind_ok (read_apply h t)]
  rcases t.disk.makeDirs h.cwd p with ⟨d, _ | e⟩
  · exact ⟨_, rfl⟩
  · exact ⟨_, rfl⟩

theorem Act.change_of_ok {h : Host} {t t' : Site} {q : Disk → Place → Except DiskError Disk} {v : Unit}
    (hr : change q h t = (.ok v, t')) : ∃ d, q t.disk h.cwd = .ok d ∧ t' = { t with disk := d } := by
  rw [change_apply] at hr
  split at hr
  · next d hd => exact ⟨d, hd, (Prod.mk.inj hr).2.symm⟩
  · cases hr

theorem Act.makeDirs_of_ok {h : Host} {t t' : Site} {p : String} {v : Unit}
    (hr : makeDirs p h t = (.ok v, t')) :
    t' = { t with disk := (t.disk.makeDirs h.cwd p).1 } := by
  obtain ⟨r, happly⟩ := makeDirs_apply h t p
  exact (Prod.mk.inj (hr.symm.trans happly)).2

namespace Act

section Answers

variable {h : Host} {t t' : Site} {p : String} {q : Place} {n : Node}

theorem present_of_find (ht : t.disk.find h.cwd p = .ok (q, n)) :
    present p h t = (.ok true, t) := by
  have hquery := query_apply h t (·.look? · p)
  rw [Disk.look?, ht] at hquery
  exact bind_ok hquery

end Answers

section Emit

variable {α : Type} {h : Host} {P Q E : Site → Prop} {S : α → Site → Prop} {r : Log.Record}
variable {a : Act α}

theorem Leads.emit (hr : Keeps h P (Log.emit r)) (ha : Leads h P Q a) : Leads h P Q (Log.emit r >>= fun _ => a) := by
  intro t ht
  obtain ⟨u, hu, -⟩ := Log.emit_apply h t r
  rw [bind_ok hu]
  exact ha u (hr.eq ht hu)

theorem Yields.emit (hr : Keeps h P (Log.emit r)) (ha : Yields h P a S E) :
    Yields h P (Log.emit r >>= fun _ => a) S E := by
  have peeled : ∀ t, P t → ∃ u, P u ∧ (Log.emit r >>= fun _ => a) h t = a h u := by
    intro t ht
    obtain ⟨u, hu, -⟩ := Log.emit_apply h t r
    exact ⟨u, hr.eq ht hu, bind_ok hu⟩
  refine ⟨fun ht heq => ?_, fun ht heq => ?_⟩
  · obtain ⟨u, hu, hrest⟩ := peeled _ ht
    exact ha.ok hu (hrest.symm.trans heq)
  · obtain ⟨u, hu, hrest⟩ := peeled _ ht
    exact ha.error hu (hrest.symm.trans heq)

end Emit

end Act

variable {h : Host} {mine seen : String → Prop} {I : Site → Prop}

theorem Act.Keeps.change {I : Site → Prop} {q : Disk → Place → Except DiskError Disk}
    (hq : ∀ t d', I t → q t.disk h.cwd = .ok d' → I { t with disk := d' }) :
    Keeps h I (Act.change q) := by
  intro t ht
  rw [change_apply]
  split
  · next d' hd' => exact hq t d' ht hd'
  · exact ht

theorem Act.Keeps.makeDirs {I : Site → Prop} {J : Disk → Prop} (hI : ∀ t, I t → J t.disk)
    (hJ : ∀ d s, J d → d.node? (Place.of h.cwd s) = none → J (d.put (Place.of h.cwd s) .dir))
    (hd : ∀ t d', I t → J d' → I { t with disk := d' }) (p : String) :
    Keeps h I (Act.makeDirs p) := by
  intro t ht
  obtain ⟨r, hr⟩ := makeDirs_apply h t p
  rw [hr]
  exact hd t _ ht (Disk.makeDirs_keeps hJ (hI t ht) p)

/-- What every record of the log changes in the tree is the log files. -/
theorem Log.emit_keeps {t : Site} {J : Disk → Prop} {r : Log.Record}
    (hJ : ∀ d p n c, .file p n ∈ t.sinks → J d → J (d.append p n c)) (ht : J t.disk) :
    J (Log.emit r h t).2.disk ∧ (Log.emit r h t).2.sinks = t.sinks := by
  have take : ∀ (ks : List Log.Sink) (u : Site), (∀ k ∈ ks, k ∈ t.sinks) → J u.disk →
      J (ks.foldl (Log.Sink.take r) u).disk ∧ (ks.foldl (Log.Sink.take r) u).sinks = u.sinks := by
    intro ks
    induction ks with
    | nil => exact fun u _ hu => ⟨hu, rfl⟩
    | cons k ks ih =>
      intro u hk hu
      have hstep : J (Log.Sink.take r u k).disk ∧ (Log.Sink.take r u k).sinks = u.sinks := by
        cases k with
        | console l =>
          rw [Log.Sink.take]
          split <;> exact ⟨hu, rfl⟩
        | file p n => exact ⟨hJ _ p n _ (hk _ List.mem_cons_self) hu, rfl⟩
      have hrest := ih _ (fun k' hk' => hk k' (List.mem_cons_of_mem _ hk')) hstep.1
      rw [List.foldl_cons]
      exact ⟨hrest.1, hrest.2.trans hstep.2⟩
  rw [Log.emit, modify_apply]
  split
  · exact take _ _ (fun _ => id) ht
  · exact ⟨ht, rfl⟩

/-- A fact about the series and the events stands all changes of the tree. -/
theorem Placid.of_events {J : Series → List Event → Prop}
    (hmark : ∀ s past e, e.isRun = false → J s past → J s (e :: past)) :
    Placid h mine (fun _ => True) fun t => J t.series t.events := by
  have hchange : ∀ q, Keeps h (fun t => J t.series t.events) (change q) := by
    intro q t ht
    rw [change_apply]
    cases q t.disk h.cwd <;> exact ht
  refine ⟨⟨fun r t ht => ?_, fun e he t => hmark _ _ _ he⟩, by simp, fun p t ht => ?_,
    fun _ _ _ => hchange _, fun _ _ _ => hchange _, fun _ _ => hchange _, fun _ _ => hchange _,
    fun _ _ _ _ _ _ => hchange _⟩
  · obtain ⟨t', ht', hs, he⟩ := Log.emit_apply h t r
    rw [ht', hs, he]
    exact ht
  · obtain ⟨r, hr⟩ := makeDirs_apply h t p
    rw [hr]
    exact ht

theorem Robust.of_events {J : Series → List Event → Prop}
    (hrun : ∀ s past start d, start.cwd = none → J s past →
      J s (.ran start (h.react past start d).ending :: past))
    (hmark : ∀ s past e, e.isRun = false → J s past → J s (e :: past)) :
    Robust h mine (fun _ => True) fun t => J t.series t.events :=
  ⟨.of_events hmark, fun _ hs _ => hrun _ _ _ _ hs⟩

/-- What a tool is started for keeps the fact if the start itself does. -/
theorem Robust.start {s : Start} (hs : Keeps h I (Tool.launch s)) : Keeps h I (Tool.start s) := by
  refine hs.bind fun _ => ?_
  split
  · exact .pure _
  · exact .throw _

namespace Heard

section Log

variable (hI : Heard h I)
include hI

theorem debug (c m : String) : Keeps h I (Log.debug c m) := hI.emit _

theorem info (c m : String) : Keeps h I (Log.info c m) := hI.emit _

theorem warning (c m : String) : Keeps h I (Log.warning c m) := hI.emit _

theorem error (c m : String) : Keeps h I (Log.error c m) := hI.emit _

end Log

section Command

open Command

variable (hI : Heard h I)
include hI

theorem signalAll (s : Signal) : ∀ ms : List Member, Keeps h I (signalAll s ms)
  | [] => .pure _
  | _ :: ms => ((hI.record _ rfl).bind fun _ => .pure _).bind fun _ => signalAll s ms

theorem terminateFamily (f : Family) (limit : Int) : Keeps h I (terminateFamily f limit) := by
  rw [Command.terminateFamily]
  split
  · exact .pure _
  · exact (hI.signalAll _ _).bind fun _ => (hI.record _ rfl).bind fun _ => hI.signalAll _ _

theorem follow_yields (argv : List String) (o : Outcome) :
    Yields h I (Command.follow argv o) (fun r t => r = ⟨argv, o.status, linesOf o⟩ ∧ I t) I := by
  have noted : ∀ ls : List String, Keeps h I (ls.forM (Log.debug Command.source)) :=
    fun ls => Keeps.forM (fun _ => hI.debug _ _) ls
  rw [Command.follow]
  split
  · exact (noted _).then (fun _ => .pure fun t ht => ⟨rfl, ht⟩) fun _ => id
  · refine (noted _).then (fun _ => (hI.warning _ _).then (fun _ => ?_) fun _ => id) fun _ => id
    exact (hI.terminateFamily _ _).then (fun _ => .throw fun _ => id) fun _ => id

/-- A streamed tool: what its start leads to holds at the end, and a result shows how it went. -/
theorem run_yields {J : Ending → Site → Prop} {E : Site → Prop} {argv : List String}
    {cwd : Option String} {env : List (String × String)} (hJ : ∀ r, Heard h (J r))
    (hl : ∀ t, I t → J (h.react t.events ⟨argv, cwd, .streamed env⟩ t.disk).ending
      (Tool.launch ⟨argv, cwd, .streamed env⟩ h t).2)
    (hi : ∀ t, I t → E t) (hj : ∀ r t, J r t → E t) :
    Yields h I (Command.run argv cwd env)
      (fun r t => ∃ o, r = ⟨argv, o.status, linesOf o⟩ ∧ J (.ok o) t) E := by
  have hlaunch : Yields h I (Tool.launch ⟨argv, cwd, .streamed env⟩) J E :=
    .of_eq fun t ht => .inl ⟨_, _, rfl, hl t ht⟩
  have hstart : Yields h I (Tool.start ⟨argv, cwd, .streamed env⟩) (fun o => J (.ok o)) E := by
    refine hlaunch.bind fun r => ?_
    rcases r with e | o
    · exact .throw (hj _)
    · exact .pure fun _ => id
  have rest : Yields h I (do
      let o ← Tool.start ⟨argv, cwd, .streamed env⟩
      let r ← attempt (Command.follow argv o)
      Act.record (.closed pid)
      Act.ofExcept r : Act Command.Result)
      (fun r t => ∃ o, r = ⟨argv, o.status, linesOf o⟩ ∧ J (.ok o) t) E := by
    refine hstart.bind fun o => ?_
    have hf := ((hJ (.ok o)).follow_yields argv o).attempt (F := E)
    refine (hf.mono (fun _ => id) (U := fun r t => (∀ v, r = .ok v →
      v = ⟨argv, o.status, linesOf o⟩) ∧ J (.ok o) t) ?_ fun _ => id).bind fun r => Yields.given ?_
    · rintro (e | v) t ⟨hv, he⟩
      · exact ⟨nofun, he e rfl⟩
      · exact ⟨by rintro _ ⟨⟩; exact (hv v rfl).1, (hv v rfl).2⟩
    · intro hv
      refine ((hJ _).record _ rfl).then (fun _ => ?_) (hj _)
      exact .ofExcept (fun v hr t ht => ⟨o, hv v hr, ht⟩) (hj _)
  refine (hI.debug _ _).then (fun _ => ?_) hi
  dsimp only
  split
  · split
    · exact (hI.debug _ _).then (fun _ => rest) hi
    · exact rest
  · exact rest

/-- A streamed tool keeps the fact if its start does. -/
theorem run {argv : List String} {cwd : Option String} {env : List (String × String)}
    (hs : Keeps h I (Tool.launch ⟨argv, cwd, .streamed env⟩)) :
    Keeps h I (Command.run argv cwd env) :=
  (hI.run_yields (J := fun _ => I) (fun _ => hI) hs (fun _ => id) fun _ _ => id).leads
    (fun _ _ ⟨_, _, ht⟩ => ht) fun _ => id

end Command

end Heard

namespace Placid

section Staging

open Staging

variable (hI : Placid h mine seen I)
include hI

theorem ensureDirectory (p : String) : Keeps h I (ensureDirectory p) :=
  (hI.makeDirs _).bind fun _ => .pure _

omit hI in
theorem digest (p algorithm : String) : Keeps h I (digest p algorithm) := by
  refine Keeps.guard (.throw _) fun _ => ?_
  split
  · exact .throw _
  · refine (Keeps.query _).bind fun _ => ?_
    split
    · exact .pure _
    · exact .throw _

theorem stage {source path target : String} (hm : Within mine (under target path)) :
    Keeps h I (stage source path target) := by
  refine (Keeps.attempt ((hI.makeDirs _).bind fun _ => hI.copy _ _ hm)).bind fun _ => ?_
  split
  · exact .pure _
  · exact .fail _
  · exact .throw _

end Staging

end Placid

theorem Robust.runLoose (hI : Robust h mine seen I) (argv : List String)
    (env : List (String × String)) : Keeps h I (Command.run argv none env) :=
  hI.run (hI.launch _ rfl)

/-- What is made of the ending of a tool that was started. -/
def Command.heed (argv : List String) : Ending → Act Command.Result
  | .error r => throw (r.fault argv)
  | .ok o => do
    let r ← Act.attempt (Command.follow argv o)
    Act.record (.closed Command.pid)
    Act.ofExcept r

theorem Command.run_eq (argv : List String) (env : List (String × String)) :
    Command.run argv none env = (do
      Log.debug Command.source ("Running command: " ++ " ".intercalate argv)
      let e ← Tool.launch ⟨argv, none, .streamed env⟩
      Command.heed argv e) := by
  rw [Command.run]
  refine bind_congr fun _ => ?_
  dsimp only
  rw [Tool.start, bind_assoc]
  refine bind_congr fun e => ?_
  cases e
  · rfl
  · rw [pure_bind]
    rfl

end Hotpatch
