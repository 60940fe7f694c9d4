import Hotpatch.Module.Closure
import Hotpatch.Module.Name
import Hotpatch.Proofs.Act
import Hotpatch.Proofs.Disk

/-! The check of a finished module, and its name. A check that succeeds has found every symbol that
is needed in the module itself or in the shadow runtime. -/

namespace Hotpatch

open Act

variable {h : Host} {t t' : Site}

/-- A file that can be read is looked into and stays as it is. -/
theorem Elf.inspect_read {α : Type} {path : String} {bs : Bytes}
    (hread : t.disk.read h.cwd path = .ok bs) (look : Image → Except ImageFault α) :
    inspect path look h t =
      ((Image.ofBytes bs.toArray >>= look).mapError Fault.ofImage, t) := by
  have hquery := query_apply h t (·.read · path)
  rw [hread] at hquery
  unfold inspect
  rw [bind_ok hquery]
  cases Image.ofBytes bs.toArray >>= look <;> rfl

/-- The check of a module, from where its symbols are read. -/
def Closure.check (undefined : List String) (module : String) (shadow : Bool) : Act Closure := do
  let c := ofSymbols undefined (← Elf.definedSymbols module) shadow
  match c.unsatisfied with
  | [] =>
    Log.debug source ("All " ++ toString c.required.length ++
      " unresolved build reference(s) satisfied")
    return c
  | missing =>
    missing.forM fun s => Log.error source ("Undefined symbol: " ++ s)
    Act.fail (Failure.unsatisfied missing)

namespace Closure

end Closure

namespace ModuleName

theorem isAllowed_of_make {patches : List String} {name : Option String} {native : Bool}
    {n : String} (hn : make patches name native = .ok n) : ∀ c ∈ n.toList, isAllowed c = true := by
  rw [make] at hn
  split at hn
  · cases hn
  · cases hn
    intro c hc
    rw [String.toList_ofList, fit] at hc
    have hmark : ∀ c ∈ mark native, isAllowed c = true :=
      List.all_eq_true.1 (by cases native <;> decide)
    have hbase : ∀ c ∈ (base patches name).map (fun c => if isAllowed c then c else '-'),
        isAllowed c = true := by
      intro c hc
      obtain ⟨c', -, rfl⟩ := List.mem_map.1 hc
      split
      · assumption
      · decide
    have hc := List.mem_of_mem_take hc
    split at hc
    · exact hbase c hc
    · exact (List.mem_append.1 hc).elim (hmark c) (hbase c)

end ModuleName

end Hotpatch
