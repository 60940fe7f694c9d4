/-!
Lists in order. Sorting goes by insertion, so that it can be computed step by step wherever the
members are known.
-/

namespace Hotpatch

section Sorting

variable {α : Type} (le : α → α → Bool)

/-- Puts something into its place in a sorted list. -/
def insertBy (a : α) : List α → List α
  | [] => [a]
  | b :: bs => if le a b then a :: b :: bs else b :: insertBy a bs

def sortBy (as : List α) : List α := as.foldr (insertBy le) []

theorem insertBy_perm (a : α) (bs : List α) : (insertBy le a bs).Perm (a :: bs) := by
  induction bs with
  | nil => exact .refl _
  | cons b bs ih =>
    rw [insertBy]
    split
    · exact .refl _
    · exact (ih.cons b).trans (.swap a b bs)

theorem sortBy_perm (as : List α) : (sortBy le as).Perm as := by
  induction as with
  | nil => exact .refl _
  | cons a as ih => exact (insertBy_perm le a _).trans (ih.cons a)

theorem mem_sortBy {a : α} {as : List α} : a ∈ sortBy le as ↔ a ∈ as := (sortBy_perm le as).mem_iff

end Sorting

namespace Text

def sorted (ss : List String) : List String := sortBy (fun s t => decide (s ≤ t)) ss

theorem sorted_perm (ss : List String) : (sorted ss).Perm ss := sortBy_perm _ ss

theorem mem_sorted {s : String} {ss : List String} : s ∈ sorted ss ↔ s ∈ ss := mem_sortBy _

theorem insertBy_ordered (s : String) {ts : List String} (h : ts.Pairwise (· ≤ ·)) :
    (insertBy (fun s t => decide (s ≤ t)) s ts).Pairwise (· ≤ ·) := by
  induction ts with
  | nil => exact List.pairwise_singleton _ _
  | cons t ts ih =>
    obtain ⟨ht, hts⟩ := List.pairwise_cons.1 h
    rw [insertBy]
    split
    · next hs =>
      rw [decide_eq_true_eq] at hs
      refine List.pairwise_cons.2 ⟨fun u hu => ?_, h⟩
      rcases List.mem_cons.1 hu with rfl | hu
      · exact hs
      · exact String.le_trans hs (ht u hu)
    · next hs =>
      rw [decide_eq_true_eq] at hs
      refine List.pairwise_cons.2 ⟨fun u hu => ?_, ih hts⟩
      rcases List.mem_cons.1 ((insertBy_perm _ s ts).mem_iff.1 hu) with rfl | hu
      · exact (String.le_total u t).resolve_left hs
      · exact ht u hu

theorem sorted_ordered (ss : List String) : (sorted ss).Pairwise (· ≤ ·) := by
  induction ss with
  | nil => exact .nil
  | cons s ss ih => exact insertBy_ordered s ih

end Text

end Hotpatch
