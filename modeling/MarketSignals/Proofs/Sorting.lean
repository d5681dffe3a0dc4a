import Mathlib.Data.List.Basic

/-!
# Sorting by a preorder

What sorting leaves undecided. Entries that the order does not tell apart keep the order they came
in; and where the order tells all entries apart, it does not matter how they came.

## Main results

* `filter_mergeSort_of_ties`: a class of ties is sorted to what it was.
* `pairwise_mergeSort_of_pairwise`: what relates earlier entries to later ones still does so where
  they are tied.
* `mergeSort_eq_of_perm`: two arrangements of entries that are told apart are sorted alike.
-/

namespace MarketSignals

variable {α : Type} {le : α → α → Bool} {l l' : List α}

section Preorder

variable (htrans : ∀ a b c, le a b → le b c → le a c) (htotal : ∀ a b, le a b || le b a)
include htrans htotal

/-- Entries that the order does not tell apart keep the order they came in. -/
theorem filter_mergeSort_of_ties {p : α → Bool} (hties : ∀ a b, p a → p b → le a b) (l : List α) :
    (l.mergeSort le).filter p = l.filter p := by
  have hsorted : (l.filter p).Pairwise fun a b => le a b :=
    List.pairwise_of_forall_mem_list fun a ha b hb =>
      hties a b (List.of_mem_filter ha) (List.of_mem_filter hb)
  -- What is sorted already stays a part of the result, and there is no more of its kind.
  have hsub := (List.sublist_mergeSort htrans htotal hsorted List.filter_sublist).filter p
  rw [List.filter_filter] at hsub
  simp only [Bool.and_self] at hsub
  exact (hsub.eq_of_length ((List.mergeSort_perm l le).filter p).length_eq.symm).symm

/-- A relation of earlier entries to later ones is kept where the order does not tell them
apart. -/
theorem pairwise_mergeSort_of_pairwise {r : α → α → Prop} (h : l.Pairwise r) :
    (l.mergeSort le).Pairwise fun a b => le a b ∧ (le b a → r a b) := by
  rw [List.pairwise_iff_forall_sublist]
  intro a b hsub
  have hab : le a b :=
    List.pairwise_iff_forall_sublist.mp (List.pairwise_mergeSort htrans htotal l) hsub
  refine ⟨hab, fun hba => List.pairwise_iff_forall_sublist.mp h ?_⟩
  have haa : le a a := (Bool.or_self _).symm.trans (htotal a a)
  let tied := fun c => le a c && le c a
  have hties : (l.mergeSort le).filter tied = l.filter tied := by
    refine filter_mergeSort_of_ties htrans htotal (fun c d hc hd => ?_) l
    exact htrans c a d (Bool.and_eq_true_iff.mp hc).2 (Bool.and_eq_true_iff.mp hd).1
  have hpair : [a, b].filter tied = [a, b] := by
    simp [tied, haa, hab, hba]
  have hfiltered : ([a, b].filter tied).Sublist ((l.mergeSort le).filter tied) := hsub.filter tied
  rw [hpair, hties] at hfiltered
  exact hfiltered.trans List.filter_sublist

/-- Entries that the order tells apart are sorted alike, however they came. -/
theorem mergeSort_eq_of_perm (hperm : l.Perm l')
    (hdistinct : ∀ a ∈ l, ∀ b ∈ l, le a b → le b a → a = b) : l.mergeSort le = l'.mergeSort le := by
  have hsame : (l.mergeSort le).Perm (l'.mergeSort le) :=
    (List.mergeSort_perm l le).trans (hperm.trans (List.mergeSort_perm l' le).symm)
  refine List.Perm.eq_of_pairwise (fun a b ha hb hab hba => ?_)
    (List.pairwise_mergeSort htrans htotal l) (List.pairwise_mergeSort htrans htotal l') hsame
  have ha' : a ∈ l := List.mem_mergeSort.mp ha
  have hb' : b ∈ l := List.mem_mergeSort.mp (hsame.mem_iff.mpr hb)
  exact hdistinct a ha' b hb' hab hba

end Preorder

end MarketSignals
