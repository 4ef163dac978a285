import Mathlib.Data.List.Sort

namespace RentalMarket

variable {α κ : Type*} [LinearOrder κ]

/-- `ORDER BY key`. Rows of one key come in the order they were stored in. -/
def sortedBy (key : α → κ) (l : List α) : List α := l.insertionSort (fun a b => key a ≤ key b)

instance total_key (key : α → κ) : Std.Total (fun a b => key a ≤ key b) := ⟨fun a b => le_total (key a) (key b)⟩

instance isTrans_key (key : α → κ) : IsTrans α (fun a b => key a ≤ key b) := ⟨fun _ _ _ => le_trans⟩

variable {key : α → κ} {l l' : List α}

theorem sortedBy_perm : (sortedBy key l).Perm l := List.perm_insertionSort _ _

@[simp] theorem mem_sortedBy {a : α} : a ∈ sortedBy key l ↔ a ∈ l := List.mem_insertionSort _

@[simp] theorem length_sortedBy : (sortedBy key l).length = l.length := List.length_insertionSort _ _

theorem sortedBy_pairwise : (sortedBy key l).Pairwise (fun a b => key a ≤ key b) := List.pairwise_insertionSort _ _

theorem sortedBy_eq (hperm : l'.Perm l) (hsorted : l'.Pairwise (fun a b => key a ≤ key b))
    (hkey : ∀ a ∈ l, ∀ b ∈ l, key a = key b → a = b) : sortedBy key l = l' := by
  refine List.Perm.eq_of_pairwise ?_ sortedBy_pairwise hsorted (sortedBy_perm.trans hperm.symm)
  intro a b ha hb hab hba
  exact hkey a (mem_sortedBy.mp ha) b (hperm.mem_iff.mp hb) (le_antisymm hab hba)

theorem sortedBy_map {β : Type*} (f : β → α) (l : List β) :
    sortedBy key (l.map f) = (sortedBy (fun b => key (f b)) l).map f :=
  (List.map_insertionSort (fun a b => key (f a) ≤ key (f b)) (fun a b => key a ≤ key b) f l
    (fun _ _ _ _ => Iff.rfl)).symm

variable [DecidableEq α]

theorem sortedBy_eq_filter (hn : l.Nodup) (hn' : l'.Nodup) (hsub : ∀ a ∈ l', a ∈ l)
    (hkey : ∀ a ∈ l, ∀ b ∈ l, key a = key b → a = b) :
    sortedBy key l' = (sortedBy key l).filter (fun a => a ∈ l') := by
  have hsorted : ((sortedBy key l).filter (fun a => a ∈ l')).Nodup := (sortedBy_perm.nodup_iff.mpr hn).filter _
  apply sortedBy_eq
  · apply (List.perm_ext_iff_of_nodup hsorted hn').mpr
    intro a
    simpa using hsub a
  · exact sortedBy_pairwise.filter _
  · intro a ha b hb
    exact hkey a (hsub a ha) b (hsub b hb)

omit [LinearOrder κ] [DecidableEq α] in
theorem take_filter_eq {n : Nat} {p : α → Bool} (hall : ∀ a ∈ l.take n, p a = true) :
    (l.filter p).take n = l.take n := by
  have hsplit : l.filter p = l.take n ++ (l.drop n).filter p := by
    conv_lhs => rw [← List.take_append_drop n l]
    rw [List.filter_append, List.filter_eq_self.mpr hall]
  rw [hsplit, List.take_append, List.take_take, Nat.min_self, List.length_take]
  by_cases hn : n ≤ l.length
  · rw [Nat.min_eq_left hn, Nat.sub_self, List.take_zero, List.append_nil]
  · rw [List.drop_eq_nil_of_le (Nat.le_of_not_le hn), List.filter_nil, List.take_nil, List.append_nil]

theorem eq_of_idxOf_pairwise (hperm : l.Perm l') (hn : l'.Nodup)
    (hsorted : l.Pairwise (fun a b => l'.idxOf a ≤ l'.idxOf b)) : l = l' := by
  have hplaces : l'.Pairwise (fun a b => l'.idxOf a ≤ l'.idxOf b) := by
    rw [List.pairwise_iff_getElem]
    intro i j hi hj hij
    rw [hn.idxOf_getElem i hi, hn.idxOf_getElem j hj]
    exact hij.le
  refine List.Perm.eq_of_pairwise ?_ hsorted hplaces hperm
  intro a b ha _ hab hba
  exact (List.idxOf_inj (hperm.mem_iff.mp ha)).mp (le_antisymm hab hba)

end RentalMarket
