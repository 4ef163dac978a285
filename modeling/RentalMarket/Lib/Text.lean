import Mathlib

namespace RentalMarket.Text

theorem intercalate_injective {sep : Char} {l l' : List String}
    (hl : ∀ s ∈ l, sep ∉ s.toList) (hl' : ∀ s ∈ l', sep ∉ s.toList) (hne : l ≠ []) (hne' : l' ≠ [])
    (h : (String.singleton sep).intercalate l = (String.singleton sep).intercalate l') : l = l' := by
  have hlist : [sep].intercalate (l.map String.toList) = [sep].intercalate (l'.map String.toList) := by
    have hjoin := congrArg String.toList h
    rwa [String.toList_intercalate, String.toList_intercalate, String.toList_singleton] at hjoin
  have hfree : ∀ m : List String, (∀ s ∈ m, sep ∉ s.toList) → ∀ x ∈ m.map String.toList, sep ∉ x := by
    intro m hm x hx
    obtain ⟨s, hs, rfl⟩ := List.mem_map.mp hx
    exact hm s hs
  have hsplit := congrArg (List.splitOn sep) hlist
  rw [List.splitOn_intercalate sep (hfree l hl) (by simpa using hne),
    List.splitOn_intercalate sep (hfree l' hl') (by simpa using hne')] at hsplit
  exact List.map_injective_iff.mpr (fun _ _ => String.toList_inj.mp) hsplit

theorem cut_injective {sep : Char} {u v x y : List Char} (hu : sep ∉ u) (hv : sep ∉ v)
    (h : u ++ sep :: x = v ++ sep :: y) : u = v ∧ x = y := by
  induction u generalizing v with
  | nil =>
    cases v with
    | nil => exact ⟨rfl, (List.cons.inj h).2⟩
    | cons c v => exact absurd ((List.cons.inj h).1 ▸ List.mem_cons_self) hv
  | cons c u ih =>
    cases v with
    | nil => exact absurd ((List.cons.inj h).1 ▸ List.mem_cons_self) hu
    | cons d v =>
      obtain ⟨hcd, htail⟩ := List.cons.inj h
      obtain ⟨huv, hxy⟩ := ih (fun hm => hu (List.mem_cons_of_mem _ hm))
        (fun hm => hv (List.mem_cons_of_mem _ hm)) htail
      exact ⟨by rw [hcd, huv], hxy⟩

theorem append_sep_injective {sep : Char} {x y u v : List Char} (hu : sep ∉ u) (hv : sep ∉ v)
    (h : x ++ sep :: u = y ++ sep :: v) : x = y ∧ u = v := by
  have hrev : u.reverse ++ sep :: x.reverse = v.reverse ++ sep :: y.reverse := by
    simpa using congrArg List.reverse h
  obtain ⟨huv, hxy⟩ := cut_injective (by simpa using hu) (by simpa using hv) hrev
  exact ⟨List.reverse_injective hxy, List.reverse_injective huv⟩

theorem not_mem_natRepr {c : Char} (hc : c.isDigit = false) (n : Nat) : c ∉ (Nat.repr n).toList := by
  intro h
  have hdigits : (Nat.repr n).toList = Nat.toDigits 10 n := by simp [Nat.repr]
  rw [hdigits] at h
  rw [Nat.isDigit_of_mem_toDigits (by omega) (by omega) h] at hc
  cases hc

theorem not_mem_intRepr {c : Char} (hc : c.isDigit = false) (hminus : c ≠ '-') (n : Int) :
    c ∉ (Int.repr n).toList := by
  cases n with
  | ofNat n => exact not_mem_natRepr hc n
  | negSucc n =>
    intro h
    rcases (by simpa [Int.repr] using h : c = '-' ∨ c ∈ (n + 1).repr.toList) with h | h
    · exact hminus h
    · exact not_mem_natRepr hc (n + 1) h

variable {α : Type*} [LinearOrder α]

theorem insertionSort_eq_iff {l l' : List α} :
    l.insertionSort (· ≤ ·) = l'.insertionSort (· ≤ ·) ↔ l.Perm l' := by
  constructor
  · intro h
    exact (List.perm_insertionSort (· ≤ ·) l).symm.trans
      (h ▸ List.perm_insertionSort (· ≤ ·) l')
  · intro h
    refine List.Perm.eq_of_pairwise' (r := (· ≤ ·)) (List.pairwise_insertionSort _ _)
      (List.pairwise_insertionSort _ _) ?_
    exact (List.perm_insertionSort _ l).trans (h.trans (List.perm_insertionSort _ l').symm)

end RentalMarket.Text
