import Mathlib.Data.List.Nodup

namespace RentalMarket.Keyed

variable {α κ : Type*} [DecidableEq κ] {key : α → κ}

theorem filter_key_eq_singleton {l : List α} (hn : (l.map key).Nodup) {a : α} (ha : a ∈ l) :
    l.filter (fun x => key x = key a) = [a] := by
  induction l with
  | nil => cases ha
  | cons b l ih =>
    rw [List.map_cons, List.nodup_cons] at hn
    rcases List.mem_cons.mp ha with rfl | ha
    · have hnone : l.filter (fun x => key x = key a) = [] := by
        refine List.filter_eq_nil_iff.mpr (fun x hx hk => hn.1 ?_)
        rw [decide_eq_true_eq] at hk
        exact List.mem_map.mpr ⟨x, hx, hk⟩
      rw [List.filter_cons_of_pos (by simp), hnone]
    · have hne : key b ≠ key a := fun h => hn.1 (List.mem_map.mpr ⟨a, ha, h.symm⟩)
      rw [List.filter_cons_of_neg (by simpa using hne), ih hn.2 ha]

omit [DecidableEq κ] in
theorem eq_of_key {l : List α} (hn : (l.map key).Nodup) {a b : α} (ha : a ∈ l) (hb : b ∈ l)
    (h : key a = key b) : a = b := List.inj_on_of_nodup_map hn ha hb h

omit [DecidableEq κ] in
theorem nodup_append {l : List α} {a : α} (hn : (l.map key).Nodup) (ha : ∀ b ∈ l, key b ≠ key a) :
    ((l ++ [a]).map key).Nodup := by
  rw [List.map_append, List.map_singleton]
  refine hn.append (List.nodup_singleton _) (List.disjoint_singleton.mpr ?_)
  intro hmem
  obtain ⟨b, hb, he⟩ := List.mem_map.mp hmem
  exact ha b hb he

omit [DecidableEq κ] in
theorem nodup_filterMap {β : Type*} {key' : β → κ} {l : List α} {f : α → Option β} (hn : (l.map key).Nodup)
    (hf : ∀ a b, f a = some b → key' b = key a) : ((l.filterMap f).map key').Nodup := by
  rw [List.Nodup, List.pairwise_map] at hn ⊢
  apply List.pairwise_filterMap.mpr
  apply hn.imp
  intro a a' hne b hb b' hb'
  rw [hf a b hb, hf a' b' hb']
  exact hne

omit [DecidableEq κ] in
theorem length_le_one {l : List α} (hn : (l.map key).Nodup) {k : κ} (h : ∀ a ∈ l, key a = k) :
    l.length ≤ 1 := by
  have hall : ∀ k' ∈ l.map key, k' = k := by
    intro k' hk'
    obtain ⟨a, ha, rfl⟩ := List.mem_map.mp hk'
    exact h a ha
  rw [List.eq_replicate_of_mem hall, List.nodup_replicate, List.length_map] at hn
  exact hn

theorem find?_key {l : List α} (hn : (l.map key).Nodup) {a : α} (ha : a ∈ l) :
    l.find? (fun x => key x = key a) = some a := by
  cases h : l.find? (fun x => key x = key a) with
  | none => exact absurd ha (by simpa using fun hm => List.find?_eq_none.mp h a hm (by simp))
  | some b =>
    have hk : key b = key a := by simpa using List.find?_some h
    rw [eq_of_key hn (List.mem_of_find?_eq_some h) ha hk]

section

variable {l : List α} {k : κ} {change : α → α}

theorem mem_changed {b : α} :
    b ∈ l.map (fun a => if key a = k then change a else a) ↔
      (b ∈ l ∧ key b ≠ k) ∨ ∃ a ∈ l, key a = k ∧ b = change a := by
  rw [List.mem_map]
  constructor
  · rintro ⟨a, ha, rfl⟩
    by_cases hk : key a = k
    · rw [if_pos hk]
      exact .inr ⟨a, ha, hk, rfl⟩
    · rw [if_neg hk]
      exact .inl ⟨ha, hk⟩
  · rintro (⟨hb, hk⟩ | ⟨a, ha, hk, rfl⟩)
    · exact ⟨b, hb, if_neg hk⟩
    · exact ⟨a, ha, if_pos hk⟩

theorem key_changed (hchange : ∀ a, key (change a) = key a) (a : α) :
    key (if key a = k then change a else a) = key a := by
  split
  · exact hchange a
  · rfl

theorem keys_changed (hchange : ∀ a, key (change a) = key a) :
    (l.map (fun a => if key a = k then change a else a)).map key = l.map key := by
  rw [List.map_map]
  apply List.map_congr_left
  intro a _
  exact key_changed hchange a

theorem find?_changed (hchange : ∀ a, key (change a) = key a) (j : κ) :
    (l.map (fun a => if key a = k then change a else a)).find? (fun a => key a = j) =
      (l.find? (fun a => key a = j)).map (fun a => if key a = k then change a else a) := by
  rw [List.find?_map]
  congr 2
  funext a
  rw [Function.comp_apply, key_changed hchange]

theorem length_filter_changed (hn : (l.map key).Nodup) (p : α → Bool) :
    (l.filter p).length ≤ ((l.map (fun a => if key a = k then change a else a)).filter p).length + 1 := by
  induction l with
  | nil => simp
  | cons b l ih =>
    rw [List.map_cons, List.nodup_cons] at hn
    rw [List.map_cons]
    by_cases hb : key b = k
    · have hsame : l.map (fun a => if key a = k then change a else a) = l := by
        rw [List.map_congr_left (g := id), List.map_id]
        intro a ha
        apply if_neg
        intro hk
        exact hn.1 (List.mem_map.mpr ⟨a, ha, hk.trans hb.symm⟩)
      rw [hsame, if_pos hb]
      simp only [List.filter_cons, apply_ite List.length, List.length_cons]
      split <;> split <;> omega
    · have ih := ih hn.2
      rw [if_neg hb]
      simp only [List.filter_cons]
      split
      · simp only [List.length_cons]
        omega
      · exact ih

theorem length_filter_changed_mono {p : α → Bool}
    (hchange : ∀ a ∈ l, key a = k → p a = true → p (change a) = true) :
    (l.filter p).length ≤ ((l.map (fun a => if key a = k then change a else a)).filter p).length := by
  rw [← List.countP_eq_length_filter, ← List.countP_eq_length_filter, List.countP_map]
  apply List.countP_mono_left
  intro a ha hp
  simp only [Function.comp_apply]
  split
  · rename_i hk
    exact hchange a ha hk hp
  · exact hp

end

end RentalMarket.Keyed
