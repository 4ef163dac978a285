import RentalMarket.Lib.Keyed
import Mathlib.Data.List.Sort

namespace RentalMarket.Backlog

variable {α κ : Type*} {key : α → κ} (le : α → α → Prop) [DecidableRel le]

/-- What is waiting, in the order it is served in. -/
def backlog (waiting : α → Bool) (l : List α) : List α := (l.filter waiting).insertionSort le

variable {le} {waiting : α → Bool} {l : List α}

theorem mem_backlog {a : α} : a ∈ backlog le waiting l ↔ a ∈ l ∧ waiting a = true := by
  rw [backlog, List.mem_insertionSort, List.mem_filter]

theorem length_backlog : (backlog le waiting l).length = l.countP waiting := by
  rw [backlog, List.length_insertionSort, List.countP_eq_length_filter]

theorem nodup_backlog (hn : (l.map key).Nodup) : ((backlog le waiting l).map key).Nodup := by
  have hperm : (backlog le waiting l).Perm (l.filter waiting) := List.perm_insertionSort le _
  apply (hperm.map key).nodup_iff.mpr
  exact hn.sublist (List.filter_sublist.map key)

theorem mem_drop_backlog (hn : (l.map key).Nodup) {n : Nat} {a : α} :
    a ∈ (backlog le waiting l).drop n ↔
      a ∈ backlog le waiting l ∧ key a ∉ ((backlog le waiting l).take n).map key := by
  have hkeys : ((backlog le waiting l).map key).Nodup := nodup_backlog hn
  rw [← List.take_append_drop n (backlog le waiting l), List.map_append, List.nodup_append] at hkeys
  constructor
  · intro ha
    refine ⟨List.mem_of_mem_drop ha, fun hk => ?_⟩
    exact hkeys.2.2 (key a) hk (key a) (List.mem_map_of_mem ha) rfl
  · rintro ⟨ha, hk⟩
    rw [← List.take_append_drop n (backlog le waiting l), List.mem_append] at ha
    exact ha.resolve_left (fun ht => hk (List.mem_map_of_mem ht))

variable [DecidableEq κ]

theorem mem_backlog_served {serve : α → α} (hserve : ∀ a, waiting (serve a) = false) {ks : List κ} {a : α} :
    a ∈ backlog le waiting (l.map (fun a => if key a ∈ ks then serve a else a)) ↔
      a ∈ backlog le waiting l ∧ key a ∉ ks := by
  rw [mem_backlog, mem_backlog, List.mem_map]
  constructor
  · rintro ⟨⟨b, hb, rfl⟩, hw⟩
    by_cases hk : key b ∈ ks
    · rw [if_pos hk, hserve] at hw
      cases hw
    · rw [if_neg hk] at hw ⊢
      exact ⟨⟨hb, hw⟩, hk⟩
  · rintro ⟨⟨ha, hw⟩, hk⟩
    exact ⟨⟨a, ha, if_neg hk⟩, hw⟩

variable [Std.Total le] [IsTrans α le]

theorem pairwise_backlog : (backlog le waiting l).Pairwise le := List.pairwise_insertionSort le _

theorem le_of_take_of_drop {n : Nat} {a b : α} (ha : a ∈ (backlog le waiting l).take n)
    (hb : b ∈ (backlog le waiting l).drop n) : le a b := by
  have hsorted : (backlog le waiting l).Pairwise le := pairwise_backlog
  rw [← List.take_append_drop n (backlog le waiting l), List.pairwise_append] at hsorted
  exact hsorted.2.2 a ha b hb

/-- Once a batch has been served, the rest of the backlog waits in the order it
had. -/
theorem backlog_served (hn : (l.map key).Nodup) (hanti : ∀ a b, le a b → le b a → key a = key b)
    {serve : α → α} (hkey : ∀ a, key (serve a) = key a) (hserve : ∀ a, waiting (serve a) = false) (n : Nat) :
    backlog le waiting (l.map (fun a => if key a ∈ ((backlog le waiting l).take n).map key then serve a else a)) =
      (backlog le waiting l).drop n := by
  generalize hks : ((backlog le waiting l).take n).map key = ks
  have hn' : ((l.map (fun a => if key a ∈ ks then serve a else a)).map key).Nodup := by
    rw [List.map_map]
    have hsame : key ∘ (fun a => if key a ∈ ks then serve a else a) = key := by
      funext a
      rw [Function.comp_apply]
      split
      · exact hkey a
      · rfl
    rw [hsame]
    exact hn
  have hmem : ∀ a, a ∈ backlog le waiting (l.map (fun a => if key a ∈ ks then serve a else a)) ↔
      a ∈ (backlog le waiting l).drop n := by
    intro a
    rw [mem_backlog_served hserve, mem_drop_backlog hn, hks]
  apply List.Perm.eq_of_pairwise
  · intro a b ha hb hab hba
    have ha' := mem_backlog.mp (List.mem_of_mem_drop ((hmem a).mp ha))
    exact Keyed.eq_of_key hn ha'.1 (mem_backlog.mp (List.mem_of_mem_drop hb)).1 (hanti a b hab hba)
  · exact pairwise_backlog
  · exact pairwise_backlog.sublist (List.drop_sublist n _)
  · apply (List.perm_ext_iff_of_nodup ?_ ?_).mpr hmem
    · exact (nodup_backlog hn').of_map key
    · exact ((nodup_backlog hn).of_map key).sublist (List.drop_sublist n _)

end RentalMarket.Backlog
