import Mathlib

namespace RentalMarket

variable {α β : Type*} [LinearOrder β]

/-- The least element of a list under a cost, and of several the first. An element to
beat may be given. -/
def firstMin (cost : α → β) : Option α → List α → Option α
  | best, [] => best
  | none, a :: l => firstMin cost (some a) l
  | some b, a :: l => firstMin cost (some (if cost a < cost b then a else b)) l

namespace FirstMin

/-- Nothing before the element costs as little, and nothing after it less. -/
structure First (cost : α → β) (l : List α) (b : α) (pre post : List α) : Prop where
  cut : l = pre ++ b :: post
  before : ∀ a ∈ pre, cost b < cost a
  after : ∀ a ∈ post, cost b ≤ cost a

variable {cost : α → β} {l : List α} {b best : α}

theorem of_some (h : firstMin cost (some best) l = some b) :
    (b = best ∧ ∀ a ∈ l, cost b ≤ cost a) ∨ (cost b < cost best ∧ ∃ pre post, First cost l b pre post) := by
  induction l generalizing best with
  | nil =>
    cases h
    exact .inl ⟨rfl, nofun⟩
  | cons a l ih =>
    rw [firstMin] at h
    by_cases hless : cost a < cost best
    · rw [if_pos hless] at h
      obtain ⟨rfl, hall⟩ | ⟨hlt, pre, post, hfirst⟩ := ih h
      · exact .inr ⟨hless, [], l, rfl, nofun, hall⟩
      · refine .inr ⟨hlt.trans hless, a :: pre, post, ?_, ?_, hfirst.after⟩
        · rw [hfirst.cut, List.cons_append]
        · exact List.forall_mem_cons.mpr ⟨hlt, hfirst.before⟩
    · rw [if_neg hless] at h
      obtain ⟨rfl, hall⟩ | ⟨hlt, pre, post, hfirst⟩ := ih h
      · exact .inl ⟨rfl, List.forall_mem_cons.mpr ⟨not_lt.mp hless, hall⟩⟩
      · refine .inr ⟨hlt, a :: pre, post, ?_, ?_, hfirst.after⟩
        · rw [hfirst.cut, List.cons_append]
        · exact List.forall_mem_cons.mpr ⟨hlt.trans_le (not_lt.mp hless), hfirst.before⟩

theorem of_none (h : firstMin cost none l = some b) : ∃ pre post, First cost l b pre post := by
  cases l with
  | nil => cases h
  | cons a l =>
    rw [firstMin] at h
    obtain ⟨rfl, hall⟩ | ⟨hlt, pre, post, hfirst⟩ := of_some h
    · exact ⟨[], l, rfl, nofun, hall⟩
    · refine ⟨a :: pre, post, ?_, ?_, hfirst.after⟩
      · rw [hfirst.cut, List.cons_append]
      · exact List.forall_mem_cons.mpr ⟨hlt, hfirst.before⟩

theorem isSome (cost : α → β) (best : α) (l : List α) : ∃ b, firstMin cost (some best) l = some b := by
  induction l generalizing best with
  | nil => exact ⟨best, rfl⟩
  | cons a l ih => exact ih _

theorem isSome_of_ne_nil (cost : α → β) (h : l ≠ []) : ∃ b, firstMin cost none l = some b := by
  obtain ⟨a, l, rfl⟩ := List.exists_cons_of_ne_nil h
  exact isSome cost a l

variable {pre post : List α}

theorem First.mem (h : First cost l b pre post) : b ∈ l := by
  rw [h.cut]
  exact List.mem_append_right _ List.mem_cons_self

theorem First.le (h : First cost l b pre post) {a : α} (ha : a ∈ l) : cost b ≤ cost a := by
  rw [h.cut] at ha
  obtain hpre | hrest := List.mem_append.mp ha
  · exact (h.before a hpre).le
  · obtain rfl | hpost := List.mem_cons.mp hrest
    · exact le_rfl
    · exact h.after a hpost

theorem First.not_before (h : First cost l b pre post) {a : α} (ha : a ∈ l) (hcost : cost a = cost b) :
    a = b ∨ a ∈ post := by
  rw [h.cut] at ha
  obtain hpre | hrest := List.mem_append.mp ha
  · exact absurd hcost.symm (ne_of_lt (h.before a hpre))
  · exact List.mem_cons.mp hrest

end FirstMin

end RentalMarket
