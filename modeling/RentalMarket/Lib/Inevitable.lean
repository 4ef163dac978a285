import RentalMarket.Lib.Runs

namespace RentalMarket.Runs

variable {S A : Type*}

/-- Every way on reaches `P`, and there is a way on until it has. -/
inductive Inevitable (step : S → A → Option S) (P : S → Prop) : S → Prop
  | here {s : S} (hP : P s) : Inevitable step P s
  | later {s : S} (hon : ∃ a t, step s a = some t) (hall : ∀ a t, step s a = some t → Inevitable step P t) :
      Inevitable step P s

variable {step : S → A → Option S} {P : S → Prop}

/-- The variant rule: short of `P` there is a step, and each lowers the variant. -/
theorem inevitable_of_variant {I : S → Prop} {V : S → Nat} (hon : ∀ s, I s → ¬P s → ∃ a t, step s a = some t)
    (hlower : ∀ s a t, I s → ¬P s → step s a = some t → I t ∧ V t < V s) {s : S} (hs : I s) :
    Inevitable step P s := by
  induction hn : V s using Nat.strongRecOn generalizing s with
  | ind n ih =>
    by_cases hP : P s
    · exact .here hP
    · refine .later (hon s hs hP) fun a t ht => ?_
      obtain ⟨hI, hless⟩ := hlower s a t hs hP ht
      exact ih (V t) (hn ▸ hless) hI rfl

end RentalMarket.Runs
