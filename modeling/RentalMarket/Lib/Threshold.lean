import Mathlib.Order.Nat
import RentalMarket.Lib.Refusal

namespace RentalMarket.Threshold

variable {ε : Type*}

def firstFrom (test : Nat → Except ε Bool) : Nat → Nat → Except ε (Option Nat)
  | _, 0 => .ok none
  | n, count + 1 => (test n).bind (fun passes => if passes then .ok (some n) else firstFrom test (n + 1) count)

variable {test : Nat → Except ε Bool} {start count n : Nat}

theorem firstFrom_some (h : firstFrom test start count = .ok (some n)) :
    start ≤ n ∧ n < start + count ∧ test n = .ok true ∧ ∀ k, start ≤ k → k < n → test k = .ok false := by
  induction count generalizing start with
  | zero => cases h
  | succ count ih =>
    obtain ⟨passes, hpasses, h⟩ := Refusal.bind_eq_ok.mp h
    cases passes with
    | true =>
      cases h
      exact ⟨le_rfl, by omega, hpasses, fun k hle hlt => by omega⟩
    | false =>
      obtain ⟨hle, hlt, htest, hbefore⟩ := ih h
      refine ⟨by omega, by omega, htest, fun k hk hkn => ?_⟩
      obtain rfl | hne := hk.eq_or_lt
      · exact hpasses
      · exact hbefore k hne hkn

theorem firstFrom_none (h : firstFrom test start count = .ok none) :
    ∀ k, start ≤ k → k < start + count → test k = .ok false := by
  induction count generalizing start with
  | zero => exact fun k hle hlt => by omega
  | succ count ih =>
    obtain ⟨passes, hpasses, h⟩ := Refusal.bind_eq_ok.mp h
    cases passes with
    | true => cases h
    | false =>
      intro k hk hlt
      obtain rfl | hne := hk.eq_or_lt
      · exact hpasses
      · exact ih h k hne (by omega)

theorem firstFrom_ok (htest : ∀ k, start ≤ k → ∃ passes, test k = .ok passes) (count : Nat) :
    ∃ found, firstFrom test start count = .ok found := by
  induction count generalizing start with
  | zero => exact ⟨none, rfl⟩
  | succ count ih =>
    obtain ⟨passes, hpasses⟩ := htest start le_rfl
    cases passes with
    | true => exact ⟨some start, by rw [firstFrom, hpasses]; rfl⟩
    | false =>
      have hrest : ∀ k, start + 1 ≤ k → ∃ passes, test k = .ok passes := fun k hk => htest k (by omega)
      obtain ⟨found, hfound⟩ := ih hrest
      refine ⟨found, ?_⟩
      rw [firstFrom, hpasses, Except.bind, if_neg Bool.false_ne_true]
      exact hfound

end RentalMarket.Threshold
