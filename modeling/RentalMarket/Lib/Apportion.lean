import Mathlib

namespace RentalMarket.Apportion

def whole (amount total weight : ℕ) : ℕ := amount * weight / total

section Whole

variable {amount total : ℕ}

theorem sum_whole_le (weights : List ℕ) : total * (weights.map (whole amount total)).sum ≤ amount * weights.sum := by
  induction weights with
  | nil => simp
  | cons w weights ih =>
    have hshare := Nat.mul_div_le (amount * w) total
    simp only [List.map_cons, List.sum_cons, Nat.mul_add, whole] at ih ⊢
    omega

theorem lt_sum_whole (htotal : 0 < total) (weights : List ℕ) :
    amount * weights.sum ≤ total * ((weights.map (whole amount total)).sum + weights.countP (0 < ·)) := by
  induction weights with
  | nil => simp
  | cons w weights ih =>
    have hshare := Nat.lt_mul_div_succ (amount * w) htotal
    by_cases hw : 0 < w
    · simp only [List.map_cons, List.sum_cons, Nat.mul_add, whole, Nat.mul_one, hw, decide_true,
        List.countP_cons_of_pos] at ih hshare ⊢
      omega
    · obtain rfl : w = 0 := by omega
      simpa [Nat.mul_add, whole] using ih

theorem leftover_bounds {weights : List ℕ} (htotal : 0 < weights.sum) :
    (weights.map (whole amount weights.sum)).sum ≤ amount ∧
      amount ≤ (weights.map (whole amount weights.sum)).sum + weights.countP (0 < ·) := by
  have hle : weights.sum * (weights.map (whole amount weights.sum)).sum ≤ amount * weights.sum := sum_whole_le weights
  have hge : amount * weights.sum ≤
      weights.sum * ((weights.map (whole amount weights.sum)).sum + weights.countP (0 < ·)) :=
    lt_sum_whole htotal weights
  rw [Nat.mul_comm amount] at hle hge
  exact ⟨Nat.le_of_mul_le_mul_left hle htotal, Nat.le_of_mul_le_mul_left hge htotal⟩

end Whole

def handOut (unit : ℤ) (places : List ℕ) (shares : List ℤ) : List ℤ :=
  places.foldl (fun shares i => shares.modify i (· + unit)) shares

section HandOut

variable {unit : ℤ} {places : List ℕ} {shares : List ℤ}

@[simp] theorem handOut_nil : handOut unit [] shares = shares := rfl

@[simp] theorem handOut_cons (i : ℕ) :
    handOut unit (i :: places) shares = handOut unit places (shares.modify i (· + unit)) := rfl

@[simp] theorem length_handOut : (handOut unit places shares).length = shares.length := by
  induction places generalizing shares with
  | nil => rfl
  | cons i places ih => rw [handOut_cons, ih, List.length_modify]

theorem getElem?_handOut (j : ℕ) :
    (handOut unit places shares)[j]? = shares[j]?.map (· + unit * places.count j) := by
  induction places generalizing shares with
  | nil => simp
  | cons i places ih =>
    rw [handOut_cons, ih, List.getElem?_modify, List.count_cons]
    cases shares[j]? with
    | none => rfl
    | some share =>
      by_cases hij : i = j
      · simp only [hij, if_true, Option.map_eq_map, Option.map_some, beq_self_eq_true, Option.some_inj]
        push_cast
        ring
      · simp [hij]

theorem sum_modify (i : ℕ) (hi : i < shares.length) : (shares.modify i (· + unit)).sum = shares.sum + unit := by
  induction shares generalizing i with
  | nil => cases hi
  | cons share shares ih =>
    cases i with
    | zero =>
      rw [List.modify_zero_cons, List.sum_cons, List.sum_cons]
      ring
    | succ i =>
      rw [List.modify_succ_cons, List.sum_cons, List.sum_cons, ih i (Nat.lt_of_succ_lt_succ hi)]
      ring

theorem sum_handOut (h : ∀ i ∈ places, i < shares.length) :
    (handOut unit places shares).sum = shares.sum + unit * places.length := by
  induction places generalizing shares with
  | nil => simp
  | cons i places ih =>
    obtain ⟨hi, hplaces⟩ := List.forall_mem_cons.mp h
    rw [handOut_cons, ih (by simpa using hplaces), sum_modify i hi, List.length_cons]
    push_cast
    ring

theorem handOut_neg : handOut (-unit) places (shares.map (-·)) = (handOut unit places shares).map (-·) := by
  induction places generalizing shares with
  | nil => rfl
  | cons i places ih =>
    have hmodify : (shares.map (-·)).modify i (· + -unit) = (shares.modify i (· + unit)).map (-·) := by
      apply List.ext_getElem?
      intro j
      rw [List.getElem?_modify, List.getElem?_map, List.getElem?_map, List.getElem?_modify]
      cases shares[j]? with
      | none => rfl
      | some share =>
        by_cases hij : i = j
        · simp [hij, add_comm]
        · simp [hij]
    rw [handOut_cons, handOut_cons, hmodify, ih]

end HandOut

section InTurn

variable {α : Type*} {order : List α} {n : ℕ}

/-- The entries that take the first turns, from the start again when all had one. -/
def inTurn (order : List α) (n : ℕ) : List α := (List.range n).filterMap (fun i => order[i % order.length]?)

theorem inTurn_eq_take (hn : n ≤ order.length) : inTurn order n = order.take n := by
  induction n with
  | zero => rfl
  | succ n ih =>
    have hlt : n < order.length := hn
    have hnext : [n].filterMap (fun i => order[i % order.length]?) = [order[n]] := by
      rw [List.filterMap_cons, Nat.mod_eq_of_lt hlt, List.getElem?_eq_getElem hlt]
      rfl
    rw [inTurn, List.range_succ, List.filterMap_append, ← inTurn, ih hlt.le, hnext,
      List.take_succ_eq_append_getElem hlt]

theorem pos_of_mem_take {κ : Type*} [LinearOrder κ] [Zero κ] {weight : α → κ}
    (hsorted : order.Pairwise (fun a b => weight b ≤ weight a)) (hn : n ≤ order.countP (0 < weight ·)) {a : α}
    (ha : a ∈ order.take n) : 0 < weight a := by
  induction order generalizing n with
  | nil => simp at ha
  | cons b order ih =>
    obtain ⟨hfirst, hrest⟩ := List.pairwise_cons.mp hsorted
    by_cases hb : 0 < weight b
    · cases n with
      | zero => simp at ha
      | succ n =>
        rw [List.take_succ_cons, List.mem_cons] at ha
        rw [List.countP_cons_of_pos (by simpa using hb)] at hn
        obtain rfl | ha := ha
        · exact hb
        · exact ih hrest (Nat.le_of_succ_le_succ hn) ha
    · have hnone : (b :: order).countP (0 < weight ·) = 0 := by
        rw [List.countP_eq_zero]
        intro c hc
        obtain rfl | hc := List.mem_cons.mp hc
        · simpa using hb
        · simpa using (hfirst c hc).trans (not_lt.mp hb)
      rw [hnone, Nat.le_zero] at hn
      rw [hn, List.take_zero] at ha
      cases ha

end InTurn

end RentalMarket.Apportion
