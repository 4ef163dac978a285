import RentalMarket.Lib.NumberText

namespace RentalMarket.Core

inductive Currency where
  | gbp
  deriving DecidableEq, Repr

def Currency.code : Currency → String
  | .gbp => "GBP"

@[ext] structure Money where
  amount : Int
  currency : Currency
  deriving DecidableEq, Repr

namespace Money

def maxSafeInteger : Int := 9007199254740991

def notAnInteger (received : String) : String :=
  s!"Money must be an integer number of minor units, received {received}. Use fromMajor() to build from a decimal string."

/-- The magnitudes from here on are rounded to infinity, which is no integer. -/
def roundedToInfinity : Int := 2 ^ 1024 - 2 ^ 970

/-- Why an amount is refused that is not safe. The template writes the double
that it is, in as few digits as name it. -/
def notSafe (amount : Int) : String :=
  let sign := if amount < 0 then "-" else ""
  if roundedToInfinity ≤ amount.natAbs then notAnInteger (sign ++ "Infinity")
  else s!"Money amount {sign ++ String.ofList (Script.magnitudeText (Script.toDouble amount.natAbs))} exceeds safe integer range"

/-- The constructor every other operation goes through. Amounts are whole
minor units here, so only the safe-integer guard is left to check. -/
def money (amount : Int) (currency : Currency) : Except String Money :=
  if -maxSafeInteger ≤ amount ∧ amount ≤ maxSafeInteger then .ok ⟨amount, currency⟩
  else .error (notSafe amount)

def zero (currency : Currency) : Money := ⟨0, currency⟩

def currencyMismatch (a b : Money) : String :=
  s!"Currency mismatch: cannot combine {a.currency.code} with {b.currency.code}"

def add (a b : Money) : Except String Money :=
  if a.currency = b.currency then money (a.amount + b.amount) a.currency
  else .error (currencyMismatch a b)

def subtract (a b : Money) : Except String Money :=
  if a.currency = b.currency then money (a.amount - b.amount) a.currency
  else .error (currencyMismatch a b)

def sum (values : List Money) (currency : Currency) : Except String Money :=
  values.foldlM add (zero currency)

def lessThan (a b : Money) : Except String Bool :=
  if a.currency = b.currency then .ok (decide (a.amount < b.amount))
  else .error (currencyMismatch a b)

def greaterThan (a b : Money) : Except String Bool :=
  if a.currency = b.currency then .ok (decide (a.amount > b.amount))
  else .error (currencyMismatch a b)

def maxOf (a b : Money) : Except String Money :=
  (greaterThan a b).map (fun greater => if greater then a else b)

def times (m : Money) (count : Nat) : Except String Money := money (m.amount * count) m.currency

def grouped (n : Nat) : String :=
  if n < 1000 then n.repr
  else grouped (n / 1000) ++ "," ++ String.ofList (((n % 1000 + 1000).repr.toList).drop 1)
  termination_by n
  decreasing_by omega

def format (m : Money) : String :=
  (if m.amount < 0 then "-£" else "£") ++ grouped (m.amount.natAbs / 100) ++ "." ++
    String.ofList (((m.amount.natAbs % 100 + 100).repr.toList).drop 1)

theorem money_eq_ok {amount : Int} {currency : Currency} {m : Money}
    (h : money amount currency = .ok m) : m = ⟨amount, currency⟩ := by
  unfold money at h
  split at h
  · cases h; rfl
  · cases h

theorem add_eq_ok {a b m : Money} (h : add a b = .ok m) :
    m = ⟨a.amount + b.amount, a.currency⟩ := by
  unfold add at h
  split at h
  · exact money_eq_ok h
  · cases h

theorem subtract_eq_ok {a b m : Money} (h : subtract a b = .ok m) :
    m = ⟨a.amount - b.amount, a.currency⟩ := by
  unfold subtract at h
  split at h
  · exact money_eq_ok h
  · cases h

def total (values : List Money) : Int := (values.map (·.amount)).sum

theorem foldlM_add_eq_ok {values : List Money} {a m : Money} (h : values.foldlM add a = .ok m) :
    m = ⟨a.amount + total values, a.currency⟩ := by
  induction values generalizing a with
  | nil =>
    cases h
    simp [total]
  | cons v values ih =>
    rw [List.foldlM_cons] at h
    cases hv : add a v with
    | error e => rw [hv] at h; cases h
    | ok b =>
      rw [hv] at h
      have hb := add_eq_ok hv
      have hm := ih h
      rw [hm, hb]
      simp [total, add_assoc]

theorem sum_eq_ok {values : List Money} {currency : Currency} {m : Money}
    (h : sum values currency = .ok m) : m = ⟨total values, currency⟩ := by
  simpa [zero] using foldlM_add_eq_ok h

theorem add_safe {a b m : Money} (h : add a b = .ok m) : m.amount ≤ maxSafeInteger := by
  unfold add money at h
  split at h
  · split at h
    · rename_i hsafe
      cases h
      exact hsafe.2
    · cases h
  · cases h

theorem foldlM_add_safe {values : List Money} {a m : Money} (ha : a.amount ≤ maxSafeInteger)
    (h : values.foldlM add a = .ok m) : m.amount ≤ maxSafeInteger := by
  induction values generalizing a with
  | nil => cases h; exact ha
  | cons v values ih =>
    rw [List.foldlM_cons] at h
    cases hv : add a v with
    | error e => rw [hv] at h; cases h
    | ok b =>
      rw [hv] at h
      exact ih (add_safe hv) h

/-- Amounts of one currency that are not negative can be summed in any order
as soon as their total is safe. -/
theorem foldlM_add_ok {values : List Money} {a : Money}
    (hv : ∀ v ∈ values, v.currency = a.currency ∧ 0 ≤ v.amount) (ha : 0 ≤ a.amount)
    (hsafe : a.amount + total values ≤ maxSafeInteger) :
    values.foldlM add a = .ok ⟨a.amount + total values, a.currency⟩ := by
  induction values generalizing a with
  | nil => simp [total, pure, Except.pure]
  | cons v values ih =>
    obtain ⟨hcur, hpos⟩ := hv v List.mem_cons_self
    have hrest : ∀ w ∈ values, w.currency = a.currency ∧ 0 ≤ w.amount :=
      fun w hw => hv w (List.mem_cons_of_mem _ hw)
    have hnonneg : 0 ≤ total values := by
      refine List.sum_nonneg (fun x hx => ?_)
      obtain ⟨w, hw, rfl⟩ := List.mem_map.mp hx
      exact (hrest w hw).2
    have htotal : total (v :: values) = v.amount + total values := by simp [total]
    rw [htotal] at hsafe ⊢
    have hadd : add a v = .ok ⟨a.amount + v.amount, a.currency⟩ := by
      rw [add, if_pos hcur.symm, money, if_pos]
      simp only [maxSafeInteger] at hsafe ⊢
      omega
    rw [List.foldlM_cons, hadd]
    have hnext := ih (a := ⟨a.amount + v.amount, a.currency⟩) hrest (by simp only; omega)
      (by simp only; omega)
    rw [← add_assoc]
    exact hnext

theorem sum_ok {values : List Money} {currency : Currency}
    (hv : ∀ v ∈ values, v.currency = currency ∧ 0 ≤ v.amount)
    (hsafe : total values ≤ maxSafeInteger) : sum values currency = .ok ⟨total values, currency⟩ := by
  have h := foldlM_add_ok (a := zero currency) hv (le_refl 0) (by simpa [zero] using hsafe)
  simpa [sum, zero] using h

theorem sum_safe {values : List Money} {currency : Currency} {m : Money}
    (h : sum values currency = .ok m) : total values ≤ maxSafeInteger := by
  have hzero : (zero currency).amount ≤ maxSafeInteger := by simp [zero, maxSafeInteger]
  have hm := foldlM_add_safe hzero h
  rw [sum_eq_ok h] at hm
  exact hm

end Money

end RentalMarket.Core
