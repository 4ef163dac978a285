import RentalMarket.Core.Money

namespace RentalMarket.Pricing

open RentalMarket.Core

structure CategoryFeePolicy where
  ownerCommissionBasisPoints : Nat
  renterFeeBasisPoints : Nat
  minimumBookingTotal : Money
  minimumPlatformFee : Money
  deriving DecidableEq, Repr

structure DamageSecurityPolicy where
  excessFloor : Money
  excessPercentageBasisPoints : Nat
  recoveryCeiling : Money
  deriving DecidableEq, Repr

/-- A percentage of an amount, given in basis points. The code computes it in
doubles, so the developments below take the function as a parameter. -/
abbrev PercentageOf := Money → Nat → Except String Money

/-- The percentage in exact arithmetic: half a unit rounds away from zero. -/
def exactPercentageOf : PercentageOf := fun m basisPoints =>
  let scaled := m.amount.natAbs * basisPoints
  Money.money (m.amount.sign * ((2 * scaled + 10000) / 20000 : Nat)) m.currency

structure RenterFee where
  fee : Money
  minimumFeeApplied : Bool
  deriving DecidableEq, Repr

variable (percentageOf : PercentageOf)

def renterFeeOn (charge : Money) (policy : CategoryFeePolicy) : Except String RenterFee :=
  (percentageOf charge policy.renterFeeBasisPoints).bind (fun percentageFee =>
    (Money.money policy.minimumPlatformFee.amount policy.minimumPlatformFee.currency).bind (fun floor =>
      (Money.lessThan percentageFee floor).bind (fun minimumFeeApplied =>
        .ok ⟨if minimumFeeApplied then floor else percentageFee, minimumFeeApplied⟩)))

inductive ExcessBound where
  | floor
  | percentage
  | ceiling
  deriving DecidableEq, Repr

structure AppliedExcess where
  amount : Money
  boundBy : ExcessBound
  deriving DecidableEq, Repr

def appliedExcessFor (policy : DamageSecurityPolicy) (replacementValue : Money) :
    Except String AppliedExcess :=
  (Money.money policy.excessFloor.amount policy.excessFloor.currency).bind (fun floor =>
    (Money.money policy.recoveryCeiling.amount policy.recoveryCeiling.currency).bind (fun ceiling =>
      (percentageOf replacementValue policy.excessPercentageBasisPoints).bind (fun percentage =>
        (Money.maxOf floor percentage).bind (fun greaterOfTheTwo =>
          (Money.greaterThan greaterOfTheTwo ceiling).bind (fun exceedsCeiling =>
            if exceedsCeiling then .ok ⟨ceiling, .ceiling⟩
            else (Money.greaterThan percentage floor).bind (fun exceeds =>
              .ok ⟨greaterOfTheTwo, if exceeds then .percentage else .floor⟩))))))

def appliedExcessOrNone (policy : Option DamageSecurityPolicy) (replacementValue : Money) :
    Except String (Option AppliedExcess) :=
  match policy with
  | none => .ok none
  | some policy => (appliedExcessFor percentageOf policy replacementValue).map some

end RentalMarket.Pricing
