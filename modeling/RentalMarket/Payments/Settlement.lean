import RentalMarket.Payments.Ledger
import RentalMarket.Pricing.FeePolicy
import RentalMarket.Lib.Refusal

namespace RentalMarket.Payments

open RentalMarket.Core RentalMarket.Pricing

structure HireCharge where
  itemCharge : Money
  renterFee : Money
  total : Money
  deriving DecidableEq, Repr

structure HireSettlement where
  renterPays : Money
  ownerEarns : Money
  platformEarns : Money
  ownerCommission : Money
  deriving DecidableEq, Repr

/-- Who earns what of a hire, under the fee policy its booking pins. -/
def settleHire (percentageOf : PercentageOf) (charge : HireCharge) (policy : CategoryFeePolicy) :
    Except String HireSettlement :=
  if charge.itemCharge.currency ≠ charge.total.currency ∨
      charge.renterFee.currency ≠ charge.total.currency then
    .error "a hire cannot be settled from amounts in different currencies"
  else (Money.add charge.itemCharge charge.renterFee).bind (fun parts =>
    if parts.amount ≠ charge.total.amount then
      .error s!"a hire's total {charge.total.amount} is not its parts {parts.amount}: refusing to settle from a row that disagrees with itself"
    else (percentageOf charge.itemCharge policy.ownerCommissionBasisPoints).bind (fun ownerCommission =>
      (Money.subtract charge.itemCharge ownerCommission).bind (fun ownerEarns =>
        (Money.subtract charge.total ownerEarns).bind (fun platformEarns =>
          .ok ⟨charge.total, ownerEarns, platformEarns, ownerCommission⟩))))

theorem settleHire_renterPays {percentageOf : PercentageOf} {charge : HireCharge}
    {policy : CategoryFeePolicy} {settlement : HireSettlement}
    (h : settleHire percentageOf charge policy = .ok settlement) : settlement.renterPays = charge.total := by
  unfold settleHire at h
  obtain ⟨-, h⟩ := Refusal.ite_error_eq_ok.mp h
  obtain ⟨parts, -, h⟩ := Refusal.bind_eq_ok.mp h
  obtain ⟨-, h⟩ := Refusal.ite_error_eq_ok.mp h
  obtain ⟨ownerCommission, -, h⟩ := Refusal.bind_eq_ok.mp h
  obtain ⟨ownerEarns, -, h⟩ := Refusal.bind_eq_ok.mp h
  obtain ⟨platformEarns, -, h⟩ := Refusal.bind_eq_ok.mp h
  cases h
  rfl

def apportion (source : AccountId × Money) (shares : List (AccountId × Money)) (currency : Currency) :
    Except String (List LedgerEntry) :=
  (Money.sum (shares.map (·.2)) currency).bind (fun sum =>
    if sum.amount ≠ source.2.amount then
      .error s!"apportioned shares {sum.amount} do not sum to the amount moved {source.2.amount}"
    else .ok (⟨source.1, .debit, source.2⟩ :: shares.map (fun share => ⟨share.1, .credit, share.2⟩)))

/-- A zero share is left out, since no entry may be of nothing. -/
def hireCaptureEntries (settlement : HireSettlement)
    (providerClearing ownerPayable platformRevenue : AccountId) : Except String (List LedgerEntry) :=
  apportion (providerClearing, settlement.renterPays)
    ([(ownerPayable, settlement.ownerEarns), (platformRevenue, settlement.platformEarns)].filter
      (fun share => share.2.amount ≠ 0)) settlement.renterPays.currency

end RentalMarket.Payments
