import RentalMarket.Payments.LedgerLaws
import RentalMarket.Payments.Settlement
import RentalMarket.Pricing.UnitEconomics

namespace RentalMarket.Payments

open RentalMarket.Core RentalMarket.Pricing

section Split

variable {policy : CategoryFeePolicy}

theorem commissionAmount_le (hpolicy : policy.Accepted) {charge : Int} (hcharge : 0 ≤ charge) :
    0 ≤ commissionAmount policy charge ∧ commissionAmount policy charge ≤ charge := by
  have hbounds := commissionAmount_bounds hpolicy hcharge
  omega

theorem commission_ok (hpolicy : policy.Accepted) {charge : Money} (hcharge : 0 ≤ charge.amount)
    (hsafe : charge.amount ≤ Money.maxSafeInteger) :
    exactPercentageOf charge policy.ownerCommissionBasisPoints =
      .ok ⟨commissionAmount policy charge.amount, charge.currency⟩ :=
  exactPercentageOf_ok charge _ hcharge ((commissionAmount_le hpolicy hcharge).2.trans hsafe)

theorem commission_eq (hpolicy : policy.Accepted) {charge : Money} (hcharge : 0 ≤ charge.amount)
    (hsafe : charge.amount ≤ Money.maxSafeInteger) :
    charge.percentageOf (basisPointsToPercent policy.ownerCommissionBasisPoints) =
      .ok ⟨commissionAmount policy charge.amount, charge.currency⟩ := by
  rw [Money.percentageOf, Money.multiply_fraction policy.ownerCommissionBasisPoints 10000 hcharge
    (by rw [basisPointsToPercent]; push_cast; ring) (by decide)]
  · rfl
  · exact (commissionAmount_le hpolicy hcharge).2.trans hsafe

theorem settleHire_eq (hpolicy : policy.Accepted) (charge : HireCharge) (hitem : 0 ≤ charge.itemCharge.amount)
    (hfee : 0 ≤ charge.renterFee.amount)
    (htotal : charge.total.amount = charge.itemCharge.amount + charge.renterFee.amount)
    (hsafe : charge.total.amount ≤ Money.maxSafeInteger) : settleHire exactPercentageOf charge policy =
      .ok ⟨charge.total,
        ⟨charge.itemCharge.amount - commissionAmount policy charge.itemCharge.amount, charge.itemCharge.currency⟩,
        ⟨charge.renterFee.amount + commissionAmount policy charge.itemCharge.amount, charge.total.currency⟩,
        ⟨commissionAmount policy charge.itemCharge.amount, charge.itemCharge.currency⟩⟩ := by
  obtain ⟨hcommission, hcommission'⟩ := commissionAmount_le hpolicy hitem
  have hparts := Money.add_ok hitem hfee (htotal ▸ hsafe)
  have hpercentage := commission_ok hpolicy hitem (by omega)
  have howner := Money.subtract_ok (a := charge.itemCharge)
    (b := ⟨commissionAmount policy charge.itemCharge.amount, charge.itemCharge.currency⟩) hcommission hcommission'
    (by omega)
  have hplatform := Money.subtract_ok (a := charge.total)
    (b := ⟨charge.itemCharge.amount - commissionAmount policy charge.itemCharge.amount, charge.itemCharge.currency⟩)
    (by simp only; omega) (by simp only; omega) hsafe
  have hrest : charge.total.amount - (charge.itemCharge.amount - commissionAmount policy charge.itemCharge.amount) =
      charge.renterFee.amount + commissionAmount policy charge.itemCharge.amount := by omega
  rw [settleHire, if_neg (by simp), hparts]
  simp only [Except.bind]
  rw [if_neg (not_not.mpr htotal.symm), hpercentage]
  simp only
  rw [howner]
  simp only
  rw [hplatform, hrest]

theorem settleHire_refuses {percentageOf : PercentageOf} {charge : HireCharge}
    (h : charge.total.amount ≠ charge.itemCharge.amount + charge.renterFee.amount) :
    ∃ e, settleHire percentageOf charge policy = .error e := by
  cases hsettle : settleHire percentageOf charge policy with
  | error e => exact ⟨e, rfl⟩
  | ok settlement =>
    obtain ⟨-, hsettle⟩ := Refusal.ite_error_eq_ok.mp hsettle
    obtain ⟨parts, hparts, hsettle⟩ := Refusal.bind_eq_ok.mp hsettle
    obtain ⟨hequal, -⟩ := Refusal.ite_error_eq_ok.mp hsettle
    rw [Money.add_eq_ok hparts] at hequal
    exact absurd (not_not.mp hequal).symm h

theorem unitEconomicsOf_shares (hpolicy : policy.Accepted) {booking : BookingShape} {model : CostModel}
    {economics : UnitEconomics} (hgross : 0 ≤ booking.grossBookingValue.amount)
    (hsafe : booking.grossBookingValue.amount ≤ Money.maxSafeInteger)
    (h : unitEconomicsOf booking policy model = .ok economics) :
    economics.ownerProceeds.amount =
        booking.grossBookingValue.amount - commissionAmount policy booking.grossBookingValue.amount ∧
      economics.platformRevenue.amount = renterFeeAmount policy booking.grossBookingValue.amount +
        commissionAmount policy booking.grossBookingValue.amount := by
  obtain ⟨-, h⟩ := Refusal.ite_error_eq_ok.mp h
  obtain ⟨fee, hfee, h⟩ := Refusal.bind_eq_ok.mp h
  obtain ⟨commission, hcommission, h⟩ := Refusal.bind_eq_ok.mp h
  obtain ⟨pays, -, h⟩ := Refusal.bind_eq_ok.mp h
  obtain ⟨proceeds, hproceeds, h⟩ := Refusal.bind_eq_ok.mp h
  obtain ⟨revenue, hrevenue, h⟩ := Refusal.bind_eq_ok.mp h
  obtain ⟨costs, -, h⟩ := Refusal.bind_eq_ok.mp h
  obtain ⟨totalCost, -, h⟩ := Refusal.bind_eq_ok.mp h
  obtain ⟨margin, -, h⟩ := Refusal.bind_eq_ok.mp h
  cases h
  obtain ⟨fee', hfee', hamount⟩ := renterFeeOn_safe hpolicy hgross hsafe
  cases hfee.symm.trans hfee'
  cases hcommission.symm.trans (commission_eq hpolicy hgross hsafe)
  rw [Money.subtract_eq_ok hproceeds, Money.add_eq_ok hrevenue, hamount]
  exact ⟨rfl, rfl⟩

theorem amountsOn_shares (shares : List (AccountId × Money)) :
    amountsOn .debit (shares.map (fun share => ⟨share.1, .credit, share.2⟩)) = [] ∧
      amountsOn .credit (shares.map (fun share => ⟨share.1, .credit, share.2⟩)) = shares.map (·.2) := by
  induction shares with
  | nil => exact ⟨rfl, rfl⟩
  | cons share shares ih =>
    unfold amountsOn at ih ⊢
    exact ⟨by simpa using ih.1, by simpa using ih.2⟩

theorem total_filter (shares : List (AccountId × Money)) :
    Money.total ((shares.filter (fun share => share.2.amount ≠ 0)).map (·.2)) = Money.total (shares.map (·.2)) := by
  induction shares with
  | nil => rfl
  | cons share shares ih =>
    by_cases hzero : share.2.amount = 0
    · rw [List.filter_cons_of_neg (by simpa using hzero), ih]
      simp [Money.total, hzero]
    · rw [List.filter_cons_of_pos (by simpa using hzero)]
      simp only [Money.total, List.map_cons, List.sum_cons] at ih ⊢
      rw [ih]

/-- The entries of an apportioned amount: what is apportioned leaves, and each share arrives. -/
structure Apportioned (amount : Money) (entries : List LedgerEntry) : Prop where
  two : 2 ≤ entries.length
  positive : ∀ e ∈ entries,
    e.amount.currency = amount.currency ∧ 0 < e.amount.amount ∧ e.amount.amount ≤ amount.amount
  debits : Money.total (amountsOn .debit entries) = amount.amount
  credits : Money.total (amountsOn .credit entries) = amount.amount

/-- The entries of a capture: one debit, and a credit for each who earns. -/
theorem hireCaptureEntries_apportioned {settlement : HireSettlement} (hpays : 0 < settlement.renterPays.amount)
    (howner : 0 ≤ settlement.ownerEarns.amount) (hplatform : 0 ≤ settlement.platformEarns.amount)
    (hsum : settlement.ownerEarns.amount + settlement.platformEarns.amount = settlement.renterPays.amount)
    (hsafe : settlement.renterPays.amount ≤ Money.maxSafeInteger) (clearing payable revenue : AccountId) :
    ∃ entries, hireCaptureEntries settlement clearing payable revenue = .ok entries ∧
      Apportioned settlement.renterPays entries := by
  let shares := [(payable, settlement.ownerEarns), (revenue, settlement.platformEarns)].filter
    (fun share => share.2.amount ≠ 0)
  have htotal : Money.total (shares.map (·.2)) = settlement.renterPays.amount := by
    rw [total_filter]
    simp only [Money.total, List.map_cons, List.map_nil, List.sum_cons, List.sum_nil]
    omega
  have hmem : ∀ share ∈ shares, 0 < share.2.amount ∧ share.2.amount ≤ settlement.renterPays.amount := by
    intro share hshare
    obtain ⟨hshare, hzero⟩ := List.mem_filter.mp hshare
    have hzero : share.2.amount ≠ 0 := by simpa using hzero
    obtain rfl | hshare := List.mem_cons.mp hshare
    · simp only at hzero ⊢
      omega
    · obtain rfl := List.mem_singleton.mp hshare
      simp only at hzero ⊢
      omega
  have hok : Money.sum (shares.map (·.2)) settlement.renterPays.currency = .ok settlement.renterPays := by
    rw [Money.sum_ok]
    · rw [htotal]
    · intro v hv
      obtain ⟨share, hshare, rfl⟩ := List.mem_map.mp hv
      exact ⟨rfl, (hmem share hshare).1.le⟩
    · exact htotal ▸ hsafe
  have hnonempty : shares ≠ [] := by
    intro hnil
    rw [hnil] at htotal
    exact hpays.ne htotal
  have hamounts := amountsOn_shares shares
  refine ⟨⟨clearing, .debit, settlement.renterPays⟩ ::
    shares.map (fun share => ⟨share.1, .credit, share.2⟩), ?_, ?_, ?_, ?_, ?_⟩
  · rw [hireCaptureEntries, apportion, hok]
    simp [Except.bind, shares]
  · have hlength := List.length_pos_iff.mpr hnonempty
    simp only [List.length_cons, List.length_map]
    omega
  · intro e he
    obtain rfl | he := List.mem_cons.mp he
    · exact ⟨rfl, hpays, le_rfl⟩
    · obtain ⟨share, hshare, rfl⟩ := List.mem_map.mp he
      exact ⟨rfl, hmem share hshare⟩
  · have hdebit : amountsOn .debit (⟨clearing, .debit, settlement.renterPays⟩ ::
        shares.map (fun share => ⟨share.1, .credit, share.2⟩)) = [settlement.renterPays] := by
      rw [amountsOn, List.filter_cons_of_pos (by simp), List.map_cons]
      exact congrArg _ hamounts.1
    rw [hdebit]
    simp [Money.total]
  · have hcredit : amountsOn .credit (⟨clearing, .debit, settlement.renterPays⟩ ::
        shares.map (fun share => ⟨share.1, .credit, share.2⟩)) = shares.map (·.2) := by
      rw [amountsOn, List.filter_cons_of_neg (by simp)]
      exact hamounts.2
    rw [hcredit]
    exact htotal

theorem Apportioned.postable {amount : Money} {draft : LedgerDraft} (h : Apportioned amount draft.entries)
    (hcurrency : draft.currency = amount.currency) (hkey : isBlank draft.idempotencyKey = false)
    (hsafe : amount.amount ≤ Money.maxSafeInteger) : Postable draft where
  entries := h.two
  key := hkey
  positive e he := ⟨hcurrency ▸ (h.positive e he).1, (h.positive e he).2.1⟩
  balanced := h.debits.trans h.credits.symm
  safe := h.debits ▸ hsafe

end Split

section Hire

variable {policy : CategoryFeePolicy} {itemCharge : Money}

/-- A hire is settled whenever its parts have a sum. Nothing is lost between the owner and
the platform, the entries of its capture can be posted, and the economics of the booking agree.
A charge that is not the sum of its parts is refused. -/
theorem settlement_conserves (hpolicy : policy.Accepted) (hpos : 0 < itemCharge.amount)
    (hsafe : itemCharge.amount ≤ Money.maxSafeInteger) :
    (∃ fee, renterFeeOn exactPercentageOf itemCharge policy = .ok fee ∧
      ∀ total, Money.add itemCharge fee.fee = .ok total → ∃ settlement,
        settleHire exactPercentageOf ⟨itemCharge, fee.fee, total⟩ policy = .ok settlement ∧
        settlement.renterPays = total ∧
        settlement.ownerEarns.amount + settlement.platformEarns.amount = settlement.renterPays.amount ∧
        0 ≤ settlement.ownerEarns.amount ∧ 0 ≤ settlement.platformEarns.amount ∧
        0 ≤ settlement.renterPays.amount ∧
        (∀ clearing payable revenue, ∃ entries,
          hireCaptureEntries settlement clearing payable revenue = .ok entries ∧
          Apportioned settlement.renterPays entries ∧
          ∀ draft : LedgerDraft, draft.entries = entries → draft.currency = settlement.renterPays.currency →
            isBlank draft.idempotencyKey = false → assertPostable draft = .ok ()) ∧
        ∀ booking model economics, booking.grossBookingValue = itemCharge →
          unitEconomicsOf booking policy model = .ok economics →
            settlement.ownerEarns = economics.ownerProceeds ∧
              settlement.platformEarns = economics.platformRevenue) ∧
    ∀ (percentageOf : PercentageOf) (charge : HireCharge),
      charge.total.amount ≠ charge.itemCharge.amount + charge.renterFee.amount →
        ∃ e, settleHire percentageOf charge policy = .error e := by
  refine ⟨?_, fun percentageOf charge => settleHire_refuses⟩
  obtain ⟨fee, hfee, hamount⟩ := renterFeeOn_safe hpolicy hpos.le hsafe
  obtain ⟨hcommission, hcommission'⟩ := commissionAmount_le hpolicy hpos.le
  have hnonneg : 0 ≤ fee.fee.amount := by
    rw [hamount]
    exact (renterFeeAmount_bounds hpolicy hpos.le).1
  refine ⟨fee, hfee, fun total htotal => ?_⟩
  have htotalSafe := Money.add_safe htotal
  have htotalAmount : total.amount = itemCharge.amount + fee.fee.amount := by rw [Money.add_eq_ok htotal]
  obtain ⟨settlement, hsettled, hpays, howner, hplatform⟩ : ∃ settlement,
      settleHire exactPercentageOf ⟨itemCharge, fee.fee, total⟩ policy = .ok settlement ∧
      settlement.renterPays = total ∧
      settlement.ownerEarns.amount = itemCharge.amount - commissionAmount policy itemCharge.amount ∧
      settlement.platformEarns.amount = fee.fee.amount + commissionAmount policy itemCharge.amount :=
    ⟨_, settleHire_eq hpolicy ⟨itemCharge, fee.fee, total⟩ hpos.le hnonneg htotalAmount htotalSafe, rfl, rfl,
      rfl⟩
  rw [← hpays] at htotalAmount htotalSafe
  refine ⟨settlement, hsettled, hpays, by omega, by omega, by omega, by omega, ?_, ?_⟩
  · intro clearing payable revenue
    have hpaid : 0 < settlement.renterPays.amount := by omega
    obtain ⟨entries, hentries, happortioned⟩ := hireCaptureEntries_apportioned hpaid (by omega) (by omega) (by omega)
      htotalSafe clearing payable revenue
    refine ⟨entries, hentries, happortioned, fun draft hdraft hcurrency hkey => ?_⟩
    subst hdraft
    exact assertPostable_eq_ok.mpr (happortioned.postable hcurrency hkey htotalSafe)
  · rintro booking model economics rfl heconomics
    obtain ⟨hproceeds, hrevenue⟩ := unitEconomicsOf_shares hpolicy hpos.le hsafe heconomics
    constructor
    · ext
      · exact howner.trans hproceeds.symm
      · cases economics.ownerProceeds.currency
        cases settlement.ownerEarns.currency
        rfl
    · ext
      · rw [hplatform, hrevenue, hamount]
      · cases economics.platformRevenue.currency
        cases settlement.platformEarns.currency
        rfl

end Hire

def halfFromTheOwner : CategoryFeePolicy := ⟨5000, 0, ⟨0, .gbp⟩, ⟨0, .gbp⟩⟩

theorem a_penny_is_settled : ∃ settlement,
    settleHire exactPercentageOf ⟨⟨1, .gbp⟩, ⟨0, .gbp⟩, ⟨1, .gbp⟩⟩ halfFromTheOwner = .ok settlement ∧
      settlement.ownerEarns.amount = 0 ∧ settlement.platformEarns.amount = 1 ∧
      ∀ clearing payable revenue, ∃ entries,
        hireCaptureEntries settlement clearing payable revenue = .ok entries ∧ Apportioned ⟨1, .gbp⟩ entries := by
  have hpolicy : halfFromTheOwner.Accepted := ⟨by decide, by decide, by decide, by decide, by decide, by decide⟩
  have hpenny : 0 < (⟨1, .gbp⟩ : Money).amount := by decide
  obtain ⟨⟨fee, hfee, hsettle⟩, -⟩ := settlement_conserves hpolicy hpenny (by decide)
  have hnofee : renterFeeOn exactPercentageOf ⟨1, .gbp⟩ halfFromTheOwner = .ok ⟨⟨0, .gbp⟩, false⟩ := by
    decide +kernel
  cases hfee.symm.trans hnofee
  obtain ⟨settlement, hsettled, hpays, -, -, -, -, hentries, -⟩ := hsettle ⟨1, .gbp⟩ (by decide +kernel)
  have hparts : settleHire exactPercentageOf ⟨⟨1, .gbp⟩, ⟨0, .gbp⟩, ⟨1, .gbp⟩⟩ halfFromTheOwner =
      .ok ⟨⟨1, .gbp⟩, ⟨0, .gbp⟩, ⟨1, .gbp⟩, ⟨1, .gbp⟩⟩ := by decide +kernel
  cases hsettled.symm.trans hparts
  refine ⟨_, hparts, rfl, rfl, fun clearing payable revenue => ?_⟩
  obtain ⟨entries, hok, happortioned, -⟩ := hentries clearing payable revenue
  exact ⟨entries, hok, happortioned⟩

end RentalMarket.Payments
