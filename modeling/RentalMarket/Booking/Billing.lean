import RentalMarket.Booking.Pay

namespace RentalMarket.Booking

open BookingState

def BookingRow.terms (row : BookingRow) : BookingRow := { row with state := draft }

namespace Tables

def terms (r : Tables) : List BookingRow := r.bookings.map (·.terms)

theorem mem_terms {r : Tables} {row : BookingRow} (h : row ∈ r.bookings) : row.terms ∈ r.terms :=
  List.mem_map_of_mem h

theorem terms_move (r : Tables) (ids : List Id) (state : BookingState) (events : List BookingEvent) :
    terms ⟨r.move ids state, events⟩ = r.terms := by
  rw [terms, terms, move, List.map_map]
  apply List.map_congr_left
  intro row _
  simp only [Function.comp_apply]
  split <;> rfl

theorem terms_advance {r r' : Tables} {id : Id} {src dst : BookingState} {actorId : Option Id}
    (h : r.advance id src dst actorId = some r') : r'.terms = r.terms := by
  obtain ⟨-, rfl⟩ := advance_eq_some h
  exact terms_move r [id] dst _

theorem terms_accept {ownerOf : Id → Option Id} {r r' : Tables} {bookingId ownerId : Id} {now : Instant}
    (h : r.accept ownerOf bookingId ownerId now = some r') : r'.terms = r.terms := by
  obtain ⟨booking, -, h⟩ := Option.bind_eq_some_iff.mp h
  split at h <;> cases h
  rw [accepting, terms_move, terms_move]

theorem terms_createWithEvent {r r' : Tables} {booking : BookingRow}
    (h : r.createWithEvent booking = some r') : r'.terms = r.terms ++ [booking.terms] ∧
      (∀ row ∈ r.bookings, row.id ≠ booking.id ∧ row.quoteId ≠ booking.quoteId) := by
  simp only [createWithEvent, Option.ite_none_right_eq_some, Bool.and_eq_true] at h
  obtain ⟨⟨-, hnew⟩, h⟩ := h
  cases h
  exact ⟨by simp [terms], by simpa using hnew⟩

end Tables

namespace Pay

open RentalMarket.Core RentalMarket.Pricing RentalMarket.Payments Runs

theorem movePayable_terms {r r' : Tables} {booking : BookingRow} {renterId : Id}
    (h : movePayable r booking renterId = some r') : r'.terms = r.terms := by
  unfold movePayable at h
  split at h
  · cases h
    rfl
  · split at h
    · cases h
    · exact Tables.terms_advance h

theorem settle_terms (r : Tables) (booking : BookingRow) (renterId : Id) (status : AttemptStatus) :
    (settle r booking renterId status).terms = r.terms := by
  unfold settle
  split
  · rfl
  · rename_i dst hdst
    cases ha : r.advance booking.id awaitingPayment dst (some renterId) with
    | none => rfl
    | some r' => exact Tables.terms_advance ha

def Billed (w : Wiring) (r : Tables) (n : NewPaymentIntent) : Prop :=
  ∃ row ∈ r.terms, ∃ ownerId, w.ownerOf row.listingId = some ownerId ∧ Bills (instructionOf row ownerId) n

def Paid (s : State) (b : Id) : Prop :=
  ∃ n, n.bookingId = b ∧ n.purpose = .hireCharge ∧ Confirmed s.payments n

/-- The capture of a booking's hire: its own amounts, under this policy, with
the money owed to the owner of its listing. -/
def SettledUnder (w : Wiring) (s : State) (row : BookingRow) (policy : CategoryFeePolicy)
    (tx : PostedTransaction) : Prop :=
  ∃ settlement, settleHire w.payments.percentageOf (chargeOf row) policy = .ok settlement ∧
    settlement.renterPays = ⟨row.totalAmount, row.currency⟩ ∧
    ∃ ownerId clearing payable revenue, w.ownerOf row.listingId = some ownerId ∧
      HasAccount s.payments ⟨.providerClearing, row.currency, none⟩ clearing ∧
      HasAccount s.payments ⟨.ownerPayable, row.currency, some ownerId⟩ payable ∧
      HasAccount s.payments ⟨.platformRevenue, row.currency, none⟩ revenue ∧
      hireCaptureEntries settlement clearing.id payable.id revenue.id = .ok tx.entries

def CallOnTerms (w : Wiring) (s : State) (t : Pid) : Call → Prop
  | .owning booking _ => booking.terms ∈ s.tables.terms
  | .moving booking _ ownerId => booking.terms ∈ s.tables.terms ∧
    w.ownerOf booking.listingId = some ownerId
  | .charging booking _ => booking.terms ∈ s.tables.terms ∧ ∃ ownerId,
    w.ownerOf booking.listingId = some ownerId ∧
    Asks (instructionOf booking ownerId) (s.payments.procs t) ∧
    Confirms s.payments (s.payments.procs t)
  | .settling booking _ result => result.status = .succeeded → Paid s booking.id
  | .readingBack booking _ result => result.status = .succeeded → Paid s booking.id
  | .returned (.paid row result) =>
    row.terms ∈ s.tables.terms ∧ (result.status = .succeeded → Paid s row.id)
  | _ => True

/-- Every attempt is on the terms of a booking, and a success is reported for
what was charged. -/
structure Billing (w : Wiring) (s : State) : Prop where
  payments : Inv w.payments s.payments
  calls : ∀ t, CallOnTerms w s t (s.calls t)
  billed : ∀ n ∈ s.payments.opened, Billed w s.tables n

section

variable {w : Wiring} {s s' : State} {t : Pid}

theorem Paid.mono {b : Id} (h : Paid s b) (g : Grows s.payments s'.payments) : Paid s' b := by
  obtain ⟨n, hb, hp, hc⟩ := h
  exact ⟨n, hb, hp, hc.mono g⟩

theorem Billed.mono {r r' : Tables} {n : NewPaymentIntent} (h : Billed w r n)
    (hterms : r.terms ⊆ r'.terms) : Billed w r' n := by
  obtain ⟨row, hrow, hbills⟩ := h
  exact ⟨row, hterms hrow, hbills⟩

theorem CallOnTerms.mono {c : Call} (h : CallOnTerms w s t c) (hterms : s.tables.terms ⊆ s'.tables.terms)
    (g : Grows s.payments s'.payments) (hp : s'.payments.procs t = s.payments.procs t) :
    CallOnTerms w s' t c := by
  cases c with
  | owning booking renterId => exact hterms h
  | moving booking renterId ownerId => exact ⟨hterms h.1, h.2⟩
  | charging booking renterId =>
    obtain ⟨hb, ownerId, howner, hasks, hconfirms⟩ := h
    refine ⟨hterms hb, ownerId, howner, ?_, ?_⟩
    · rw [hp]
      exact hasks
    · rw [hp]
      exact hconfirms.mono g
  | settling booking renterId result => exact fun hs => (h hs).mono g
  | readingBack booking renterId result => exact fun hs => (h hs).mono g
  | returned outcome =>
    cases outcome with
    | paid row result => exact ⟨hterms h.1, fun hs => (h.2 hs).mono g⟩
    | _ => trivial
  | _ => trivial

/-- A step of `t` has only to look after itself and the attempts it opens. -/
theorem Billing.of_step (h : Billing w s) (hpay : Inv w.payments s'.payments)
    (hterms : s.tables.terms ⊆ s'.tables.terms) (g : Grows s.payments s'.payments)
    (hcalls : ∀ t' ≠ t, s'.calls t' = s.calls t')
    (hprocs : ∀ t' ≠ t, s'.payments.procs t' = s.payments.procs t')
    (hok : CallOnTerms w s' t (s'.calls t))
    (hbilled : ∀ n ∈ s'.payments.opened, n ∈ s.payments.opened ∨ Billed w s'.tables n) :
    Billing w s' := by
  refine ⟨hpay, fun t' => ?_, fun n hn => ?_⟩
  · by_cases ht : t' = t
    · subst ht
      exact hok
    · rw [hcalls t' ht]
      exact (h.calls t').mono hterms g (hprocs t' ht)
  · obtain hold | hnew := hbilled n hn
    · exact (h.billed n hold).mono hterms
    · exact hnew

theorem Billing.setCall (h : Billing w s) {c : Call} (hok : CallOnTerms w s t c) :
    Billing w (s.setCall t c) := by
  refine h.of_step (t := t) h.payments (List.Subset.refl _) (.of_eq rfl rfl rfl)
    (fun t' ht => setCall_other s ht c) (fun _ _ => rfl) ?_ (fun n hn => .inl hn)
  rw [setCall_self]
  exact hok.mono (List.Subset.refl _) (.of_eq rfl rfl rfl) rfl

theorem Billing.withTables (h : Billing w s) {r : Tables} (hterms : s.tables.terms ⊆ r.terms) :
    Billing w { s with tables := r } :=
  ⟨h.payments, fun t => (h.calls t).mono hterms (.of_eq rfl rfl rfl) rfl,
    fun n hn => (h.billed n hn).mono hterms⟩

theorem Billing.finding (h : Billing w s) {d : Draw} {bookingId renterId : Id}
    (hc : s.calls t = .finding bookingId renterId) (hx : exec w s t d = some s') : Billing w s' := by
  simp only [exec, hc] at hx
  split at hx
  · cases hx
    exact h.setCall trivial
  · rename_i booking hfind
    obtain ⟨hfind, -⟩ := Option.filter_eq_some_iff.mp hfind
    split at hx
    · cases hx
      exact h.setCall trivial
    · split at hx <;> cases hx
      · exact h.setCall trivial
      · exact h.setCall (Tables.mem_terms (List.mem_of_find?_eq_some hfind))

theorem Billing.moving (h : Billing w s) {d : Draw} {booking : BookingRow} {renterId ownerId : Id}
    (hc : s.calls t = .moving booking renterId ownerId) (hx : exec w s t d = some s') :
    Billing w s' := by
  have hok : CallOnTerms w s t (.moving booking renterId ownerId) := hc ▸ h.calls t
  obtain ⟨hterms, howner⟩ := hok
  simp only [exec, hc] at hx
  split at hx
  · cases hx
    exact h.setCall trivial
  · rename_i tables hmove
    have hsub : s.tables.terms ⊆ tables.terms := by
      rw [movePayable_terms hmove]
      exact List.Subset.refl _
    obtain ⟨payments, hpay, rfl⟩ := Option.map_eq_some_iff.mp hx
    have hinv := inv_step h.payments hpay
    simp only [Payments.step] at hpay
    split at hpay <;> cases hpay
    refine h.of_step (t := t) hinv hsub (.of_eq rfl rfl rfl) (fun t' ht => setCall_other _ ht _)
      (fun t' ht => Payments.State.setProc_other _ ht _) ?_ (fun n hn => .inl hn)
    rw [setCall_self]
    refine ⟨hsub hterms, ownerId, howner, ?_, ?_⟩
    · show Asks _ ((s.payments.setProc t _).procs t)
      rw [Payments.State.setProc_self]
      rfl
    · show Confirms _ ((s.payments.setProc t _).procs t)
      rw [Payments.State.setProc_self]
      trivial

theorem Billing.charging (h : Billing w s) {d : Draw} {booking : BookingRow} {renterId : Id}
    (hc : s.calls t = .charging booking renterId) (hx : exec w s t d = some s') : Billing w s' := by
  have hok : CallOnTerms w s t (.charging booking renterId) := hc ▸ h.calls t
  obtain ⟨hterms, ownerId, howner, hasks, hconfirms⟩ := hok
  simp only [exec, hc] at hx
  split at hx
  · rename_i intent payerAction hproc
    cases hx
    rw [hproc] at hasks hconfirms
    refine h.setCall (fun hs => ⟨intent.toNewPaymentIntent, hasks.bookingId, hasks.purpose, hconfirms ?_⟩)
    cases hstatus : intent.status <;> simp [hireChargeResult, hstatus, chargeStatus] at hs ⊢
  · cases hx
    exact h.setCall trivial
  · obtain ⟨payments, hpay, rfl⟩ := Option.map_eq_some_iff.mp hx
    have hinv := inv_step h.payments hpay
    have hasks' := exec_asks h.payments hpay hasks
    have hconfirms' := exec_confirms h.payments hpay hasks hconfirms
    obtain ⟨u, p, rfl, e, -⟩ := Payments.exec_effect h.payments hpay
    refine h.of_step (t := t) hinv (List.Subset.refl _) ?_ (fun _ _ => rfl) (fun t' ht => ?_) ?_
      (fun n hn => ?_)
    · exact ⟨e.grows.opened, e.grows.attempts, e.grows.accounts, e.grows.transactions⟩
    · rw [Payments.State.setProc_other _ ht, e.procs_eq]
    · rw [show s.calls t = _ from hc]
      exact ⟨hterms, ownerId, howner, hasks', hconfirms'⟩
    · -- an attempt is opened by the call that proposes it, on its own terms
      obtain hsame | ⟨new, hproc, hnew⟩ := e.opened_cases
      · exact .inl (hsame ▸ hn)
      · obtain hold | hn := List.mem_append.mp (hnew ▸ hn : n ∈ s.payments.opened ++ [new])
        · exact .inl hold
        · rw [List.mem_singleton.mp hn]
          rw [hproc] at hasks
          exact .inr ⟨booking.terms, hterms, ownerId, howner, hasks⟩

theorem Billing.step (h : Billing w s) {a : Action} (hx : step w s a = some s') : Billing w s' := by
  cases a with
  | pay t bookingId renterId paymentEnabled =>
    simp only [Pay.step] at hx
    split at hx <;> cases hx
    refine h.setCall ?_
    cases paymentEnabled <;> trivial
  | exec t d =>
    simp only [Pay.step] at hx
    cases hc : s.calls t with
    | idle => simp [exec, hc] at hx
    | returned outcome => simp [exec, hc] at hx
    | finding bookingId renterId => exact h.finding hc hx
    | owning booking renterId =>
      have hok : CallOnTerms w s t (.owning booking renterId) := hc ▸ h.calls t
      simp only [exec, hc] at hx
      split at hx <;> cases hx
      · exact h.setCall trivial
      · rename_i ownerId howner
        exact h.setCall ⟨hok, howner⟩
    | moving booking renterId ownerId => exact h.moving hc hx
    | charging booking renterId => exact h.charging hc hx
    | settling booking renterId result =>
      have hok : CallOnTerms w s t (.settling booking renterId result) := hc ▸ h.calls t
      simp only [exec, hc] at hx
      cases hx
      have hsub : s.tables.terms ⊆ (settle s.tables booking renterId result.status).terms := by
        rw [settle_terms]
        exact List.Subset.refl _
      exact (h.withTables hsub).setCall (hok.mono hsub (.of_eq rfl rfl rfl) rfl)
    | readingBack booking renterId result =>
      have hok : CallOnTerms w s t (.readingBack booking renterId result) := hc ▸ h.calls t
      simp only [exec, hc] at hx
      obtain ⟨row, hrow, rfl⟩ := Option.map_eq_some_iff.mp hx
      obtain ⟨hfind, -⟩ := Option.filter_eq_some_iff.mp hrow
      refine h.setCall ⟨Tables.mem_terms (List.mem_of_find?_eq_some hfind), fun hs => ?_⟩
      rw [Tables.find_id hfind]
      exact hok hs
  | progress reference answer =>
    simp only [Pay.step] at hx
    obtain ⟨payments, hpay, rfl⟩ := Option.map_eq_some_iff.mp hx
    have hinv := inv_step h.payments hpay
    have hgrows := step_grows h.payments hpay
    simp only [Payments.step] at hpay
    split at hpay
    · cases hpay
    · split at hpay <;> cases hpay
      refine h.of_step (t := 0) hinv (List.Subset.refl _) hgrows (fun _ _ => rfl) (fun _ _ => rfl) ?_
        (fun n hn => .inl hn)
      exact (h.calls 0).mono (List.Subset.refl _) hgrows rfl

/-- No step of a press touches the terms. -/
theorem step_terms {a : Action} (hx : step w s a = some s') : s'.tables.terms = s.tables.terms := by
  cases a with
  | pay t bookingId renterId paymentEnabled =>
    simp only [Pay.step] at hx
    split at hx <;> cases hx
    rfl
  | exec t d =>
    simp only [Pay.step] at hx
    cases hc : s.calls t with
    | idle => simp [exec, hc] at hx
    | returned outcome => simp [exec, hc] at hx
    | finding bookingId renterId =>
      simp only [exec, hc] at hx
      split at hx
      · cases hx
        rfl
      · split at hx
        · cases hx
          rfl
        · split at hx <;> cases hx <;> rfl
    | owning booking renterId =>
      simp only [exec, hc] at hx
      split at hx <;> cases hx <;> rfl
    | moving booking renterId ownerId =>
      simp only [exec, hc] at hx
      split at hx
      · cases hx
        rfl
      · rename_i tables hmove
        obtain ⟨payments, -, rfl⟩ := Option.map_eq_some_iff.mp hx
        exact movePayable_terms hmove
    | charging booking renterId =>
      simp only [exec, hc] at hx
      split at hx
      · cases hx
        rfl
      · cases hx
        rfl
      · obtain ⟨payments, -, rfl⟩ := Option.map_eq_some_iff.mp hx
        rfl
    | settling booking renterId result =>
      simp only [exec, hc] at hx
      cases hx
      exact settle_terms _ _ _ _
    | readingBack booking renterId result =>
      simp only [exec, hc] at hx
      obtain ⟨row, -, rfl⟩ := Option.map_eq_some_iff.mp hx
      rfl
  | progress reference answer =>
    simp only [Pay.step] at hx
    obtain ⟨payments, -, rfl⟩ := Option.map_eq_some_iff.mp hx
    rfl

theorem Billing.bills (h : Billing w s) (hids : (s.tables.terms.map (·.id)).Nodup) {row : BookingRow}
    (hrow : row.terms ∈ s.tables.terms) {n : NewPaymentIntent} (hn : n ∈ s.payments.opened)
    (hb : n.bookingId = row.id) :
    ∃ ownerId, w.ownerOf row.listingId = some ownerId ∧ Bills (instructionOf row ownerId) n := by
  obtain ⟨row', hrow', ownerId, howner, hbills⟩ := h.billed n hn
  have hid : row'.id = row.terms.id := hbills.bookingId.symm.trans hb
  obtain rfl := Keyed.eq_of_key hids hrow' hrow hid
  exact ⟨ownerId, howner, hbills⟩

theorem Billing.amount (h : Billing w s) (hids : (s.tables.terms.map (·.id)).Nodup) {row : BookingRow}
    (hrow : row.terms ∈ s.tables.terms) {a : ProviderAttempt}
    (ha : a ∈ s.payments.attemptsOf row.id .hireCharge) : a.amount = ⟨row.totalAmount, row.currency⟩ := by
  obtain ⟨hmem, hof⟩ := List.mem_filter.mp ha
  obtain ⟨r, hr, hkey⟩ := List.any_eq_true.mp hof
  obtain ⟨hr, hbp⟩ := List.mem_filter.mp hr
  rw [decide_eq_true_eq] at hkey hbp
  obtain ⟨ownerId, -, hbills⟩ := h.bills hids hrow (mem_opened hr) hbp.1
  rw [attempt_amount h.payments.sound hmem hr hkey]
  obtain ⟨division, -, hcharge⟩ := Option.map_eq_some_iff.mp hbills.charge
  exact congrArg HireCharge.total hcharge

theorem Billing.settled (h : Billing w s) (hids : (s.tables.terms.map (·.id)).Nodup) {row : BookingRow}
    (hrow : row.terms ∈ s.tables.terms) {tx : PostedTransaction}
    (htx : tx ∈ s.payments.capturesOf row.id) : ∃ policy,
      w.payments.policyOf row.categoryVersionId = some policy ∧ SettledUnder w s row policy tx := by
  obtain ⟨r, hr, hb, hp, -, hcaptures⟩ := capture_of_attempt h.payments.sound htx
  obtain ⟨ownerId, howner, hbills⟩ := h.bills hids hrow (mem_opened hr) hb
  obtain ⟨settlement, clearing, payable, revenue, ⟨charge, policy, hcharge, hpolicy, hsettle⟩, h₁, h₂, h₃,
    hentries⟩ := hcaptures.entries
  obtain rfl : chargeOf row = charge := Option.some.inj (hbills.charge.symm.trans hcharge)
  have hpays := settleHire_renterPays hsettle
  rw [hpays] at h₁ h₂ h₃
  rw [hbills.ownerId] at h₂
  rw [hbills.categoryVersionId] at hpolicy
  exact ⟨policy, hpolicy, settlement, hsettle, hpays, ownerId, clearing, payable, revenue, howner, h₁, h₂,
    h₃, hentries⟩

theorem Billing.paid (h : Billing w s) (hids : (s.tables.terms.map (·.id)).Nodup) {row : BookingRow}
    (hrow : row.terms ∈ s.tables.terms) (hpaid : Paid s row.id) :
    ((s.payments.attemptsOf row.id .hireCharge).filter (fun a => a.status = .succeeded)).map (·.amount) =
      [⟨row.totalAmount, row.currency⟩] ∧ (s.payments.capturesOf row.id).length = 1 := by
  obtain ⟨n, hb, hp, hopened, ⟨a, ha, hkey, hstatus⟩, tx, htx, htxkey⟩ := hpaid
  have hsound := h.payments.sound
  obtain ⟨r, hr, rfl⟩ := List.mem_map.mp hopened
  constructor
  · have hof : a ∈ s.payments.attemptsOf row.id .hireCharge := by
      refine List.mem_filter.mpr ⟨ha, List.any_eq_true.mpr ⟨r, ?_, by simp [hkey]⟩⟩
      exact List.mem_filter.mpr ⟨hr, by simp [hb, hp]⟩
    have hle : ((s.payments.attemptsOf row.id .hireCharge).filter
        (fun a => a.status = .succeeded)).length ≤ 1 := by
      refine le_trans ?_ (live_length_le_one hsound row.id .hireCharge)
      rw [← List.countP_eq_length_filter, ← List.countP_eq_length_filter]
      refine List.countP_mono_left (fun b _ hs => ?_)
      rw [decide_eq_true_eq] at hs
      simp [ProviderAttempt.live, hs]
    obtain ⟨b, hone⟩ := List.length_eq_one_iff.mp (hle.antisymm
      (List.length_pos_of_mem (List.mem_filter.mpr ⟨hof, decide_eq_true hstatus⟩)))
    have hb : b ∈ s.payments.attemptsOf row.id .hireCharge :=
      List.mem_of_mem_filter (hone ▸ List.mem_singleton_self b)
    rw [hone, List.map_singleton, h.amount hids hrow hb]
  · refine (capturesOf_length hsound row.id).antisymm (List.length_pos_of_mem (a := tx) ?_)
    obtain ⟨n', -, -, -, hcaptures⟩ := hsound.transactions tx htx
    have hbooking := hireCaptureKey_inj (hcaptures.key.symm.trans htxkey)
    refine mem_capturesOf.mpr ⟨htx, hcaptures.kind, ?_⟩
    rw [hcaptures.bookingId, hbooking, hb]

end

end Pay

end RentalMarket.Booking
