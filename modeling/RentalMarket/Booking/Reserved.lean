import RentalMarket.Booking.Pay

namespace RentalMarket.Booking.Pay

open RentalMarket.Core RentalMarket.Payments Runs BookingState

/-- A charge that succeeded is settled on a booking that another press has
meanwhile moved to `PAYMENT_FAILED`. -/
def lostSettlement (s : State) : Action → Bool
  | .exec t _ =>
    match s.calls t with
    | .settling booking _ result =>
      decide (result.status = .succeeded ∧ s.tables.stateOf booking.id = some paymentFailed)
    | _ => false
  | _ => false

/-- The booking has been moved by a press, and not beyond paying. -/
def Underway (r : Tables) (id : Id) : Prop :=
  r.stateOf id = some awaitingPayment ∨ r.stateOf id = some paymentFailed ∨ r.stateOf id = some reserved

/-- The moves a press makes: into one of the three states, and never out of
`RESERVED`. -/
def Moved (r r' : Tables) : Prop :=
  r' = r ∨ ∃ id src dst actorId, r.advance id src dst actorId = some r' ∧ src ≠ reserved ∧
    (dst = awaitingPayment ∨ dst = paymentFailed ∨ dst = reserved)

theorem Moved.underway {r r' : Tables} (h : Moved r r') {id : Id} (hu : Underway r id) :
    Underway r' id := by
  obtain rfl | ⟨id', src, dst, actorId, ha, -, hdst⟩ := h
  · exact hu
  · unfold Underway
    rw [Tables.stateOf_advance ha]
    by_cases he : id = id'
    · simpa [he] using hdst
    · simpa [he, Underway] using hu

theorem Moved.reserved {r r' : Tables} (h : Moved r r') {id : Id}
    (hs : r.stateOf id = some reserved) : r'.stateOf id = some reserved := by
  obtain rfl | ⟨id', src, dst, actorId, ha, hsrc, -⟩ := h
  · exact hs
  · rw [Tables.stateOf_advance ha]
    by_cases he : id = id'
    · subst he
      have := (Tables.advance_eq_some ha).1
      rw [hs] at this
      exact absurd (Option.some.inj this).symm hsrc
    · rw [if_neg he]
      exact hs

theorem movePayable_moved {r r' : Tables} {booking : BookingRow} {renterId : Id}
    (hp : booking.state ∈ payableStates) (h : movePayable r booking renterId = some r') :
    Moved r r' ∧ (booking.state = awaitingPayment ∧ r' = r ∨
      r'.stateOf booking.id = some awaitingPayment) := by
  unfold movePayable at h
  split at h
  · rename_i hs
    cases h
    exact ⟨.inl rfl, .inl ⟨hs, rfl⟩⟩
  · split at h
    · cases h
    · refine ⟨.inr ⟨_, _, _, _, h, ?_, .inl rfl⟩, .inr ?_⟩
      · rintro hs
        rw [hs] at hp
        simp [payableStates] at hp
      · rw [Tables.stateOf_advance h, if_pos rfl]

theorem settle_moved (r : Tables) (booking : BookingRow) (renterId : Id) (status : AttemptStatus) :
    Moved r (settle r booking renterId status) := by
  unfold settle
  split
  · exact .inl rfl
  · rename_i dst hdst
    cases ha : r.advance booking.id awaitingPayment dst (some renterId) with
    | none => exact .inl rfl
    | some r' =>
      refine .inr ⟨_, _, _, _, ha, by decide, ?_⟩
      cases status <;> cases hdst
      · exact .inr (.inr rfl)
      · exact .inr (.inl rfl)

/-- A success reserves the booking, unless it finds `PAYMENT_FAILED`. -/
theorem settle_succeeded {r : Tables} {booking : BookingRow} {renterId : Id}
    (hu : Underway r booking.id) (hlost : r.stateOf booking.id ≠ some paymentFailed) :
    (settle r booking renterId .succeeded).stateOf booking.id = some reserved := by
  simp only [settle, settledState]
  cases ha : r.advance booking.id awaitingPayment reserved (some renterId) with
  | some r' =>
    rw [Option.getD_some, Tables.stateOf_advance ha, if_pos rfl]
  | none =>
    have hne := Tables.advance_eq_none ha
    obtain h | h | h := hu
    · exact absurd h hne
    · exact absurd h hlost
    · exact h

/-- What the locals of a press are worth. -/
def CallOk (s : State) (t : Pid) : Call → Prop
  | .owning booking _ => booking.state ∈ payableStates ∧
    (booking.state = awaitingPayment → Underway s.tables booking.id)
  | .moving booking _ _ => booking.state ∈ payableStates ∧
    (booking.state = awaitingPayment → Underway s.tables booking.id)
  | .charging booking _ => Underway s.tables booking.id ∧
    ∃ ownerId, Asks (instructionOf booking ownerId) (s.payments.procs t)
  | .settling booking _ _ => Underway s.tables booking.id
  | .readingBack booking _ result =>
    result.status = .succeeded → s.tables.stateOf booking.id = some reserved
  | .returned (.paid row result) =>
    result.status = .succeeded → s.tables.stateOf row.id = some reserved
  | _ => True

def InFlight (s : State) (t : Pid) (b : Id) : Prop :=
  match s.calls t with
  | .charging _ _ => Payments.Holds b (s.payments.procs t)
  | .settling booking _ result => booking.id = b ∧ result.status = .succeeded
  | _ => False

/-- What a run from `s₀` keeps: a capture made in it has reserved its booking or
is on its way to. -/
structure Agrees (w : Wiring) (s₀ s : State) : Prop where
  payments : Inv w.payments s.payments
  calls : ∀ t, CallOk s t (s.calls t)
  captured : ∀ b, s.payments.capturesOf b ≠ [] → s₀.payments.capturesOf b ≠ [] ∨
    s.tables.stateOf b = some reserved ∨ ∃ t, InFlight s t b

section

variable {w : Wiring} {s₀ s s' : State} {t : Pid}

theorem callOk_mono (hm : Moved s.tables s'.tables) (hp : s'.payments.procs t = s.payments.procs t)
    {c : Call} (h : CallOk s t c) : CallOk s' t c := by
  cases c with
  | owning booking renterId => exact ⟨h.1, fun hs => hm.underway (h.2 hs)⟩
  | moving booking renterId ownerId => exact ⟨h.1, fun hs => hm.underway (h.2 hs)⟩
  | charging booking renterId =>
    obtain ⟨hu, ownerId, hasks⟩ := h
    refine ⟨hm.underway hu, ownerId, ?_⟩
    rw [hp]
    exact hasks
  | settling booking renterId result => exact hm.underway h
  | readingBack booking renterId result => exact fun hs => hm.reserved (h hs)
  | returned outcome =>
    cases outcome with
    | paid row result => exact fun hs => hm.reserved (h hs)
    | _ => trivial
  | _ => trivial

/-- A step of `t` has only to look after itself, and after the successes it
brings into the ledger or lets go of. -/
theorem Agrees.of_step (h : Agrees w s₀ s) (hpay : Inv w.payments s'.payments)
    (hm : Moved s.tables s'.tables) (hcalls : ∀ t' ≠ t, s'.calls t' = s.calls t')
    (hprocs : ∀ t' ≠ t, s'.payments.procs t' = s.payments.procs t')
    (hok : CallOk s' t (s'.calls t))
    (hcap : ∀ b, s'.payments.capturesOf b ≠ [] → s.payments.capturesOf b ≠ [] ∨ InFlight s' t b)
    (hfly : ∀ b, InFlight s t b → InFlight s' t b ∨ s'.tables.stateOf b = some reserved) :
    Agrees w s₀ s' := by
  refine ⟨hpay, fun t' => ?_, fun b hb => ?_⟩
  · by_cases ht : t' = t
    · subst ht
      exact hok
    · rw [hcalls t' ht]
      exact callOk_mono hm (hprocs t' ht) (h.calls t')
  · obtain hold | hnew := hcap b hb
    · obtain h₀ | hres | ⟨t', ht'⟩ := h.captured b hold
      · exact .inl h₀
      · exact .inr (.inl (hm.reserved hres))
      · by_cases ht : t' = t
        · subst ht
          obtain hstill | hres := hfly b ht'
          · exact .inr (.inr ⟨t', hstill⟩)
          · exact .inr (.inl hres)
        · refine .inr (.inr ⟨t', ?_⟩)
          unfold InFlight at ht' ⊢
          rw [hcalls t' ht, hprocs t' ht]
          exact ht'
    · exact .inr (.inr ⟨t, hnew⟩)

theorem Agrees.setCall (h : Agrees w s₀ s) {c : Call} (hok : CallOk s t c)
    (hfly : ∀ b, ¬InFlight s t b) : Agrees w s₀ (s.setCall t c) := by
  refine h.of_step (t := t) h.payments (.inl rfl) (fun t' ht => setCall_other s ht c)
    (fun _ _ => rfl) ?_ (fun b hb => .inl hb) (fun b hb => absurd hb (hfly b))
  rw [setCall_self]
  exact callOk_mono (s := s) (.inl rfl) rfl hok

theorem not_inFlight {c : Call} (hc : s.calls t = c) (hb : ∀ booking renterId, c ≠ .charging booking renterId)
    (hs : ∀ booking renterId result, c ≠ .settling booking renterId result) (b : Id) :
    ¬InFlight s t b := by
  unfold InFlight
  rw [hc]
  cases c with
  | charging booking renterId => exact absurd rfl (hb booking renterId)
  | settling booking renterId result => exact absurd rfl (hs booking renterId result)
  | _ => exact id

theorem not_inFlight_of_isFree (h : (s.calls t).isFree = true) (b : Id) : ¬InFlight s t b := by
  unfold InFlight
  cases hc : s.calls t with
  | charging booking renterId => simp [hc, Call.isFree] at h
  | settling booking renterId result => simp [hc, Call.isFree] at h
  | _ => exact id

theorem Agrees.finding (h : Agrees w s₀ s) {d : Draw} {bookingId renterId : Id}
    (hc : s.calls t = .finding bookingId renterId) (hx : exec w s t d = some s') : Agrees w s₀ s' := by
  have hfly := not_inFlight hc (fun _ _ => nofun) (fun _ _ _ => nofun)
  simp only [exec, hc] at hx
  split at hx
  · cases hx
    exact h.setCall trivial hfly
  · rename_i booking hfind
    obtain ⟨hfind, -⟩ := Option.filter_eq_some_iff.mp hfind
    split at hx
    · cases hx
      exact h.setCall trivial hfly
    · split at hx <;> cases hx
      · exact h.setCall trivial hfly
      · rename_i hpayable
        refine h.setCall ⟨not_not.mp hpayable, fun hs => .inl ?_⟩ hfly
        rw [Tables.find_id hfind, Tables.stateOf, hfind, Option.map_some, hs]

theorem Agrees.moving (h : Agrees w s₀ s) {d : Draw} {booking : BookingRow} {renterId ownerId : Id}
    (hc : s.calls t = .moving booking renterId ownerId) (hx : exec w s t d = some s') :
    Agrees w s₀ s' := by
  have hfly := not_inFlight hc (fun _ _ => nofun) (fun _ _ _ => nofun)
  have hok : CallOk s t (.moving booking renterId ownerId) := hc ▸ h.calls t
  simp only [exec, hc] at hx
  split at hx
  · cases hx
    exact h.setCall trivial hfly
  · rename_i tables hmove
    obtain ⟨hm, hwhere⟩ := movePayable_moved hok.1 hmove
    obtain ⟨payments, hpay, rfl⟩ := Option.map_eq_some_iff.mp hx
    have hinv := inv_step h.payments hpay
    simp only [Payments.step] at hpay
    split at hpay <;> cases hpay
    refine h.of_step (t := t) hinv hm (fun t' ht => setCall_other _ ht _)
      (fun t' ht => Payments.State.setProc_other _ ht _) ?_ (fun b hb => .inl hb)
      (fun b hb => absurd hb (hfly b))
    rw [setCall_self]
    refine ⟨?_, ownerId, ?_⟩
    · obtain ⟨hs, rfl⟩ | hs := hwhere
      · exact hok.2 hs
      · exact .inl hs
    · show Asks _ ((s.payments.setProc t _).procs t)
      rw [Payments.State.setProc_self]
      rfl

/-- While it charges, a press takes over what its payment call holds. -/
theorem Agrees.charging (h : Agrees w s₀ s) {d : Draw} {booking : BookingRow} {renterId : Id}
    (hc : s.calls t = .charging booking renterId) (hx : exec w s t d = some s') : Agrees w s₀ s' := by
  have hok : CallOk s t (.charging booking renterId) := hc ▸ h.calls t
  obtain ⟨hu, ownerId, hasks⟩ := hok
  simp only [exec, hc] at hx
  split at hx
  · rename_i intent payerAction hproc
    cases hx
    rw [hproc] at hasks
    refine h.of_step (t := t) h.payments (.inl rfl) (fun t' ht => setCall_other _ ht _)
      (fun _ _ => rfl) ?_ (fun b hb => .inl hb) (fun b hb => .inl ?_)
    · rw [setCall_self]
      exact hu
    · simp only [InFlight, hc, hproc] at hb
      simp only [InFlight, setCall_self]
      refine ⟨hasks.bookingId.symm.trans hb.1, ?_⟩
      simp only [hireChargeResult, hb.2, chargeStatus]
  · rename_i e hproc
    cases hx
    refine h.setCall trivial (fun b hb => ?_)
    simp [InFlight, hc, hproc, Payments.Holds] at hb
  · obtain ⟨payments, hpay, rfl⟩ := Option.map_eq_some_iff.mp hx
    have hinv := inv_step h.payments hpay
    obtain ⟨u, p, rfl, e, -⟩ := Payments.exec_effect h.payments hpay
    refine h.of_step (t := t) hinv (.inl rfl) (fun _ _ => rfl) (fun t' ht => ?_) ?_ (fun b hb => ?_)
      (fun b hb => .inl ?_)
    · rw [Payments.State.setProc_other _ ht, e.procs_eq]
    · rw [show s.calls t = _ from hc]
      exact ⟨hu, ownerId, exec_asks h.payments hpay hasks⟩
    · obtain hold | hholds := exec_captured h.payments hpay hb
      · exact .inl hold
      · simp only [InFlight, hc]
        exact .inr hholds
    · simp only [InFlight, hc] at hb ⊢
      exact exec_holds h.payments hpay hb

theorem Agrees.settling (h : Agrees w s₀ s) {d : Draw} {booking : BookingRow} {renterId : Id}
    {result : HireChargeResult} (hc : s.calls t = .settling booking renterId result)
    (hlost : lostSettlement s (.exec t d) = false) (hx : exec w s t d = some s') : Agrees w s₀ s' := by
  have hu : Underway s.tables booking.id := by
    have hok := h.calls t
    rw [hc] at hok
    exact hok
  simp only [exec, hc, Option.some.injEq] at hx
  subst hx
  have hreserved : result.status = .succeeded →
      (settle s.tables booking renterId result.status).stateOf booking.id = some reserved := by
    intro hs
    simp only [lostSettlement, hc, hs, true_and, decide_eq_false_iff_not] at hlost
    rw [hs]
    exact settle_succeeded hu hlost
  refine h.of_step (t := t) h.payments (settle_moved _ _ _ _) (fun t' ht => setCall_other _ ht _)
    (fun _ _ => rfl) ?_ (fun b hb => .inl hb) (fun b hb => .inr ?_)
  · rw [setCall_self]
    exact hreserved
  · simp only [InFlight, hc] at hb
    obtain ⟨rfl, hs⟩ := hb
    exact hreserved hs

theorem Agrees.step (h : Agrees w s₀ s) {a : Action} (hlost : lostSettlement s a = false)
    (hx : step w s a = some s') : Agrees w s₀ s' := by
  cases a with
  | pay t bookingId renterId paymentEnabled =>
    simp only [Pay.step] at hx
    split at hx <;> cases hx
    rename_i hfree
    refine h.setCall ?_ (not_inFlight_of_isFree hfree)
    cases paymentEnabled <;> trivial
  | exec t d =>
    simp only [Pay.step] at hx
    cases hc : s.calls t with
    | idle => simp [exec, hc] at hx
    | returned outcome => simp [exec, hc] at hx
    | finding bookingId renterId => exact h.finding hc hx
    | owning booking renterId =>
      have hok := h.calls t
      rw [hc] at hok
      have hfly := not_inFlight hc (fun _ _ => nofun) (fun _ _ _ => nofun)
      simp only [exec, hc] at hx
      split at hx <;> cases hx
      · exact h.setCall trivial hfly
      · exact h.setCall hok hfly
    | moving booking renterId ownerId => exact h.moving hc hx
    | charging booking renterId => exact h.charging hc hx
    | settling booking renterId result => exact h.settling hc hlost hx
    | readingBack booking renterId result =>
      have hok := h.calls t
      rw [hc] at hok
      simp only [exec, hc] at hx
      obtain ⟨row, hrow, rfl⟩ := Option.map_eq_some_iff.mp hx
      obtain ⟨hfind, -⟩ := Option.filter_eq_some_iff.mp hrow
      refine h.setCall ?_ (not_inFlight hc (fun _ _ => nofun) (fun _ _ _ => nofun))
      intro hs
      rw [Tables.find_id hfind]
      exact hok hs
  | progress reference answer =>
    simp only [Pay.step] at hx
    obtain ⟨payments, hpay, rfl⟩ := Option.map_eq_some_iff.mp hx
    have hinv := inv_step h.payments hpay
    simp only [Payments.step] at hpay
    split at hpay
    · cases hpay
    · split at hpay <;> cases hpay
      refine h.of_step (t := 0) hinv (.inl rfl) (fun _ _ => rfl) (fun _ _ => rfl) ?_
        (fun b hb => .inl hb) (fun b hb => .inl hb)
      exact callOk_mono (s := s) (.inl rfl) rfl (h.calls 0)

end

/-- Money and booking agree. From tables in any state and payments with any
history, no press that returns a success leaves its booking short of
`RESERVED`, and once every press has returned, a hire captured meanwhile is
reserved: provided no success is settled on a booking that a failure has
overtaken. -/
theorem paid_is_reserved (w : Wiring) (ps : List Payments.Action) {s₀ s : State} {as : List Action}
    (hpay : run (Payments.step w.payments) .empty ps = some s₀.payments)
    (hidle : ∀ t, s₀.calls t = .idle) (hr : run (step w) s₀ as = some s)
    (hmeets : Meets (step w) (fun s a => lostSettlement s a = false) s₀ as) :
    (∀ t row result, s.calls t = .returned (.paid row result) → result.status = .succeeded →
      s.tables.stateOf row.id = some reserved) ∧
    ((∀ t, (s.calls t).isFree = true) → ∀ b, s₀.payments.capturesOf b = [] →
      s.payments.capturesOf b ≠ [] → s.tables.stateOf b = some reserved) := by
  have h : Agrees w s₀ s := by
    refine run_preserves_of_meets (P := Agrees w s₀) (fun u a u' hu hl hx => hu.step hl hx) hr hmeets ?_
    refine ⟨inv_run hpay, fun t => ?_, fun b hb => .inl hb⟩
    rw [hidle t]
    trivial
  constructor
  · intro t row result hc hs
    have hok := h.calls t
    rw [hc] at hok
    exact hok hs
  · intro hfree b hbefore hafter
    obtain h₀ | hres | ⟨t, hfly⟩ := h.captured b hafter
    · exact absurd hbefore h₀
    · exact hres
    · exact absurd hfly (not_inFlight_of_isFree (hfree t) b)

def Action.pid : Action → Option Pid
  | .pay t _ _ _ => some t
  | .exec t _ => some t
  | .progress _ _ => none

theorem exec_calls_other {w : Wiring} {s s' : State} {t t' : Pid} {d : Draw}
    (hx : exec w s t' d = some s') (ht : t ≠ t') : s'.calls t = s.calls t := by
  cases hc : s.calls t' with
  | idle => simp [exec, hc] at hx
  | returned outcome => simp [exec, hc] at hx
  | finding bookingId renterId =>
    simp only [exec, hc] at hx
    split at hx
    · cases hx
      exact setCall_other _ ht _
    · split at hx
      · cases hx
        exact setCall_other _ ht _
      · split at hx <;> cases hx <;> exact setCall_other _ ht _
  | owning booking renterId =>
    simp only [exec, hc] at hx
    split at hx <;> cases hx <;> exact setCall_other _ ht _
  | moving booking renterId ownerId =>
    simp only [exec, hc] at hx
    split at hx
    · cases hx
      exact setCall_other _ ht _
    · obtain ⟨payments, -, rfl⟩ := Option.map_eq_some_iff.mp hx
      exact setCall_other _ ht _
  | charging booking renterId =>
    simp only [exec, hc] at hx
    split at hx
    · cases hx
      exact setCall_other _ ht _
    · cases hx
      exact setCall_other _ ht _
    · obtain ⟨payments, -, rfl⟩ := Option.map_eq_some_iff.mp hx
      rfl
  | settling booking renterId result =>
    simp only [exec, hc] at hx
    cases hx
    exact setCall_other _ ht _
  | readingBack booking renterId result =>
    simp only [exec, hc] at hx
    obtain ⟨row, -, rfl⟩ := Option.map_eq_some_iff.mp hx
    exact setCall_other _ ht _

theorem calls_untouched {w : Wiring} {s s' : State} {as : List Action} {t : Pid}
    (hr : run (step w) s as = some s') (ht : ∀ a ∈ as, a.pid ≠ some t) : s'.calls t = s.calls t := by
  induction as generalizing s with
  | nil =>
    cases hr
    rfl
  | cons a as ih =>
    obtain ⟨u, hu, hr⟩ := run_cons_eq_some.mp hr
    rw [ih hr (fun b hb => ht b (List.mem_cons_of_mem _ hb))]
    have hne := ht a List.mem_cons_self
    cases a with
    | pay t' bookingId renterId paymentEnabled =>
      simp only [step] at hu
      split at hu <;> cases hu
      exact setCall_other _ (fun h => hne (by rw [h]; rfl)) _
    | exec t' d => exact exec_calls_other hu (fun h => hne (by rw [h]; rfl))
    | progress reference answer =>
      simp only [step] at hu
      obtain ⟨payments, -, rfl⟩ := Option.map_eq_some_iff.mp hu
      rfl

theorem all_free {w : Wiring} {s s' : State} {as : List Action} (pids : List Pid)
    (hr : run (step w) s as = some s') (hidle : ∀ t, s.calls t = .idle)
    (hpids : ∀ a ∈ as, ∃ t ∈ pids, a.pid = some t)
    (hfree : ∀ t ∈ pids, (s'.calls t).isFree = true) (t : Pid) : (s'.calls t).isFree = true := by
  by_cases ht : t ∈ pids
  · exact hfree t ht
  · rw [calls_untouched hr, hidle t]
    · rfl
    · intro a ha hpid
      obtain ⟨t', ht', hpid'⟩ := hpids a ha
      rw [hpid, Option.some.injEq] at hpid'
      exact ht (hpid' ▸ ht')

def acceptedDrill : BookingRow where
  id := "b1"
  listingId := "drill"
  renterId := "renter"
  state := accepted
  period := ⟨0, 864000000⟩
  timeZone := "Europe/London"
  quoteId := "q1"
  categoryVersionId := "v1"
  itemChargeAmount := 1000
  renterFeeAmount := 100
  totalAmount := 1100
  currency := .gbp
  itemTitle := "Drill"
  categoryName := "Tools"
  damageExcess := none
  requestExpiresAt := 0

def payWiring : Wiring := ⟨drillWiring, fun _ => some "owner"⟩

def beforePaying : State := ⟨⟨[acceptedDrill], []⟩, .empty, fun _ => .idle⟩

/-- `count` steps of one press, with the provider ready to give this answer. -/
def pressSteps (t : Pid) (count : Nat) (answer : Answer) : List Action :=
  List.replicate count (.exec t (drawOf answer))

def accountSteps (t : Pid) : List Action :=
  [clearingId, payableId, revenueId].map (fun id => .exec t ⟨succeeds, id, 0⟩)

/-- A press up to the point where its charge has succeeded and is written
down. -/
def pressSucceeds (t : Pid) : List Action :=
  .pay t "b1" "renter" true :: pressSteps t 10 succeeds ++ accountSteps t ++ pressSteps t 3 succeeds

theorem paid_is_reserved_drill : ∃ s,
    run (step payWiring) beforePaying (pressSucceeds 0 ++ pressSteps 0 3 succeeds) = some s ∧
    (s.payments.capturesOf "b1").length = 1 ∧ s.tables.stateOf "b1" = some reserved := by
  have hrun : (run (step payWiring) beforePaying (pressSucceeds 0 ++ pressSteps 0 3 succeeds)).map
      (fun s => ((s.payments.capturesOf "b1").length, (s.calls 0).isFree)) = some (1, true) := by
    decide +kernel
  obtain ⟨s, hs, hfacts⟩ := Option.map_eq_some_iff.mp hrun
  obtain ⟨hcaptures, hfree⟩ := Prod.mk.inj hfacts
  have hmeets : Meets (step payWiring) (fun s a => lostSettlement s a = false) beforePaying
      (pressSucceeds 0 ++ pressSteps 0 3 succeeds) := by decide +kernel
  refine ⟨s, hs, hcaptures, ?_⟩
  refine (paid_is_reserved payWiring [] rfl (fun _ => rfl) hs hmeets).2 ?_ "b1" rfl ?_
  · exact all_free [0] hs (fun _ => rfl) (by decide +kernel) (by simpa using hfree)
  · intro hnil
    rw [hnil] at hcaptures
    cases hcaptures

/-- The first press is declined. Before it settles, a second one resumes, mints
the next key and succeeds; the first then settles, and the second after it. -/
def failureOvertakes : List Action :=
  .pay 0 "b1" "renter" true :: pressSteps 0 10 declines ++ pressSucceeds 1 ++
    pressSteps 0 3 declines ++ pressSteps 1 3 succeeds

theorem captured_yet_paymentFailed : ∃ s row result,
    run (step payWiring) beforePaying failureOvertakes = some s ∧
    (∀ t, (s.calls t).isFree = true) ∧ (s.payments.capturesOf "b1").length = 1 ∧
    s.calls 1 = .returned (.paid row result) ∧ result.status = .succeeded ∧
    s.tables.stateOf "b1" = some paymentFailed := by
  have hrun : (run (step payWiring) beforePaying failureOvertakes).map (fun s =>
      ((s.payments.capturesOf "b1").length, s.tables.stateOf "b1", (s.calls 0).isFree, s.calls 1)) =
      some (1, some paymentFailed, true, .returned (.paid { acceptedDrill with state := paymentFailed }
        ⟨.succeeded, none, none⟩)) := by decide +kernel
  obtain ⟨s, hs, hfacts⟩ := Option.map_eq_some_iff.mp hrun
  rw [Prod.mk.injEq, Prod.mk.injEq, Prod.mk.injEq] at hfacts
  obtain ⟨hcaptures, hstate, hfirst, hsecond⟩ := hfacts
  refine ⟨s, _, _, hs, ?_, hcaptures, hsecond, rfl, hstate⟩
  refine all_free [0, 1] hs (fun _ => rfl) (by decide +kernel) (fun t ht => ?_)
  obtain rfl | rfl : t = 0 ∨ t = 1 := by simpa using ht
  · exact hfirst
  · rw [hsecond]
    rfl

end RentalMarket.Booking.Pay
