import RentalMarket.Booking.Collection

namespace RentalMarket.Booking.Collection

open RentalMarket.Core RentalMarket.Payments Runs BookingState

/-- The table has this booking, whatever its state by now. -/
def Row (r : Tables) (booking : BookingRow) : Prop :=
  ∃ row, r.find booking.id = some row ∧ row = { booking with state := row.state }

def Steady (r r' : Tables) : Prop := ∀ booking, Row r booking → Row r' booking

theorem row_of_find {r : Tables} {id : Id} {booking : BookingRow} (h : r.find id = some booking) :
    Row r booking := ⟨booking, by rw [Tables.find_id h]; exact h, rfl⟩

theorem steady_advance {r r' : Tables} {id : Id} {src dst : BookingState} {actorId : Option Id}
    (h : r.advance id src dst actorId = some r') : Steady r r' := by
  obtain ⟨-, rfl⟩ := Tables.advance_eq_some h
  rintro booking ⟨row, hrow, hsame⟩
  refine ⟨_, by rw [Tables.find_move, hrow]; rfl, ?_⟩
  split
  · rw [hsame]
  · exact hsame

theorem find_createWithEvent {r r' : Tables} {booking : BookingRow}
    (h : r.createWithEvent booking = some r') (id : Id) :
    r'.find id = (r.find id).or (if booking.id = id then some booking else none) := by
  unfold Tables.createWithEvent at h
  split at h <;> cases h
  simp only [Tables.find, List.find?_append, List.find?_cons, List.find?_nil]
  by_cases hid : booking.id = id
  · simp [hid]
  · simp [hid]

theorem steady_createWithEvent {r r' : Tables} {booking : BookingRow}
    (h : r.createWithEvent booking = some r') : Steady r r' := by
  rintro old ⟨row, hrow, hsame⟩
  exact ⟨row, by rw [find_createWithEvent h, hrow]; rfl, hsame⟩

theorem steady_markFailed (r : Tables) (booking : BookingRow) : Steady r (markFailed r booking) := by
  unfold markFailed
  cases h : r.advance booking.id readyForCollection securityFailed none with
  | none => exact fun _ hrow => hrow
  | some r' => exact steady_advance h

/-- An attempt to hold this booking's excess. -/
structure Secures (booking : BookingRow) (n : NewPaymentIntent) : Prop where
  bookingId : n.bookingId = booking.id
  purpose : n.purpose = .damageSecurity
  amount : appliedExcess booking = some n.amount
  positive : n.amount.amount ≠ 0

/-- The category holds nothing, or its band comes to nothing. -/
def NothingToHold (booking : BookingRow) : Prop :=
  ∀ excess, appliedExcess booking = some excess → excess.amount = 0

def Ended (s : Payments.State) (booking : BookingRow) (status : AttemptStatus) : Prop :=
  ∃ n ∈ s.opened, Secures booking n ∧ s.At n.attemptKey status

/-- What an answer about a booking is worth. -/
def Answers (s : Payments.State) (booking : BookingRow) (result : CollectionSecurityResult) : Prop :=
  match result.status with
  | .notRequired => NothingToHold booking
  | .held => Ended s booking .succeeded
  | .pendingPayerAction => ∃ n ∈ s.opened, Secures booking n
  | .failed => Ended s booking .failed

def OfBooking (r : Tables) (n : NewPaymentIntent) : Prop :=
  n.purpose = .damageSecurity → ∃ booking, Row r booking ∧ Secures booking n

def Holding (w : Payments.Wiring) (booking : BookingRow) (p : Payments.Proc) : Prop :=
  NothingToHold booking ∧ p = .returned .notRequired ∨
    About w (Secures booking) p ∧ p ≠ .returned .notRequired

def CallOk (w : Payments.Wiring) (s : State) (t : Pid) : Call → Prop
  | .owning booking => Row s.tables booking
  | .holding booking => Row s.tables booking ∧ Holding w booking (s.payments.procs t)
  | .marking booking result => Row s.tables booking ∧ result.status = .failed ∧
    Answers s.payments booking result
  | .returned (.secured booking result) => Row s.tables booking ∧ Answers s.payments booking result
  | _ => True

/-- Bookings of any kind, and nothing paid or held for them yet. -/
def beginning (r : Tables) : State := ⟨r, .empty, fun _ => .idle⟩

structure Secured (w : Payments.Wiring) (s₀ s : State) : Prop where
  payments : Inv w s.payments
  told : AllTold s.payments
  lawful : Lawful w (OfBooking s.tables) s.payments
  calls : ∀ t, CallOk w s t (s.calls t)
  marked : ∀ id, s.tables.stateOf id = some securityFailed →
    s₀.tables.stateOf id = some securityFailed ∨
      ∃ booking, booking.id = id ∧ Row s.tables booking ∧ Ended s.payments booking .failed

section

variable {w : Pay.Wiring} {s₀ s s' : State} {t : Pid}

theorem Secures.of_sameAttempt {booking : BookingRow} {new : NewPaymentIntent} {row : PaymentIntent}
    (hsame : assertSameAttempt new row = .ok row) (h : Secures booking new) :
    Secures booking row.toNewPaymentIntent := by
  obtain ⟨-, hb, hp, -, -, hamount, -⟩ := assertSameAttempt_eq_ok hsame
  exact ⟨hb.trans h.bookingId, hp.trans h.purpose, by rw [hamount]; exact h.amount,
    by rw [hamount]; exact h.positive⟩

theorem secures_propose {booking : BookingRow} {ownerId : Id} {excess : Money}
    (hexcess : appliedExcess booking = some excess) (hzero : excess.amount ≠ 0) (count : Nat) :
    Secures booking (((instructionOf booking ownerId).toInstruction excess).propose w.payments count) :=
  ⟨rfl, rfl, hexcess, hzero⟩

theorem Ended.mono {p p' : Payments.State} (g : Grows p p') {booking : BookingRow}
    {status : AttemptStatus} (hterminal : status.isTerminal = true) (h : Ended p booking status) :
    Ended p' booking status := by
  obtain ⟨n, hn, hsecures, hat⟩ := h
  exact ⟨n, g.opened.subset hn, hsecures, g.at_terminal hterminal hat⟩

theorem Answers.mono {p p' : Payments.State} (g : Grows p p') {booking : BookingRow}
    {result : CollectionSecurityResult} (h : Answers p booking result) : Answers p' booking result := by
  unfold Answers at h ⊢
  split at h
  · exact h
  · exact h.mono g rfl
  · obtain ⟨n, hn, hsecures⟩ := h
    exact ⟨n, g.opened.subset hn, hsecures⟩
  · exact h.mono g rfl

theorem OfBooking.mono {r r' : Tables} (hr : Steady r r') {n : NewPaymentIntent}
    (h : OfBooking r n) : OfBooking r' n := by
  intro hp
  obtain ⟨booking, hrow, hsecures⟩ := h hp
  exact ⟨booking, hr booking hrow, hsecures⟩

theorem callOk_mono {u : State} (hr : Steady s.tables u.tables) (g : Grows s.payments u.payments)
    (hp : u.payments.procs t = s.payments.procs t) {c : Call} (h : CallOk w.payments s t c) :
    CallOk w.payments u t c := by
  cases c with
  | owning booking => exact hr booking h
  | holding booking =>
    refine ⟨hr booking h.1, ?_⟩
    rw [hp]
    exact h.2
  | marking booking result => exact ⟨hr booking h.1, h.2.1, h.2.2.mono g⟩
  | returned outcome =>
    cases outcome with
    | secured booking result => exact ⟨hr booking h.1, h.2.mono g⟩
    | _ => trivial
  | _ => trivial

theorem Secured.of_step (h : Secured w.payments s₀ s) (hp : Inv w.payments s'.payments)
    (htold : AllTold s'.payments) (hlawful : Lawful w.payments (OfBooking s'.tables) s'.payments)
    (hr : Steady s.tables s'.tables) (g : Grows s.payments s'.payments)
    (hcalls : ∀ t', t' ≠ t → s'.calls t' = s.calls t')
    (hprocs : ∀ t', t' ≠ t → s'.payments.procs t' = s.payments.procs t')
    (hcall : CallOk w.payments s' t (s'.calls t))
    (hmarked : ∀ id, s'.tables.stateOf id = some securityFailed →
      s.tables.stateOf id = some securityFailed ∨
        ∃ booking, booking.id = id ∧ Row s'.tables booking ∧ Ended s'.payments booking .failed) :
    Secured w.payments s₀ s' := by
  refine ⟨hp, htold, hlawful, fun t' => ?_, fun id hid => ?_⟩
  · by_cases ht : t' = t
    · subst ht
      exact hcall
    · rw [hcalls t' ht]
      exact callOk_mono hr g (hprocs t' ht) (h.calls t')
  · obtain hbefore | hended := hmarked id hid
    · obtain h₀ | ⟨booking, hb, hrow, hended⟩ := h.marked id hbefore
      · exact .inl h₀
      · exact .inr ⟨booking, hb, hr booking hrow, hended.mono g rfl⟩
    · exact .inr hended

theorem Secured.setCall (h : Secured w.payments s₀ s) {c : Call} (hc : CallOk w.payments s t c) :
    Secured w.payments s₀ (s.setCall t c) := by
  refine h.of_step (t := t) h.payments h.told h.lawful (fun _ hrow => hrow) (.of_eq rfl rfl rfl)
    (fun t' ht => setCall_other _ ht _) (fun _ _ => rfl) ?_ (fun id hid => .inl hid)
  rw [setCall_self]
  exact callOk_mono (s := s) (fun _ hrow => hrow) (.of_eq rfl rfl rfl) rfl hc

/-- A step of the payments service, with what becomes of the call it belongs
to. -/
theorem Secured.pay (h : Secured w.payments s₀ s) {a : Payments.Action} {p : Payments.State}
    (hx : Payments.step w.payments s.payments a = some p)
    (ha : a.Proposes w.payments (OfBooking s.tables)) {c : Call}
    (hpid : ∀ t', t' ≠ t → a.pid ≠ some t')
    (hc : CallOk w.payments { s with payments := p } t c) :
    Secured w.payments s₀ ({ s with payments := p }.setCall t c) := by
  refine h.of_step (t := t) (inv_step h.payments hx) (h.told.step h.payments hx)
    (h.lawful.step h.payments ha hx) (fun _ hrow => hrow) (step_grows h.payments hx)
    (fun t' ht => setCall_other _ ht _)
    (fun t' ht => step_procs_other h.payments hx (hpid t' ht)) ?_ (fun id hid => .inl hid)
  rw [setCall_self]
  exact callOk_mono (s := { s with payments := p }) (fun _ hrow => hrow) (.of_eq rfl rfl rfl) rfl hc

theorem setCall_calls (s : State) (t : Pid) : s.setCall t (s.calls t) = s := by
  rw [State.setCall, Function.update_eq_self]

theorem Secured.pay_stays (h : Secured w.payments s₀ s) {a : Payments.Action} {p : Payments.State}
    (hx : Payments.step w.payments s.payments a = some p)
    (ha : a.Proposes w.payments (OfBooking s.tables)) (hpid : ∀ t', t' ≠ t → a.pid ≠ some t')
    (hc : CallOk w.payments { s with payments := p } t (s.calls t)) :
    Secured w.payments s₀ { s with payments := p } := by
  have hpay := h.pay hx ha hpid hc
  rw [show s.calls t = State.calls { s with payments := p } t from rfl, setCall_calls] at hpay
  exact hpay

theorem Secured.tabled (h : Secured w.payments s₀ s) {r : Tables} (hr : Steady s.tables r) {c : Call}
    (hc : CallOk w.payments { s with tables := r } t c)
    (hmarked : ∀ id, r.stateOf id = some securityFailed →
      s.tables.stateOf id = some securityFailed ∨
        ∃ booking, booking.id = id ∧ Row r booking ∧ Ended s.payments booking .failed) :
    Secured w.payments s₀ ({ s with tables := r }.setCall t c) := by
  refine h.of_step (t := t) h.payments h.told (h.lawful.imp (fun _ hn => hn.mono hr)) hr
    (.of_eq rfl rfl rfl) (fun t' ht => setCall_other _ ht _) (fun _ _ => rfl) ?_ hmarked
  rw [setCall_self]
  exact callOk_mono (s := { s with tables := r }) (fun _ hrow => hrow) (.of_eq rfl rfl rfl) rfl hc

theorem Secured.tabled_stays (h : Secured w.payments s₀ s) {r : Tables} (hr : Steady s.tables r)
    (hmarked : ∀ id, r.stateOf id = some securityFailed →
      s.tables.stateOf id = some securityFailed) :
    Secured w.payments s₀ { s with tables := r } :=
  h.of_step (t := 0) h.payments h.told (h.lawful.imp (fun _ hn => hn.mono hr)) hr (.of_eq rfl rfl rfl)
    (fun _ _ => rfl) (fun _ _ => rfl)
    (callOk_mono (u := { s with tables := r }) hr (.of_eq rfl rfl rfl) rfl (h.calls 0))
    (fun id hid => .inl (hmarked id hid))

theorem Secured.finding (h : Secured w.payments s₀ s) {d : Draw} {bookingId renterId : Id}
    (hc : s.calls t = .finding bookingId renterId) (hx : exec w s t d = some s') :
    Secured w.payments s₀ s' := by
  simp only [exec, hc] at hx
  split at hx
  · cases hx
    exact h.setCall trivial
  · rename_i booking hfind
    obtain ⟨hfind, -⟩ := Option.filter_eq_some_iff.mp hfind
    split at hx
    · cases hx
      exact h.setCall trivial
    · split at hx <;> cases hx
      · exact h.setCall trivial
      · exact h.setCall (row_of_find hfind)

theorem Secured.owning (h : Secured w.payments s₀ s) {d : Draw} {booking : BookingRow}
    (hc : s.calls t = .owning booking) (hx : exec w s t d = some s') : Secured w.payments s₀ s' := by
  have hrow : Row s.tables booking := by
    have hok := h.calls t
    rw [hc] at hok
    exact hok
  simp only [exec, hc] at hx
  split at hx
  · cases hx
    exact h.setCall trivial
  · rename_i ownerId _
    obtain ⟨p, hpay, rfl⟩ := Option.map_eq_some_iff.mp hx
    refine h.pay hpay ?_ (fun t' ht hpid => ht (Option.some.inj hpid).symm) ⟨hrow, ?_⟩
    · intro excess hexcess hzero count _
      exact ⟨booking, hrow, secures_propose hexcess hzero count⟩
    · obtain ⟨hnothing, rfl⟩ | ⟨excess, hexcess, hzero, rfl⟩ := step_holdDamageSecurity hpay
      · exact .inl ⟨hnothing, Payments.State.setProc_self _ _ _⟩
      · right
        dsimp only
        rw [Payments.State.setProc_self]
        refine ⟨⟨fun count => secures_propose hexcess hzero count, ?_, ?_⟩, ?_⟩
        · intro intent hintent
          cases hintent
        · rintro result ⟨⟩
        · rintro ⟨⟩

theorem answers_securityResult {p : Payments.State} {booking : BookingRow} {intent : PaymentIntent}
    {payerAction : Option String} (htold : Payments.Told p intent)
    (hsecures : Secures booking intent.toNewPaymentIntent) :
    Answers p booking (securityResult intent payerAction) := by
  cases hs : intent.status with
  | succeeded =>
    simp only [Answers, securityResult, hs]
    exact ⟨_, htold.opened, hsecures, htold.settled .succeeded rfl hs⟩
  | failed =>
    simp only [Answers, securityResult, hs]
    exact ⟨_, htold.opened, hsecures, htold.settled .failed rfl hs⟩
  | _ =>
    simp only [Answers, securityResult, hs]
    exact ⟨_, htold.opened, hsecures⟩

theorem Secured.holding (h : Secured w.payments s₀ s) {d : Draw} {booking : BookingRow}
    (hc : s.calls t = .holding booking) (hx : exec w s t d = some s') : Secured w.payments s₀ s' := by
  obtain ⟨hrow, hhold⟩ : Row s.tables booking ∧ Holding w.payments booking (s.payments.procs t) := by
    have hok := h.calls t
    rw [hc] at hok
    exact hok
  simp only [exec, hc] at hx
  split at hx
  · rename_i hproc
    cases hx
    obtain ⟨hnothing, -⟩ | ⟨-, hne⟩ := hhold
    · exact h.setCall ⟨hrow, hnothing⟩
    · exact absurd hproc hne
  · rename_i intent payerAction hproc
    have hanswers : Answers s.payments booking (securityResult intent payerAction) := by
      obtain ⟨-, hreturned⟩ | ⟨habout, -⟩ := hhold
      · rw [hproc] at hreturned
        cases hreturned
      · have hrecord : (s.payments.procs t).record = some intent := by rw [hproc]; rfl
        exact answers_securityResult (h.told t intent hrecord) (habout.record intent hrecord)
    split at hx <;> cases hx
    · rename_i hfailed
      exact h.setCall ⟨hrow, hfailed, hanswers⟩
    · exact h.setCall ⟨hrow, hanswers⟩
  · cases hx
    exact h.setCall trivial
  · rename_i hne _ _
    obtain ⟨p, hpay, rfl⟩ := Option.map_eq_some_iff.mp hx
    refine h.pay_stays (t := t) hpay trivial (fun t' ht hpid => ht (Option.some.inj hpid).symm) ?_
    rw [hc]
    refine ⟨hrow, ?_⟩
    obtain ⟨-, hreturned⟩ | ⟨habout, -⟩ := hhold
    · exact absurd hreturned hne
    · have f := exec_follows h.payments hpay
      exact .inr ⟨f.about (fun new row hsame hnew => hnew.of_sameAttempt hsame) habout,
        f.ne_notRequired⟩

theorem Secured.marking (h : Secured w.payments s₀ s) {d : Draw} {booking : BookingRow}
    {result : CollectionSecurityResult} (hc : s.calls t = .marking booking result)
    (hx : exec w s t d = some s') : Secured w.payments s₀ s' := by
  obtain ⟨hrow, hfailed, hanswers⟩ : Row s.tables booking ∧ result.status = .failed ∧
      Answers s.payments booking result := by
    have hok := h.calls t
    rw [hc] at hok
    exact hok
  simp only [exec, hc] at hx
  cases hx
  have hr := steady_markFailed s.tables booking
  refine h.tabled hr ⟨hr booking hrow, hanswers⟩ (fun id hid => ?_)
  have hended : Ended s.payments booking .failed := by
    simp only [Answers, hfailed] at hanswers
    exact hanswers
  by_cases hsame : booking.id = id
  · exact .inr ⟨booking, hsame, hr booking hrow, hended⟩
  · left
    unfold markFailed at hid
    cases hadvance : s.tables.advance booking.id readyForCollection securityFailed none with
    | none =>
      rw [hadvance] at hid
      exact hid
    | some r =>
      rw [hadvance, Option.getD_some, Tables.stateOf_advance hadvance, if_neg (Ne.symm hsame)] at hid
      exact hid

theorem Secured.step (h : Secured w.payments s₀ s) {a : Action} (hx : step w s a = some s') :
    Secured w.payments s₀ s' := by
  cases a with
  | secure t bookingId renterId paymentEnabled =>
    simp only [Collection.step] at hx
    split at hx <;> cases hx
    apply h.setCall
    cases paymentEnabled <;> trivial
  | exec t d =>
    simp only [Collection.step] at hx
    cases hc : s.calls t with
    | idle => simp [exec, hc] at hx
    | returned outcome => simp [exec, hc] at hx
    | finding bookingId renterId => exact h.finding hc hx
    | owning booking => exact h.owning hc hx
    | holding booking => exact h.holding hc hx
    | marking booking result => exact h.marking hc hx
  | crash t =>
    simp only [Collection.step] at hx
    obtain ⟨p, hpay, rfl⟩ := Option.map_eq_some_iff.mp hx
    exact h.pay hpay trivial (fun t' ht hpid => ht (Option.some.inj hpid).symm) trivial
  | elsewhere a =>
    simp only [Collection.step] at hx
    split at hx
    · rename_i hmay
      obtain ⟨p, hpay, rfl⟩ := Option.map_eq_some_iff.mp hx
      -- a call that is free stands on nothing its slot of the payments service holds
      have hfree : ∀ {c : Call}, c.isFree = true → ∀ t, CallOk w.payments s t c →
          CallOk w.payments { s with payments := p } t c := by
        intro c hc t hok
        cases c with
        | idle => trivial
        | returned outcome =>
          cases outcome with
          | secured booking result => exact ⟨hok.1, hok.2.mono (step_grows h.payments hpay)⟩
          | _ => trivial
        | _ => cases hc
      cases a with
      | payForHire t i =>
        exact h.pay_stays (t := t) hpay (fun count hp => nomatch hp)
          (fun t' ht hpid => ht (Option.some.inj hpid).symm) (hfree hmay t (h.calls t))
      | holdDamageSecurity t i => cases hmay
      | refresh t intentId =>
        exact h.pay_stays (t := t) hpay trivial (fun t' ht hpid => ht (Option.some.inj hpid).symm)
          (hfree hmay t (h.calls t))
      | exec t d =>
        exact h.pay_stays (t := t) hpay trivial (fun t' ht hpid => ht (Option.some.inj hpid).symm)
          (hfree hmay t (h.calls t))
      | crash t =>
        exact h.pay_stays (t := t) hpay trivial (fun t' ht hpid => ht (Option.some.inj hpid).symm)
          (hfree hmay t (h.calls t))
      | progress reference answer =>
        refine h.pay_stays (t := 0) hpay trivial (fun _ _ hpid => nomatch hpid) ?_
        exact callOk_mono (s := s) (u := { s with payments := p }) (fun _ hrow => hrow)
          (step_grows h.payments hpay) (step_procs_other h.payments hpay nofun) (h.calls 0)
    · cases hx
  | moved bookingId src dst actorId =>
    simp only [Collection.step] at hx
    split at hx
    · rename_i hguard
      obtain ⟨r, hadvance, rfl⟩ := Option.map_eq_some_iff.mp hx
      have hr := steady_advance hadvance
      refine h.tabled_stays hr (fun id hid => ?_)
      rw [Tables.stateOf_advance hadvance] at hid
      split at hid
      · exact absurd (Option.some.inj hid) hguard.2
      · exact hid
    · cases hx
  | requested booking =>
    simp only [Collection.step] at hx
    split at hx
    · rename_i hrequested
      obtain ⟨r, hcreate, rfl⟩ := Option.map_eq_some_iff.mp hx
      have hr := steady_createWithEvent hcreate
      refine h.tabled_stays hr (fun id hid => ?_)
      rw [Tables.stateOf, find_createWithEvent hcreate] at hid
      cases hfind : s.tables.find id with
      | some row => simpa [Tables.stateOf, hfind] using hid
      | none =>
        rw [hfind] at hid
        split at hid
        · rw [show (none : Option BookingRow).or (some booking) = some booking from rfl,
            Option.map_some, hrequested] at hid
          cases hid
        · cases hid
    · cases hx

theorem secured_run {r : Tables} {as : List Action} (hr : run (step w) (beginning r) as = some s) :
    Secured w.payments (beginning r) s := by
  refine run_preserves (P := Secured w.payments (beginning r)) (fun _ _ _ h hx => h.step hx) hr ?_
  refine ⟨inv_empty, ?_, ⟨fun n hn => (nomatch hn), fun t => trivial⟩, fun t => trivial,
    fun id hid => .inl hid⟩
  intro t intent hintent
  cases hintent

/-- What was opened for a booking is recorded, and for what the booking puts at
risk. -/
theorem exists_intent {p : Payments.State} {booking : BookingRow} {n : NewPaymentIntent}
    (hn : n ∈ p.opened) (hsecures : Secures booking n) :
    ∃ intent ∈ p.intents, intent.bookingId = booking.id ∧ intent.purpose = .damageSecurity ∧
      appliedExcess booking = some intent.amount ∧ intent.amount.amount ≠ 0 := by
  obtain ⟨intent, hintent, rfl⟩ := List.mem_map.mp hn
  exact ⟨intent, hintent, hsecures.bookingId, hsecures.purpose, hsecures.amount, hsecures.positive⟩

/-- An attempt that ended is one of the provider's for the booking, and for
what the booking puts at risk. -/
theorem Ended.exists_attempt (h : Payments.Sound w.payments s.payments) {booking : BookingRow}
    {status : AttemptStatus} (hended : Ended s.payments booking status) :
    ∃ a ∈ s.payments.attemptsOf booking.id .damageSecurity, a.status = status ∧
      appliedExcess booking = some a.amount := by
  obtain ⟨n, hn, hsecures, hat⟩ := hended
  obtain ⟨a, ha, -, hamount, hstatus⟩ := exists_attemptOf h hn hat
  rw [hsecures.bookingId, hsecures.purpose] at ha
  exact ⟨a, ha, hstatus, by rw [hamount]; exact hsecures.amount⟩

end

/-- A handover is never reported secured, unsecured or broken unless it is so.
In any run of calls, crashes, payments, refreshes and moves of bookings: what is
answered of a booking is that of an attempt of its own for exactly its excess,
one that is recorded where the payer is still to act, or that there is nothing
to hold; and a booking is in `SECURITY_FAILED` only where the provider has
refused such an attempt. -/
theorem secured_truly (w : Pay.Wiring) {r : Tables} {s : State} {as : List Action}
    (hr : run (step w) (beginning r) as = some s) :
    (∀ t booking result, s.calls t = .returned (.secured booking result) →
      Row s.tables booking ∧
      (result.status = .notRequired → NothingToHold booking) ∧
      (result.status = .held → ∃ a ∈ s.payments.attemptsOf booking.id .damageSecurity,
        a.status = .succeeded ∧ appliedExcess booking = some a.amount) ∧
      (result.status = .pendingPayerAction → ∃ intent ∈ s.payments.intents,
        intent.bookingId = booking.id ∧ intent.purpose = .damageSecurity ∧
        appliedExcess booking = some intent.amount ∧ intent.amount.amount ≠ 0) ∧
      (result.status = .failed → ∃ a ∈ s.payments.attemptsOf booking.id .damageSecurity,
        a.status = .failed ∧ appliedExcess booking = some a.amount)) ∧
    ∀ id, s.tables.stateOf id = some securityFailed →
      r.stateOf id = some securityFailed ∨
        ∃ booking, booking.id = id ∧ Row s.tables booking ∧
          ∃ a ∈ s.payments.attemptsOf id .damageSecurity,
            a.status = .failed ∧ appliedExcess booking = some a.amount := by
  have h := secured_run hr
  constructor
  · intro t booking result hc
    have hok := h.calls t
    rw [hc] at hok
    obtain ⟨hrow, hanswers⟩ := hok
    refine ⟨hrow, fun hs => ?_, fun hs => ?_, fun hs => ?_, fun hs => ?_⟩
    · simp only [Answers, hs] at hanswers
      exact hanswers
    · simp only [Answers, hs] at hanswers
      exact hanswers.exists_attempt h.payments.sound
    · simp only [Answers, hs] at hanswers
      obtain ⟨n, hn, hsecures⟩ := hanswers
      exact exists_intent hn hsecures
    · simp only [Answers, hs] at hanswers
      exact hanswers.exists_attempt h.payments.sound
  · intro id hid
    obtain h₀ | ⟨booking, rfl, hrow, hended⟩ := h.marked id hid
    · exact .inl h₀
    · exact .inr ⟨booking, rfl, hrow, hended.exists_attempt h.payments.sound⟩

def collectableDrill : BookingRow where
  id := "b1"
  listingId := "drill"
  renterId := "renter"
  state := readyForCollection
  period := ⟨0, 864000000⟩
  timeZone := "Europe/London"
  quoteId := "q1"
  categoryVersionId := "v1"
  itemChargeAmount := 1000
  renterFeeAmount := 100
  totalAmount := 1100
  currency := .gbp
  itemTitle := "Drill"
  categoryName := "Tools"
  damageExcess := some (10000, .floor)
  requestExpiresAt := 0

def collectionWiring : Pay.Wiring := ⟨drillWiring, fun _ => some "owner"⟩

/-- A call of `secureCollection`, run until it has answered. -/
def securing (t : Pid) (count : Nat) (answer : Answer) : List Action :=
  .secure t "b1" "renter" true :: List.replicate count (.exec t (drawOf answer))

theorem secured_truly_drill : ∃ s,
    run (step collectionWiring) (beginning ⟨[collectableDrill], []⟩) (securing 0 10 declines) = some s ∧
    s.tables.stateOf "b1" = some securityFailed ∧
    ∃ a ∈ s.payments.attemptsOf "b1" .damageSecurity, a.status = .failed := by
  have hrun : (run (step collectionWiring) (beginning ⟨[collectableDrill], []⟩)
      (securing 0 10 declines)).map (fun s => s.tables.stateOf "b1") = some (some securityFailed) := by
    decide +kernel
  obtain ⟨s, hs, hstate⟩ := Option.map_eq_some_iff.mp hrun
  refine ⟨s, hs, hstate, ?_⟩
  obtain hbefore | ⟨-, -, -, a, ha, hfailed, -⟩ := (secured_truly collectionWiring hs).2 "b1" hstate
  · cases hbefore
  · exact ⟨a, ha, hfailed⟩

/-- The hold is the excess, and there is one. In any such run every attempt to
hold money against a booking is for the excess the booking was made with, which
is more than nothing, and at most one of them is live. -/
theorem holds_are_the_excess (w : Pay.Wiring) {r : Tables} {s : State} {as : List Action}
    (hr : run (step w) (beginning r) as = some s) (id : Id) :
    (∀ a ∈ s.payments.attemptsOf id .damageSecurity, ∃ booking, booking.id = id ∧
      Row s.tables booking ∧ appliedExcess booking = some a.amount ∧ 0 < a.amount.amount) ∧
    ((s.payments.attemptsOf id .damageSecurity).filter ProviderAttempt.live).length ≤ 1 := by
  have h := secured_run hr
  refine ⟨fun a ha => ?_, live_length_le_one h.payments.sound id .damageSecurity⟩
  obtain ⟨hmem, hany⟩ := List.mem_filter.mp ha
  obtain ⟨row, hrow, hkey⟩ := List.any_eq_true.mp hany
  obtain ⟨hintent, hof⟩ := List.mem_filter.mp hrow
  rw [decide_eq_true_eq] at hkey hof
  obtain ⟨hlawful, hallowed⟩ := h.lawful.opened _ (mem_opened hintent)
  obtain ⟨booking, hbooking, hsecures⟩ := hlawful hof.2
  have hamount := attempt_amount h.payments.sound hmem hintent hkey
  refine ⟨booking, ?_, hbooking, ?_, ?_⟩
  · rw [← hsecures.bookingId, hof.1]
  · rw [hamount]
    exact hsecures.amount
  · rw [hamount]
    simp only [intentAllowed, Bool.and_eq_true, decide_eq_true_eq] at hallowed
    exact hallowed.1.2.1

def refusedThenHeld : List Action :=
  securing 0 10 declines ++ .moved "b1" securityFailed readyForCollection none ::
    securing 1 9 succeeds

theorem holds_are_the_excess_drill : ∃ s,
    run (step collectionWiring) (beginning ⟨[collectableDrill], []⟩) refusedThenHeld = some s ∧
    (s.payments.attemptsOf "b1" .damageSecurity).map (·.status) = [.failed, .succeeded] ∧
    ((s.payments.attemptsOf "b1" .damageSecurity).filter ProviderAttempt.live).length ≤ 1 := by
  have hrun : (run (step collectionWiring) (beginning ⟨[collectableDrill], []⟩) refusedThenHeld).map
      (fun s => (s.payments.attemptsOf "b1" .damageSecurity).map (·.status)) =
      some [.failed, .succeeded] := by decide +kernel
  obtain ⟨s, hs, hstatuses⟩ := Option.map_eq_some_iff.mp hrun
  exact ⟨s, hs, hstatuses, (holds_are_the_excess collectionWiring hs "b1").2⟩

end RentalMarket.Booking.Collection
