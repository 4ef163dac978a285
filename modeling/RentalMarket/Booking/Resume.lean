import RentalMarket.Booking.Reserved

namespace RentalMarket.Booking.Pay

open RentalMarket.Core RentalMarket.Payments Runs BookingState

/-- A challenge comes with what the payer needs to answer it. -/
def Answerable (answer : Answer) : Prop := answer.status = .pendingPayerAction → answer.payerAction.isSome = true

instance (answer : Answer) : Decidable (Answerable answer) := inferInstanceAs (Decidable (_ → _))

/-- What the provider is trusted with: every challenge it issues is answerable. -/
def Action.answerable : Action → Prop
  | .pay _ _ _ _ => True
  | .exec _ d => Answerable d.answer
  | .progress _ answer => Answerable answer

instance : ∀ a : Action, Decidable a.answerable
  | .pay _ _ _ _ => isTrue trivial
  | .exec _ d => inferInstanceAs (Decidable (Answerable d.answer))
  | .progress _ answer => inferInstanceAs (Decidable (Answerable answer))

def takesUp (s : Payments.State) (t : Pid) : Option PaymentIntent :=
  match s.procs t with
  | .finding new => s.findByKey new.attemptKey
  | .refinding new => s.findByKey new.attemptKey
  | _ => none

/-- The press takes up an attempt that is already waiting for its payer. -/
def resumesChallenge (s : State) : Action → Bool
  | .exec t _ =>
    match s.calls t with
    | .charging _ _ => (takesUp s.payments t).any (fun row => row.status = .pendingPayerAction)
    | _ => false
  | _ => false

/-- The payer can act on this result. -/
def Finishable (result : HireChargeResult) : Prop :=
  result.status = .pendingPayerAction → result.payerAction.isSome = true

def Carries : Payments.Proc → Prop
  | .calling intent _ => intent.status = .initiated
  | .applying intent attempt => intent.status = .initiated ∧
    (attempt.status = .pendingPayerAction → attempt.payerAction.isSome = true)
  | .recording _ attempt => attempt.status = .pendingPayerAction → attempt.payerAction.isSome = true
  | .capturing _ attempt => attempt.status = .succeeded
  | .clearing _ attempt _ => attempt.status = .succeeded
  | .payable _ attempt _ _ => attempt.status = .succeeded
  | .revenue _ attempt _ _ _ => attempt.status = .succeeded
  | .posting _ attempt _ => attempt.status = .succeeded
  | .inserting _ attempt _ => attempt.status = .succeeded
  | .reposting _ attempt _ => attempt.status = .succeeded
  | .returned (.attempted intent payerAction) =>
    intent.status = .pendingPayerAction → payerAction.isSome = true
  | .refreshing _ => False
  | .reading _ _ => False
  | _ => True

section

variable {w : Payments.Wiring} {s s' : Payments.State} {t : Pid} {d : Draw}

theorem begun_carries {new : NewPaymentIntent} {row : PaymentIntent} (h : row.status ≠ .pendingPayerAction) :
    Carries (begun new row) := by
  unfold begun
  split
  · trivial
  · rename_i intent hok
    obtain ⟨rfl, -⟩ := assertSameAttempt_eq_ok hok
    split
    · exact fun hpending => absurd hpending h
    · rename_i hinitiated
      exact not_not.mp hinitiated

theorem posted_carries {intent : PaymentIntent} {attempt : PaymentAttempt} {draft : LedgerDraft}
    {p : PostedTransaction} (h : attempt.status = .succeeded) : Carries (posted intent attempt draft p) := by
  unfold posted
  split
  · trivial
  · intro hpending
    rw [h] at hpending
    cases hpending

theorem exec_carries (hx : Payments.exec w s t d = some s') (ha : ∀ a ∈ s.attempts, Answerable a.toAnswer)
    (hd : Answerable d.answer) (hnew : ∀ row ∈ takesUp s t, row.status ≠ .pendingPayerAction)
    (h : Carries (s.procs t)) : (∀ a ∈ s'.attempts, Answerable a.toAnswer) ∧ Carries (s'.procs t) := by
  have hput : ∀ (u : Payments.State) (p : Payments.Proc), (∀ a ∈ u.attempts, Answerable a.toAnswer) → Carries p →
      (∀ a ∈ (u.setProc t p).attempts, Answerable a.toAnswer) ∧ Carries ((u.setProc t p).procs t) := by
    intro u p hu hp
    rw [Payments.State.setProc_self]
    exact ⟨hu, hp⟩
  unfold Payments.exec at hx
  cases hproc : s.procs t with
  | idle => simp [hproc] at hx
  | returned result => simp [hproc] at hx
  | settling j =>
    simp only [hproc] at hx
    split at hx <;> cases hx
    · exact hput _ _ ha trivial
    · exact hput _ _ ha trivial
  | keying j =>
    simp only [hproc] at hx
    cases hx
    exact hput _ _ ha trivial
  | finding new =>
    simp only [hproc] at hx
    simp only [takesUp, hproc] at hnew
    split at hx <;> cases hx
    · rename_i row hrow
      exact hput _ _ ha (begun_carries (hnew row hrow))
    · exact hput _ _ ha trivial
  | creating new =>
    simp only [hproc] at hx
    split at hx <;> cases hx
    · exact hput _ _ ha (begun_carries nofun)
    · exact hput _ _ ha trivial
  | refinding new =>
    simp only [hproc] at hx
    simp only [takesUp, hproc] at hnew
    split at hx <;> cases hx
    · rename_i row hrow
      exact hput _ _ ha (begun_carries (hnew row hrow))
    · exact hput _ _ ha trivial
  | calling intent amount =>
    simp only [hproc] at hx h
    split at hx
    · obtain ⟨a, ha', rfl⟩ := Option.map_eq_some_iff.mp hx
      exact hput _ _ ha ⟨h, ha a (List.mem_of_getElem? ha')⟩
    · cases hx
      refine hput _ _ (fun a ha' => ?_) ⟨h, hd⟩
      obtain ha' | ha' := List.mem_append.mp ha'
      · exact ha a ha'
      · rw [List.mem_singleton.mp ha']
        exact hd
  | applying intent attempt =>
    simp only [hproc] at hx h
    split at hx
    · cases hx
      exact hput _ _ ha trivial
    · cases hx
      refine hput _ _ ha (fun hpending => ?_)
      rw [h.1] at hpending
      cases hpending
    · split at hx <;> cases hx
      · rename_i hsucceeded
        exact hput _ _ ha hsucceeded.1
      · exact hput _ _ ha h.2
  | capturing intent attempt =>
    simp only [hproc] at hx h
    split at hx
    · cases hx
    · split at hx <;> cases hx
      · exact hput _ _ ha trivial
      · exact hput _ _ ha h
  | clearing intent attempt settlement =>
    simp only [hproc] at hx h
    split at hx
    · split at hx <;> cases hx
      · exact hput _ _ ha trivial
      · exact hput _ _ ha h
    · cases hx
  | payable intent attempt settlement clearing =>
    simp only [hproc] at hx h
    split at hx
    · split at hx <;> cases hx
      · exact hput _ _ ha trivial
      · exact hput _ _ ha h
    · cases hx
  | revenue intent attempt settlement clearing payable =>
    simp only [hproc] at hx h
    split at hx
    · split at hx
      · cases hx
        exact hput _ _ ha trivial
      · split at hx
        · cases hx
          exact hput _ _ ha trivial
        · split at hx <;> cases hx
          · exact hput _ _ ha trivial
          · exact hput _ _ ha h
    · cases hx
  | posting intent attempt draft =>
    simp only [hproc] at hx h
    split at hx <;> cases hx
    · exact hput _ _ ha (posted_carries h)
    · exact hput _ _ ha h
  | inserting intent attempt draft =>
    simp only [hproc] at hx h
    split at hx <;> cases hx
    · exact hput _ _ ha (posted_carries h)
    · exact hput _ _ ha h
  | reposting intent attempt draft =>
    simp only [hproc] at hx h
    split at hx <;> cases hx
    · exact hput _ _ ha (posted_carries h)
    · exact hput _ _ ha trivial
  | recording intent attempt =>
    simp only [hproc] at hx h
    split at hx
    · cases hx
    · split at hx <;> cases hx
      · refine hput _ _ ha (fun hpending => h ?_)
        exact AttemptStatus.toIntent_injective hpending
      · exact hput _ _ ha trivial
  | refreshing intentId =>
    rw [hproc] at h
    exact h.elim
  | reading intent reference =>
    rw [hproc] at h
    exact h.elim

end

def Carried (s : State) (t : Pid) : Call → Prop
  | .charging _ _ => Carries (s.payments.procs t)
  | .settling _ _ result => Finishable result
  | .readingBack _ _ result => Finishable result
  | .returned (.paid _ result) => Finishable result
  | _ => True

structure Answers (w : Wiring) (s : State) : Prop where
  payments : Inv w.payments s.payments
  attempts : ∀ a ∈ s.payments.attempts, Answerable a.toAnswer
  calls : ∀ t, Carried s t (s.calls t)

section

variable {w : Wiring} {s s' : State} {t : Pid}

theorem carried_of_procs (hp : s'.payments.procs t = s.payments.procs t) {c : Call} (h : Carried s t c) :
    Carried s' t c := by
  cases c with
  | charging booking renterId =>
    rw [Carried, hp]
    exact h
  | returned outcome => cases outcome <;> exact h
  | _ => exact h

theorem Answers.setCall (h : Answers w s) {c : Call} (hc : Carried s t c) (tables : Tables) :
    Answers w ({ s with tables := tables }.setCall t c) where
  payments := h.payments
  attempts := h.attempts
  calls u := by
    apply carried_of_procs (s := s) rfl
    by_cases hu : u = t
    · subst hu
      rw [setCall_self]
      exact hc
    · rw [setCall_other _ hu]
      exact h.calls u

theorem Answers.moving (h : Answers w s) {d : Draw} {booking : BookingRow} {renterId ownerId : Id}
    (hc : s.calls t = .moving booking renterId ownerId) (hx : exec w s t d = some s') : Answers w s' := by
  simp only [exec, hc] at hx
  split at hx
  · cases hx
    exact h.setCall (c := .returned (.refused _)) trivial s.tables
  · obtain ⟨payments, hpay, rfl⟩ := Option.map_eq_some_iff.mp hx
    have hinv := inv_step h.payments hpay
    simp only [Payments.step] at hpay
    split at hpay <;> cases hpay
    refine ⟨hinv, h.attempts, fun t' => ?_⟩
    by_cases ht : t' = t
    · subst ht
      rw [setCall_self]
      show Carries ((s.payments.setProc t' _).procs t')
      rw [Payments.State.setProc_self]
      trivial
    · rw [setCall_other _ ht]
      exact carried_of_procs (s := s) (Payments.State.setProc_other _ ht _) (h.calls t')

theorem Answers.charging (h : Answers w s) {d : Draw} {booking : BookingRow} {renterId : Id}
    (hc : s.calls t = .charging booking renterId) (hd : Answerable d.answer)
    (hresumes : resumesChallenge s (.exec t d) = false) (hx : exec w s t d = some s') : Answers w s' := by
  have hcarries : Carries (s.payments.procs t) := by
    have hok := h.calls t
    rw [hc] at hok
    exact hok
  simp only [exec, hc] at hx
  split at hx
  · rename_i intent payerAction hproc
    cases hx
    rw [hproc] at hcarries
    refine h.setCall (c := .settling booking renterId (hireChargeResult intent payerAction)) (fun hpending => ?_)
      s.tables
    apply hcarries
    cases hstatus : intent.status <;> simp [hireChargeResult, hstatus, chargeStatus] at hpending
    rfl
  · cases hx
    exact h.setCall (c := .returned (.threw _)) trivial s.tables
  · obtain ⟨payments, hpay, rfl⟩ := Option.map_eq_some_iff.mp hx
    have hnew : ∀ row ∈ takesUp s.payments t, row.status ≠ .pendingPayerAction := by
      intro row hrow hpending
      have hrow : takesUp s.payments t = some row := hrow
      simp [resumesChallenge, hc, hrow, hpending] at hresumes
    obtain ⟨hattempts, hprocs⟩ := exec_carries hpay h.attempts hd hnew hcarries
    have hinv := inv_step h.payments hpay
    obtain ⟨u, p, rfl, e, -⟩ := Payments.exec_effect h.payments hpay
    refine ⟨hinv, hattempts, fun t' => ?_⟩
    by_cases ht : t' = t
    · subst ht
      rw [show s.calls t' = _ from hc]
      exact hprocs
    · refine carried_of_procs (s := s) ?_ (h.calls t')
      rw [Payments.State.setProc_other _ ht, e.procs_eq]

theorem Answers.step (h : Answers w s) {a : Action} (ha : a.answerable) (hresumes : resumesChallenge s a = false)
    (hx : step w s a = some s') : Answers w s' := by
  cases a with
  | pay t bookingId renterId paymentEnabled =>
    simp only [Pay.step] at hx
    split at hx <;> cases hx
    refine h.setCall ?_ s.tables
    cases paymentEnabled <;> trivial
  | exec t d =>
    simp only [Pay.step] at hx
    cases hc : s.calls t with
    | idle => simp [exec, hc] at hx
    | returned outcome => simp [exec, hc] at hx
    | finding bookingId renterId =>
      simp only [exec, hc] at hx
      split at hx
      · cases hx
        exact h.setCall (c := .returned .notFound) trivial s.tables
      · split at hx
        · cases hx
          exact h.setCall (c := .returned .notFound) trivial s.tables
        · split at hx <;> cases hx
          · exact h.setCall (c := .returned (.refused _)) trivial s.tables
          · exact h.setCall (c := .owning _ _) trivial s.tables
    | owning booking renterId =>
      simp only [exec, hc] at hx
      split at hx <;> cases hx
      · exact h.setCall (c := .returned (.refused _)) trivial s.tables
      · exact h.setCall (c := .moving _ _ _) trivial s.tables
    | moving booking renterId ownerId => exact h.moving hc hx
    | charging booking renterId => exact h.charging hc ha hresumes hx
    | settling booking renterId result =>
      have hok := h.calls t
      rw [hc] at hok
      simp only [exec, hc, Option.some.injEq] at hx
      subst hx
      exact h.setCall (c := .readingBack booking renterId result) hok _
    | readingBack booking renterId result =>
      have hok := h.calls t
      rw [hc] at hok
      simp only [exec, hc] at hx
      obtain ⟨row, -, rfl⟩ := Option.map_eq_some_iff.mp hx
      exact h.setCall (c := .returned (.paid row result)) hok s.tables
  | progress reference answer =>
    simp only [Pay.step] at hx
    obtain ⟨payments, hpay, rfl⟩ := Option.map_eq_some_iff.mp hx
    have hinv := inv_step h.payments hpay
    simp only [Payments.step] at hpay
    split at hpay
    · cases hpay
    · split at hpay <;> cases hpay
      refine ⟨hinv, fun b hb => ?_, fun t' => ?_⟩
      · obtain hb | rfl := List.mem_or_eq_of_mem_set hb
        · exact h.attempts b hb
        · exact ha
      · exact carried_of_procs (s := s) rfl (h.calls t')

end

/-- A payment that is not finished can be. From tables in any state and payments
with any history, every result that waits for its payer says how to go on, as
long as no press takes up an attempt that was waiting already. -/
theorem unfinished_is_finishable (w : Wiring) (ps : List Payments.Action) {s₀ s : State} {as : List Action}
    (hpay : run (Payments.step w.payments) .empty ps = some s₀.payments)
    (hbefore : ∀ a ∈ s₀.payments.attempts, Answerable a.toAnswer) (hidle : ∀ t, s₀.calls t = .idle)
    (hr : run (step w) s₀ as = some s) (hanswers : ∀ a ∈ as, a.answerable)
    (hmeets : Meets (step w) (fun s a => resumesChallenge s a = false) s₀ as) :
    ∀ t row result, s.calls t = .returned (.paid row result) → Finishable result := by
  have hboth : Meets (step w) (fun s a => a.answerable ∧ resumesChallenge s a = false) s₀ as :=
    meets_and (meets_of_forall hanswers) hmeets
  have h : Answers w s := by
    refine run_preserves_of_meets (P := Answers w) (fun u a u' hu ha hx => hu.step ha.1 ha.2 hx) hr hboth ?_
    refine ⟨inv_run hpay, hbefore, fun t => ?_⟩
    rw [hidle t]
    trivial
  intro t row result hc
  have hok := h.calls t
  rw [hc] at hok
  exact hok

def challenges : Answer := ⟨.pendingPayerAction, some "challenge-token", none, none, none⟩

def pressIsChallenged : List Action := .pay 0 "b1" "renter" true :: pressSteps 0 13 challenges

theorem unfinished_is_finishable_drill : ∃ s row result,
    run (step payWiring) beforePaying pressIsChallenged = some s ∧
    s.calls 0 = .returned (.paid row result) ∧ result.status = .pendingPayerAction ∧
    result.payerAction.isSome = true := by
  have hrun : (run (step payWiring) beforePaying pressIsChallenged).map (fun s => s.calls 0) =
      some (.returned (.paid { acceptedDrill with state := awaitingPayment }
        ⟨.pendingPayerAction, some "challenge-token", none⟩)) := by decide +kernel
  obtain ⟨s, hs, hc⟩ := Option.map_eq_some_iff.mp hrun
  have hanswers : ∀ a ∈ pressIsChallenged, a.answerable := by decide +kernel
  have hmeets : Meets (step payWiring) (fun s a => resumesChallenge s a = false) beforePaying
      pressIsChallenged := by decide +kernel
  refine ⟨s, _, _, hs, hc, rfl, ?_⟩
  exact unfinished_is_finishable payWiring [] rfl (fun _ ha => by cases ha) (fun _ => rfl) hs hanswers hmeets
    0 _ _ hc rfl

def pressIsResumed : List Action :=
  pressIsChallenged ++ .pay 1 "b1" "renter" true :: pressSteps 1 9 challenges

theorem a_resumed_challenge_loses_its_token : (∀ a ∈ pressIsResumed, a.answerable) ∧
    ∃ s row result, run (step payWiring) beforePaying pressIsResumed = some s ∧
      s.calls 1 = .returned (.paid row result) ∧ row.state = awaitingPayment ∧ ¬Finishable result := by
  have hrun : (run (step payWiring) beforePaying pressIsResumed).map (fun s => s.calls 1) =
      some (.returned (.paid { acceptedDrill with state := awaitingPayment }
        ⟨.pendingPayerAction, none, none⟩)) := by decide +kernel
  obtain ⟨s, hs, hc⟩ := Option.map_eq_some_iff.mp hrun
  refine ⟨by decide +kernel, s, _, _, hs, hc, rfl, fun h => ?_⟩
  have hsome := h rfl
  cases hsome

end RentalMarket.Booking.Pay
