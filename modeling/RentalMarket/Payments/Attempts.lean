import RentalMarket.Payments.Soundness

namespace RentalMarket.Payments

open RentalMarket.Core RentalMarket.Pricing Runs

/-- The provider's attempts for one booking and purpose: those under the key of
one of its rows. -/
def State.attemptsOf (s : State) (bookingId : String) (purpose : Purpose) : List ProviderAttempt :=
  s.attempts.filter (fun a => (s.rowsOf bookingId purpose).any (fun r => r.attemptKey = a.key))

/-- Neither refused nor called off: money may move on it. -/
def ProviderAttempt.live (a : ProviderAttempt) : Bool := a.status ≠ .failed

section

variable {w : Wiring} {s s' : State}

theorem attemptKey_injective (p : Purpose) (b : String) : Function.Injective (attemptKey p b) :=
  fun _ _ h => (attemptKey_inj h).2.2

theorem hire_key_ne_hold_key (b b' : String) (i j : Nat) :
    attemptKey .hireCharge b i ≠ attemptKey .damageSecurity b' j := by
  intro h
  cases (attemptKey_inj h).1

theorem At.unique (h : Sound w s) {a : ProviderAttempt} (ha : a ∈ s.attempts) {status : AttemptStatus}
    (hat : s.At a.key status) : a.status = status := by
  obtain ⟨a', ha', hkey, hstatus⟩ := hat
  rw [Keyed.eq_of_key h.attemptKeys ha ha' hkey.symm, hstatus]

theorem live_is_last (h : Sound w s) {b : String} {p : Purpose} {a : ProviderAttempt}
    (ha : a ∈ s.attemptsOf b p) (hlive : a.live = true) :
    a.key = attemptKey p b ((s.rowsOf b p).length - 1) := by
  obtain ⟨hmem, hrow⟩ := List.mem_filter.mp ha
  obtain ⟨r, hr, hkey⟩ := List.any_eq_true.mp hrow
  rw [decide_eq_true_eq] at hkey
  have hkeys : a.key ∈ keysOf s.opened b p := by
    rw [keysOf_opened, ← hkey]
    exact List.mem_map_of_mem hr
  rw [h.numbered] at hkeys
  obtain ⟨j, hj, hjkey⟩ := List.mem_map.mp hkeys
  have hlen : (keysOf s.opened b p).length = (s.rowsOf b p).length := by
    rw [keysOf_opened, List.length_map]
  rw [List.mem_range] at hj
  by_cases hlast : j + 1 < (keysOf s.opened b p).length
  · have hfailed := h.superseded b p j hlast
    rw [hjkey] at hfailed
    have hstatus := At.unique h hmem hfailed
    simp [ProviderAttempt.live, hstatus] at hlive
  · rw [← hjkey, show j = (s.rowsOf b p).length - 1 by omega]

/-- Two live attempts have the key of the last row, and a key is asked for
once. -/
theorem live_length_le_one (h : Sound w s) (b : String) (p : Purpose) :
    ((s.attemptsOf b p).filter ProviderAttempt.live).length ≤ 1 := by
  have hnodup : (((s.attemptsOf b p).filter ProviderAttempt.live).map (·.key)).Nodup :=
    h.attemptKeys.sublist ((List.filter_sublist.trans List.filter_sublist).map _)
  refine Keyed.length_le_one (k := attemptKey p b ((s.rowsOf b p).length - 1)) hnodup (fun a ha => ?_)
  obtain ⟨ha, hlive⟩ := List.mem_filter.mp ha
  exact live_is_last h ha hlive

end

/-- At most one live charge: over every interleaving of calls, crashes and
provider outcomes, the attempts of a booking and a purpose are numbered without
a gap, all but the last have failed at the provider, and no two are live. -/
theorem one_live_attempt (w : Wiring) {as : List Action} {s : State}
    (hr : run (step w) .empty as = some s) (b : String) (p : Purpose) :
    (s.rowsOf b p).map (·.attemptKey) = (List.range (s.rowsOf b p).length).map (attemptKey p b) ∧
      (∀ j, j + 1 < (s.rowsOf b p).length →
        ∃ a ∈ s.attemptsOf b p, a.key = attemptKey p b j ∧ a.status = .failed) ∧
      (∀ a ∈ s.attempts, ∃ r ∈ s.intents, r.attemptKey = a.key) ∧
      (∀ (b' : String) (i j : Nat), attemptKey .hireCharge b i ≠ attemptKey .damageSecurity b' j) ∧
      ((s.attemptsOf b p).filter ProviderAttempt.live).length ≤ 1 := by
  have h := (inv_run hr).sound
  have hlen : (keysOf s.opened b p).length = (s.rowsOf b p).length := by
    rw [keysOf_opened, List.length_map]
  have hnumbered : (s.rowsOf b p).map (·.attemptKey) =
      (List.range (s.rowsOf b p).length).map (attemptKey p b) := by
    rw [← keysOf_opened, ← hlen]
    exact h.numbered b p
  refine ⟨hnumbered, fun j hj => ?_, fun a ha => ?_, hire_key_ne_hold_key b, live_length_le_one h b p⟩
  · obtain ⟨a, ha, hkey, hstatus⟩ := h.superseded b p j (by omega)
    have hmem : attemptKey p b j ∈ (s.rowsOf b p).map (·.attemptKey) := by
      rw [hnumbered]
      exact List.mem_map_of_mem (List.mem_range.mpr (by omega))
    obtain ⟨r, hr, hrkey⟩ := List.mem_map.mp hmem
    refine ⟨a, List.mem_filter.mpr ⟨ha, List.any_eq_true.mpr ⟨r, hr, ?_⟩⟩, hkey, hstatus⟩
    rw [decide_eq_true_eq, hrkey, hkey]
  · obtain ⟨n, hn, hkey, -⟩ := h.attemptRows a ha
    obtain ⟨r, hr, rfl⟩ := List.mem_map.mp hn
    exact ⟨r, hr, hkey⟩

def drillWiring : Wiring where
  policyOf id := if id = "v1" then some ⟨1500, 1000, ⟨0, .gbp⟩, ⟨0, .gbp⟩⟩ else none
  percentageOf := exactPercentageOf
  bookingExists _ := true
  providerName := "fake"

def drillPayment : HirePaymentInstruction :=
  ⟨"b1", "owner", ⟨⟨1000, .gbp⟩, ⟨100, .gbp⟩, ⟨1100, .gbp⟩⟩, "v1"⟩

def declines : Answer := ⟨.failed, none, some ⟨.declined, "insufficient funds"⟩, none, none⟩

def takesTime : Answer := ⟨.processing, none, none, none, none⟩

def succeeds : Answer := ⟨.succeeded, none, none, some 5, none⟩

def drawOf (answer : Answer) : Draw := ⟨answer, clearingId, 0⟩

/-- `count` steps of one call, with the provider ready to give this answer. -/
def stepsOf (t : Pid) (count : Nat) (answer : Answer) : List Action :=
  List.replicate count (.exec t (drawOf answer))

def declinedThenOpen : List Action :=
  .payForHire 0 drillPayment :: stepsOf 0 7 declines ++
    .payForHire 1 drillPayment :: stepsOf 1 7 takesTime

theorem one_live_attempt_declined : ∃ s, run (step drillWiring) .empty declinedThenOpen = some s ∧
    (s.rowsOf "b1" .hireCharge).map (·.attemptKey) = ["hire:b1:0", "hire:b1:1"] ∧
    ((s.attemptsOf "b1" .hireCharge).filter ProviderAttempt.live).length ≤ 1 := by
  have hrun : (run (step drillWiring) .empty declinedThenOpen).map (fun s =>
      (s.rowsOf "b1" .hireCharge).map (·.attemptKey)) = some ["hire:b1:0", "hire:b1:1"] := by
    decide +kernel
  obtain ⟨s, hs, hkeys⟩ := Option.map_eq_some_iff.mp hrun
  exact ⟨s, hs, hkeys, (one_live_attempt drillWiring hs "b1" .hireCharge).2.2.2.2⟩

/-- The step writes an open status over a settled one. -/
def staleRecord (s : State) : Action → Bool
  | .exec t _ =>
    match s.procs t with
    | .recording intent attempt =>
      (s.intents[intent.id]?).any (fun row => row.status.isTerminal && !attempt.status.isTerminal)
    | _ => false
  | _ => false

/-- Every row that was settled has the status it was settled with. -/
def KeepsSettled (s s' : State) : Prop :=
  ∀ (i : Nat) (r : PaymentIntent), s.intents[i]? = some r → r.status.isTerminal = true →
    ∃ r', s'.intents[i]? = some r' ∧ r'.status = r.status

section

variable {w : Wiring} {s s' : State}

theorem KeepsSettled.of_appended (h : s.intents <+: s'.intents) : KeepsSettled s s' := by
  obtain ⟨l, hl⟩ := h
  intro i r hi _
  refine ⟨r, ?_, rfl⟩
  rw [← hl, List.getElem?_append_left (List.getElem?_eq_some_iff.mp hi).1]
  exact hi

theorem KeepsSettled.trans {s₁ s₂ s₃ : State} (h : KeepsSettled s₁ s₂) (h' : KeepsSettled s₂ s₃) :
    KeepsSettled s₁ s₃ := by
  intro i r hi ht
  obtain ⟨r', hi', hr'⟩ := h i r hi ht
  obtain ⟨r'', hi'', hr''⟩ := h' i r' hi' (by rw [hr']; exact ht)
  exact ⟨r'', hi'', hr''.trans hr'⟩

theorem step_intents (h : Inv w s) {a : Action} (hx : step w s a = some s') :
    s.intents <+: s'.intents ∨ ∃ t d intent row attempt, a = .exec t d ∧
      s.procs t = .recording intent attempt ∧ s.intents[intent.id]? = some row ∧
      s'.intents = s.intents.set intent.id (recorded row attempt) := by
  obtain ⟨u, q, e, hq, hs⟩ := step_effect h hx
  have hu : s'.intents = u.intents := by
    obtain ⟨rfl, -⟩ | ⟨t, p, rfl, -⟩ := hs <;> rfl
  rw [hu]
  cases e with
  | opened => exact .inl (List.prefix_append _ _)
  | recorded intent row attempt hrow hok hallowed =>
    obtain hidle | ⟨t, d, rfl, hp⟩ := hq
    · cases hidle
    · exact .inr ⟨t, d, intent, row, attempt, rfl, hp, hrow, rfl⟩
  | _ => exact .inl List.prefix_rfl

/-- One step keeps what is settled exactly when it is no stale record. -/
theorem keepsSettled_iff (h : Inv w s) {a : Action} (hx : step w s a = some s') :
    KeepsSettled s s' ↔ staleRecord s a = false := by
  constructor
  · intro hkeep
    by_contra hstale
    rw [Bool.not_eq_false] at hstale
    cases a with
    | exec t d =>
      simp only [staleRecord] at hstale
      split at hstale
      · rename_i intent attempt hp
        obtain ⟨row, hrow, hsettled⟩ := (Option.any_eq_true _ _).mp hstale
        rw [Bool.and_eq_true, Bool.not_eq_true'] at hsettled
        obtain ⟨r', hi', hr'⟩ := hkeep intent.id row hrow hsettled.1
        -- no constraint of the table speaks of an open status
        have hallowed : outcomeAllowed s (recorded row attempt) = true := by
          have hopen := hsettled.2
          cases hs : attempt.status <;> simp_all [outcomeAllowed, recorded, AttemptStatus.toIntent,
            AttemptStatus.isTerminal, IntentStatus.isTerminal]
        simp only [step, exec, hp, hrow, hallowed, if_true, Option.some.injEq] at hx
        subst hx
        have hlt := (List.getElem?_eq_some_iff.mp hrow).1
        simp only [State.setProc, List.getElem?_set_self hlt, Option.some.injEq] at hi'
        subst hi'
        rw [← hr'] at hsettled
        exact absurd hsettled.1 (by simpa [recorded, AttemptStatus.isTerminal] using hsettled.2)
      · cases hstale
    | _ => cases hstale
  · intro hfresh
    obtain hpre | ⟨t, d, intent, row, attempt, rfl, hp, hrow, hset⟩ := step_intents h hx
    · exact .of_appended hpre
    · intro i r hi ht
      rw [hset]
      by_cases hid : intent.id = i
      · subst hid
        have hlt := (List.getElem?_eq_some_iff.mp hrow).1
        obtain rfl : row = r := Option.some.inj (hrow.symm.trans hi)
        refine ⟨recorded row attempt, List.getElem?_set_self hlt, ?_⟩
        -- both are what the provider settled on
        have hfinal : attempt.status.isTerminal = true := by
          simp only [staleRecord, hp, hrow, Option.any_some, ht, Bool.true_and] at hfresh
          simpa using hfresh
        have hok : ProcOk w s (.recording intent attempt) := hp ▸ h.procs t
        obtain ⟨⟨hsnap, b, hb, hkey, hheard⟩, -⟩ := hok
        obtain ⟨status, hterminal, hstatus⟩ := AttemptStatus.exists_of_isTerminal ht
        have hat := h.sound.settled row (List.mem_of_getElem? hrow) status hterminal hstatus
        rw [← hsnap.eq_row hrow, ← hkey] at hat
        have hb' := At.unique h.sound (List.mem_of_getElem? hb) hat
        rw [hstatus, ← hb', hheard hfinal]
        rfl
      · exact ⟨r, by rw [List.getElem?_set_ne hid]; exact hi, rfl⟩

end

/-- A settled attempt is the last word, in just those runs that never record an
open status over a settled one. -/
theorem settled_is_last_word (w : Wiring) {as : List Action} {s : State}
    (hr : run (step w) .empty as = some s) :
    Meets (step w) (fun s a => staleRecord s a = false) .empty as ↔
      ∀ pre mid post s₁ s₂, as = pre ++ mid ++ post → run (step w) .empty pre = some s₁ →
        run (step w) s₁ mid = some s₂ → KeepsSettled s₁ s₂ := by
  constructor
  · intro hmeets pre mid post s₁ s₂ hcut hpre hmid
    -- carry the cut along: what is left of `mid` still lies inside the run
    induction mid generalizing pre s₁ with
    | nil =>
      cases hmid
      exact .of_appended List.prefix_rfl
    | cons a mid ih =>
      obtain ⟨u, hu, hmid⟩ := run_cons_eq_some.mp hmid
      have hfresh := meets_iff.mp hmeets pre a (mid ++ post) s₁ (by simpa using hcut) hpre
      have hpre' : run (step w) .empty (pre ++ [a]) = some u :=
        run_append_eq_some.mpr ⟨s₁, hpre, run_cons_eq_some.mpr ⟨u, hu, rfl⟩⟩
      exact ((keepsSettled_iff (inv_run hpre) hu).mpr hfresh).trans
        (ih (pre ++ [a]) u (by simpa using hcut) hpre' hmid)
  · intro hkeeps
    refine meets_iff.mpr (fun pre a post t hcut hpre => ?_)
    obtain ⟨t', ht', hrest⟩ := run_append_eq_some.mp (hcut ▸ hr)
    obtain rfl : t = t' := Option.some.inj (hpre.symm.trans ht')
    obtain ⟨u, hu, -⟩ := run_cons_eq_some.mp hrest
    refine (keepsSettled_iff (inv_run hpre) hu).mp ?_
    exact hkeeps pre [a] post t u (by simpa using hcut) hpre (run_cons_eq_some.mpr ⟨u, hu, rfl⟩)

theorem settled_is_last_word_declined : ∃ s,
    run (step drillWiring) .empty declinedThenOpen = some s ∧
    ∀ s₁, run (step drillWiring) .empty (declinedThenOpen.take 8) = some s₁ → KeepsSettled s₁ s := by
  have hrun : (run (step drillWiring) .empty declinedThenOpen).isSome := by decide +kernel
  obtain ⟨s, hs⟩ := Option.isSome_iff_exists.mp hrun
  have hmeets : Meets (step drillWiring) (fun s a => staleRecord s a = false) .empty
      declinedThenOpen := by decide +kernel
  refine ⟨s, hs, fun s₁ hs₁ => ?_⟩
  have hsplit := List.take_append_drop 8 declinedThenOpen
  obtain ⟨t, ht, hrest⟩ := run_append_eq_some.mp (hsplit.symm ▸ hs)
  obtain rfl : s₁ = t := Option.some.inj (hs₁.symm.trans ht)
  exact (settled_is_last_word drillWiring hs).mp hmeets _ _ [] s₁ s (by simp) hs₁ hrest

/-- The first press hears that the payment is being processed and stops before
it writes that down. It is declined meanwhile, and the second press says so. -/
def declinedMeanwhile : List Action :=
  .payForHire 0 drillPayment :: stepsOf 0 6 takesTime ++
    .progress 0 declines :: .payForHire 1 drillPayment :: stepsOf 1 6 takesTime

/-- The first press then writes what it heard over what the second one knows. -/
theorem declined_reopened : ∃ s s',
    run (step drillWiring) .empty declinedMeanwhile = some s ∧
    step drillWiring s (.exec 0 (drawOf takesTime)) = some s' ∧
    s.intents.map (·.status) = [.failed] ∧ s'.intents.map (·.status) = [.processing] ∧
    ¬KeepsSettled s s' := by
  have hrun : (run (step drillWiring) .empty declinedMeanwhile).bind (fun s =>
      (step drillWiring s (.exec 0 (drawOf takesTime))).map (fun s' =>
        (s.intents.map (·.status), s'.intents.map (·.status)))) =
      some ([.failed], [.processing]) := by decide +kernel
  obtain ⟨s, hs, hrun⟩ := Option.bind_eq_some_iff.mp hrun
  obtain ⟨s', hs', hrows⟩ := Option.map_eq_some_iff.mp hrun
  obtain ⟨hbefore, hafter⟩ := Prod.mk.inj hrows
  refine ⟨s, s', hs, hs', hbefore, hafter, fun hkeeps => ?_⟩
  obtain ⟨r, hr⟩ : ∃ r, s.intents = [r] := List.length_eq_one_iff.mp (by simpa using congrArg List.length hbefore)
  rw [hr, List.map_singleton, List.cons.injEq] at hbefore
  obtain ⟨r', hr', hstatus⟩ := hkeeps 0 r (by rw [hr]; rfl) (by rw [hbefore.1]; rfl)
  have hmem : r'.status ∈ s'.intents.map (·.status) := List.mem_map_of_mem (List.mem_of_getElem? hr')
  rw [hafter, List.mem_singleton, hstatus, hbefore.1] at hmem
  cases hmem

end RentalMarket.Payments
