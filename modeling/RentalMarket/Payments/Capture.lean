import RentalMarket.Payments.Attempts

namespace RentalMarket.Payments

open RentalMarket.Core RentalMarket.Pricing Runs

def State.capturesOf (s : State) (bookingId : String) : List PostedTransaction :=
  s.ledger.transactions.filter (fun t => t.kind = .hireChargeCaptured ∧ t.bookingId = some bookingId)

section

variable {w : Wiring} {s : State}

theorem mem_capturesOf {b : String} {t : PostedTransaction} :
    t ∈ s.capturesOf b ↔
      t ∈ s.ledger.transactions ∧ t.kind = .hireChargeCaptured ∧ t.bookingId = some b := by
  rw [State.capturesOf, List.mem_filter, decide_eq_true_eq]

theorem capture_of_attempt (h : Sound w s) {b : String} {t : PostedTransaction}
    (ht : t ∈ s.capturesOf b) : ∃ r ∈ s.intents, r.bookingId = b ∧ r.purpose = .hireCharge ∧
      s.At r.attemptKey .succeeded ∧ Captures w s r.toNewPaymentIntent t.toLedgerDraft := by
  obtain ⟨hmem, -, hb⟩ := mem_capturesOf.mp ht
  obtain ⟨n, hn, hp, hat, hc⟩ := h.transactions t hmem
  obtain ⟨r, hr, rfl⟩ := List.mem_map.mp hn
  exact ⟨r, hr, Option.some.inj (hc.bookingId.symm.trans hb), hp, hat, hc⟩

theorem capturesOf_key (h : Sound w s) {b : String} {t : PostedTransaction}
    (ht : t ∈ s.capturesOf b) : t.idempotencyKey = hireCaptureKey b := by
  obtain ⟨r, -, rfl, -, -, hc⟩ := capture_of_attempt h ht
  exact hc.key

theorem capturesOf_length (h : Sound w s) (b : String) : (s.capturesOf b).length ≤ 1 := by
  have hnodup : ((s.capturesOf b).map (·.idempotencyKey)).Nodup :=
    h.ledger.keys.sublist (List.filter_sublist.map _)
  exact Keyed.length_le_one hnodup (fun t ht => capturesOf_key h ht)

theorem row_of_key (h : Sound w s) {r r' : PaymentIntent} (hr : r ∈ s.intents) (hr' : r' ∈ s.intents)
    (hb : r.bookingId = r'.bookingId) (hp : r.purpose = r'.purpose)
    (hkey : r.attemptKey = r'.attemptKey) : r = r' := by
  have hnodup : ((s.rowsOf r.bookingId r.purpose).map (·.attemptKey)).Nodup := by
    rw [← keysOf_opened, h.numbered]
    exact List.nodup_range.map (attemptKey_injective _ _)
  refine Keyed.eq_of_key hnodup (List.mem_filter.mpr ⟨hr, by simp⟩)
    (List.mem_filter.mpr ⟨hr', ?_⟩) hkey
  simp [hb, hp]

theorem row_of_attemptKey (h : Sound w s) {r r' : PaymentIntent} (hr : r ∈ s.intents)
    (hr' : r' ∈ s.intents) (hkey : r.attemptKey = r'.attemptKey) : r = r' := by
  have hnumber : ∀ x ∈ s.intents, ∃ j, x.attemptKey = attemptKey x.purpose x.bookingId j := by
    intro x hx
    have hmem : x.attemptKey ∈ keysOf s.opened x.bookingId x.purpose :=
      mem_keysOf.mpr ⟨_, mem_opened hx, rfl, rfl, rfl⟩
    rw [h.numbered] at hmem
    obtain ⟨j, -, hj⟩ := List.mem_map.mp hmem
    exact ⟨j, hj.symm⟩
  obtain ⟨j, hj⟩ := hnumber r hr
  obtain ⟨j', hj'⟩ := hnumber r' hr'
  obtain ⟨hp, hb, -⟩ := attemptKey_inj (hj.symm.trans (hkey.trans hj'))
  exact row_of_key h hr hr' hb hp hkey

theorem attempt_amount (h : Sound w s) {a : ProviderAttempt} {r : PaymentIntent} (ha : a ∈ s.attempts)
    (hr : r ∈ s.intents) (hkey : r.attemptKey = a.key) : a.amount = r.amount := by
  obtain ⟨n, hn, hnkey, hamount⟩ := h.attemptRows a ha
  obtain ⟨r', hr', rfl⟩ := List.mem_map.mp hn
  rw [row_of_attemptKey h hr hr' (hkey.trans hnkey.symm), hamount]

theorem succeeded_once (h : Sound w s) {r r' : PaymentIntent} (hr : r ∈ s.intents) (hr' : r' ∈ s.intents)
    (hb : r.bookingId = r'.bookingId) (hp : r.purpose = r'.purpose)
    (hat : s.At r.attemptKey .succeeded) (hat' : s.At r'.attemptKey .succeeded) : r = r' := by
  have hlast : ∀ x ∈ s.intents, x.bookingId = r.bookingId → x.purpose = r.purpose →
      s.At x.attemptKey .succeeded → x.attemptKey =
        attemptKey r.purpose r.bookingId ((s.rowsOf r.bookingId r.purpose).length - 1) := by
    rintro x hx hxb hxp ⟨a, ha, hkey, hstatus⟩
    have hof : a ∈ s.attemptsOf r.bookingId r.purpose := by
      refine List.mem_filter.mpr ⟨ha, List.any_eq_true.mpr ⟨x, ?_, ?_⟩⟩
      · exact List.mem_filter.mpr ⟨hx, by simp [hxb, hxp]⟩
      · rw [decide_eq_true_eq, hkey]
    rw [← hkey]
    exact live_is_last h hof (by simp [ProviderAttempt.live, hstatus])
  refine row_of_key h hr hr' hb hp ?_
  rw [hlast r hr rfl rfl hat, hlast r' hr' hb.symm hp.symm hat']

end

/-- One ledger effect for a hire: over every interleaving of calls, crashes and
provider outcomes there is at most one capture of a booking, it has the entries
that the stored terms of the attempt that succeeded settle to, and it is there
before the attempt is marked. -/
theorem one_capture (w : Wiring) {as : List Action} {s : State}
    (hr : run (step w) .empty as = some s) (b : String) :
    (s.capturesOf b).length ≤ 1 ∧
      (∀ t ∈ s.capturesOf b, ∃ r ∈ s.intents, r.bookingId = b ∧ r.purpose = .hireCharge ∧
        s.At r.attemptKey .succeeded ∧ Captures w s r.toNewPaymentIntent t.toLedgerDraft) ∧
      ∀ r ∈ s.intents, r.bookingId = b → r.purpose = .hireCharge → r.status = .succeeded →
        ∃ t ∈ s.capturesOf b, Captures w s r.toNewPaymentIntent t.toLedgerDraft := by
  have h := (inv_run hr).sound
  refine ⟨capturesOf_length h b, fun t ht => capture_of_attempt h ht, fun r hr hb hp hstatus => ?_⟩
  obtain ⟨t, ht, hkey⟩ := h.captured r hr hp hstatus
  have hat := h.settled r hr .succeeded rfl hstatus
  -- the transaction under the booking's key is of some attempt, and there is only one
  obtain ⟨n, hn, hnp, hnat, hc⟩ := h.transactions t ht
  obtain ⟨r', hr', rfl⟩ := List.mem_map.mp hn
  have hbooking : r'.bookingId = r.bookingId := hireCaptureKey_inj (hc.key.symm.trans hkey)
  obtain rfl := succeeded_once h hr' hr hbooking (hnp.trans hp.symm) hnat hat
  refine ⟨t, mem_capturesOf.mpr ⟨ht, hc.kind, ?_⟩, hc⟩
  rw [hc.bookingId, hb]

def payableId : AccountId := ⟨"p1", by decide, by decide⟩

def spareId : AccountId := ⟨"x1", by decide, by decide⟩

def accountStep (t : Pid) (id : AccountId) : Action := .exec t ⟨succeeds, id, 0⟩

/-- A charge succeeds and is posted, the process dies before it is recorded, and
a second press picks it up. -/
def crashedThenResumed : List Action :=
  .payForHire 0 drillPayment :: stepsOf 0 7 succeeds ++
    [accountStep 0 clearingId, accountStep 0 payableId, accountStep 0 revenueId] ++
    stepsOf 0 2 succeeds ++ .crash 0 :: .payForHire 1 drillPayment :: stepsOf 1 6 succeeds ++
    [accountStep 1 spareId, accountStep 1 spareId, accountStep 1 spareId] ++ stepsOf 1 2 succeeds

theorem one_capture_resumed : ∃ s, run (step drillWiring) .empty crashedThenResumed = some s ∧
    s.intents.map (·.status) = [.succeeded] ∧ (s.capturesOf "b1").length = 1 ∧
    (s.capturesOf "b1").map (·.entries) = [[⟨clearingId, .debit, ⟨1100, .gbp⟩⟩,
      ⟨payableId, .credit, ⟨850, .gbp⟩⟩, ⟨revenueId, .credit, ⟨250, .gbp⟩⟩]] := by
  have hrun : (run (step drillWiring) .empty crashedThenResumed).map (fun s =>
      (s.intents.map (fun r => (r.bookingId, r.purpose, r.status)),
        (s.capturesOf "b1").map (·.entries))) =
      some ([("b1", .hireCharge, .succeeded)], [[⟨clearingId, .debit, ⟨1100, .gbp⟩⟩,
        ⟨payableId, .credit, ⟨850, .gbp⟩⟩, ⟨revenueId, .credit, ⟨250, .gbp⟩⟩]]) := by
    decide +kernel
  obtain ⟨s, hs, hrows⟩ := Option.map_eq_some_iff.mp hrun
  obtain ⟨hintents, hentries⟩ := Prod.mk.inj hrows
  obtain ⟨hle, -, hmarked⟩ := one_capture drillWiring hs "b1"
  obtain ⟨r, hr⟩ : ∃ r, s.intents = [r] :=
    List.length_eq_one_iff.mp (by simpa using congrArg List.length hintents)
  rw [hr, List.map_singleton, List.cons.injEq, Prod.mk.injEq, Prod.mk.injEq] at hintents
  obtain ⟨⟨hb, hp, hstatus⟩, -⟩ := hintents
  obtain ⟨t, ht, -⟩ := hmarked r (by simp [hr]) hb hp hstatus
  refine ⟨s, hs, by simp [hr, hstatus], ?_, hentries⟩
  exact hle.antisymm (List.length_pos_of_mem ht)

end RentalMarket.Payments
