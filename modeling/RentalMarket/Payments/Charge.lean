import RentalMarket.Payments.Capture

namespace RentalMarket.Payments

open RentalMarket.Core RentalMarket.Pricing

structure Bills (i : HirePaymentInstruction) (n : NewPaymentIntent) : Prop where
  bookingId : n.bookingId = i.bookingId
  purpose : n.purpose = .hireCharge
  ownerId : n.ownerId = i.ownerId
  categoryVersionId : n.categoryVersionId = i.categoryVersionId
  charge : n.charge = some i.charge

/-- A call of `payForHire`, wherever it stands, is about the instruction it was
given. -/
def Asks (i : HirePaymentInstruction) : Proc → Prop
  | .settling j => j = i
  | .keying j => j = i.toInstruction
  | .finding new => Bills i new
  | .creating new => Bills i new
  | .refinding new => Bills i new
  | .calling intent _ => Bills i intent.toNewPaymentIntent
  | .applying intent _ => Bills i intent.toNewPaymentIntent
  | .capturing intent _ => Bills i intent.toNewPaymentIntent
  | .clearing intent _ _ => Bills i intent.toNewPaymentIntent
  | .payable intent _ _ _ => Bills i intent.toNewPaymentIntent
  | .revenue intent _ _ _ _ => Bills i intent.toNewPaymentIntent
  | .posting intent _ _ => Bills i intent.toNewPaymentIntent
  | .inserting intent _ _ => Bills i intent.toNewPaymentIntent
  | .reposting intent _ _ => Bills i intent.toNewPaymentIntent
  | .recording intent _ => Bills i intent.toNewPaymentIntent
  | .returned (.attempted intent _) => Bills i intent.toNewPaymentIntent
  | .returned (.threw _) => True
  | _ => False

structure Confirmed (s : State) (n : NewPaymentIntent) : Prop where
  opened : n ∈ s.opened
  succeeded : s.At n.attemptKey .succeeded
  captured : Captured s n

/-- A charge is reported as a success only once it went through. -/
def Confirms (s : State) : Proc → Prop
  | .calling intent _ => intent.status = .initiated
  | .applying intent _ => intent.status = .initiated
  | .returned (.attempted intent _) =>
    intent.status = .succeeded → Confirmed s intent.toNewPaymentIntent
  | _ => True

section

variable {w : Wiring} {s s' : State} {i : HirePaymentInstruction}

theorem bills_propose (c : Nat) : Bills i (i.toInstruction.propose w c) := ⟨rfl, rfl, rfl, rfl, rfl⟩

theorem begun_asks {new : NewPaymentIntent} {row : PaymentIntent} (h : Bills i new) :
    Asks i (begun new row) := by
  unfold begun
  split
  · trivial
  · rename_i intent hok
    obtain ⟨rfl, hb, hp, ho, hv, hamount, hd⟩ := assertSameAttempt_eq_ok hok
    have hbills : Bills i intent.toNewPaymentIntent := by
      refine ⟨hb.trans h.bookingId, hp.trans h.purpose, ho.trans h.ownerId,
        hv.trans h.categoryVersionId, ?_⟩
      simp only [dividesDifferently, h.purpose, hp.trans h.purpose, ne_eq, not_true_eq_false, or_self,
        if_false, decide_eq_false_iff_not, not_not] at hd
      have hdivision : intent.division = new.division := by
        refine Option.map_injective (fun a b hab => ?_) hd
        rw [Prod.mk.injEq] at hab
        exact Prod.ext (Money.ext hab.1 rfl) (Money.ext hab.2 rfl)
      rw [← h.charge]
      simp only [NewPaymentIntent.charge, hdivision, hamount]
    split
    · exact hbills
    · exact hbills

theorem posted_asks {intent : PaymentIntent} {attempt : PaymentAttempt} {draft : LedgerDraft}
    {t : PostedTransaction} (h : Bills i intent.toNewPaymentIntent) :
    Asks i (posted intent attempt draft t) := by
  unfold posted
  split
  · trivial
  · exact h

/-- No step of a call changes what it is about. -/
theorem exec_asks (h : Inv w s) {t : Pid} {d : Draw} (hx : exec w s t d = some s')
    (ha : Asks i (s.procs t)) : Asks i (s'.procs t) := by
  have hp := h.procs t
  have hput : ∀ (u : State) (p : Proc), Asks i p → Asks i ((u.setProc t p).procs t) := by
    intro u p hasks
    rw [State.setProc_self]
    exact hasks
  unfold exec at hx
  cases hproc : s.procs t with
  | idle => simp [hproc] at hx
  | returned result => simp [hproc] at hx
  | settling j =>
    simp only [hproc] at hx ha
    split at hx <;> cases hx
    · exact hput _ _ trivial
    · exact hput _ _ (congrArg _ ha)
  | keying j =>
    simp only [hproc] at hx ha
    cases hx
    apply hput
    rw [show j = i.toInstruction from ha]
    exact bills_propose _
  | finding new =>
    simp only [hproc] at hx ha
    split at hx <;> cases hx
    · exact hput _ _ (begun_asks ha)
    · exact hput _ _ ha
  | creating new =>
    simp only [hproc] at hx ha
    split at hx <;> cases hx
    · exact hput _ _ (begun_asks ha)
    · exact hput _ _ ha
  | refinding new =>
    simp only [hproc] at hx ha
    split at hx <;> cases hx
    · exact hput _ _ (begun_asks ha)
    · exact hput _ _ trivial
  | calling intent amount =>
    simp only [hproc] at hx ha
    split at hx
    · obtain ⟨a, -, rfl⟩ := Option.map_eq_some_iff.mp hx
      exact hput _ _ ha
    · cases hx
      exact hput _ _ ha
  | applying intent attempt =>
    simp only [hproc] at hx ha
    split at hx
    · cases hx
      exact hput _ _ trivial
    · cases hx
      exact hput _ _ ha
    · split at hx <;> cases hx <;> exact hput _ _ ha
  | capturing intent attempt =>
    simp only [hproc] at hx ha
    split at hx
    · cases hx
    · split at hx <;> cases hx
      · exact hput _ _ trivial
      · exact hput _ _ ha
  | clearing intent attempt settlement =>
    simp only [hproc] at hx ha
    split at hx
    · split at hx <;> cases hx
      · exact hput _ _ trivial
      · exact hput _ _ ha
    · cases hx
  | payable intent attempt settlement clearing =>
    simp only [hproc] at hx ha
    split at hx
    · split at hx <;> cases hx
      · exact hput _ _ trivial
      · exact hput _ _ ha
    · cases hx
  | revenue intent attempt settlement clearing payable =>
    simp only [hproc] at hx ha
    split at hx
    · split at hx
      · cases hx
        exact hput _ _ trivial
      · split at hx
        · cases hx
          exact hput _ _ trivial
        · split at hx <;> cases hx
          · exact hput _ _ trivial
          · exact hput _ _ ha
    · cases hx
  | posting intent attempt draft =>
    simp only [hproc] at hx ha
    split at hx <;> cases hx
    · exact hput _ _ (posted_asks ha)
    · exact hput _ _ ha
  | inserting intent attempt draft =>
    simp only [hproc] at hx ha
    split at hx <;> cases hx
    · exact hput _ _ (posted_asks ha)
    · exact hput _ _ ha
  | reposting intent attempt draft =>
    simp only [hproc] at hx ha
    split at hx <;> cases hx
    · exact hput _ _ (posted_asks ha)
    · exact hput _ _ trivial
  | recording intent attempt =>
    simp only [hproc] at hx ha hp
    split at hx
    · cases hx
    · rename_i row hrow
      split at hx <;> cases hx
      · -- the row that is read back is the one the call began with
        apply hput
        have hsame := hp.1.snapshot.eq_row hrow
        have hbills : Bills i row.toNewPaymentIntent := hsame ▸ ha
        exact hbills
      · exact hput _ _ trivial
  | refreshing intentId => simp [hproc, Asks] at ha
  | reading intent reference => simp [hproc, Asks] at ha

theorem Confirmed.of_row (h : Sound w s) {r : PaymentIntent} (hr : r ∈ s.intents)
    (hp : r.purpose = .hireCharge) (hs : r.status = .succeeded) : Confirmed s r.toNewPaymentIntent :=
  ⟨mem_opened hr, h.settled r hr .succeeded rfl hs, h.captured r hr hp hs⟩

theorem Confirmed.mono {n : NewPaymentIntent} (h : Confirmed s n) (g : Grows s s') : Confirmed s' n :=
  ⟨g.opened.subset h.opened, g.at_terminal rfl h.succeeded, g.captured h.captured⟩

theorem Confirms.mono {p : Proc} (h : Confirms s p) (g : Grows s s') : Confirms s' p := by
  cases p with
  | calling intent amount => exact h
  | applying intent attempt => exact h
  | returned result =>
    cases result with
    | attempted intent payerAction => exact fun hs => (h hs).mono g
    | _ => trivial
  | _ => trivial

theorem begun_confirms (h : Sound w s) {new : NewPaymentIntent} {row : PaymentIntent}
    (hb : Bills i new) (hrow : row ∈ s.intents) : Confirms s (begun new row) := by
  unfold begun
  split
  · trivial
  · rename_i intent hok
    obtain ⟨rfl, -, hp, -⟩ := assertSameAttempt_eq_ok hok
    split
    · exact .of_row h hrow (hp.trans hb.purpose)
    · rename_i hs
      exact not_not.mp hs

theorem posted_confirms (intent : PaymentIntent) (attempt : PaymentAttempt) (draft : LedgerDraft)
    (t : PostedTransaction) : Confirms s (posted intent attempt draft t) := by
  unfold posted
  split <;> trivial

theorem exec_confirms (h : Inv w s) {t : Pid} {d : Draw} (hx : exec w s t d = some s')
    (ha : Asks i (s.procs t)) (hc : Confirms s (s.procs t)) : Confirms s' (s'.procs t) := by
  have h' : Inv w s' := inv_step (a := .exec t d) h hx
  have hasks := exec_asks h hx ha
  cases hproc : s.procs t with
  | finding new =>
    rw [hproc] at ha
    simp only [exec, hproc] at hx
    split at hx <;> cases hx
    · rename_i row hrow
      rw [State.setProc_self]
      exact begun_confirms h'.sound ha (List.mem_of_find?_eq_some hrow)
    · rw [State.setProc_self]
      trivial
  | creating new =>
    rw [hproc] at ha
    simp only [exec, hproc] at hx
    split at hx <;> cases hx
    · rw [State.setProc_self]
      exact begun_confirms h'.sound ha (List.mem_append_right _ (List.mem_singleton_self _))
    · rw [State.setProc_self]
      trivial
  | refinding new =>
    rw [hproc] at ha
    simp only [exec, hproc] at hx
    split at hx <;> cases hx
    · rename_i row hrow
      rw [State.setProc_self]
      exact begun_confirms h'.sound ha (List.mem_of_find?_eq_some hrow)
    · rw [State.setProc_self]
      trivial
  | calling intent amount =>
    rw [hproc] at hc
    simp only [exec, hproc] at hx
    split at hx
    · obtain ⟨a, -, rfl⟩ := Option.map_eq_some_iff.mp hx
      rw [State.setProc_self]
      exact hc
    · cases hx
      rw [State.setProc_self]
      exact hc
  | applying intent attempt =>
    rw [hproc] at hc
    have hopen : intent.status = .initiated := hc
    simp only [exec, hproc] at hx
    split at hx
    · cases hx
      rw [State.setProc_self]
      trivial
    · cases hx
      rw [State.setProc_self]
      intro hs
      rw [hopen] at hs
      cases hs
    · split at hx <;> cases hx <;> rw [State.setProc_self] <;> trivial
  | recording intent attempt =>
    simp only [exec, hproc] at hx
    split at hx
    · cases hx
    · rename_i row hrow
      split at hx <;> cases hx
      · rw [State.setProc_self] at hasks ⊢
        refine Confirmed.of_row h'.sound (List.mem_of_getElem? (i := intent.id) ?_) hasks.purpose
        exact List.getElem?_set_self (List.getElem?_eq_some_iff.mp hrow).1
      · rw [State.setProc_self]
        trivial
  | idle => simp [exec, hproc] at hx
  | returned result => simp [exec, hproc] at hx
  | refreshing intentId => simp [hproc, Asks] at ha
  | reading intent reference => simp [hproc, Asks] at ha
  | _ =>
    -- on the way to the ledger nothing is reported but an error
    simp only [exec, hproc] at hx
    (repeat' split at hx) <;> cases hx <;> rw [State.setProc_self] <;>
      first | trivial | exact posted_confirms _ _ _ _

/-- The call holds a success it has yet to report. -/
def Holds (b : String) : Proc → Prop
  | .recording intent attempt => intent.bookingId = b ∧ attempt.status = .succeeded
  | .returned (.attempted intent _) => intent.bookingId = b ∧ intent.status = .succeeded
  | _ => False

theorem outcomeAllowed_succeeded (h : Sound w s) {intent row : PaymentIntent} {attempt : PaymentAttempt}
    (hok : Answered s intent attempt) (hrow : s.intents[intent.id]? = some row)
    (hs : attempt.status = .succeeded) : outcomeAllowed s (recorded row attempt) = true := by
  obtain ⟨hsnap, a, ha, hkey, hfinal⟩ := hok
  have hmem := List.mem_of_getElem? hrow
  have hat : s.At row.attemptKey .succeeded := by
    refine ⟨a, List.mem_of_getElem? ha, ?_, ?_⟩
    · rw [hkey, hsnap.eq_row hrow]
    · rw [hfinal (by rw [hs]; rfl), hs]
  simp only [outcomeAllowed, recorded, hs, AttemptStatus.toIntent, Bool.and_eq_true]
  refine ⟨by simp, ?_⟩
  rw [Bool.or_eq_true]
  right
  rw [List.all_eq_true]
  intro r hr
  rw [decide_eq_true_eq]
  by_contra hclash
  simp only [not_or, not_not] at hclash
  obtain ⟨hid, hb, hp, hstatus⟩ := hclash
  have := succeeded_once h hr hmem hb hp (h.settled r hr .succeeded rfl hstatus) hat
  exact hid (congrArg _ this)

theorem exec_holds (h : Inv w s) {b : String} {t : Pid} {d : Draw} (hx : exec w s t d = some s')
    (hh : Holds b (s.procs t)) : Holds b (s'.procs t) := by
  cases hproc : s.procs t with
  | recording intent attempt =>
    rw [hproc] at hh
    have hp : ProcOk w s (.recording intent attempt) := hproc ▸ h.procs t
    simp only [exec, hproc] at hx
    split at hx
    · cases hx
    · rename_i row hrow
      rw [if_pos (outcomeAllowed_succeeded h.sound hp.1 hrow hh.2)] at hx
      cases hx
      rw [State.setProc_self]
      refine ⟨?_, ?_⟩
      · rw [← hh.1, hp.1.snapshot.eq_row hrow]
        rfl
      · simp only [recorded, hh.2, AttemptStatus.toIntent]
  | returned result => simp [exec, hproc] at hx
  | _ => simp [hproc, Holds] at hh

/-- A capture comes into the ledger with the call that holds it. -/
theorem exec_captured (h : Inv w s) {b : String} {t : Pid} {d : Draw} (hx : exec w s t d = some s')
    (hc : s'.capturesOf b ≠ []) : s.capturesOf b ≠ [] ∨ Holds b (s'.procs t) := by
  cases hproc : s.procs t with
  | inserting intent attempt draft =>
    have hdraft : Drafted w s intent attempt draft := by
      have hp := h.procs t
      rw [hproc] at hp
      exact hp
    simp only [exec, hproc] at hx
    split at hx <;> cases hx
    · rw [State.setProc_self]
      have hsame : assertSameTransaction draft (s.ledger.newRow draft) = .ok () :=
        (assertSameTransaction_eq_ok hdraft.postable.entries hdraft.postable.entries).mpr
          ⟨rfl, rfl, rfl, rfl, List.Perm.refl _⟩
      obtain ⟨t', ht'⟩ := List.exists_mem_of_ne_nil _ hc
      obtain ⟨hmem, hkind, hb⟩ := mem_capturesOf.mp ht'
      obtain hold | hnew := List.mem_append.mp hmem
      · left
        exact List.ne_nil_of_mem (mem_capturesOf.mpr ⟨hold, hkind, hb⟩)
      · right
        rw [List.mem_singleton.mp hnew] at hb
        have hbooking : intent.bookingId = b :=
          Option.some.inj (hdraft.captures.bookingId.symm.trans hb)
        simp only [posted]
        simp only [Ledger.newRow] at hsame
        rw [hsame]
        exact ⟨hbooking, hdraft.succeeded⟩
    · exact .inl hc
  | _ =>
    left
    obtain ⟨u, p, rfl, e, -⟩ := exec_effect h hx
    rw [hproc] at e
    have hsame : u.ledger.transactions = s.ledger.transactions := by
      cases e with
      | account p id spec hid => exact accountFor_mono.2
      | _ => rfl
    simp only [State.capturesOf, State.setProc, hsame] at hc
    exact hc

end

end RentalMarket.Payments
