import RentalMarket.Payments.Capture

namespace RentalMarket.Payments

open RentalMarket.Core RentalMarket.Pricing Runs

namespace Proc

def proposal : Proc → Option NewPaymentIntent
  | .finding new => some new
  | .creating new => some new
  | .refinding new => some new
  | _ => none

def record : Proc → Option PaymentIntent
  | .calling intent _ => some intent
  | .applying intent _ => some intent
  | .capturing intent _ => some intent
  | .clearing intent _ _ => some intent
  | .payable intent _ _ _ => some intent
  | .revenue intent _ _ _ _ => some intent
  | .posting intent _ _ => some intent
  | .inserting intent _ _ => some intent
  | .reposting intent _ _ => some intent
  | .recording intent _ => some intent
  | .reading intent _ => some intent
  | .returned (.attempted intent _) => some intent
  | .returned (.refreshed intent) => intent
  | _ => none

end Proc

/-- Where its own step may take a call, over the tables that step leaves. -/
inductive Follows (w : Wiring) (s : State) : Proc → Proc → Prop where
  | threw (p : Proc) (error : String) : Follows w s p (.returned (.threw error))
  | settled (i : HirePaymentInstruction) : Follows w s (.settling i) (.keying i.toInstruction)
  | keyed (i : Instruction) (count : Nat) : Follows w s (.keying i) (.finding (i.propose w count))
  | proposed {p q : Proc} (new : NewPaymentIntent) (hp : p.proposal = some new)
    (hq : q.proposal = some new) : Follows w s p q
  | begun {p q : Proc} (new : NewPaymentIntent) (row : PaymentIntent) (hp : p.proposal = some new)
    (hq : q.record = some row) (hrow : row ∈ s.intents)
    (hsame : assertSameAttempt new row = .ok row) : Follows w s p q
  | carried {p q : Proc} (intent : PaymentIntent) (hp : p.record = some intent)
    (hq : q.record = some intent) : Follows w s p q
  | recorded {p q : Proc} (intent row : PaymentIntent) (hp : p.record = some intent)
    (hq : q.record = some row) (hrow : row ∈ s.intents)
    (hsame : row.toNewPaymentIntent = intent.toNewPaymentIntent) : Follows w s p q
  | missing (intentId : Nat) : Follows w s (.refreshing intentId) (.returned (.refreshed none))
  | reread {q : Proc} (intentId : Nat) (row : PaymentIntent) (hq : q.record = some row)
    (hrow : row ∈ s.intents) : Follows w s (.refreshing intentId) q

section

variable {w : Wiring} {s s' : State} {p q : Proc} {P : NewPaymentIntent → Prop}

theorem Follows.of_intents (f : Follows w s p q) (h : s'.intents = s.intents) :
    Follows w s' p q := by
  cases f with
  | threw p error => exact .threw _ _
  | settled i => exact .settled i
  | keyed i count => exact .keyed i count
  | proposed new hp hq => exact .proposed new hp hq
  | begun new row hp hq hrow hsame => exact .begun new row hp hq (h ▸ hrow) hsame
  | carried intent hp hq => exact .carried intent hp hq
  | recorded intent row hp hq hrow hsame => exact .recorded intent row hp hq (h ▸ hrow) hsame
  | missing intentId => exact .missing intentId
  | reread intentId row hq hrow => exact .reread intentId row hq (h ▸ hrow)

theorem begun_follows {new : NewPaymentIntent} {row : PaymentIntent} (hp : p.proposal = some new)
    (hrow : row ∈ s.intents) : Follows w s p (begun new row) := by
  unfold begun
  split
  · exact .threw _ _
  · rename_i intent hok
    obtain ⟨rfl, -⟩ := assertSameAttempt_eq_ok hok
    split
    · exact .begun new intent hp rfl hrow hok
    · exact .begun new intent hp rfl hrow hok

theorem posted_follows {intent : PaymentIntent} {attempt : PaymentAttempt} {draft : LedgerDraft}
    {t : PostedTransaction} (hp : p.record = some intent) :
    Follows w s p (posted intent attempt draft t) := by
  unfold posted
  split
  · exact .threw _ _
  · exact .carried intent hp rfl

/-- All that one step of a call may do to the call. -/
theorem exec_follows (h : Inv w s) {t : Pid} {d : Draw} (hx : exec w s t d = some s') :
    Follows w s' (s.procs t) (s'.procs t) := by
  have hok := h.procs t
  have hput : ∀ (u : State) (q : Proc), Follows w u (s.procs t) q →
      Follows w (u.setProc t q) (s.procs t) ((u.setProc t q).procs t) := by
    intro u q f
    rw [State.setProc_self]
    exact f.of_intents rfl
  unfold exec at hx
  cases hproc : s.procs t with
  | idle => simp [hproc] at hx
  | returned result => simp [hproc] at hx
  | settling i =>
    rw [hproc] at hput
    simp only [hproc] at hx
    split at hx <;> cases hx
    · exact hput _ _ (.threw _ _)
    · exact hput _ _ (.settled i)
  | keying i =>
    rw [hproc] at hput
    simp only [hproc] at hx
    cases hx
    exact hput _ _ (.keyed i _)
  | finding new =>
    rw [hproc] at hput
    simp only [hproc] at hx
    split at hx <;> cases hx
    · rename_i row hrow
      exact hput _ _ (begun_follows rfl (List.mem_of_find?_eq_some hrow))
    · exact hput _ _ (.proposed new rfl rfl)
  | creating new =>
    rw [hproc] at hput
    simp only [hproc] at hx
    split at hx <;> cases hx
    · exact hput _ _ (begun_follows rfl (List.mem_append_right _ (List.mem_singleton_self _)))
    · exact hput _ _ (.proposed new rfl rfl)
  | refinding new =>
    rw [hproc] at hput
    simp only [hproc] at hx
    split at hx <;> cases hx
    · rename_i row hrow
      exact hput _ _ (begun_follows rfl (List.mem_of_find?_eq_some hrow))
    · exact hput _ _ (.threw _ _)
  | calling intent amount =>
    rw [hproc] at hput
    simp only [hproc] at hx
    split at hx
    · obtain ⟨a, -, rfl⟩ := Option.map_eq_some_iff.mp hx
      exact hput _ _ (.carried intent rfl rfl)
    · cases hx
      exact hput _ _ (.carried intent rfl rfl)
  | applying intent attempt =>
    rw [hproc] at hput
    simp only [hproc] at hx
    split at hx
    · cases hx
      exact hput _ _ (.threw _ _)
    · cases hx
      exact hput _ _ (.carried intent rfl rfl)
    · split at hx <;> cases hx <;> exact hput _ _ (.carried intent rfl rfl)
  | capturing intent attempt =>
    rw [hproc] at hput
    simp only [hproc] at hx
    split at hx
    · cases hx
    · split at hx <;> cases hx
      · exact hput _ _ (.threw _ _)
      · exact hput _ _ (.carried intent rfl rfl)
  | clearing intent attempt settlement =>
    rw [hproc] at hput
    simp only [hproc] at hx
    split at hx
    · split at hx <;> cases hx
      · exact hput _ _ (.threw _ _)
      · exact hput _ _ (.carried intent rfl rfl)
    · cases hx
  | payable intent attempt settlement clearing =>
    rw [hproc] at hput
    simp only [hproc] at hx
    split at hx
    · split at hx <;> cases hx
      · exact hput _ _ (.threw _ _)
      · exact hput _ _ (.carried intent rfl rfl)
    · cases hx
  | revenue intent attempt settlement clearing payable =>
    rw [hproc] at hput
    simp only [hproc] at hx
    split at hx
    · split at hx
      · cases hx
        exact hput _ _ (.threw _ _)
      · split at hx
        · cases hx
          exact hput _ _ (.threw _ _)
        · split at hx <;> cases hx
          · exact hput _ _ (.threw _ _)
          · exact hput _ _ (.carried intent rfl rfl)
    · cases hx
  | posting intent attempt draft =>
    rw [hproc] at hput
    simp only [hproc] at hx
    split at hx <;> cases hx
    · exact hput _ _ (posted_follows rfl)
    · exact hput _ _ (.carried intent rfl rfl)
  | inserting intent attempt draft =>
    rw [hproc] at hput
    simp only [hproc] at hx
    split at hx <;> cases hx
    · exact hput _ _ (posted_follows rfl)
    · exact hput _ _ (.carried intent rfl rfl)
  | reposting intent attempt draft =>
    rw [hproc] at hput
    simp only [hproc] at hx
    split at hx <;> cases hx
    · exact hput _ _ (posted_follows rfl)
    · exact hput _ _ (.threw _ _)
  | recording intent attempt =>
    rw [hproc] at hput hok
    simp only [hproc] at hx
    split at hx
    · cases hx
    · rename_i row hrow
      split at hx <;> cases hx
      · -- the row that is read back is the one the call began with
        refine hput _ _ (.recorded intent (recorded row attempt) rfl rfl ?_ ?_)
        · apply List.mem_of_getElem? (i := intent.id)
          exact List.getElem?_set_self (List.getElem?_eq_some_iff.mp hrow).1
        · exact (hok.1.snapshot.eq_row hrow).symm
      · exact hput _ _ (.threw _ _)
  | refreshing intentId =>
    rw [hproc] at hput
    simp only [hproc] at hx
    split at hx
    · cases hx
      exact hput _ _ (.missing intentId)
    · rename_i intent hrow
      have hmem := List.mem_of_getElem? hrow
      split at hx
      · cases hx
        exact hput _ _ (.reread intentId intent rfl hmem)
      · split at hx <;> cases hx
        · exact hput _ _ (.reread intentId intent rfl hmem)
        · exact hput _ _ (.reread intentId intent rfl hmem)
  | reading intent reference =>
    rw [hproc] at hput
    simp only [hproc] at hx
    obtain ⟨a, -, rfl⟩ := Option.map_eq_some_iff.mp hx
    exact hput _ _ (.carried intent rfl rfl)

theorem exec_procs_other (h : Inv w s) {t t' : Pid} {d : Draw} (hx : exec w s t d = some s')
    (ht : t' ≠ t) : s'.procs t' = s.procs t' := by
  obtain ⟨u, p, rfl, e, -⟩ := exec_effect h hx
  rw [State.setProc_other _ ht, e.procs_eq]

theorem step_holdDamageSecurity {t : Pid} {i : DamageSecurityInstruction}
    (hx : step w s (.holdDamageSecurity t i) = some s') :
    (∀ excess, i.excess = some excess → excess.amount = 0) ∧ s' = s.setProc t (.returned .notRequired) ∨
      ∃ excess, i.excess = some excess ∧ excess.amount ≠ 0 ∧
        s' = s.setProc t (.keying (i.toInstruction excess)) := by
  rw [step] at hx
  obtain ⟨-, hx⟩ := Option.ite_none_right_eq_some.mp hx
  cases hexcess : i.excess with
  | none =>
    rw [hexcess] at hx
    cases hx
    refine .inl ⟨?_, rfl⟩
    rintro excess ⟨⟩
  | some excess =>
    simp only [hexcess] at hx
    split at hx
    · rename_i hzero
      cases hx
      refine .inl ⟨?_, rfl⟩
      rintro excess' ⟨⟩
      exact hzero
    · rename_i hzero
      cases hx
      exact .inr ⟨excess, rfl, hzero, rfl⟩

/-- The call an action belongs to. The provider's own belong to none. -/
def Action.pid : Action → Option Pid
  | .payForHire t _ => some t
  | .holdDamageSecurity t _ => some t
  | .refresh t _ => some t
  | .exec t _ => some t
  | .crash t => some t
  | .progress _ _ => none

theorem step_procs_other (h : Inv w s) {a : Action} (hx : step w s a = some s') {t : Pid}
    (ht : a.pid ≠ some t) : s'.procs t = s.procs t := by
  have hne : ∀ t', a.pid = some t' → t ≠ t' := by
    rintro t' hpid rfl
    exact ht hpid
  cases a with
  | payForHire t' i =>
    simp only [step] at hx
    split at hx <;> cases hx
    exact State.setProc_other _ (hne t' rfl) _
  | holdDamageSecurity t' i =>
    obtain ⟨-, rfl⟩ | ⟨excess, -, -, rfl⟩ := step_holdDamageSecurity hx
    · exact State.setProc_other _ (hne t' rfl) _
    · exact State.setProc_other _ (hne t' rfl) _
  | refresh t' intentId =>
    simp only [step] at hx
    split at hx <;> cases hx
    exact State.setProc_other _ (hne t' rfl) _
  | exec t' d => exact exec_procs_other h hx (hne t' rfl)
  | crash t' =>
    cases hx
    exact State.setProc_other _ (hne t' rfl) _
  | progress reference answer =>
    simp only [step] at hx
    split at hx
    · cases hx
    · split at hx <;> cases hx
      rfl

/-- Whatever a call may still open is a `P`. -/
def Proposes (w : Wiring) (P : NewPaymentIntent → Prop) : Proc → Prop
  | .settling i => ∀ count, P (i.toInstruction.propose w count)
  | .keying i => ∀ count, P (i.propose w count)
  | .finding new => P new
  | .creating new => P new
  | .refinding new => P new
  | _ => True

theorem Proposes.proposal {new : NewPaymentIntent} (h : Proposes w P p)
    (hp : p.proposal = some new) : P new := by
  cases p <;> cases hp <;> exact h

theorem Proposes.of_proposal {new : NewPaymentIntent} (h : P new) (hq : q.proposal = some new) :
    Proposes w P q := by
  cases q <;> cases hq <;> exact h

theorem Proposes.of_record {row : PaymentIntent} (hq : q.record = some row) : Proposes w P q := by
  cases q with
  | settling i => cases hq
  | keying i => cases hq
  | finding new => cases hq
  | creating new => cases hq
  | refinding new => cases hq
  | _ => trivial

theorem Proposes.imp {Q : NewPaymentIntent → Prop} (h : ∀ n, P n → Q n) (hp : Proposes w P p) :
    Proposes w Q p := by
  cases p with
  | settling i => exact fun count => h _ (hp count)
  | keying i => exact fun count => h _ (hp count)
  | finding new => exact h _ hp
  | creating new => exact h _ hp
  | refinding new => exact h _ hp
  | _ => trivial

theorem Follows.proposes (f : Follows w s p q) (h : Proposes w P p) : Proposes w P q := by
  cases f with
  | threw p error => trivial
  | settled i => exact h
  | keyed i count => exact h count
  | proposed new hp hq => exact .of_proposal (h.proposal hp) hq
  | begun new row hp hq hrow hsame => exact .of_record hq
  | carried intent hp hq => exact .of_record hq
  | recorded intent row hp hq hrow hsame => exact .of_record hq
  | missing intentId => trivial
  | reread intentId row hq hrow => exact .of_record hq

/-- A call about an attempt of one kind: it may open no other, it has no other
in hand, and it looks no other up. -/
structure About (w : Wiring) (P : NewPaymentIntent → Prop) (p : Proc) : Prop where
  proposes : Proposes w P p
  record : ∀ intent, p.record = some intent → P intent.toNewPaymentIntent
  named : ∀ intentId, p ≠ .refreshing intentId

/-- A call stays with its attempt where a row found under a key is taken up
only on the terms proposed. -/
theorem Follows.about (f : Follows w s p q)
    (hP : ∀ new row, assertSameAttempt new row = .ok row → P new → P row.toNewPaymentIntent)
    (h : About w P p) : About w P q := by
  refine ⟨f.proposes h.proposes, fun intent hintent => ?_, fun intentId hq => ?_⟩
  · cases f with
    | threw p error => cases hintent
    | settled i => cases hintent
    | keyed i count => cases hintent
    | proposed new hp hq => cases q <;> cases hq <;> cases hintent
    | begun new row hp hq hrow hsame =>
      obtain rfl : row = intent := Option.some.inj (hq.symm.trans hintent)
      exact hP new row hsame (h.proposes.proposal hp)
    | carried intent' hp hq =>
      obtain rfl : intent' = intent := Option.some.inj (hq.symm.trans hintent)
      exact h.record intent' hp
    | recorded intent' row hp hq hrow hsame =>
      obtain rfl : row = intent := Option.some.inj (hq.symm.trans hintent)
      rw [hsame]
      exact h.record intent' hp
    | missing intentId => exact absurd rfl (h.named intentId)
    | reread intentId row hq hrow => exact absurd rfl (h.named intentId)
  · subst hq
    cases f with
    | proposed new hp hq => cases hq
    | begun new row hp hq hrow hsame => cases hq
    | carried intent' hp hq => cases hq
    | recorded intent' row hp hq hrow hsame => cases hq
    | reread intentId row hq hrow => cases hq

theorem Follows.ne_notRequired (f : Follows w s p q) : q ≠ .returned .notRequired := by
  rintro rfl
  cases f with
  | proposed new hp hq => cases hq
  | begun new row hp hq hrow hsame => cases hq
  | carried intent' hp hq => cases hq
  | recorded intent' row hp hq hrow hsame => cases hq
  | reread intentId row hq hrow => cases hq

theorem step_opens (h : Inv w s) {a : Action} (hx : step w s a = some s') :
    s'.opened = s.opened ∨ ∃ t d new, a = .exec t d ∧ s.procs t = .creating new ∧
      intentAllowed w new = true ∧ s'.opened = s.opened ++ [new] := by
  obtain ⟨u, q, e, hq, hs⟩ := step_effect h hx
  have hu : s'.opened = u.opened := by
    obtain ⟨rfl, -⟩ | ⟨t, p, rfl, -⟩ := hs <;> rfl
  rw [hu]
  cases e with
  | opened new hkey hnone hallowed =>
    obtain hidle | ⟨t, d, rfl, hp⟩ := hq
    · cases hidle
    · refine .inr ⟨t, d, new, rfl, hp, hallowed, ?_⟩
      simp [State.opened, newIntent]
  | recorded intent row attempt hrow hok hallowed => exact .inl (opened_set hrow rfl)
  | _ => exact .inl rfl

/-- Every attempt there is, and every one a call may still open, is a `P`; and
those there are passed the constraints of their table. -/
structure Lawful (w : Wiring) (P : NewPaymentIntent → Prop) (s : State) : Prop where
  opened : ∀ n ∈ s.opened, P n ∧ intentAllowed w n = true
  proposes : ∀ t, Proposes w P (s.procs t)

def Action.Proposes (w : Wiring) (P : NewPaymentIntent → Prop) : Action → Prop
  | .payForHire _ i => ∀ count, P (i.toInstruction.propose w count)
  | .holdDamageSecurity _ i => ∀ excess, i.excess = some excess → excess.amount ≠ 0 →
    ∀ count, P ((i.toInstruction excess).propose w count)
  | _ => True

theorem Lawful.imp {Q : NewPaymentIntent → Prop} (h : ∀ n, P n → Q n) (hl : Lawful w P s) :
    Lawful w Q s :=
  ⟨fun n hn => ⟨h n (hl.opened n hn).1, (hl.opened n hn).2⟩, fun t => (hl.proposes t).imp h⟩

theorem Lawful.setProc (h : Lawful w P s) {t : Pid} (hp : Proposes w P p) :
    Lawful w P (s.setProc t p) := by
  refine ⟨h.opened, fun t' => ?_⟩
  by_cases ht : t' = t
  · subst ht
    rw [State.setProc_self]
    exact hp
  · rw [State.setProc_other _ ht]
    exact h.proposes t'

theorem Lawful.step (h : Lawful w P s) (hinv : Inv w s) {a : Action} (ha : a.Proposes w P)
    (hx : step w s a = some s') : Lawful w P s' := by
  cases a with
  | payForHire t i =>
    simp only [Payments.step] at hx
    split at hx <;> cases hx
    exact h.setProc ha
  | holdDamageSecurity t i =>
    obtain ⟨-, rfl⟩ | ⟨excess, hexcess, hzero, rfl⟩ := step_holdDamageSecurity hx
    · exact h.setProc trivial
    · exact h.setProc (ha excess hexcess hzero)
  | refresh t intentId =>
    simp only [Payments.step] at hx
    split at hx <;> cases hx
    exact h.setProc trivial
  | exec t d =>
    refine ⟨fun n hn => ?_, fun t' => ?_⟩
    · obtain hsame | ⟨t', d', new, ha, hp, hallowed, hopened⟩ := step_opens hinv hx
      · rw [hsame] at hn
        exact h.opened n hn
      · cases ha
        rw [hopened] at hn
        obtain hn | hn := List.mem_append.mp hn
        · exact h.opened n hn
        · rw [List.mem_singleton.mp hn]
          have := h.proposes t
          rw [hp] at this
          exact ⟨this, hallowed⟩
    · by_cases ht : t' = t
      · subst ht
        exact (exec_follows hinv hx).proposes (h.proposes t')
      · rw [exec_procs_other hinv hx ht]
        exact h.proposes t'
  | crash t =>
    cases hx
    exact h.setProc trivial
  | progress reference answer =>
    simp only [Payments.step] at hx
    split at hx
    · cases hx
    · split at hx <;> cases hx
      exact ⟨h.opened, h.proposes⟩

/-- What a record says is so: its attempt was opened, an outcome it has is the
provider's, and a hire that has succeeded is in the ledger. -/
structure Told (s : State) (intent : PaymentIntent) : Prop where
  opened : intent.toNewPaymentIntent ∈ s.opened
  settled : ∀ status : AttemptStatus, status.isTerminal = true → intent.status = status.toIntent →
    s.At intent.attemptKey status
  captured : intent.purpose = .hireCharge → intent.status = .succeeded →
    Captured s intent.toNewPaymentIntent

theorem Told.of_row (h : Sound w s) {row : PaymentIntent} (hrow : row ∈ s.intents) : Told s row :=
  ⟨mem_opened hrow, h.settled row hrow, h.captured row hrow⟩

theorem Told.mono {intent : PaymentIntent} (h : Told s intent) (g : Grows s s') : Told s' intent where
  opened := g.opened.subset h.opened
  settled status ht hs := g.at_terminal ht (h.settled status ht hs)
  captured hp hs := g.captured (h.captured hp hs)

theorem Follows.told (f : Follows w s p q) (h : Sound w s)
    (hp : ∀ intent, p.record = some intent → Told s intent) {intent : PaymentIntent}
    (hintent : q.record = some intent) : Told s intent := by
  have hread : ∀ row, q.record = some row → row ∈ s.intents → Told s intent := by
    intro row hq hrow
    obtain rfl : row = intent := Option.some.inj (hq.symm.trans hintent)
    exact .of_row h hrow
  cases f with
  | threw p error => cases hintent
  | settled i => cases hintent
  | keyed i count => cases hintent
  | proposed new hp hq => cases q <;> cases hq <;> cases hintent
  | begun new row hp hq hrow hsame => exact hread row hq hrow
  | carried intent' hp' hq =>
    obtain rfl : intent' = intent := Option.some.inj (hq.symm.trans hintent)
    exact hp intent' hp'
  | recorded intent' row hp hq hrow hsame => exact hread row hq hrow
  | missing intentId => cases hintent
  | reread intentId row hq hrow => exact hread row hq hrow

def AllTold (s : State) : Prop :=
  ∀ t intent, (s.procs t).record = some intent → Told s intent

theorem AllTold.setProc (h : AllTold s) {t : Pid} (hp : p.record = none) :
    AllTold (s.setProc t p) := by
  intro t' intent hintent
  by_cases ht : t' = t
  · subst ht
    rw [State.setProc_self, hp] at hintent
    cases hintent
  · rw [State.setProc_other _ ht] at hintent
    exact (h t' intent hintent).mono (.of_eq rfl rfl rfl)

theorem AllTold.step (h : AllTold s) (hinv : Inv w s) {a : Action} (hx : step w s a = some s') :
    AllTold s' := by
  have g := step_grows hinv hx
  have hsound := (inv_step hinv hx).sound
  cases a with
  | payForHire t i =>
    simp only [Payments.step] at hx
    split at hx <;> cases hx
    exact h.setProc rfl
  | holdDamageSecurity t i =>
    obtain ⟨-, rfl⟩ | ⟨excess, -, -, rfl⟩ := step_holdDamageSecurity hx
    · exact h.setProc rfl
    · exact h.setProc rfl
  | refresh t intentId =>
    simp only [Payments.step] at hx
    split at hx <;> cases hx
    exact h.setProc rfl
  | exec t d =>
    intro t' intent hintent
    by_cases ht : t' = t
    · subst ht
      refine (exec_follows hinv hx).told hsound (fun intent' hp => ?_) hintent
      exact (h t' intent' hp).mono g
    · rw [exec_procs_other hinv hx ht] at hintent
      exact (h t' intent hintent).mono g
  | crash t =>
    cases hx
    exact h.setProc rfl
  | progress reference answer =>
    intro t intent hintent
    rw [step_procs_other hinv hx (by rintro ⟨⟩)] at hintent
    exact (h t intent hintent).mono g

theorem allTold_run {as : List Action} (hr : run (step w) .empty as = some s) : AllTold s := by
  have h : Inv w s ∧ AllTold s := by
    refine run_preserves (P := fun u => Inv w u ∧ AllTold u) ?_ hr ⟨inv_empty, ?_⟩
    · exact fun u a u' hu hx => ⟨inv_step hu.1 hx, hu.2.step hu.1 hx⟩
    · intro t intent hintent
      cases hintent
  exact h.2

/-- What the provider has under the key of an attempt that was opened is one of
the attempt's booking and purpose, for its amount. -/
theorem exists_attemptOf (h : Sound w s) {n : NewPaymentIntent} (hn : n ∈ s.opened)
    {status : AttemptStatus} (hat : s.At n.attemptKey status) :
    ∃ a ∈ s.attemptsOf n.bookingId n.purpose, a.key = n.attemptKey ∧ a.amount = n.amount ∧
      a.status = status := by
  obtain ⟨a, ha, hkey, hstatus⟩ := hat
  obtain ⟨r, hr, rfl⟩ := List.mem_map.mp hn
  have hrkey : r.attemptKey = a.key := hkey.symm
  refine ⟨a, List.mem_filter.mpr ⟨ha, List.any_eq_true.mpr ⟨r, ?_, by simpa using hrkey⟩⟩, hkey, ?_,
    hstatus⟩
  · rw [State.rowsOf, List.mem_filter]
    exact ⟨hr, by simp⟩
  · exact attempt_amount h ha hr hrkey

theorem Told.exists_capture (h : Sound w s) {intent : PaymentIntent} (ht : Told s intent)
    (hp : intent.purpose = .hireCharge) (hs : intent.status = .succeeded) :
    ∃ t ∈ s.capturesOf intent.bookingId, Captures w s intent.toNewPaymentIntent t.toLedgerDraft := by
  obtain ⟨t, hmem, hkey⟩ := ht.captured hp hs
  obtain ⟨r, hr, hrn⟩ := List.mem_map.mp ht.opened
  obtain ⟨n, hn, hnp, hnat, hc⟩ := h.transactions t hmem
  obtain ⟨r', hr', rfl⟩ := List.mem_map.mp hn
  have hbooking : r'.bookingId = intent.bookingId := hireCaptureKey_inj (hc.key.symm.trans hkey)
  have hat : s.At r.attemptKey .succeeded := by
    rw [show r.attemptKey = intent.attemptKey by rw [← hrn]]
    exact ht.settled .succeeded rfl hs
  have hsame : r' = r := by
    refine succeeded_once h hr' hr ?_ ?_ hnat hat
    · rw [hbooking, ← hrn]
    · rw [hnp, ← hp, ← hrn]
  rw [hsame, hrn] at hc
  refine ⟨t, mem_capturesOf.mpr ⟨hmem, hc.kind, hc.bookingId⟩, hc⟩

end

/-- No call ever says more of an attempt than is so. Whatever record a call of
any kind has in hand or has returned, in any interleaving of calls, crashes and
provider outcomes and however long ago it was read: an outcome it has is that
of the provider's attempt under the record's own key, for its own amount, and a
hire it has as paid is in the ledger on the record's own terms. -/
theorem records_are_true (w : Wiring) {as : List Action} {s : State}
    (hr : run (step w) .empty as = some s) (t : Pid) (intent : PaymentIntent)
    (hrecord : (s.procs t).record = some intent) :
    (∀ status : AttemptStatus, status.isTerminal = true → intent.status = status.toIntent →
      ∃ a ∈ s.attemptsOf intent.bookingId intent.purpose, a.key = intent.attemptKey ∧
        a.amount = intent.amount ∧ a.status = status) ∧
    (intent.purpose = .hireCharge → intent.status = .succeeded →
      ∃ tx ∈ s.capturesOf intent.bookingId,
        Captures w s intent.toNewPaymentIntent tx.toLedgerDraft) := by
  have h := (inv_run hr).sound
  have htold := allTold_run hr t intent hrecord
  exact ⟨fun status ht hs => exists_attemptOf h htold.opened (htold.settled status ht hs), fun hp hs => htold.exists_capture h hp hs⟩

theorem records_are_true_resumed : ∃ s intent,
    run (step drillWiring) .empty crashedThenResumed = some s ∧
    (s.procs 1).record = some intent ∧ intent.status = .succeeded ∧
    ∃ a ∈ s.attemptsOf intent.bookingId intent.purpose, a.status = .succeeded := by
  have hrun : (run (step drillWiring) .empty crashedThenResumed).bind (fun s =>
      (s.procs 1).record.map (·.status)) = some .succeeded := by decide +kernel
  obtain ⟨s, hs, hrecord⟩ := Option.bind_eq_some_iff.mp hrun
  obtain ⟨intent, hintent, hstatus⟩ := Option.map_eq_some_iff.mp hrecord
  obtain ⟨a, ha, -, -, hsucceeded⟩ :=
    (records_are_true drillWiring hs 1 intent hintent).1 .succeeded rfl hstatus
  exact ⟨s, intent, hs, hintent, hstatus, a, ha, hsucceeded⟩

end RentalMarket.Payments
