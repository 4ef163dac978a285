import RentalMarket.Payments.Service
import RentalMarket.Payments.LedgerLaws

namespace RentalMarket.Payments

open RentalMarket.Core RentalMarket.Pricing

/-- The attempts as they were proposed. No step rewrites this part of a row. -/
def State.opened (s : State) : List NewPaymentIntent := s.intents.map (·.toNewPaymentIntent)

def keysOf (news : List NewPaymentIntent) (bookingId : String) (purpose : Purpose) : List String :=
  (news.filter (fun n => n.bookingId = bookingId ∧ n.purpose = purpose)).map (·.attemptKey)

def State.At (s : State) (key : String) (status : AttemptStatus) : Prop :=
  ∃ a ∈ s.attempts, a.key = key ∧ a.status = status

/-- Where the number of a key may stand, from a count that is already old. -/
def KeyOk (s : State) (new : NewPaymentIntent) : Prop :=
  ∃ c, new.attemptKey = attemptKey new.purpose new.bookingId c ∧
    c ≤ (keysOf s.opened new.bookingId new.purpose).length ∧
    ∀ j < c, s.At (attemptKey new.purpose new.bookingId j) .failed

/-- A record read earlier is still the row of its id, status and outcome apart. -/
def Snapshot (s : State) (intent : PaymentIntent) : Prop :=
  s.opened[intent.id]? = some intent.toNewPaymentIntent

theorem Snapshot.eq_row {s : State} {intent row : PaymentIntent} (h : Snapshot s intent)
    (hrow : s.intents[intent.id]? = some row) : intent.toNewPaymentIntent = row.toNewPaymentIntent := by
  rw [Snapshot, State.opened, List.getElem?_map, hrow] at h
  exact (Option.some.inj h).symm

/-- An answer is about the attempt of this key, and a final one is still true. -/
def Heard (s : State) (key : String) (attempt : PaymentAttempt) : Prop :=
  ∃ a, s.attempts[attempt.providerReference]? = some a ∧ a.key = key ∧
    (attempt.status.isTerminal = true → a.status = attempt.status)

def HasAccount (s : State) (spec : AccountSpec) (account : LedgerAccount) : Prop :=
  account ∈ s.ledger.accounts ∧ accountIdentityOf spec = .ok account.identity

def SettlesTo (w : Wiring) (n : NewPaymentIntent) (settlement : HireSettlement) : Prop :=
  ∃ charge policy, n.charge = some charge ∧ w.policyOf n.categoryVersionId = some policy ∧
    settleHire w.percentageOf charge policy = .ok settlement

def CaptureEntries (w : Wiring) (s : State) (n : NewPaymentIntent) (entries : List LedgerEntry) : Prop :=
  ∃ settlement clearing payable revenue, SettlesTo w n settlement ∧
    HasAccount s ⟨.providerClearing, settlement.renterPays.currency, none⟩ clearing ∧
    HasAccount s ⟨.ownerPayable, settlement.renterPays.currency, some n.ownerId⟩ payable ∧
    HasAccount s ⟨.platformRevenue, settlement.renterPays.currency, none⟩ revenue ∧
    hireCaptureEntries settlement clearing.id payable.id revenue.id = .ok entries

structure Captures (w : Wiring) (s : State) (n : NewPaymentIntent) (t : LedgerDraft) : Prop where
  key : t.idempotencyKey = hireCaptureKey n.bookingId
  kind : t.kind = .hireChargeCaptured
  bookingId : t.bookingId = some n.bookingId
  entries : CaptureEntries w s n t.entries

def Captured (s : State) (n : NewPaymentIntent) : Prop :=
  ∃ t ∈ s.ledger.transactions, t.idempotencyKey = hireCaptureKey n.bookingId

/-- What a call between a provider's answer and its record stands on. -/
structure Answered (s : State) (intent : PaymentIntent) (attempt : PaymentAttempt) : Prop where
  snapshot : Snapshot s intent
  heard : Heard s intent.attemptKey attempt

structure Charged (s : State) (intent : PaymentIntent) (attempt : PaymentAttempt) : Prop extends
    Answered s intent attempt where
  purpose : intent.purpose = .hireCharge
  succeeded : attempt.status = .succeeded

structure Drafted (w : Wiring) (s : State) (intent : PaymentIntent) (attempt : PaymentAttempt)
    (draft : LedgerDraft) : Prop extends Charged s intent attempt where
  captures : Captures w s intent.toNewPaymentIntent draft
  postable : Postable draft

/-- What the locals of a call are worth, step by step. -/
def ProcOk (w : Wiring) (s : State) : Proc → Prop
  | .finding new => KeyOk s new
  | .creating new => KeyOk s new
  | .refinding new => KeyOk s new
  | .calling intent amount => Snapshot s intent ∧ amount = intent.amount
  | .applying intent attempt => Answered s intent attempt
  | .capturing intent attempt => Charged s intent attempt
  | .clearing intent attempt settlement =>
    Charged s intent attempt ∧ SettlesTo w intent.toNewPaymentIntent settlement
  | .payable intent attempt settlement clearing =>
    Charged s intent attempt ∧ SettlesTo w intent.toNewPaymentIntent settlement ∧
    HasAccount s ⟨.providerClearing, settlement.renterPays.currency, none⟩ clearing
  | .revenue intent attempt settlement clearing payable =>
    Charged s intent attempt ∧ SettlesTo w intent.toNewPaymentIntent settlement ∧
    HasAccount s ⟨.providerClearing, settlement.renterPays.currency, none⟩ clearing ∧
    HasAccount s ⟨.ownerPayable, settlement.renterPays.currency, some intent.ownerId⟩ payable
  | .posting intent attempt draft => Drafted w s intent attempt draft
  | .inserting intent attempt draft => Drafted w s intent attempt draft
  | .reposting intent attempt draft => Drafted w s intent attempt draft
  | .recording intent attempt => Answered s intent attempt ∧
    (attempt.status = .succeeded → intent.purpose = .hireCharge → Captured s intent.toNewPaymentIntent)
  | .reading intent reference => Snapshot s intent ∧
    ∃ a, s.attempts[reference]? = some a ∧ a.key = intent.attemptKey
  | _ => True

/-- The tables of every reachable state: attempts are numbered, all but the
last have failed, and what is settled here is settled there. -/
structure Sound (w : Wiring) (s : State) : Prop where
  ids : ∀ (i : Nat) (r : PaymentIntent), s.intents[i]? = some r → r.id = i
  numbered : ∀ b p, keysOf s.opened b p =
    (List.range (keysOf s.opened b p).length).map (attemptKey p b)
  superseded : ∀ b p j, j + 1 < (keysOf s.opened b p).length → s.At (attemptKey p b j) .failed
  attemptKeys : (s.attempts.map (·.key)).Nodup
  attemptRows : ∀ a ∈ s.attempts, ∃ n ∈ s.opened, n.attemptKey = a.key ∧ n.amount = a.amount
  references : ∀ r ∈ s.intents, ∀ reference, r.providerReference = some reference →
    ∃ a, s.attempts[reference]? = some a ∧ a.key = r.attemptKey
  settled : ∀ r ∈ s.intents, ∀ status : AttemptStatus, status.isTerminal = true →
    r.status = status.toIntent → s.At r.attemptKey status
  ledger : s.ledger.Sound
  transactions : ∀ t ∈ s.ledger.transactions, ∃ n ∈ s.opened, n.purpose = .hireCharge ∧
    s.At n.attemptKey .succeeded ∧ Captures w s n t.toLedgerDraft
  captured : ∀ r ∈ s.intents, r.purpose = .hireCharge → r.status = .succeeded →
    Captured s r.toNewPaymentIntent

structure Inv (w : Wiring) (s : State) : Prop where
  sound : Sound w s
  procs : ∀ t, ProcOk w s (s.procs t)

/-- Nothing that was ever true of the tables is taken back, save a row's own
outcome. -/
structure Grows (s s' : State) : Prop where
  opened : s.opened <+: s'.opened
  attempts : ∀ (i : Nat) (a : ProviderAttempt), s.attempts[i]? = some a → ∃ a', s'.attempts[i]? = some a' ∧ a'.key = a.key ∧
    (a.status.isTerminal = true → a'.status = a.status)
  accounts : ∀ a ∈ s.ledger.accounts, a ∈ s'.ledger.accounts
  transactions : ∀ t ∈ s.ledger.transactions, t ∈ s'.ledger.transactions

namespace Grows

theorem of_eq {s s' : State} (hi : s'.intents = s.intents) (ha : s'.attempts = s.attempts)
    (hl : s'.ledger = s.ledger) : Grows s s' where
  opened := by rw [State.opened, State.opened, hi]
  attempts i a h := ⟨a, by rw [ha]; exact h, rfl, fun _ => rfl⟩
  accounts a h := by rw [hl]; exact h
  transactions t h := by rw [hl]; exact h

variable {s s' : State} (g : Grows s s')

include g

theorem at_terminal {key : String} {status : AttemptStatus} (ht : status.isTerminal = true)
    (h : s.At key status) : s'.At key status := by
  obtain ⟨a, ha, hkey, hstatus⟩ := h
  obtain ⟨i, hi⟩ := List.mem_iff_getElem?.mp ha
  obtain ⟨a', hi', hkey', hfinal⟩ := g.attempts i a hi
  refine ⟨a', List.mem_of_getElem? hi', hkey'.trans hkey, ?_⟩
  rw [hfinal (by rw [hstatus]; exact ht), hstatus]

theorem keysOf_grows (b : String) (p : Purpose) : keysOf s.opened b p <+: keysOf s'.opened b p :=
  (g.opened.filter _).map _

theorem keyOk {new : NewPaymentIntent} (h : KeyOk s new) : KeyOk s' new := by
  obtain ⟨c, hkey, hle, hfailed⟩ := h
  refine ⟨c, hkey, hle.trans (g.keysOf_grows _ _).length_le, fun j hj => ?_⟩
  exact g.at_terminal rfl (hfailed j hj)

theorem snapshot {intent : PaymentIntent} (h : Snapshot s intent) : Snapshot s' intent := by
  obtain ⟨l, hl⟩ := g.opened
  have hlt : intent.id < s.opened.length := (List.getElem?_eq_some_iff.mp h).1
  rw [Snapshot, ← hl, List.getElem?_append_left hlt]
  exact h

theorem heard {key : String} {attempt : PaymentAttempt} (h : Heard s key attempt) :
    Heard s' key attempt := by
  obtain ⟨a, ha, hkey, hfinal⟩ := h
  obtain ⟨a', ha', hkey', hfinal'⟩ := g.attempts _ a ha
  refine ⟨a', ha', hkey'.trans hkey, fun ht => ?_⟩
  have hstatus := hfinal ht
  rw [hfinal' (by rw [hstatus]; exact ht), hstatus]

theorem answered {intent : PaymentIntent} {attempt : PaymentAttempt}
    (h : Answered s intent attempt) : Answered s' intent attempt :=
  ⟨g.snapshot h.snapshot, g.heard h.heard⟩

theorem charged {intent : PaymentIntent} {attempt : PaymentAttempt}
    (h : Charged s intent attempt) : Charged s' intent attempt :=
  ⟨g.answered h.toAnswered, h.purpose, h.succeeded⟩

theorem hasAccount {spec : AccountSpec} {account : LedgerAccount} (h : HasAccount s spec account) :
    HasAccount s' spec account := ⟨g.accounts _ h.1, h.2⟩

theorem captures {w : Wiring} {n : NewPaymentIntent} {t : LedgerDraft} (h : Captures w s n t) :
    Captures w s' n t := by
  obtain ⟨settlement, clearing, payable, revenue, hs, h₁, h₂, h₃, he⟩ := h.entries
  exact ⟨h.key, h.kind, h.bookingId, settlement, clearing, payable, revenue, hs, g.hasAccount h₁,
    g.hasAccount h₂, g.hasAccount h₃, he⟩

theorem drafted {w : Wiring} {intent : PaymentIntent} {attempt : PaymentAttempt} {draft : LedgerDraft}
    (h : Drafted w s intent attempt draft) : Drafted w s' intent attempt draft :=
  ⟨g.charged h.toCharged, g.captures h.captures, h.postable⟩

theorem captured {n : NewPaymentIntent} (h : Captured s n) : Captured s' n := by
  obtain ⟨t, ht, hkey⟩ := h
  exact ⟨t, g.transactions t ht, hkey⟩

theorem procOk {w : Wiring} {p : Proc} (h : ProcOk w s p) : ProcOk w s' p := by
  cases p with
  | finding new => exact g.keyOk h
  | creating new => exact g.keyOk h
  | refinding new => exact g.keyOk h
  | calling intent amount => exact ⟨g.snapshot h.1, h.2⟩
  | applying intent attempt => exact g.answered h
  | capturing intent attempt => exact g.charged h
  | clearing intent attempt settlement => exact ⟨g.charged h.1, h.2⟩
  | payable intent attempt settlement clearing => exact ⟨g.charged h.1, h.2.1, g.hasAccount h.2.2⟩
  | revenue intent attempt settlement clearing payable =>
    exact ⟨g.charged h.1, h.2.1, g.hasAccount h.2.2.1, g.hasAccount h.2.2.2⟩
  | posting intent attempt draft => exact g.drafted h
  | inserting intent attempt draft => exact g.drafted h
  | reposting intent attempt draft => exact g.drafted h
  | recording intent attempt => exact ⟨g.answered h.1, fun hs hp => g.captured (h.2 hs hp)⟩
  | reading intent reference =>
    obtain ⟨hsnap, a, ha, hkey⟩ := h
    obtain ⟨a', ha', hkey', -⟩ := g.attempts _ a ha
    exact ⟨g.snapshot hsnap, a', ha', hkey'.trans hkey⟩
  | _ => trivial

end Grows

/-- What one step does to the tables, by the point its call stands at. The
provider's own steps belong to no call. -/
inductive Effect (w : Wiring) (s : State) : Proc → State → Prop where
  | same (p : Proc) : Effect w s p s
  | opened (new : NewPaymentIntent) (hkey : KeyOk s new) (hnone : s.findByKey new.attemptKey = none)
    (hallowed : intentAllowed w new = true) :
    Effect w s (.creating new) { s with intents := s.intents ++ [newIntent s new] }
  | asked (intent : PaymentIntent) (a : ProviderAttempt) (hsnap : Snapshot s intent)
    (hkey : a.key = intent.attemptKey) (hamount : a.amount = intent.amount)
    (hnone : ∀ b ∈ s.attempts, b.key ≠ a.key) :
    Effect w s (.calling intent a.amount) { s with attempts := s.attempts ++ [a] }
  | account (p : Proc) (id : AccountId) (spec : AccountSpec) (hid : ∀ a ∈ s.ledger.accounts, a.id ≠ id) :
    Effect w s p { s with ledger := (s.ledger.accountFor id spec).2 }
  | posted (intent : PaymentIntent) (attempt : PaymentAttempt) (draft : LedgerDraft)
    (hdraft : Drafted w s intent attempt draft)
    (hnone : s.ledger.findByIdempotencyKey draft.idempotencyKey = none)
    (hallowed : s.ledger.accepts w.bookingExists draft = true) :
    Effect w s (.inserting intent attempt draft)
      { s with ledger := s.ledger.append (s.ledger.newRow draft) }
  | recorded (intent row : PaymentIntent) (attempt : PaymentAttempt)
    (hrow : s.intents[intent.id]? = some row) (hok : ProcOk w s (.recording intent attempt))
    (hallowed : outcomeAllowed s (Payments.recorded row attempt) = true) :
    Effect w s (.recording intent attempt)
      { s with intents := s.intents.set intent.id (Payments.recorded row attempt) }
  | progressed (reference : Nat) (a a' : ProviderAttempt) (ha : s.attempts[reference]? = some a)
    (hopen : a.status.isTerminal = false) (hkey : a'.key = a.key) (hamount : a'.amount = a.amount) :
    Effect w s .idle { s with attempts := s.attempts.set reference a' }

theorem opened_set {s : State} {i : Nat} {row r : PaymentIntent} (h : s.intents[i]? = some row)
    (hr : r.toNewPaymentIntent = row.toNewPaymentIntent) :
    State.opened { s with intents := s.intents.set i r } = s.opened := by
  obtain ⟨hlt, rfl⟩ := List.getElem?_eq_some_iff.mp h
  rw [State.opened, State.opened, List.map_set, hr]
  refine List.ext_getElem (by simp) (fun j hj hj' => ?_)
  rw [List.getElem_set]
  split <;> simp_all

theorem accountFor_mono {l : Ledger} {id : AccountId} {spec : AccountSpec} :
    (∀ a ∈ l.accounts, a ∈ (l.accountFor id spec).2.accounts) ∧
      (l.accountFor id spec).2.transactions = l.transactions := by
  unfold Ledger.accountFor
  split
  · exact ⟨fun a ha => ha, rfl⟩
  · split
    · exact ⟨fun a ha => ha, rfl⟩
    · exact ⟨fun a ha => List.mem_append_left _ ha, rfl⟩

section

variable {w : Wiring} {s s' : State} {p : Proc}

theorem Effect.grows (e : Effect w s p s') : Grows s s' := by
  cases e with
  | same p => exact .of_eq rfl rfl rfl
  | opened new hkey hnone hallowed =>
    refine ⟨?_, fun i a h => ⟨a, h, rfl, fun _ => rfl⟩, fun _ h => h, fun _ h => h⟩
    simp only [State.opened, List.map_append]
    exact List.prefix_append _ _
  | asked intent a hsnap hkey hamount hnone =>
    refine ⟨List.prefix_rfl, fun i b h => ⟨b, ?_, rfl, fun _ => rfl⟩, fun _ h => h, fun _ h => h⟩
    rw [List.getElem?_append_left (List.getElem?_eq_some_iff.mp h).1]
    exact h
  | account p id spec hid =>
    refine ⟨List.prefix_rfl, fun i a h => ⟨a, h, rfl, fun _ => rfl⟩, accountFor_mono.1, fun t h => ?_⟩
    simp only [accountFor_mono.2]
    exact h
  | posted intent attempt draft hdraft hnone hallowed =>
    refine ⟨List.prefix_rfl, fun i a h => ⟨a, h, rfl, fun _ => rfl⟩, fun _ h => h, fun t h => ?_⟩
    exact List.mem_append_left _ h
  | recorded intent row attempt hrow hok hallowed =>
    refine ⟨?_, fun i a h => ⟨a, h, rfl, fun _ => rfl⟩, fun _ h => h, fun _ h => h⟩
    rw [opened_set (r := Payments.recorded row attempt) hrow rfl]
  | progressed reference a a' ha hopen hkey hamount =>
    refine ⟨List.prefix_rfl, fun i b h => ?_, fun _ h => h, fun _ h => h⟩
    by_cases hi : reference = i
    · subst hi
      have hba : b = a := Option.some.inj (h.symm.trans ha)
      subst hba
      refine ⟨a', ?_, hkey, fun ht => ?_⟩
      · rw [List.getElem?_set_self (List.getElem?_eq_some_iff.mp h).1]
      · rw [hopen] at ht
        cases ht
    · refine ⟨b, ?_, rfl, fun _ => rfl⟩
      rw [List.getElem?_set_ne hi]
      exact h

theorem Effect.opened_cases (e : Effect w s p s') :
    s'.opened = s.opened ∨ ∃ new, p = .creating new ∧ s'.opened = s.opened ++ [new] := by
  cases e with
  | opened new hkey hnone hallowed =>
    refine .inr ⟨new, rfl, ?_⟩
    simp [State.opened, newIntent]
  | recorded intent row attempt hrow hok hallowed => exact .inl (opened_set hrow rfl)
  | _ => exact .inl rfl

theorem mem_opened {r : PaymentIntent} (h : r ∈ s.intents) : r.toNewPaymentIntent ∈ s.opened :=
  List.mem_map.mpr ⟨r, h, rfl⟩

theorem findByKey_eq_none {key : String} (h : s.findByKey key = none) :
    ∀ n ∈ s.opened, n.attemptKey ≠ key := by
  intro n hn
  obtain ⟨r, hr, rfl⟩ := List.mem_map.mp hn
  simpa using List.find?_eq_none.mp h r hr

theorem keysOf_opened (b : String) (p : Purpose) :
    keysOf s.opened b p = (s.rowsOf b p).map (·.attemptKey) := by
  rw [keysOf, State.opened, State.rowsOf, List.filter_map, List.map_map]
  rfl

theorem mem_keysOf {news : List NewPaymentIntent} {b key : String} {p : Purpose} :
    key ∈ keysOf news b p ↔ ∃ n ∈ news, n.bookingId = b ∧ n.purpose = p ∧ n.attemptKey = key := by
  simp only [keysOf, List.mem_map, List.mem_filter, decide_eq_true_eq]
  constructor
  · rintro ⟨n, ⟨hn, hb, hp⟩, hk⟩
    exact ⟨n, hn, hb, hp, hk⟩
  · rintro ⟨n, hn, hb, hp, hk⟩
    exact ⟨n, ⟨hn, hb, hp⟩, hk⟩

namespace Sound

theorem of_intents_eq (h : Sound w s) (g : Grows s s') (hi : s'.intents = s.intents)
    (attemptKeys : (s'.attempts.map (·.key)).Nodup)
    (attemptRows : ∀ a ∈ s'.attempts, ∃ n ∈ s.opened, n.attemptKey = a.key ∧ n.amount = a.amount)
    (ledger : s'.ledger.Sound)
    (transactions : ∀ t ∈ s'.ledger.transactions, ∃ n ∈ s.opened, n.purpose = .hireCharge ∧
      s'.At n.attemptKey .succeeded ∧ Captures w s' n t.toLedgerDraft) : Sound w s' := by
  have ho : s'.opened = s.opened := by rw [State.opened, State.opened, hi]
  refine ⟨?_, ?_, ?_, attemptKeys, ?_, ?_, ?_, ledger, ?_, ?_⟩
  · rw [hi]
    exact h.ids
  · rw [ho]
    exact h.numbered
  · rw [ho]
    exact fun b p j hj => g.at_terminal rfl (h.superseded b p j hj)
  · rw [ho]
    exact attemptRows
  · rw [hi]
    intro r hr reference href
    obtain ⟨a, ha, hkey⟩ := h.references r hr reference href
    obtain ⟨a', ha', hkey', -⟩ := g.attempts reference a ha
    exact ⟨a', ha', hkey'.trans hkey⟩
  · rw [hi]
    exact fun r hr status ht hstatus => g.at_terminal ht (h.settled r hr status ht hstatus)
  · rw [ho]
    exact transactions
  · rw [hi]
    exact fun r hr hp hstatus => g.captured (h.captured r hr hp hstatus)

theorem transactions_mono (h : Sound w s) (g : Grows s s') {t : PostedTransaction}
    (ht : t ∈ s.ledger.transactions) : ∃ n ∈ s.opened, n.purpose = .hireCharge ∧
      s'.At n.attemptKey .succeeded ∧ Captures w s' n t.toLedgerDraft := by
  obtain ⟨n, hn, hp, hat, hc⟩ := h.transactions t ht
  exact ⟨n, hn, hp, g.at_terminal rfl hat, g.captures hc⟩

theorem next_number (h : Sound w s) {new : NewPaymentIntent} {c : Nat}
    (hkey : new.attemptKey = attemptKey new.purpose new.bookingId c)
    (hle : c ≤ (keysOf s.opened new.bookingId new.purpose).length)
    (hnone : s.findByKey new.attemptKey = none) :
    c = (keysOf s.opened new.bookingId new.purpose).length := by
  refine hle.antisymm (not_lt.mp (fun hlt => ?_))
  have hmem : new.attemptKey ∈ keysOf s.opened new.bookingId new.purpose := by
    rw [h.numbered, hkey]
    exact List.mem_map_of_mem (List.mem_range.mpr hlt)
  obtain ⟨n, hn, -, -, hk⟩ := mem_keysOf.mp hmem
  exact findByKey_eq_none hnone n hn hk

theorem openedKeys (new : NewPaymentIntent) (b : String) (p : Purpose) :
    keysOf (State.opened { s with intents := s.intents ++ [newIntent s new] }) b p =
      keysOf s.opened b p ++ if new.bookingId = b ∧ new.purpose = p then [new.attemptKey] else [] := by
  simp only [State.opened, keysOf, List.map_append, List.filter_append]
  congr 1
  simp only [List.map_cons, List.map_nil, newIntent, List.filter_cons, List.filter_nil]
  split <;> simp_all

theorem opened (h : Sound w s) {new : NewPaymentIntent} (hkey : KeyOk s new)
    (hnone : s.findByKey new.attemptKey = none) (hallowed : intentAllowed w new = true) :
    Sound w { s with intents := s.intents ++ [newIntent s new] } := by
  have g := (Effect.opened new hkey hnone hallowed).grows
  obtain ⟨c, hc, hle, hfailed⟩ := hkey
  have hnext : c = _ := h.next_number hc hle hnone
  have hmem : ∀ n ∈ s.opened, n ∈ State.opened { s with intents := s.intents ++ [newIntent s new] } :=
    g.opened.subset
  refine ⟨?_, ?_, ?_, h.attemptKeys, ?_, ?_, ?_, h.ledger, ?_, ?_⟩
  · intro i r hi
    rcases Nat.lt_or_ge i s.intents.length with hlt | hge
    · rw [List.getElem?_append_left hlt] at hi
      exact h.ids i r hi
    · rw [List.getElem?_append_right hge, List.getElem?_singleton] at hi
      split at hi
      · cases hi
        simp only [newIntent]
        omega
      · cases hi
  · intro b p
    rw [openedKeys]
    split
    · rename_i hbp
      obtain ⟨rfl, rfl⟩ := hbp
      rw [List.length_append, List.length_singleton, List.range_succ, List.map_append, ← h.numbered,
        List.map_singleton, ← hnext, ← hc]
    · rw [List.append_nil]
      exact h.numbered b p
  · -- the row below the new one is one the new key counted
    intro b p j hj
    rw [openedKeys] at hj
    split at hj
    · rename_i hbp
      obtain ⟨rfl, rfl⟩ := hbp
      rw [List.length_append, List.length_singleton, ← hnext] at hj
      exact hfailed j (by omega)
    · rw [List.append_nil] at hj
      exact h.superseded b p j hj
  · intro a ha
    obtain ⟨n, hn, hk⟩ := h.attemptRows a ha
    exact ⟨n, hmem n hn, hk⟩
  · intro r hr reference href
    rcases List.mem_append.mp hr with hr | hr
    · exact h.references r hr reference href
    · rw [List.mem_singleton.mp hr] at href
      cases href
  · intro r hr status ht hstatus
    rcases List.mem_append.mp hr with hr | hr
    · exact h.settled r hr status ht hstatus
    · rw [List.mem_singleton.mp hr] at hstatus
      cases status <;> cases hstatus
  · intro t ht
    obtain ⟨n, hn, hrest⟩ := h.transactions_mono g ht
    exact ⟨n, hmem n hn, hrest⟩
  · intro r hr hp hstatus
    rcases List.mem_append.mp hr with hr | hr
    · exact h.captured r hr hp hstatus
    · rw [List.mem_singleton.mp hr] at hstatus
      cases hstatus

theorem recorded (h : Sound w s) {intent row : PaymentIntent} {attempt : PaymentAttempt}
    (hrow : s.intents[intent.id]? = some row) (hok : ProcOk w s (.recording intent attempt))
    (hallowed : outcomeAllowed s (Payments.recorded row attempt) = true) :
    Sound w { s with intents := s.intents.set intent.id (Payments.recorded row attempt) } := by
  have g := (Effect.recorded intent row attempt hrow hok hallowed).grows
  obtain ⟨⟨hsnap, a, ha, hkey, hfinal⟩, hcaptured⟩ := hok
  -- the row that is written is the one the call read, whatever has become of it since
  have hsame := hsnap.eq_row hrow
  have hrowKey : row.attemptKey = intent.attemptKey := by rw [hsame]
  have ho := opened_set (r := Payments.recorded row attempt) hrow rfl
  have hlt : intent.id < s.intents.length := (List.getElem?_eq_some_iff.mp hrow).1
  have hmem : ∀ r ∈ s.intents.set intent.id (Payments.recorded row attempt),
      r ∈ s.intents ∨ r = Payments.recorded row attempt := fun r hr => List.mem_or_eq_of_mem_set hr
  refine ⟨?_, ?_, ?_, h.attemptKeys, ?_, ?_, ?_, h.ledger, ?_, ?_⟩
  · intro i r hi
    by_cases hid : intent.id = i
    · subst hid
      rw [List.getElem?_set_self hlt] at hi
      cases hi
      exact h.ids intent.id row hrow
    · rw [List.getElem?_set_ne hid] at hi
      exact h.ids i r hi
  · rw [ho]
    exact h.numbered
  · rw [ho]
    exact h.superseded
  · rw [ho]
    exact h.attemptRows
  · intro r hr reference href
    rcases hmem r hr with hr | rfl
    · exact h.references r hr reference href
    · cases href
      exact ⟨a, ha, hkey.trans hrowKey.symm⟩
  · intro r hr status ht hstatus
    rcases hmem r hr with hr | rfl
    · exact h.settled r hr status ht hstatus
    · have hs : attempt.status = status := AttemptStatus.toIntent_injective hstatus
      subst hs
      exact ⟨a, List.mem_of_getElem? ha, hkey.trans hrowKey.symm, hfinal ht⟩
  · rw [ho]
    exact fun t ht => h.transactions_mono g ht
  · intro r hr hp hstatus
    rcases hmem r hr with hr | rfl
    · exact h.captured r hr hp hstatus
    · have hs : attempt.status = .succeeded :=
        AttemptStatus.toIntent_injective (hstatus.trans rfl)
      have := hcaptured hs (by rw [hsame]; exact hp)
      rw [hsame] at this
      exact this

theorem asked (h : Sound w s) {intent : PaymentIntent} {a : ProviderAttempt} (hsnap : Snapshot s intent)
    (hkey : a.key = intent.attemptKey) (hamount : a.amount = intent.amount)
    (hnone : ∀ b ∈ s.attempts, b.key ≠ a.key) : Sound w { s with attempts := s.attempts ++ [a] } := by
  have g := (Effect.asked (w := w) intent a hsnap hkey hamount hnone).grows
  refine h.of_intents_eq g rfl ?_ ?_ h.ledger (fun t ht => h.transactions_mono g ht)
  · rw [List.map_append]
    refine List.nodup_append.mpr ⟨h.attemptKeys, List.nodup_singleton _, ?_⟩
    intro k hk k' hk' hkk
    obtain ⟨b, hb, rfl⟩ := List.mem_map.mp hk
    rw [List.map_singleton, List.mem_singleton] at hk'
    exact hnone b hb (hkk.trans hk')
  · intro b hb
    rcases List.mem_append.mp hb with hb | hb
    · exact h.attemptRows b hb
    · rw [List.mem_singleton.mp hb]
      exact ⟨intent.toNewPaymentIntent, List.mem_of_getElem? hsnap, hkey.symm, hamount.symm⟩

theorem progressed (h : Sound w s) {reference : Nat} {a a' : ProviderAttempt}
    (ha : s.attempts[reference]? = some a) (hopen : a.status.isTerminal = false)
    (hkey : a'.key = a.key) (hamount : a'.amount = a.amount) :
    Sound w { s with attempts := s.attempts.set reference a' } := by
  have g := (Effect.progressed (w := w) reference a a' ha hopen hkey hamount).grows
  refine h.of_intents_eq g rfl ?_ ?_ h.ledger (fun t ht => h.transactions_mono g ht)
  · obtain ⟨hlt, hget⟩ := List.getElem?_eq_some_iff.mp ha
    have hkeys : (s.attempts.set reference a').map (·.key) = s.attempts.map (·.key) := by
      rw [List.map_set]
      refine List.ext_getElem (by simp) (fun j hj hj' => ?_)
      rw [List.getElem_set]
      split
      · rename_i hij
        subst hij
        rw [hkey, List.getElem_map, hget]
      · rfl
    rw [hkeys]
    exact h.attemptKeys
  · intro b hb
    rcases List.mem_or_eq_of_mem_set hb with hb | rfl
    · exact h.attemptRows b hb
    · obtain ⟨n, hn, hk, hm⟩ := h.attemptRows a (List.mem_of_getElem? ha)
      exact ⟨n, hn, hk.trans hkey.symm, hm.trans hamount.symm⟩

theorem posted (h : Sound w s) {intent : PaymentIntent} {attempt : PaymentAttempt} {draft : LedgerDraft}
    (hdraft : Drafted w s intent attempt draft)
    (hnone : s.ledger.findByIdempotencyKey draft.idempotencyKey = none)
    (hallowed : s.ledger.accepts w.bookingExists draft = true) :
    Sound w { s with ledger := s.ledger.append (s.ledger.newRow draft) } := by
  have g := (Effect.posted intent attempt draft hdraft hnone hallowed).grows
  refine h.of_intents_eq g rfl h.attemptKeys h.attemptRows
    (h.ledger.append hdraft.postable hnone hallowed) (fun t ht => ?_)
  rcases List.mem_append.mp ht with ht | ht
  · exact h.transactions_mono g ht
  · rw [List.mem_singleton.mp ht]
    obtain ⟨a, ha, hkey, hfinal⟩ := hdraft.heard
    refine ⟨intent.toNewPaymentIntent, List.mem_of_getElem? hdraft.snapshot, hdraft.purpose,
      ⟨a, List.mem_of_getElem? ha, hkey, ?_⟩, g.captures hdraft.captures⟩
    rw [hfinal (by rw [hdraft.succeeded]; rfl), hdraft.succeeded]

end Sound

theorem Effect.sound (e : Effect w s p s') (h : Sound w s) : Sound w s' := by
  cases e with
  | same p => exact h
  | opened new hkey hnone hallowed => exact h.opened hkey hnone hallowed
  | asked intent a hsnap hkey hamount hnone => exact h.asked hsnap hkey hamount hnone
  | account p id spec hid =>
    have g := (Effect.account (w := w) p id spec hid).grows
    refine h.of_intents_eq g rfl h.attemptKeys h.attemptRows (h.ledger.accountFor hid spec) ?_
    rw [accountFor_mono.2]
    exact fun t ht => h.transactions_mono g ht
  | posted intent attempt draft hdraft hnone hallowed => exact h.posted hdraft hnone hallowed
  | recorded intent row attempt hrow hok hallowed => exact h.recorded hrow hok hallowed
  | progressed reference a a' ha hopen hkey hamount => exact h.progressed ha hopen hkey hamount

theorem Sound.snapshot (h : Sound w s) {r : PaymentIntent} (hr : r ∈ s.intents) : Snapshot s r := by
  obtain ⟨i, hi⟩ := List.mem_iff_getElem?.mp hr
  rw [Snapshot, h.ids i r hi, State.opened, List.getElem?_map, hi]
  rfl

theorem assertSameAttempt_eq_ok {new : NewPaymentIntent} {row intent : PaymentIntent}
    (h : assertSameAttempt new row = .ok intent) :
    intent = row ∧ row.bookingId = new.bookingId ∧ row.purpose = new.purpose ∧
      row.ownerId = new.ownerId ∧ row.categoryVersionId = new.categoryVersionId ∧
      row.amount = new.amount ∧ dividesDifferently new row = false := by
  unfold assertSameAttempt at h
  obtain ⟨hsame, h⟩ := Refusal.ite_error_eq_ok.mp h
  cases h
  simp only [not_or, not_not, Bool.not_eq_true] at hsame
  obtain ⟨hb, hp, ho, hc, hm, -, hd⟩ := hsame
  exact ⟨rfl, hb, hp, ho, hc, Money.ext hm rfl, hd⟩

theorem begun_ok {new : NewPaymentIntent} {row : PaymentIntent} (h : Snapshot s row) :
    ProcOk w s (begun new row) := by
  unfold begun
  split
  · trivial
  · rename_i intent hok
    obtain ⟨rfl, -, -, -, -, hamount, -⟩ := assertSameAttempt_eq_ok hok
    split
    · trivial
    · exact ⟨h, hamount.symm⟩

theorem findByKey_ok (h : Sound w s) {new : NewPaymentIntent} {row : PaymentIntent}
    (hf : s.findByKey new.attemptKey = some row) : ProcOk w s (begun new row) :=
  begun_ok (h.snapshot (List.mem_of_find?_eq_some hf))

theorem posted_ok {intent : PaymentIntent} {attempt : PaymentAttempt} {draft : LedgerDraft}
    {t : PostedTransaction} (h : Drafted w s intent attempt draft) (ht : t ∈ s.ledger.transactions)
    (hkey : t.idempotencyKey = draft.idempotencyKey) : ProcOk w s (posted intent attempt draft t) := by
  unfold posted
  split
  · trivial
  · exact ⟨h.toAnswered, fun _ _ => ⟨t, ht, hkey.trans h.captures.key⟩⟩

/-- Every attempt a call counts as failed has failed at the provider, and so
have all that come before the last. -/
theorem failedCount_ok (h : Sound w s) (i : Instruction) :
    KeyOk s (i.propose w (s.failedCount i.bookingId i.purpose)) := by
  have hlen : (keysOf s.opened i.bookingId i.purpose).length =
      (s.rowsOf i.bookingId i.purpose).length := by
    rw [keysOf_opened, List.length_map]
  have hle : s.failedCount i.bookingId i.purpose ≤ (s.rowsOf i.bookingId i.purpose).length :=
    List.length_filter_le _ _
  refine ⟨s.failedCount i.bookingId i.purpose, rfl, hlen ▸ hle, fun j hj => ?_⟩
  by_cases hlast : j + 1 < (keysOf s.opened i.bookingId i.purpose).length
  · exact h.superseded _ _ j hlast
  · -- the last attempt is counted only if every one of them is
    have hall : ∀ r ∈ s.rowsOf i.bookingId i.purpose, r.status = .failed := by
      have hfull : (s.rowsOf i.bookingId i.purpose).filter (fun r => r.status = .failed) =
          s.rowsOf i.bookingId i.purpose := by
        refine List.filter_sublist.eq_of_length (hle.antisymm ?_)
        show _ ≤ s.failedCount i.bookingId i.purpose
        omega
      intro r hr
      rw [← hfull] at hr
      simpa using (List.mem_filter.mp hr).2
    have hmem : attemptKey i.purpose i.bookingId j ∈ keysOf s.opened i.bookingId i.purpose := by
      rw [h.numbered]
      refine List.mem_map_of_mem (List.mem_range.mpr ?_)
      omega
    obtain ⟨n, hn, hb, hp, hk⟩ := mem_keysOf.mp hmem
    obtain ⟨r, hr, rfl⟩ := List.mem_map.mp hn
    have hstatus := hall r (List.mem_filter.mpr ⟨hr, by simpa using ⟨hb, hp⟩⟩)
    have hat := h.settled r hr .failed rfl hstatus
    rw [hk] at hat
    exact hat

theorem settle_eq_ok {b v : String} {charge : HireCharge} {settlement : HireSettlement}
    (h : settle w b v charge = .ok settlement) :
    ∃ policy, w.policyOf v = some policy ∧ settleHire w.percentageOf charge policy = .ok settlement := by
  unfold settle at h
  split at h
  · cases h
  · rename_i policy hpolicy
    split at h
    · cases h
    · rename_i settlement' hsettle
      cases h
      exact ⟨policy, hpolicy, hsettle⟩

theorem accountFor_ok {id : AccountId} {spec : AccountSpec} {account : LedgerAccount} {l : Ledger}
    (h : s.ledger.accountFor id spec = (.ok account, l)) :
    HasAccount { s with ledger := l } spec account := by
  unfold Ledger.accountFor at h
  split at h
  · cases h
  · rename_i identity hid
    split at h
    · rename_i found hf
      cases h
      refine ⟨List.mem_of_find?_eq_some hf, ?_⟩
      rw [hid, show account.identity = identity by simpa using List.find?_some hf]
    · cases h
      exact ⟨List.mem_append_right _ (List.mem_singleton_self _), hid⟩

/-- One step of a call: what it does to the tables, and where it leaves the
call. -/
theorem exec_effect (h : Inv w s) {t : Pid} {d : Draw} (hx : exec w s t d = some s') :
    ∃ u p, s' = u.setProc t p ∧ Effect w s (s.procs t) u ∧ ProcOk w u p := by
  have hp := h.procs t
  have hstay : ∀ {q : Proc} (p : Proc), s' = s.setProc t p → ProcOk w s p →
      ∃ u p, s' = u.setProc t p ∧ Effect w s q u ∧ ProcOk w u p :=
    fun p he hok => ⟨s, p, he, .same _, hok⟩
  unfold exec at hx
  cases hproc : s.procs t with
  | idle => simp [hproc] at hx
  | returned result => simp [hproc] at hx
  | settling i =>
    simp only [hproc] at hx
    split at hx <;> cases hx <;> exact hstay _ rfl trivial
  | keying i =>
    simp only [hproc] at hx
    cases hx
    exact hstay _ rfl (failedCount_ok h.sound i)
  | finding new =>
    simp only [hproc] at hx hp
    split at hx <;> cases hx
    · rename_i row hf
      exact hstay _ rfl (findByKey_ok h.sound hf)
    · exact hstay _ rfl hp
  | creating new =>
    simp only [hproc] at hx hp
    split at hx <;> cases hx
    · rename_i hc
      rw [Bool.and_eq_true, Option.isNone_iff_eq_none] at hc
      have e := Effect.opened new hp hc.1 hc.2
      refine ⟨_, _, rfl, e, begun_ok ((e.sound h.sound).snapshot ?_)⟩
      exact List.mem_append_right _ (List.mem_singleton_self _)
    · exact hstay _ rfl hp
  | refinding new =>
    simp only [hproc] at hx hp
    split at hx <;> cases hx
    · rename_i row hf
      exact hstay _ rfl (findByKey_ok h.sound hf)
    · exact hstay _ rfl trivial
  | calling intent amount =>
    simp only [hproc] at hx hp
    split at hx
    · rename_i reference hf
      obtain ⟨a, ha, rfl⟩ := Option.map_eq_some_iff.mp hx
      refine hstay _ rfl ⟨hp.1, a, ha, ?_, fun _ => rfl⟩
      obtain ⟨hlt, hkey, -⟩ := List.findIdx?_eq_some_iff_getElem.mp hf
      rw [← (List.getElem?_eq_some_iff.mp ha).2]
      simpa using hkey
    · rename_i hf
      cases hx
      let a : ProviderAttempt := { d.answer with key := intent.attemptKey, amount := amount }
      have e : Effect w s _ _ := .asked intent a hp.1 rfl hp.2 (by simpa using List.findIdx?_eq_none_iff.mp hf)
      refine ⟨_, _, rfl, e, e.grows.snapshot hp.1, a, ?_, rfl, fun _ => rfl⟩
      exact List.getElem?_concat_length
  | applying intent attempt =>
    simp only [hproc] at hx hp
    split at hx
    · cases hx
      exact hstay _ rfl trivial
    · cases hx
      exact hstay _ rfl trivial
    · split at hx <;> cases hx
      · rename_i hc
        exact hstay _ rfl ⟨hp, hc.2, hc.1⟩
      · rename_i hc
        exact hstay _ rfl ⟨hp, fun hs hh => absurd ⟨hs, hh⟩ hc⟩
  | capturing intent attempt =>
    simp only [hproc] at hx hp
    split at hx
    · cases hx
    · rename_i charge hcharge
      split at hx <;> cases hx
      · exact hstay _ rfl trivial
      · rename_i settlement hs
        obtain ⟨policy, hpolicy, hsettle⟩ := settle_eq_ok hs
        exact hstay _ rfl ⟨hp, charge, policy, hcharge, hpolicy, hsettle⟩
  | clearing intent attempt settlement =>
    simp only [hproc] at hx hp
    split at hx
    · rename_i hid
      have e := Effect.account (w := w) (.clearing intent attempt settlement) d.accountId
        ⟨.providerClearing, settlement.renterPays.currency, none⟩ (by simpa using hid)
      split at hx <;> cases hx <;> rename_i hacc
      · rw [hacc] at e
        exact ⟨_, _, rfl, e, trivial⟩
      · rw [hacc] at e
        exact ⟨_, _, rfl, e, e.grows.charged hp.1, hp.2, accountFor_ok hacc⟩
    · cases hx
  | payable intent attempt settlement clearing =>
    simp only [hproc] at hx hp
    split at hx
    · rename_i hid
      have e := Effect.account (w := w) (.payable intent attempt settlement clearing) d.accountId
        ⟨.ownerPayable, settlement.renterPays.currency, some intent.ownerId⟩ (by simpa using hid)
      split at hx <;> cases hx <;> rename_i hacc
      · rw [hacc] at e
        exact ⟨_, _, rfl, e, trivial⟩
      · rw [hacc] at e
        obtain ⟨hcharged, hsettles, hclearing⟩ := hp
        exact ⟨_, _, rfl, e, e.grows.charged hcharged, hsettles, e.grows.hasAccount hclearing,
          accountFor_ok hacc⟩
    · cases hx
  | revenue intent attempt settlement clearing payable =>
    simp only [hproc] at hx hp
    split at hx
    · rename_i hid
      have e := Effect.account (w := w) (.revenue intent attempt settlement clearing payable) d.accountId
        ⟨.platformRevenue, settlement.renterPays.currency, none⟩ (by simpa using hid)
      split at hx
      · rename_i hacc
        cases hx
        rw [hacc] at e
        exact ⟨_, _, rfl, e, trivial⟩
      · rename_i revenue l hacc
        rw [hacc] at e
        obtain ⟨hcharged, hsettles, hclearing, hpayable⟩ := hp
        split at hx
        · cases hx
          exact ⟨_, _, rfl, e, trivial⟩
        · rename_i entries hentries
          split at hx <;> cases hx
          · exact ⟨_, _, rfl, e, trivial⟩
          · rename_i hpost
            refine ⟨_, _, rfl, e, e.grows.charged hcharged, ⟨rfl, rfl, rfl, ?_⟩,
              assertPostable_eq_ok.mp hpost⟩
            exact ⟨settlement, clearing, payable, revenue, hsettles, e.grows.hasAccount hclearing,
              e.grows.hasAccount hpayable, accountFor_ok hacc, hentries⟩
    · cases hx
  | posting intent attempt draft =>
    simp only [hproc] at hx hp
    split at hx <;> cases hx
    · rename_i existing hf
      obtain ⟨ht, hkey⟩ := find_key_eq_some hf
      exact hstay _ rfl (posted_ok hp ht hkey)
    · exact hstay _ rfl hp
  | inserting intent attempt draft =>
    simp only [hproc] at hx hp
    split at hx <;> cases hx
    · rename_i hallowed
      have hnone : s.ledger.findByIdempotencyKey draft.idempotencyKey = none := by
        simp only [Ledger.accepts, Bool.and_eq_true, Option.isNone_iff_eq_none] at hallowed
        exact hallowed.1.1.1.1.1
      have e := Effect.posted intent attempt draft hp hnone hallowed
      refine ⟨_, _, rfl, e, posted_ok (e.grows.drafted hp) ?_ ?_⟩
      · exact List.mem_append_right _ (List.mem_singleton_self _)
      · rfl
    · exact hstay _ rfl hp
  | reposting intent attempt draft =>
    simp only [hproc] at hx hp
    split at hx <;> cases hx
    · rename_i existing hf
      obtain ⟨ht, hkey⟩ := find_key_eq_some hf
      exact hstay _ rfl (posted_ok hp ht hkey)
    · exact hstay _ rfl trivial
  | recording intent attempt =>
    simp only [hproc] at hx hp
    split at hx
    · cases hx
    · rename_i row hrow
      split at hx <;> cases hx
      · rename_i hallowed
        exact ⟨_, _, rfl, .recorded intent row attempt hrow hp hallowed, trivial⟩
      · exact hstay _ rfl trivial
  | refreshing intentId =>
    simp only [hproc] at hx
    split at hx
    · cases hx
      exact hstay _ rfl trivial
    · rename_i intent hi
      split at hx
      · cases hx
        exact hstay _ rfl trivial
      · split at hx <;> cases hx
        · exact hstay _ rfl trivial
        · rename_i reference href
          have hmem := List.mem_of_getElem? hi
          exact hstay _ rfl ⟨h.sound.snapshot hmem, h.sound.references intent hmem reference href⟩
  | reading intent reference =>
    simp only [hproc] at hx hp
    obtain ⟨a, ha, rfl⟩ := Option.map_eq_some_iff.mp hx
    obtain ⟨hsnap, a', ha', hkey⟩ := hp
    have : a = a' := Option.some.inj (ha.symm.trans ha')
    subst this
    exact hstay _ rfl ⟨hsnap, a, ha, hkey, fun _ => rfl⟩

/-- One step of the system: what it does to the tables, and to at most one
call. -/
theorem step_effect (h : Inv w s) {a : Action} (hx : step w s a = some s') :
    ∃ u q, Effect w s q u ∧ (q = .idle ∨ ∃ t d, a = .exec t d ∧ s.procs t = q) ∧
      (s' = u ∧ u.procs = s.procs ∨ ∃ t p, s' = u.setProc t p ∧ ProcOk w u p) := by
  have hstay : ∀ (t : Pid) (p : Proc), s' = s.setProc t p → ProcOk w s p →
      ∃ u q, Effect w s q u ∧ (q = .idle ∨ ∃ t d, a = .exec t d ∧ s.procs t = q) ∧
        (s' = u ∧ u.procs = s.procs ∨ ∃ t p, s' = u.setProc t p ∧ ProcOk w u p) :=
    fun t p he hok => ⟨s, .idle, .same _, .inl rfl, .inr ⟨t, p, he, hok⟩⟩
  cases a with
  | payForHire t i =>
    simp only [step] at hx
    split at hx <;> cases hx
    exact hstay t _ rfl trivial
  | holdDamageSecurity t i =>
    simp only [step] at hx
    split at hx
    · split at hx
      · cases hx
        exact hstay t _ rfl trivial
      · split at hx <;> cases hx <;> exact hstay t _ rfl trivial
    · cases hx
  | refresh t intentId =>
    simp only [step] at hx
    split at hx <;> cases hx
    exact hstay t _ rfl trivial
  | exec t d =>
    obtain ⟨u, p, he, heffect, hok⟩ := exec_effect h hx
    exact ⟨u, _, heffect, .inr ⟨t, d, rfl, rfl⟩, .inr ⟨t, p, he, hok⟩⟩
  | crash t =>
    cases hx
    exact hstay t _ rfl trivial
  | progress reference answer =>
    simp only [step] at hx
    split at hx
    · cases hx
    · rename_i a ha
      split at hx <;> cases hx
      rename_i hopen
      refine ⟨_, .idle, ?_, .inl rfl, .inl ⟨rfl, rfl⟩⟩
      exact .progressed reference a _ ha (by simpa using hopen) rfl rfl

theorem Effect.procs_eq (e : Effect w s p s') : s'.procs = s.procs := by
  cases e <;> rfl

theorem Sound.setProc (h : Sound w s) (t : Pid) (p : Proc) : Sound w (s.setProc t p) :=
  have g : Grows s (s.setProc t p) := .of_eq rfl rfl rfl
  h.of_intents_eq g rfl h.attemptKeys h.attemptRows h.ledger (fun _ ht => h.transactions_mono g ht)

theorem inv_empty : Inv w .empty where
  sound :=
    { ids := by simp [State.empty]
      numbered := fun b p => rfl
      superseded := fun b p j hj => absurd hj (by simp [keysOf, State.opened, State.empty])
      attemptKeys := List.nodup_nil
      attemptRows := fun a ha => nomatch ha
      references := fun r hr => nomatch hr
      settled := fun r hr => nomatch hr
      ledger := Ledger.sound_empty
      transactions := fun t ht => nomatch ht
      captured := fun r hr => nomatch hr }
  procs t := trivial

theorem step_grows (h : Inv w s) {a : Action} (hx : step w s a = some s') : Grows s s' := by
  obtain ⟨u, q, e, -, ⟨rfl, -⟩ | ⟨t, p, rfl, -⟩⟩ := step_effect h hx
  · exact e.grows
  · exact ⟨e.grows.opened, e.grows.attempts, e.grows.accounts, e.grows.transactions⟩

theorem inv_step (h : Inv w s) {a : Action} (hx : step w s a = some s') : Inv w s' := by
  have g := step_grows h hx
  obtain ⟨u, q, e, -, ⟨rfl, hprocs⟩ | ⟨t, p, rfl, hok⟩⟩ := step_effect h hx
  · refine ⟨e.sound h.sound, fun t => ?_⟩
    rw [hprocs]
    exact g.procOk (h.procs t)
  · refine ⟨(e.sound h.sound).setProc t p, fun t' => ?_⟩
    by_cases ht : t' = t
    · subst ht
      have hsame : Grows u (u.setProc t' p) := .of_eq rfl rfl rfl
      rw [State.setProc_self]
      exact hsame.procOk hok
    · rw [State.setProc_other _ ht, e.procs_eq]
      exact g.procOk (h.procs t')

theorem inv_run {as : List Action} (hr : Runs.run (step w) .empty as = some s) : Inv w s :=
  Runs.run_preserves (fun _ _ _ h hx => inv_step h hx) hr inv_empty

end

end RentalMarket.Payments
