import RentalMarket.Payments.LedgerLaws
import RentalMarket.Lib.Interleaving

namespace RentalMarket.Payments.LedgerCalls

open RentalMarket.Core Runs Interleaving

/-- The rows of other tables that the books refer to. -/
structure Referred where
  bookingExists : String → Bool
  userExists : String → Bool

/-- What `LedgerService` is asked. -/
inductive Request where
  | accountFor (spec : AccountSpec)
  | post (draft : LedgerDraft)
  | reverse (transactionId : Nat) (idempotencyKey : String) (occurredAt : Int)
  deriving DecidableEq

/-- How a statement ends for its call: answered, thrown with nothing done, or
done and the answer lost on its way back. -/
inductive Outcome where
  | answered
  | failed
  | lost
  deriving DecidableEq

/-- What a statement meets, and the id the database draws for a new account. -/
structure Draw where
  outcome : Outcome
  accountId : AccountId

/-- What a call throws: the driver's own error, or one of the service's. -/
inductive Thrown where
  | cause
  | ledgerError (message : String)
  deriving DecidableEq

inductive Place where
  /-- The find of `upsert`. -/
  | finding (spec : AccountSpec) (identity : String)
  /-- The create of `upsert`, which is not one statement with its find. -/
  | inserting (spec : AccountSpec) (identity : String)
  /-- The read in the `catch`. -/
  | refinding (spec : AccountSpec) (identity : String)
  | found (answer : Except Thrown LedgerAccount)
  | reading (transactionId : Nat) (idempotencyKey : String) (occurredAt : Int)
  | looking (draft : LedgerDraft)
  | writing (draft : LedgerDraft)
  /-- The two reads in the `catch`. -/
  | lookingAgain (draft : LedgerDraft)
  | checking (draft : LedgerDraft) (reversesId : Nat)
  | posted (answer : Except Thrown PostedTransaction)

structure Call where
  request : Request
  place : Place

def findAccount (l : Ledger) (identity : String) : Option LedgerAccount :=
  l.accounts.find? (fun a => a.identity = identity)

def newAccount (id : AccountId) (spec : AccountSpec) (identity : String) : LedgerAccount :=
  ⟨id, identity, spec.kind, spec.currency, spec.ownerId⟩

def openAccount (l : Ledger) (account : LedgerAccount) : Ledger :=
  { l with accounts := l.accounts ++ [account] }

namespace Place

/-- `LedgerService.post`, up to its first statement. -/
def ofDraft (draft : LedgerDraft) : Place :=
  match assertPostable draft with
  | .error e => .posted (.error (.ledgerError e))
  | .ok _ => .looking draft

/-- What the store has answered, once `assertSameTransaction` has seen it. -/
def checked (draft : LedgerDraft) (t : PostedTransaction) : Place :=
  match assertSameTransaction draft t with
  | .error e => .posted (.error (.ledgerError e))
  | .ok _ => .posted (.ok t)

def of : Request → Place
  | .accountFor spec =>
    match accountIdentityOf spec with
    | .error e => .found (.error (.ledgerError e))
    | .ok identity => .finding spec identity
  | .post draft => ofDraft draft
  | .reverse transactionId idempotencyKey occurredAt => .reading transactionId idempotencyKey occurredAt

def left : Place → Nat
  | found _ | posted _ => 0
  | checking _ _ | refinding _ _ => 1
  | lookingAgain _ | inserting _ _ => 2
  | writing _ | finding _ _ => 3
  | looking _ => 4
  | reading _ _ _ => 5

end Place

/-- One statement of `PrismaLedgerStore.accountFor`, `post` or `findById`, and
what the service does until the next. -/
def next (w : Referred) (l : Ledger) (d : Draw) : Place → Option (Ledger × Place)
  | .finding spec identity =>
    if d.outcome ≠ .answered then some (l, .refinding spec identity)
    else match findAccount l identity with
      | some account => some (l, .found (.ok account))
      | none => some (l, .inserting spec identity)
  | .inserting spec identity =>
    -- the identity is unique, and so is the id; the owner is a user
    if d.outcome = .failed ∨ (findAccount l identity).isSome ∨ spec.ownerId.all w.userExists = false then
      some (l, .refinding spec identity)
    else if l.accounts.any (fun a => a.id = d.accountId) then none
    else
      let account := newAccount d.accountId spec identity
      some (openAccount l account,
        if d.outcome = .lost then .refinding spec identity else .found (.ok account))
  | .refinding _ identity =>
    if d.outcome ≠ .answered then some (l, .found (.error .cause))
    else match findAccount l identity with
      | some account => some (l, .found (.ok account))
      | none => some (l, .found (.error .cause))
  | .reading transactionId idempotencyKey occurredAt =>
    if d.outcome ≠ .answered then some (l, .posted (.error .cause))
    else match l.findById transactionId with
      | none => some (l, .posted (.error
          (.ledgerError s!"cannot reverse {transactionId}: no such ledger transaction")))
      | some original => some (l, .ofDraft (reversalOf original idempotencyKey occurredAt))
  | .looking draft =>
    if d.outcome ≠ .answered then some (l, .posted (.error .cause))
    else match l.findByIdempotencyKey draft.idempotencyKey with
      | some existing => some (l, .checked draft existing)
      | none => some (l, .writing draft)
  | .writing draft =>
    if d.outcome = .failed ∨ l.accepts w.bookingExists draft = false then some (l, .lookingAgain draft)
    else some (l.append (l.newRow draft),
      if d.outcome = .lost then .lookingAgain draft else .checked draft (l.newRow draft))
  | .lookingAgain draft =>
    if d.outcome ≠ .answered then some (l, .posted (.error .cause))
    else match l.findByIdempotencyKey draft.idempotencyKey with
      | some raced => some (l, .checked draft raced)
      | none => match draft.reversesTransactionId with
        | some id => some (l, .checking draft id)
        | none => some (l, .posted (.error (.ledgerError Ledger.databaseRefused)))
  | .checking _ id =>
    if d.outcome ≠ .answered then some (l, .posted (.error .cause))
    else if l.transactions.any (fun t => t.reversesTransactionId = some id) then
      some (l, .posted (.error (.ledgerError (Ledger.alreadyReversed id))))
    else some (l, .posted (.error (.ledgerError Ledger.databaseRefused)))
  | .found _ => none
  | .posted _ => none

def machine (w : Referred) : Machine Ledger Call Request Draw where
  start r := ⟨r, .of r⟩
  next l d c := (next w l d c.place).map (fun x => (x.1, ⟨c.request, x.2⟩))

inductive Moved (w : Referred) (l : Ledger) (d : Draw) : Place → Ledger → Place → Prop
  | missing {spec : AccountSpec} {identity : String} (hnone : findAccount l identity = none) :
      Moved w l d (.finding spec identity) l (.inserting spec identity)
  | caught {spec : AccountSpec} {identity : String} {p : Place}
      (hwhy : p = .finding spec identity ∧ d.outcome ≠ .answered ∨
        p = .inserting spec identity ∧ (d.outcome = .failed ∨ (findAccount l identity).isSome ∨
          spec.ownerId.all w.userExists = false)) :
      Moved w l d p l (.refinding spec identity)
  | found {spec : AccountSpec} {identity : String} {account : LedgerAccount} {p : Place}
      (hp : p = .finding spec identity ∨ p = .refinding spec identity)
      (hfound : findAccount l identity = some account) :
      Moved w l d p l (.found (.ok account))
  | opened {spec : AccountSpec} {identity : String} {p : Place} (hnone : findAccount l identity = none)
      (howner : spec.ownerId.all w.userExists = true) (hfresh : ∀ a ∈ l.accounts, a.id ≠ d.accountId)
      (hp : d.outcome = .lost ∧ p = .refinding spec identity ∨
        p = .found (.ok (newAccount d.accountId spec identity))) :
      Moved w l d (.inserting spec identity)
        (openAccount l (newAccount d.accountId spec identity)) p
  | unopened {spec : AccountSpec} {identity : String}
      (hwhy : d.outcome ≠ .answered ∨ findAccount l identity = none) :
      Moved w l d (.refinding spec identity) l (.found (.error .cause))
  | thrown {p : Place} (hfails : d.outcome ≠ .answered) :
      Moved w l d p l (.posted (.error .cause))
  | unknown {id : Nat} {key : String} {occurredAt : Int} {e : Thrown} (hnone : l.findById id = none) :
      Moved w l d (.reading id key occurredAt) l (.posted (.error e))
  | read {id : Nat} {key : String} {occurredAt : Int} {original : PostedTransaction}
      (hfound : l.findById id = some original) :
      Moved w l d (.reading id key occurredAt) l (.ofDraft (reversalOf original key occurredAt))
  | met {draft : LedgerDraft} {t : PostedTransaction} {p : Place}
      (hp : p = .looking draft ∨ p = .lookingAgain draft)
      (hfound : l.findByIdempotencyKey draft.idempotencyKey = some t) :
      Moved w l d p l (.checked draft t)
  | unmet {draft : LedgerDraft} (hnone : l.findByIdempotencyKey draft.idempotencyKey = none) :
      Moved w l d (.looking draft) l (.writing draft)
  | refused {draft : LedgerDraft} (hwhy : d.outcome = .failed ∨ l.accepts w.bookingExists draft = false) :
      Moved w l d (.writing draft) l (.lookingAgain draft)
  | written {draft : LedgerDraft} {p : Place} (haccepts : l.accepts w.bookingExists draft = true)
      (hp : d.outcome = .lost ∧ p = .lookingAgain draft ∨ p = .checked draft (l.newRow draft)) :
      Moved w l d (.writing draft) (l.append (l.newRow draft)) p
  | unposted {draft : LedgerDraft} {e : Thrown}
      (hnone : l.findByIdempotencyKey draft.idempotencyKey = none)
      (hreverses : draft.reversesTransactionId = none) :
      Moved w l d (.lookingAgain draft) l (.posted (.error e))
  | suspected {draft : LedgerDraft} {id : Nat}
      (hnone : l.findByIdempotencyKey draft.idempotencyKey = none)
      (hreverses : draft.reversesTransactionId = some id) :
      Moved w l d (.lookingAgain draft) l (.checking draft id)
  | told {draft : LedgerDraft} {id : Nat} {e : Thrown} :
      Moved w l d (.checking draft id) l (.posted (.error e))

section

variable {w : Referred} {bookingExists : String → Bool} {l l' : Ledger} {d : Draw} {p p' : Place}

theorem next_moved (h : next w l d p = some (l', p')) : Moved w l d p l' p' := by
  cases p with
  | finding spec identity =>
    simp only [next] at h
    split at h
    · rename_i hfails
      cases h
      exact .caught (.inl ⟨rfl, hfails⟩)
    · split at h
      · rename_i account hfound
        cases h
        exact .found (.inl rfl) hfound
      · rename_i hnone
        cases h
        exact .missing hnone
  | inserting spec identity =>
    simp only [next] at h
    split at h
    · rename_i hwhy
      cases h
      exact .caught (.inr ⟨rfl, hwhy⟩)
    · rename_i hopen
      rw [not_or, not_or, Option.not_isSome_iff_eq_none, Bool.not_eq_false] at hopen
      split at h
      · cases h
      · rename_i hfresh
        cases h
        refine .opened hopen.2.1 hopen.2.2 (by simpa using hfresh) ?_
        split
        · rename_i hlost
          exact .inl ⟨hlost, rfl⟩
        · exact .inr rfl
  | refinding spec identity =>
    simp only [next] at h
    split at h
    · rename_i hfails
      cases h
      exact .unopened (.inl hfails)
    · split at h
      · rename_i account hfound
        cases h
        exact .found (.inr rfl) hfound
      · rename_i hnone
        cases h
        exact .unopened (.inr hnone)
  | reading id key occurredAt =>
    simp only [next] at h
    split at h
    · rename_i hfails
      cases h
      exact .thrown hfails
    · split at h
      · rename_i hnone
        cases h
        exact .unknown hnone
      · rename_i original hfound
        cases h
        exact .read hfound
  | looking draft =>
    simp only [next] at h
    split at h
    · rename_i hfails
      cases h
      exact .thrown hfails
    · split at h
      · rename_i existing hfound
        cases h
        exact .met (.inl rfl) hfound
      · rename_i hnone
        cases h
        exact .unmet hnone
  | writing draft =>
    simp only [next] at h
    split at h
    · rename_i hwhy
      cases h
      exact .refused hwhy
    · rename_i haccepts
      rw [not_or, Bool.not_eq_false] at haccepts
      cases h
      refine .written haccepts.2 ?_
      split
      · rename_i hlost
        exact .inl ⟨hlost, rfl⟩
      · exact .inr rfl
  | lookingAgain draft =>
    simp only [next] at h
    split at h
    · rename_i hfails
      cases h
      exact .thrown hfails
    · split at h
      · rename_i raced hfound
        cases h
        exact .met (.inr rfl) hfound
      · rename_i hnone
        split at h
        · rename_i id hreverses
          cases h
          exact .suspected hnone hreverses
        · rename_i hreverses
          cases h
          exact .unposted hnone hreverses
  | checking draft id =>
    simp only [next] at h
    split at h
    · rename_i hfails
      cases h
      exact .thrown hfails
    · split at h
      · cases h
        exact .told
      · cases h
        exact .told
  | found answer => cases h
  | posted answer => cases h

structure Grows (l l' : Ledger) : Prop where
  transactions : ∀ t ∈ l.transactions, t ∈ l'.transactions
  accounts : ∀ a ∈ l.accounts, a ∈ l'.accounts

theorem Grows.refl (l : Ledger) : Grows l l := ⟨fun _ ht => ht, fun _ ha => ha⟩

theorem Moved.grows (h : Moved w l d p l' p') : Grows l l' := by
  cases h with
  | opened => exact ⟨fun _ ht => ht, fun _ ha => List.mem_append_left _ ha⟩
  | written => exact ⟨fun _ ht => List.mem_append_left _ ht, fun _ ha => ha⟩
  | _ => exact .refl l

theorem findAccount_eq_some {identity : String} {account : LedgerAccount}
    (h : findAccount l identity = some account) : account ∈ l.accounts ∧ account.identity = identity :=
  ⟨List.mem_of_find?_eq_some h, by simpa using List.find?_some h⟩

/-- The draft a request comes to. -/
def Asked (l : Ledger) : Request → LedgerDraft → Prop
  | .accountFor _, _ => False
  | .post asked, draft => draft = asked
  | .reverse id key occurredAt, draft =>
    ∃ original ∈ l.transactions, original.id = id ∧ draft = reversalOf original key occurredAt

theorem Asked.mono {r : Request} {draft : LedgerDraft} (h : Asked l r draft) (hgrows : Grows l l') :
    Asked l' r draft := by
  cases r with
  | accountFor spec => exact h
  | post asked => exact h
  | reverse id key occurredAt =>
    obtain ⟨original, hmem, hid, rfl⟩ := h
    exact ⟨original, hgrows.transactions original hmem, hid, rfl⟩

theorem ofDraft_cases (draft : LedgerDraft) :
    (Postable draft ∧ Place.ofDraft draft = .looking draft) ∨
      (¬Postable draft ∧ ∃ e, Place.ofDraft draft = .posted (.error e)) := by
  rw [← assertPostable_eq_ok, Place.ofDraft]
  cases assertPostable draft with
  | error e => exact .inr ⟨nofun, _, rfl⟩
  | ok u => exact .inl ⟨rfl, rfl⟩

theorem checked_cases {draft : LedgerDraft} {t : PostedTransaction} (hdraft : Postable draft)
    (ht : Postable t.toLedgerDraft) :
    (SameContent draft t ∧ Place.checked draft t = .posted (.ok t)) ∨
      (¬SameContent draft t ∧ ∃ e, Place.checked draft t = .posted (.error e)) := by
  rw [← assertSameTransaction_eq_ok hdraft.entries ht.entries, Place.checked]
  cases assertSameTransaction draft t with
  | error e => exact .inr ⟨nofun, _, rfl⟩
  | ok u => exact .inl ⟨rfl, rfl⟩

theorem sameContent_newRow (l : Ledger) (draft : LedgerDraft) : SameContent draft (l.newRow draft) :=
  ⟨rfl, rfl, rfl, rfl, .refl _⟩

theorem find_none_of_accepts {draft : LedgerDraft} (h : l.accepts bookingExists draft = true) :
    l.findByIdempotencyKey draft.idempotencyKey = none := by
  simp only [Ledger.accepts, Bool.and_eq_true, Option.isNone_iff_eq_none] at h
  exact h.1.1.1.1.1

theorem post_of_accepts {draft : LedgerDraft} (hpostable : Postable draft)
    (haccepts : l.accepts bookingExists draft = true) :
    l.post bookingExists draft = (.ok (l.newRow draft), l.append (l.newRow draft)) := by
  have hsame : assertSameTransaction draft (l.newRow draft) = .ok () :=
    (assertSameTransaction_eq_ok hpostable.entries hpostable.entries).mpr (sameContent_newRow l draft)
  rw [Ledger.post, assertPostable_eq_ok.mpr hpostable, Ledger.store, find_none_of_accepts haccepts, if_pos haccepts]
  simp only [Ledger.newRow] at hsame
  simp only [hsame]
  rfl

theorem accountFor_of_none {id : AccountId} {spec : AccountSpec} {identity : String}
    (hidentity : accountIdentityOf spec = .ok identity) (hnone : findAccount l identity = none) :
    (l.accountFor id spec).2 = openAccount l (newAccount id spec identity) := by
  rw [findAccount] at hnone
  simp only [Ledger.accountFor, hidentity, hnone]
  rfl

/-- Where a call may be, and what it may have come back with. -/
def Place.Ok (l : Ledger) (r : Request) : Place → Prop
  | finding spec identity | inserting spec identity | refinding spec identity =>
    r = .accountFor spec ∧ accountIdentityOf spec = .ok identity
  | found (.ok account) => account ∈ l.accounts ∧ ∃ spec, r = .accountFor spec ∧
    accountIdentityOf spec = .ok account.identity
  | reading id key occurredAt => r = .reverse id key occurredAt
  | looking draft | writing draft | lookingAgain draft => Asked l r draft ∧ Postable draft
  | checking draft id => Asked l r draft ∧ Postable draft ∧ draft.reversesTransactionId = some id
  | posted (.ok t) => t ∈ l.transactions ∧ ∃ draft, Asked l r draft ∧
    t.idempotencyKey = draft.idempotencyKey ∧ SameContent draft t
  | _ => True

theorem Place.Ok.mono {r : Request} (h : p.Ok l r) (hgrows : Grows l l') : p.Ok l' r := by
  cases p with
  | finding => exact h
  | inserting => exact h
  | refinding => exact h
  | found answer =>
    cases answer with
    | error e => trivial
    | ok account => exact ⟨hgrows.accounts account h.1, h.2⟩
  | reading => exact h
  | looking => exact ⟨h.1.mono hgrows, h.2⟩
  | writing => exact ⟨h.1.mono hgrows, h.2⟩
  | lookingAgain => exact ⟨h.1.mono hgrows, h.2⟩
  | checking => exact ⟨h.1.mono hgrows, h.2⟩
  | posted answer =>
    cases answer with
    | error e => trivial
    | ok t =>
      obtain ⟨hmem, draft, hasked, hkey, hsame⟩ := h
      exact ⟨hgrows.transactions t hmem, draft, hasked.mono hgrows, hkey, hsame⟩

theorem ok_ofDraft {r : Request} {draft : LedgerDraft} (hasked : Asked l r draft) :
    (Place.ofDraft draft).Ok l r := by
  obtain ⟨hpostable, hplace⟩ | ⟨-, e, hplace⟩ := ofDraft_cases draft
  · rw [hplace]
    exact ⟨hasked, hpostable⟩
  · rw [hplace]
    trivial

theorem ok_of (l : Ledger) (r : Request) : (Place.of r).Ok l r := by
  cases r with
  | accountFor spec =>
    rw [Place.of]
    split
    · trivial
    · rename_i hidentity
      exact ⟨rfl, hidentity⟩
  | post draft => exact ok_ofDraft (r := .post draft) rfl
  | reverse => rfl

theorem ok_checked {r : Request} {draft : LedgerDraft} {t : PostedTransaction} (hasked : Asked l r draft)
    (hpostable : Postable draft) (ht : t ∈ l.transactions) (hpostable' : Postable t.toLedgerDraft)
    (hkey : t.idempotencyKey = draft.idempotencyKey) : (Place.checked draft t).Ok l r := by
  obtain ⟨hsame, hplace⟩ | ⟨-, e, hplace⟩ := checked_cases hpostable hpostable'
  · rw [hplace]
    exact ⟨ht, draft, hasked, hkey, hsame⟩
  · rw [hplace]
    trivial

/-- A statement puts its call where it may be. -/
theorem Moved.ok {r : Request} (h : Moved w l d p l' p') (hs : l.Sound) (hok : p.Ok l r) :
    p'.Ok l' r := by
  cases h with
  | missing => exact hok
  | caught hwhy =>
    obtain ⟨rfl, -⟩ | ⟨rfl, -⟩ := hwhy
    · exact hok
    · exact hok
  | found hp hfound =>
    obtain ⟨hmem, rfl⟩ := findAccount_eq_some hfound
    obtain rfl | rfl := hp
    · exact ⟨hmem, _, hok⟩
    · exact ⟨hmem, _, hok⟩
  | opened hnone howner hfresh hp =>
    obtain ⟨-, rfl⟩ | rfl := hp
    · exact hok
    · exact ⟨List.mem_append_right _ (List.mem_singleton_self _), _, hok⟩
  | read hfound =>
    obtain rfl : r = _ := hok
    exact ok_ofDraft ⟨_, List.mem_of_find?_eq_some hfound, by simpa using List.find?_some hfound, rfl⟩
  | met hp hfound =>
    obtain ⟨hmem, hkey⟩ := find_key_eq_some hfound
    obtain rfl | rfl := hp
    · exact ok_checked hok.1 hok.2 hmem (hs.postable _ hmem) hkey
    · exact ok_checked hok.1 hok.2 hmem (hs.postable _ hmem) hkey
  | unmet => exact hok
  | refused => exact hok
  | @written draft p' haccepts hp =>
    have hgrows : Grows l (l.append (l.newRow draft)) := ⟨fun _ ht => List.mem_append_left _ ht, fun _ ha => ha⟩
    obtain ⟨-, rfl⟩ | rfl := hp
    · exact hok.mono hgrows
    · exact ok_checked (hok.1.mono hgrows) hok.2 (List.mem_append_right _ (List.mem_singleton_self _)) hok.2 rfl
  | suspected hnone hreverses => exact ⟨hok.1, hok.2, hreverses⟩
  | unopened => trivial
  | thrown => trivial
  | unknown => trivial
  | unposted => trivial
  | told => trivial

/-- The whole of a call, with the id that is drawn if it opens an account. -/
def Request.op (accountId : AccountId) : Request → LedgerOp
  | .accountFor spec => .accountFor accountId spec
  | .post draft => .post draft
  | .reverse transactionId idempotencyKey occurredAt => .reverse transactionId idempotencyKey occurredAt

/-- The call is past the one statement by which it may write. -/
def Place.past : Place → Bool
  | refinding _ _ | found _ | lookingAgain _ | checking _ _ | posted _ => true
  | finding _ _ | inserting _ _ | reading _ _ _ | looking _ | writing _ => false

theorem past_checked (draft : LedgerDraft) (t : PostedTransaction) : (Place.checked draft t).past = true := by
  rw [Place.checked]
  split
  · rfl
  · rfl

theorem Moved.past (h : Moved w l d p l' p') (hpast : p.past = true) : p'.past = true ∧ l' = l := by
  cases h with
  | caught hwhy => exact ⟨rfl, rfl⟩
  | met hp => exact ⟨past_checked _ _, rfl⟩
  | missing => cases hpast
  | opened => cases hpast
  | read => cases hpast
  | unmet => cases hpast
  | refused => cases hpast
  | written => cases hpast
  | _ => exact ⟨rfl, rfl⟩

theorem findById_of_mem (hs : l.Sound) {t : PostedTransaction} (ht : t ∈ l.transactions) :
    l.findById t.id = some t := by
  have hids : (l.transactions.map (·.id)).Nodup := by
    rw [hs.ids]
    exact List.nodup_range
  exact Keyed.find?_key hids ht

theorem ledgerStep_of_asked {r : Request} {draft : LedgerDraft} (hs : l.Sound) (hasked : Asked l r draft)
    (hpostable : Postable draft) (haccepts : l.accepts bookingExists draft = true) (accountId : AccountId) :
    ledgerStep bookingExists l (r.op accountId) = some (l.append (l.newRow draft)) := by
  cases r with
  | accountFor spec => cases hasked
  | post asked =>
    obtain rfl : draft = asked := hasked
    rw [Request.op, ledgerStep, post_of_accepts hpostable haccepts]
  | reverse id key occurredAt =>
    obtain ⟨original, horiginal, rfl, rfl⟩ := hasked
    rw [Request.op, ledgerStep, Ledger.reverse, findById_of_mem hs horiginal]
    dsimp only
    rw [post_of_accepts hpostable haccepts]

theorem Moved.atomic {r : Request} (h : Moved w l d p l' p') (hs : l.Sound) (hok : p.Ok l r) :
    l' = l ∨ p.past = false ∧ p'.past = true ∧
      ledgerStep w.bookingExists l (r.op d.accountId) = some l' := by
  cases h with
  | @opened spec identity p' hnone howner hfresh hp =>
    obtain ⟨rfl, hidentity⟩ := hok
    refine .inr ⟨rfl, ?_, ?_⟩
    · obtain ⟨-, rfl⟩ | rfl := hp
      · rfl
      · rfl
    · rw [Request.op, ledgerStep, if_pos (by simpa using hfresh), accountFor_of_none hidentity hnone]
  | @written draft p' haccepts hp =>
    refine .inr ⟨rfl, ?_, ledgerStep_of_asked hs hok.1 hok.2 haccepts _⟩
    obtain ⟨-, rfl⟩ | rfl := hp
    · rfl
    · exact past_checked _ _
  | _ => exact .inl rfl

theorem identity_cases {spec : AccountSpec} {identity : String} (h : accountIdentityOf spec = .ok identity) :
    (∃ ownerId, spec = ⟨.ownerPayable, .gbp, some ownerId⟩ ∧
      identity.toList = "owner_payable:".toList ++ ownerId.toList ++ ":GBP".toList) ∨
    (spec = ⟨.providerClearing, .gbp, none⟩ ∧ identity = "provider_clearing:GBP") ∨
    (spec = ⟨.platformRevenue, .gbp, none⟩ ∧ identity = "platform_revenue:GBP") := by
  obtain ⟨kind, ⟨⟩, ownerId⟩ := spec
  cases kind with
  | ownerPayable =>
    cases ownerId with
    | none => cases h
    | some ownerId =>
      obtain ⟨-, h⟩ := Refusal.ite_error_eq_ok.mp h
      cases h
      refine .inl ⟨ownerId, rfl, ?_⟩
      simp only [String.toList_append]
      simp [LedgerAccountKind.text, Currency.code]
  | providerClearing =>
    cases ownerId with
    | none =>
      cases h
      exact .inr (.inl ⟨rfl, rfl⟩)
    | some ownerId => cases h
  | platformRevenue =>
    cases ownerId with
    | none =>
      cases h
      exact .inr (.inr ⟨rfl, rfl⟩)
    | some ownerId => cases h

theorem accountIdentityOf_injective {spec spec' : AccountSpec} {identity : String}
    (h : accountIdentityOf spec = .ok identity) (h' : accountIdentityOf spec' = .ok identity) : spec = spec' := by
  obtain ⟨ownerId, rfl, ho⟩ | ⟨rfl, rfl⟩ | ⟨rfl, rfl⟩ := identity_cases h
  · obtain ⟨ownerId', rfl, ho'⟩ | ⟨rfl, rfl⟩ | ⟨rfl, rfl⟩ := identity_cases h'
    · have hsame := List.append_cancel_left (List.append_cancel_right (ho.symm.trans ho'))
      rw [String.toList_injective hsame]
    · simp at ho
    · simp at ho
  · obtain ⟨ownerId', rfl, ho'⟩ | ⟨rfl, -⟩ | ⟨-, hne⟩ := identity_cases h'
    · simp at ho'
    · rfl
    · exact absurd hne (by decide)
  · obtain ⟨ownerId', rfl, ho'⟩ | ⟨-, hne⟩ | ⟨rfl, -⟩ := identity_cases h'
    · simp at ho'
    · exact absurd hne (by decide)
    · rfl

structure Books (w : Referred) (l : Ledger) : Prop where
  sound : l.Sound
  named : ∀ a ∈ l.accounts, accountIdentityOf ⟨a.kind, a.currency, a.ownerId⟩ = .ok a.identity
  owned : ∀ a ∈ l.accounts, a.ownerId.all w.userExists = true

theorem books_empty : Books w Ledger.empty := ⟨Ledger.sound_empty, nofun, nofun⟩

theorem Moved.books {r : Request} (h : Moved w l d p l' p') (hbooks : Books w l) (hok : p.Ok l r) :
    Books w l' := by
  have hsound : l'.Sound := by
    obtain rfl | ⟨-, -, hop⟩ := h.atomic hbooks.sound hok
    · exact hbooks.sound
    · exact hbooks.sound.step hop
  cases h with
  | opened hnone howner =>
    refine ⟨hsound, fun a ha => ?_, fun a ha => ?_⟩
    · obtain ha | ha := List.mem_append.mp ha
      · exact hbooks.named a ha
      · rw [List.mem_singleton.mp ha]
        exact hok.2
    · obtain ha | ha := List.mem_append.mp ha
      · exact hbooks.owned a ha
      · rw [List.mem_singleton.mp ha]
        exact howner
  | written => exact ⟨hsound, hbooks.named, hbooks.owned⟩
  | _ => exact hbooks

structure AllAsked (s : State Ledger Call) : Prop where
  transactions : ∀ t ∈ s.tables.transactions, ∃ c ∈ s.calls, Asked s.tables c.request t.toLedgerDraft
  accounts : ∀ a ∈ s.tables.accounts, ∃ c ∈ s.calls,
    c.request = .accountFor ⟨a.kind, a.currency, a.ownerId⟩

/-- The books are what some of the calls, one after another and each once, would
have left. -/
def Serialized (w : Referred) (s : State Ledger Call) : Prop :=
  ∃ ops : List (Nat × LedgerOp),
    run (ledgerStep w.bookingExists) Ledger.empty (ops.map Prod.snd) = some s.tables ∧
    (ops.map Prod.fst).Nodup ∧ ∀ x ∈ ops, ∃ c accountId, s.calls[x.1]? = some c ∧
      c.place.past = true ∧ x.2 = c.request.op accountId

end

section

variable {w : Referred} {s s' : State Ledger Call} {a : Action Request Draw}

theorem moved_of_next {l l' : Ledger} {d : Draw} {c c' : Call}
    (h : (machine w).next l d c = some (l', c')) :
    Moved w l d c.place l' c'.place ∧ c'.request = c.request := by
  obtain ⟨⟨l₁, p⟩, hnext, heq⟩ := Option.map_eq_some_iff.mp h
  cases heq
  exact ⟨next_moved hnext, rfl⟩

theorem exists_call_after (h : (machine w).step s a = some s') {c : Call} (hc : c ∈ s.calls) :
    ∃ c' ∈ s'.calls, c'.request = c.request := by
  obtain ⟨i, hi⟩ := List.mem_iff_getElem?.mp hc
  by_cases hown : ∃ d, a = .exec i d
  · obtain ⟨d, rfl⟩ := hown
    obtain ⟨c', hnext, hc'⟩ := step_ran hi h
    exact ⟨c', List.mem_of_getElem? hc', (moved_of_next hnext).2⟩
  · exact ⟨c, List.mem_of_getElem? (step_stays h hi (fun d hd => hown ⟨d, hd⟩)), rfl⟩

abbrev Kept (w : Referred) (s : State Ledger Call) : Prop :=
  Holds (Books w) (fun l c => c.place.Ok l c.request) s

theorem kept_step (hs : Kept w s) (h : (machine w).step s a = some s') :
    Kept w s' := by
  refine hs.after_step h (fun r _ => ok_of s.tables r) ?_
  intro i d c c' _ hc hnext
  obtain ⟨hmoved, hrequest⟩ := moved_of_next hnext
  have hok := hs.2 i c hc
  refine ⟨hmoved.books hs.1 hok, ?_, fun c₂ hc₂ => hc₂.mono hmoved.grows⟩
  rw [hrequest]
  exact hmoved.ok hs.1.sound hok

theorem allAsked_step (hs : Kept w s) (hasked : AllAsked s) (h : (machine w).step s a = some s') :
    AllAsked s' := by
  have hstill : Grows s.tables s'.tables →
      (∀ t ∈ s.tables.transactions, ∃ c ∈ s'.calls, Asked s'.tables c.request t.toLedgerDraft) ∧
      ∀ a ∈ s.tables.accounts, ∃ c ∈ s'.calls, c.request = .accountFor ⟨a.kind, a.currency, a.ownerId⟩ := by
    intro hgrows
    refine ⟨fun t ht => ?_, fun a ha => ?_⟩
    · obtain ⟨c, hc, hask⟩ := hasked.transactions t ht
      obtain ⟨c', hc', hrequest⟩ := exists_call_after h hc
      exact ⟨c', hc', hrequest ▸ hask.mono hgrows⟩
    · obtain ⟨c, hc, hask⟩ := hasked.accounts a ha
      obtain ⟨c', hc', hrequest⟩ := exists_call_after h hc
      exact ⟨c', hc', hrequest.trans hask⟩
  obtain hsame | ⟨i, d, c, c', rfl, hc, hnext⟩ := step_tables h
  · obtain ⟨htransactions, haccounts⟩ := hstill (hsame ▸ .refl _)
    exact ⟨hsame ▸ htransactions, hsame ▸ haccounts⟩
  · obtain ⟨hmoved, -⟩ := moved_of_next hnext
    have hgrows := hmoved.grows
    obtain ⟨htransactions, haccounts⟩ := hstill hgrows
    obtain ⟨c'', hc'', hrequest⟩ := exists_call_after h (List.mem_of_getElem? hc)
    have hok : c.place.Ok s.tables c.request := hs.2 i c hc
    rw [← hrequest] at hok
    obtain ⟨l', calls⟩ := s'
    generalize c'.place = p' at hmoved
    generalize c.place = p at hmoved hok
    cases hmoved with
    | opened =>
      refine ⟨htransactions, fun a ha => ?_⟩
      obtain ha | ha := List.mem_append.mp ha
      · exact haccounts a ha
      · rw [List.mem_singleton.mp ha]
        exact ⟨c'', hc'', hok.1⟩
    | written =>
      refine ⟨fun t ht => ?_, haccounts⟩
      obtain ht | ht := List.mem_append.mp ht
      · exact htransactions t ht
      · rw [List.mem_singleton.mp ht]
        exact ⟨c'', hc'', hok.1.mono hgrows⟩
    | _ => exact ⟨htransactions, haccounts⟩

theorem serialized_step (hs : Kept w s) (hserial : Serialized w s) (h : (machine w).step s a = some s') :
    Serialized w s' := by
  obtain ⟨ops, hrun, hnodup, hops⟩ := hserial
  have hstill : ∀ x ∈ ops, ∃ c accountId, s'.calls[x.1]? = some c ∧ c.place.past = true ∧
      x.2 = c.request.op accountId := by
    intro x hx
    obtain ⟨c, accountId, hc, hpast, hop⟩ := hops x hx
    by_cases hown : ∃ d, a = .exec x.1 d
    · obtain ⟨d, rfl⟩ := hown
      obtain ⟨c', hnext, hc'⟩ := step_ran hc h
      obtain ⟨hmoved, hrequest⟩ := moved_of_next hnext
      exact ⟨c', accountId, hc', (hmoved.past hpast).1, by rw [hrequest]; exact hop⟩
    · exact ⟨c, accountId, step_stays h hc (fun d hd => hown ⟨d, hd⟩), hpast, hop⟩
  obtain hsame | ⟨i, d, c, c', rfl, hc, hnext⟩ := step_tables h
  · exact ⟨ops, by rw [hsame]; exact hrun, hnodup, hstill⟩
  · obtain ⟨hmoved, hrequest⟩ := moved_of_next hnext
    obtain hsame | ⟨hbefore, hpast, hop⟩ := hmoved.atomic hs.1.sound (hs.2 i c hc)
    · exact ⟨ops, by rw [hsame]; exact hrun, hnodup, hstill⟩
    · have hnew : ∀ x ∈ ops, x.1 ≠ i := by
        rintro x hx rfl
        obtain ⟨c₀, -, hc₀, hpast₀, -⟩ := hops x hx
        rw [hc] at hc₀
        cases hc₀
        rw [hbefore] at hpast₀
        cases hpast₀
      refine ⟨ops ++ [(i, c.request.op d.accountId)], ?_, Keyed.nodup_append hnodup hnew, fun x hx => ?_⟩
      · rw [List.map_append]
        exact run_append_eq_some.mpr ⟨_, hrun, run_cons_eq_some.mpr ⟨_, hop, rfl⟩⟩
      · obtain hx | hx := List.mem_append.mp hx
        · exact hstill x hx
        · rw [List.mem_singleton.mp hx]
          obtain ⟨c₁, hnext₁, hc₁⟩ := step_ran hc h
          rw [hnext, Option.some.injEq, Prod.mk.injEq] at hnext₁
          obtain ⟨-, rfl⟩ := hnext₁
          exact ⟨c', d.accountId, hc₁, hpast, by rw [hrequest]⟩

/-- The calls may overlap as they like. In any interleaving of the statements of
any number of calls, with statements that fail and answers that are lost: the
books are those that some of the calls, one after another and each once, would
have left, and hold no posting and no account that was not asked for; a posting
that comes back is in them with the content its caller asked to be posted, and
is the only one under its key; and whoever asks for the account of a kind, a
currency and a person is told of the same one. -/
theorem concurrent_calls_are_atomic (w : Referred) {s : State Ledger Call}
    {as : List (Action Request Draw)} (hr : run (machine w).step ⟨.empty, []⟩ as = some s) :
    (∃ ops : List (Nat × LedgerOp),
      run (ledgerStep w.bookingExists) Ledger.empty (ops.map Prod.snd) = some s.tables ∧
      (ops.map Prod.fst).Nodup ∧ ∀ x ∈ ops, ∃ c accountId, s.calls[x.1]? = some c ∧
        x.2 = c.request.op accountId) ∧
    (∀ t ∈ s.tables.transactions, ∃ c ∈ s.calls, Asked s.tables c.request t.toLedgerDraft) ∧
    (∀ a ∈ s.tables.accounts, a.ownerId.all w.userExists = true ∧
      ∃ c ∈ s.calls, c.request = .accountFor ⟨a.kind, a.currency, a.ownerId⟩) ∧
    (∀ c ∈ s.calls, ∀ t, c.place = .posted (.ok t) → t ∈ s.tables.transactions ∧
      (∃ draft, Asked s.tables c.request draft ∧ t.idempotencyKey = draft.idempotencyKey ∧
        SameContent draft t) ∧
      ∀ t' ∈ s.tables.transactions, t'.idempotencyKey = t.idempotencyKey → t' = t) ∧
    ∀ c ∈ s.calls, ∀ account, c.place = .found (.ok account) → account ∈ s.tables.accounts ∧
      c.request = .accountFor ⟨account.kind, account.currency, account.ownerId⟩ ∧
      ∀ c' ∈ s.calls, ∀ account', c'.place = .found (.ok account') → c'.request = c.request →
        account' = account := by
  have h : Kept w s ∧ AllAsked s ∧ Serialized w s := by
    refine run_preserves (P := fun u => Kept w u ∧ AllAsked u ∧ Serialized w u) ?_ hr
      ⟨holds_of_no_calls rfl books_empty, ⟨nofun, nofun⟩, [], rfl, List.nodup_nil, nofun⟩
    intro u a u' hu hx
    exact ⟨kept_step hu.1 hx, allAsked_step hu.1 hu.2.1 hx, serialized_step hu.1 hu.2.2 hx⟩
  obtain ⟨⟨hbooks, hcalls⟩, hasked, ops, hrun, hnodup, hops⟩ := h
  have hokay : ∀ c ∈ s.calls, c.place.Ok s.tables c.request := by
    intro c hc
    obtain ⟨i, hi⟩ := List.mem_iff_getElem?.mp hc
    exact hcalls i c hi
  have hfound : ∀ c ∈ s.calls, ∀ account, c.place = .found (.ok account) → account ∈ s.tables.accounts ∧
      c.request = .accountFor ⟨account.kind, account.currency, account.ownerId⟩ := by
    intro c hc account hplace
    have hok := hokay c hc
    rw [hplace] at hok
    obtain ⟨hmem, spec, hrequest, hidentity⟩ := hok
    refine ⟨hmem, ?_⟩
    rw [hrequest, accountIdentityOf_injective hidentity (hbooks.named account hmem)]
  refine ⟨⟨ops, hrun, hnodup, fun x hx => ?_⟩, hasked.transactions,
    fun a ha => ⟨hbooks.owned a ha, hasked.accounts a ha⟩, fun c hc t hplace => ?_, fun c hc account hplace => ?_⟩
  · obtain ⟨c, accountId, hc, -, hop⟩ := hops x hx
    exact ⟨c, accountId, hc, hop⟩
  · have hok := hokay c hc
    rw [hplace] at hok
    exact ⟨hok.1, hok.2, fun t' ht' hkey => Keyed.eq_of_key hbooks.sound.keys ht' hok.1 hkey⟩
  · obtain ⟨hmem, hrequest⟩ := hfound c hc account hplace
    refine ⟨hmem, hrequest, fun c' hc' account' hplace' hsame => ?_⟩
    obtain ⟨hmem', hrequest'⟩ := hfound c' hc' account' hplace'
    rw [hrequest, hrequest', Request.accountFor.injEq] at hsame
    refine Keyed.eq_of_key hbooks.sound.identities hmem' hmem ?_
    have hidentity := hbooks.named account' hmem'
    rw [hsame, hbooks.named account hmem] at hidentity
    exact (Except.ok.inj hidentity).symm

def allThere : Referred := ⟨fun _ => true, fun _ => true⟩

/-- The pound of two callers at once, who open the same accounts at once. The
answer to the second's posting is lost, and it is told of the row it wrote. -/
def overlapping : List (Action Request Draw) :=
  [.arrive (.accountFor ⟨.providerClearing, .gbp, none⟩), .arrive (.accountFor ⟨.providerClearing, .gbp, none⟩),
    .arrive (.accountFor ⟨.platformRevenue, .gbp, none⟩),
    .exec 0 ⟨.answered, clearingId⟩, .exec 1 ⟨.answered, clearingId⟩, .exec 0 ⟨.answered, clearingId⟩,
    .exec 1 ⟨.answered, revenueId⟩, .exec 1 ⟨.answered, revenueId⟩, .exec 2 ⟨.answered, revenueId⟩,
    .exec 2 ⟨.answered, revenueId⟩, .arrive (.post (onePound "k1" none)), .arrive (.post (onePound "k1" none)),
    .exec 3 ⟨.answered, clearingId⟩, .exec 4 ⟨.answered, clearingId⟩]

def writtenAndLost : List (Action Request Draw) :=
  [.exec 4 ⟨.lost, clearingId⟩, .exec 3 ⟨.answered, clearingId⟩, .exec 3 ⟨.answered, clearingId⟩,
    .exec 4 ⟨.answered, clearingId⟩]

theorem concurrent_calls_are_atomic_overlapping : ∃ s,
    run (machine allThere).step ⟨.empty, []⟩ (overlapping ++ writtenAndLost) = some s ∧
    s.tables.accounts.length = 2 ∧ s.tables.transactions.length = 1 ∧
    ∃ ops : List (Nat × LedgerOp),
      run (ledgerStep (fun _ => true)) Ledger.empty (ops.map Prod.snd) = some s.tables ∧
      (ops.map Prod.fst).Nodup := by
  have hrun : (run (machine allThere).step ⟨.empty, []⟩ (overlapping ++ writtenAndLost)).map (fun s =>
      (s.tables.accounts.length, s.tables.transactions.length)) = some (2, 1) := by
    decide +kernel
  obtain ⟨s, hs, hrows⟩ := Option.map_eq_some_iff.mp hrun
  obtain ⟨haccounts, htransactions⟩ := Prod.mk.inj hrows
  obtain ⟨ops, hops, hnodup, -⟩ := (concurrent_calls_are_atomic allThere hs).1
  exact ⟨s, hs, haccounts, htransactions, ops, hops, hnodup⟩

end

end RentalMarket.Payments.LedgerCalls
