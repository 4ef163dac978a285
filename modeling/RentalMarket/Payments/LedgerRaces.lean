import RentalMarket.Payments.LedgerCalls

namespace RentalMarket.Payments.LedgerCalls

open RentalMarket.Core Runs Interleaving

/-- What the tables have to find in a posting whatever has been posted before:
what `accepts` asks of it, but for its key and the reversal being new. -/
def fits (bookingExists : String → Bool) (l : Ledger) (draft : LedgerDraft) : Bool :=
  draft.bookingId.all bookingExists &&
  draft.reversesTransactionId.all (fun id => (l.findById id).isSome) &&
  draft.entries.all (fun e => decide (0 < e.amount.amount) && decide (e.amount.amount ≤ 2147483647) &&
    l.accounts.any (fun a => a.id = e.accountId ∧ a.currency = draft.currency)) &&
  decide (2 ≤ draft.entries.length) &&
  decide (Money.total (amountsOn .debit draft.entries) = Money.total (amountsOn .credit draft.entries))

/-- The booking, the reversed transaction and the accounts of a posting are
there, and no amount is above what its column holds. -/
def there (bookingExists : String → Bool) (l : Ledger) (draft : LedgerDraft) : Bool :=
  draft.bookingId.all bookingExists &&
  draft.reversesTransactionId.all (fun id => (l.findById id).isSome) &&
  draft.entries.all (fun e => decide (e.amount.amount ≤ 2147483647) &&
    l.accounts.any (fun a => a.id = e.accountId ∧ a.currency = draft.currency))

/-- The statements of call `i` are answered, and what it is asked to post or to
reverse refers to rows that are there. -/
def fair (bookingExists : String → Bool) (i : Nat) (s : State Ledger Call) : Action Request Draw → Bool
  | .arrive (.accountFor _) => true
  | .arrive (.post draft) => s.calls.length ≠ i || there bookingExists s.tables draft
  | .arrive (.reverse id _ _) => s.calls.length ≠ i || (s.tables.findById id).isSome
  | .exec j d => j ≠ i || d.outcome = .answered

/-- Why an account is refused: it cannot be named, or its owner is nobody. -/
def Unnameable (userExists : String → Bool) (spec : AccountSpec) : Prop :=
  (∃ e, accountIdentityOf spec = .error e) ∨ ∃ ownerId, spec.ownerId = some ownerId ∧ userExists ownerId = false

/-- Why a posting is refused that the tables would take: it is no posting, or
its key has been used for something else, or what it reverses has been reversed
under another key. -/
def Contested (l : Ledger) (draft : LedgerDraft) : Prop :=
  ¬Postable draft ∨
  (∃ t ∈ l.transactions, t.idempotencyKey = draft.idempotencyKey ∧ ¬SameContent draft t) ∨
  ∃ id, draft.reversesTransactionId = some id ∧
    ∃ t ∈ l.transactions, t.reversesTransactionId = some id ∧ t.idempotencyKey ≠ draft.idempotencyKey

section

variable {w : Referred} {bookingExists : String → Bool} {l l' : Ledger} {d : Draw} {p p' : Place} {draft : LedgerDraft}

theorem unnameable_of_owner {userExists : String → Bool} {spec : AccountSpec}
    (h : spec.ownerId.all userExists = false) : Unnameable userExists spec := by
  cases howner : spec.ownerId with
  | none =>
    rw [howner] at h
    cases h
  | some ownerId =>
    rw [howner] at h
    exact .inr ⟨ownerId, howner, h⟩

theorem findById_isSome {id : Nat} : (l.findById id).isSome ↔ ∃ t ∈ l.transactions, t.id = id := by
  simp [Ledger.findById, List.find?_isSome]

theorem findByIdempotencyKey_eq_none {key : String} :
    l.findByIdempotencyKey key = none ↔ ∀ t ∈ l.transactions, t.idempotencyKey ≠ key := by
  simp [Ledger.findByIdempotencyKey, List.find?_eq_none]

theorem fits_of_accepts (h : l.accepts bookingExists draft = true) : fits bookingExists l draft = true := by
  simp only [Ledger.accepts, fits, Bool.and_eq_true] at h ⊢
  obtain ⟨⟨⟨⟨⟨-, hbooking⟩, hreverses⟩, hentries⟩, htwo⟩, hbalanced⟩ := h
  refine ⟨⟨⟨⟨hbooking, ?_⟩, hentries⟩, htwo⟩, hbalanced⟩
  cases hid : draft.reversesTransactionId with
  | none => rfl
  | some id =>
    rw [hid, Option.all_some, Bool.and_eq_true] at hreverses
    exact hreverses.1

theorem fits_of_there (h : there bookingExists l draft = true) (hpostable : Postable draft) :
    fits bookingExists l draft = true := by
  simp only [there, fits, Bool.and_eq_true] at h ⊢
  obtain ⟨⟨hbooking, hreverses⟩, hentries⟩ := h
  refine ⟨⟨⟨⟨hbooking, hreverses⟩, ?_⟩, decide_eq_true hpostable.entries⟩, decide_eq_true hpostable.balanced⟩
  rw [List.all_eq_true] at hentries ⊢
  intro e he
  have hentry := hentries e he
  rw [Bool.and_eq_true] at hentry
  rw [Bool.and_eq_true, Bool.and_eq_true]
  exact ⟨⟨decide_eq_true (hpostable.positive e he).2, hentry.1⟩, hentry.2⟩

theorem accepts_of_fits (h : fits bookingExists l draft = true)
    (hkey : ∀ t ∈ l.transactions, t.idempotencyKey ≠ draft.idempotencyKey)
    (hfirst : ∀ id, draft.reversesTransactionId = some id →
      ∀ t ∈ l.transactions, t.reversesTransactionId ≠ some id) : l.accepts bookingExists draft = true := by
  simp only [Ledger.accepts, fits, Bool.and_eq_true] at h ⊢
  obtain ⟨⟨⟨⟨hbooking, hreverses⟩, hentries⟩, htwo⟩, hbalanced⟩ := h
  refine ⟨⟨⟨⟨⟨?_, hbooking⟩, ?_⟩, hentries⟩, htwo⟩, hbalanced⟩
  · rw [findByIdempotencyKey_eq_none.mpr hkey]
    rfl
  · cases hid : draft.reversesTransactionId with
    | none => rfl
    | some id =>
      rw [hid, Option.all_some] at hreverses
      simpa [hreverses] using hfirst id hid

theorem fits_mono (h : fits bookingExists l draft = true) (hgrows : Grows l l') :
    fits bookingExists l' draft = true := by
  simp only [fits, Bool.and_eq_true] at h ⊢
  obtain ⟨⟨⟨⟨hbooking, hreverses⟩, hentries⟩, htwo⟩, hbalanced⟩ := h
  refine ⟨⟨⟨⟨hbooking, ?_⟩, ?_⟩, htwo⟩, hbalanced⟩
  · cases hid : draft.reversesTransactionId with
    | none => rfl
    | some id =>
      rw [hid, Option.all_some, findById_isSome] at hreverses
      obtain ⟨t, ht, hsame⟩ := hreverses
      exact findById_isSome.mpr ⟨t, hgrows.transactions t ht, hsame⟩
  · rw [List.all_eq_true] at hentries ⊢
    intro e he
    have hentry := hentries e he
    rw [Bool.and_eq_true, List.any_eq_true] at hentry ⊢
    obtain ⟨hamount, account, haccount, hsame⟩ := hentry
    exact ⟨hamount, account, hgrows.accounts account haccount, hsame⟩

theorem amountsOn_opposite (direction : LedgerDirection) (entries : List LedgerEntry) :
    amountsOn direction (entries.map (fun e => { e with direction := e.direction.opposite })) =
      amountsOn direction.opposite entries := by
  induction entries with
  | nil => rfl
  | cons e entries ih =>
    simp only [amountsOn, List.map_cons, List.filter_cons] at ih ⊢
    cases direction <;> cases hd : e.direction <;> simp [LedgerDirection.opposite] at ih ⊢ <;> exact ih

theorem fits_reversalOf {t : PostedTransaction} (ht : t ∈ l.transactions)
    (h : fits bookingExists l t.toLedgerDraft = true) (key : String) (occurredAt : Int) :
    fits bookingExists l (reversalOf t key occurredAt) = true := by
  simp only [fits, Bool.and_eq_true, decide_eq_true_eq] at h ⊢
  obtain ⟨⟨⟨⟨hbooking, -⟩, hentries⟩, htwo⟩, hbalanced⟩ := h
  refine ⟨⟨⟨⟨hbooking, ?_⟩, ?_⟩, ?_⟩, ?_⟩
  · exact findById_isSome.mpr ⟨t, ht, rfl⟩
  · rw [reversalOf, List.all_map]
    exact hentries
  · rw [reversalOf, List.length_map]
    exact htwo
  · rw [reversalOf, amountsOn_opposite, amountsOn_opposite]
    exact hbalanced.symm

/-- What a call knows where each of its statements is answered. -/
def Place.Knows (w : Referred) (l : Ledger) (r : Request) : Place → Prop
  | refinding spec identity => (∃ a ∈ l.accounts, a.identity = identity) ∨ Unnameable w.userExists spec
  | found (.error _) => ∃ spec, r = .accountFor spec ∧ Unnameable w.userExists spec
  | reading id _ _ => ∃ t ∈ l.transactions, t.id = id
  | looking draft | writing draft => fits w.bookingExists l draft = true
  | lookingAgain draft => (∃ t ∈ l.transactions, t.idempotencyKey = draft.idempotencyKey) ∨
    ∃ id, draft.reversesTransactionId = some id ∧ ∃ t ∈ l.transactions, t.reversesTransactionId = some id
  | checking draft id => ∃ t ∈ l.transactions, t.reversesTransactionId = some id ∧
    t.idempotencyKey ≠ draft.idempotencyKey
  | posted (.error _) => ∃ draft, Asked l r draft ∧ Contested l draft
  | _ => True

theorem Contested.mono (h : Contested l draft) (hgrows : Grows l l') : Contested l' draft := by
  obtain h | ⟨t, ht, h⟩ | ⟨id, hid, t, ht, h⟩ := h
  · exact .inl h
  · exact .inr (.inl ⟨t, hgrows.transactions t ht, h⟩)
  · exact .inr (.inr ⟨id, hid, t, hgrows.transactions t ht, h⟩)

theorem Place.Knows.mono {r : Request} (h : p.Knows w l r) (hgrows : Grows l l') :
    p.Knows w l' r := by
  cases p with
  | finding => trivial
  | inserting => trivial
  | refinding =>
    obtain ⟨a, ha, hsame⟩ | hnobody := h
    · exact .inl ⟨a, hgrows.accounts a ha, hsame⟩
    · exact .inr hnobody
  | found answer =>
    cases answer with
    | error e => exact h
    | ok account => trivial
  | reading =>
    obtain ⟨t, ht, hsame⟩ := h
    exact ⟨t, hgrows.transactions t ht, hsame⟩
  | looking => exact fits_mono h hgrows
  | writing => exact fits_mono h hgrows
  | lookingAgain =>
    obtain ⟨t, ht, hsame⟩ | ⟨id, hid, t, ht, hsame⟩ := h
    · exact .inl ⟨t, hgrows.transactions t ht, hsame⟩
    · exact .inr ⟨id, hid, t, hgrows.transactions t ht, hsame⟩
  | checking =>
    obtain ⟨t, ht, hsame⟩ := h
    exact ⟨t, hgrows.transactions t ht, hsame⟩
  | posted answer =>
    cases answer with
    | ok t => trivial
    | error e =>
      obtain ⟨draft, hasked, hcontested⟩ := h
      exact ⟨draft, hasked.mono hgrows, hcontested.mono hgrows⟩

theorem knows_ofDraft {r : Request} (hasked : Asked l r draft)
    (hfits : Postable draft → fits w.bookingExists l draft = true) : (Place.ofDraft draft).Knows w l r := by
  obtain ⟨hpostable, hplace⟩ | ⟨hno, e, hplace⟩ := ofDraft_cases draft
  · rw [hplace]
    exact hfits hpostable
  · rw [hplace]
    exact ⟨draft, hasked, .inl hno⟩

theorem knows_of {s : State Ledger Call} {r : Request}
    (h : fair w.bookingExists s.calls.length s (.arrive r) = true) : (Place.of r).Knows w s.tables r := by
  cases r with
  | accountFor spec =>
    rw [Place.of]
    split
    · rename_i e hidentity
      exact ⟨spec, rfl, .inl ⟨e, hidentity⟩⟩
    · trivial
  | post draft =>
    refine knows_ofDraft (r := .post draft) rfl (fits_of_there ?_)
    simpa [fair] using h
  | reverse id key occurredAt =>
    refine findById_isSome.mp ?_
    simpa [fair] using h

theorem knows_checked {r : Request} {t : PostedTransaction} (hasked : Asked l r draft)
    (hpostable : Postable draft) (ht : t ∈ l.transactions) (hpostable' : Postable t.toLedgerDraft)
    (hkey : t.idempotencyKey = draft.idempotencyKey) :
    (Place.checked draft t).Knows w l r := by
  obtain ⟨-, hplace⟩ | ⟨hdiffers, e, hplace⟩ := checked_cases hpostable hpostable'
  · rw [hplace]
    trivial
  · rw [hplace]
    exact ⟨draft, hasked, .inr (.inl ⟨t, ht, hkey, hdiffers⟩)⟩

/-- Where its statements are answered, a call that is beaten to a row finds the
row that beat it. -/
theorem Moved.knows {r : Request} (h : Moved w l d p l' p') (hanswered : d.outcome = .answered)
    (hs : l.Sound) (hfits : ∀ t ∈ l.transactions, fits w.bookingExists l t.toLedgerDraft = true)
    (hok : p.Ok l r) (hknows : p.Knows w l r) : p'.Knows w l' r := by
  have hgrows := h.grows
  cases h with
  | missing => trivial
  | caught hwhy =>
    obtain ⟨-, hfails⟩ | ⟨-, hfailed | htaken | hnobody⟩ := hwhy
    · exact absurd hanswered hfails
    · rw [hanswered] at hfailed
      cases hfailed
    · obtain ⟨a, ha⟩ := Option.isSome_iff_exists.mp htaken
      exact .inl ⟨a, findAccount_eq_some ha⟩
    · exact .inr (unnameable_of_owner hnobody)
  | found => trivial
  | opened hnone howner hfresh hp =>
    obtain ⟨hlost, -⟩ | rfl := hp
    · rw [hanswered] at hlost
      cases hlost
    · trivial
  | unopened hwhy =>
    obtain hfails | hnone := hwhy
    · exact absurd hanswered hfails
    · obtain ⟨a, ha, hsame⟩ | hnobody := hknows
      · exact absurd hsame (by simpa using List.find?_eq_none.mp hnone a ha)
      · exact ⟨_, hok.1, hnobody⟩
  | thrown hfails => exact absurd hanswered hfails
  | unknown hnone =>
    rw [Place.Knows, ← findById_isSome, hnone] at hknows
    cases hknows
  | @read id key occurredAt original hfound =>
    have hmem : original ∈ l.transactions := List.mem_of_find?_eq_some hfound
    obtain rfl : r = _ := hok
    refine knows_ofDraft ⟨original, hmem, by simpa using List.find?_some hfound, rfl⟩ (fun _ => ?_)
    exact fits_reversalOf hmem (hfits original hmem) key occurredAt
  | met hp hfound =>
    obtain ⟨hmem, hkey⟩ := find_key_eq_some hfound
    obtain rfl | rfl := hp
    · exact knows_checked hok.1 hok.2 hmem (hs.postable _ hmem) hkey
    · exact knows_checked hok.1 hok.2 hmem (hs.postable _ hmem) hkey
  | unmet => exact hknows
  | @refused draft hwhy =>
    obtain hfailed | hrefused := hwhy
    · rw [hanswered] at hfailed
      cases hfailed
    · -- the tables take it but for a key or a reversal that is there already
      by_contra hnot
      simp only [Place.Knows, not_or, not_exists, not_and] at hnot
      rw [accepts_of_fits hknows hnot.1 hnot.2] at hrefused
      cases hrefused
  | @written draft p' haccepts hp =>
    obtain ⟨hlost, -⟩ | rfl := hp
    · rw [hanswered] at hlost
      cases hlost
    · exact knows_checked (hok.1.mono hgrows) hok.2 (List.mem_append_right _ (List.mem_singleton_self _)) hok.2 rfl
  | unposted hnone hreverses =>
    rw [findByIdempotencyKey_eq_none] at hnone
    obtain ⟨t, ht, hkey⟩ | ⟨id, hid, -⟩ := hknows
    · exact absurd hkey (hnone t ht)
    · rw [hreverses] at hid
      cases hid
  | suspected hnone hreverses =>
    rw [findByIdempotencyKey_eq_none] at hnone
    obtain ⟨t, ht, hkey⟩ | ⟨id, hid, t, ht, hsame⟩ := hknows
    · exact absurd hkey (hnone t ht)
    · rw [hreverses] at hid
      cases hid
      exact ⟨t, ht, hsame, hnone t ht⟩
  | @told draft id e => exact ⟨draft, hok.1, .inr (.inr ⟨id, hok.2.2, hknows⟩)⟩

theorem Moved.fits (h : Moved w l d p l' p')
    (hfits : ∀ t ∈ l.transactions, fits w.bookingExists l t.toLedgerDraft = true) :
    ∀ t ∈ l'.transactions, LedgerCalls.fits w.bookingExists l' t.toLedgerDraft = true := by
  have hgrows := h.grows
  intro t ht
  by_cases hold : t ∈ l.transactions
  · exact fits_mono (hfits t hold) hgrows
  · cases h with
    | @written draft p' haccepts hp =>
      obtain ht | ht := List.mem_append.mp ht
      · exact absurd ht hold
      · rw [List.mem_singleton.mp ht]
        exact fits_mono (fits_of_accepts haccepts) hgrows
    | _ => exact absurd ht hold

theorem left_ofDraft (draft : LedgerDraft) : (Place.ofDraft draft).left ≤ 4 := by
  obtain ⟨-, hplace⟩ | ⟨-, e, hplace⟩ := ofDraft_cases draft
  · exact hplace ▸ Nat.le_refl _
  · exact hplace ▸ Nat.zero_le _

theorem left_checked (draft : LedgerDraft) (t : PostedTransaction) : (Place.checked draft t).left = 0 := by
  rw [Place.checked]
  split <;> rfl

theorem left_le (p : Place) : p.left ≤ 5 := by
  cases p <;> simp [Place.left]

theorem Moved.left_lt (h : Moved w l d p l' p') (hanswered : d.outcome = .answered) :
    p'.left < p.left := by
  cases h with
  | caught hwhy => obtain ⟨rfl, -⟩ | ⟨rfl, -⟩ := hwhy <;> simp [Place.left]
  | found hp => obtain rfl | rfl := hp <;> simp [Place.left]
  | opened hnone howner hfresh hp => obtain ⟨-, rfl⟩ | rfl := hp <;> simp [Place.left]
  | thrown hfails => exact absurd hanswered hfails
  | read => exact Nat.lt_succ_of_le (left_ofDraft _)
  | met hp =>
    rw [left_checked]
    obtain rfl | rfl := hp <;> simp [Place.left]
  | written haccepts hp =>
    obtain ⟨-, rfl⟩ | rfl := hp
    · simp [Place.left]
    · rw [left_checked]
      simp [Place.left]
  | _ => simp [Place.left]

theorem exists_next (hanswered : d.outcome = .answered) (hfresh : ∀ a ∈ l.accounts, a.id ≠ d.accountId)
    (hleft : 0 < p.left) : ∃ x, next w l d p = some x := by
  cases p with
  | found answer => cases hleft
  | posted answer => cases hleft
  | inserting spec identity =>
    simp only [next, hanswered]
    split
    · exact ⟨_, rfl⟩
    · rw [if_neg (by simpa using hfresh)]
      exact ⟨_, rfl⟩
  | lookingAgain draft =>
    simp only [next, hanswered]
    split
    · exact ⟨_, rfl⟩
    · split
      · exact ⟨_, rfl⟩
      · split <;> exact ⟨_, rfl⟩
  | writing draft =>
    simp only [next, hanswered]
    split <;> exact ⟨_, rfl⟩
  | _ =>
    simp only [next, hanswered]
    split
    · exact ⟨_, rfl⟩
    · split <;> exact ⟨_, rfl⟩

/-- The books are sound, and call `i` knows what it has to. -/
structure Knowing (w : Referred) (i : Nat) (s : State Ledger Call) : Prop where
  kept : Kept w s
  fits : ∀ t ∈ s.tables.transactions, LedgerCalls.fits w.bookingExists s.tables t.toLedgerDraft = true
  knows : ∀ c, s.calls[i]? = some c → c.place.Knows w s.tables c.request

theorem knowing_start (w : Referred) (i : Nat) : Knowing w i ⟨.empty, []⟩ := by
  refine ⟨holds_of_no_calls rfl books_empty, ?_, ?_⟩
  · intro t ht
    cases ht
  · intro c hc
    cases hc

theorem knowing_step {i : Nat} {s s' : State Ledger Call} {a : Action Request Draw} (h : Knowing w i s)
    (ha : fair w.bookingExists i s a = true) (hx : (machine w).step s a = some s') : Knowing w i s' := by
  have hrows : Grows s.tables s'.tables ∧
      ∀ t ∈ s'.tables.transactions, LedgerCalls.fits w.bookingExists s'.tables t.toLedgerDraft = true := by
    obtain hsame | ⟨j, d, c, c', rfl, hc, hnext⟩ := step_tables hx
    · rw [hsame]
      exact ⟨.refl _, h.fits⟩
    · obtain ⟨hmoved, -⟩ := moved_of_next hnext
      exact ⟨hmoved.grows, hmoved.fits h.fits⟩
  refine ⟨kept_step h.kept hx, hrows.2, fun c hc => ?_⟩
  cases a with
  | arrive r =>
    obtain hold | ⟨rfl, rfl⟩ := step_arrived hx hc
    · exact (h.knows c hold).mono hrows.1
    · have hsame : s'.tables = s.tables := by
        cases hx
        rfl
      rw [hsame]
      exact knows_of (r := r) ha
  | exec j d =>
    obtain ⟨hold, -⟩ | ⟨r, hr, -⟩ | ⟨d', c₀, hsame, hc₀, hnext⟩ := step_call hx hc
    · exact (h.knows c hold).mono hrows.1
    · cases hr
    · cases hsame
      obtain ⟨hmoved, hrequest⟩ := moved_of_next hnext
      have hanswered : d.outcome = .answered := by simpa [fair] using ha
      rw [hrequest]
      exact hmoved.knows hanswered h.kept.1.sound h.fits (h.kept.2 i c₀ hc₀) (h.knows c₀ hc₀)

end

/-- No call loses a race. Whatever other calls do in between, and whatever
becomes of their statements: a call whose own statements are answered gets or
creates its account, save one that cannot be named or whose owner is nobody;
where what its posting refers to is there, it is refused only if it is no
posting, or its key stands for something else, or what it reverses has been
reversed under another key; and while it has not come back it has a next
statement, which brings it nearer to its answer, five at most in all. -/
theorem no_call_loses_a_race (w : Referred) {s : State Ledger Call} {as : List (Action Request Draw)} {i : Nat}
    (hr : run (machine w).step ⟨.empty, []⟩ as = some s)
    (hmeets : Meets (machine w).step (fun u a => fair w.bookingExists i u a = true) ⟨.empty, []⟩ as)
    {c : Call} (hc : s.calls[i]? = some c) :
    (∀ e, c.place = .found (.error e) → ∃ spec, c.request = .accountFor spec ∧ Unnameable w.userExists spec) ∧
    (∀ e, c.place = .posted (.error e) →
      ∃ draft, Asked s.tables c.request draft ∧ Contested s.tables draft) ∧
    c.place.left ≤ 5 ∧ ∀ d : Draw, 0 < c.place.left → d.outcome = .answered →
      (∀ a ∈ s.tables.accounts, a.id ≠ d.accountId) → ∃ s' c',
        (machine w).step s (.exec i d) = some s' ∧ s'.calls[i]? = some c' ∧ c'.place.left < c.place.left := by
  have h : Knowing w i s := by
    exact run_preserves_of_meets (fun u a u' hu ha hx => knowing_step hu ha hx) hr hmeets (knowing_start w i)
  have hknows := h.knows c hc
  refine ⟨fun e hplace => ?_, fun e hplace => ?_, left_le _, fun d hleft hanswered hfresh => ?_⟩
  · rw [hplace] at hknows
    exact hknows
  · rw [hplace] at hknows
    exact hknows
  · obtain ⟨⟨l', p'⟩, hnext⟩ : ∃ x, next w s.tables d c.place = some x := exists_next hanswered hfresh hleft
    have hnext' : (machine w).next s.tables d c = some (l', ⟨c.request, p'⟩) :=
      Option.map_eq_some_iff.mpr ⟨(l', p'), hnext, rfl⟩
    refine ⟨⟨l', s.calls.set i ⟨c.request, p'⟩⟩, ⟨c.request, p'⟩, step_exec.mpr ⟨c, _, hc, hnext', rfl⟩, ?_, ?_⟩
    · exact List.getElem?_set_self (List.getElem?_eq_some_iff.mp hc).1
    · exact (next_moved hnext).left_lt hanswered

def refusal (s : State Ledger Call) (i : Nat) : Option Thrown :=
  (s.calls[i]?).bind (fun c =>
    match c.place with
    | .posted (.error e) => some e
    | _ => none)

theorem refusal_eq_some {s : State Ledger Call} {i : Nat} {e : Thrown} (h : refusal s i = some e) :
    ∃ c, s.calls[i]? = some c ∧ c.place = .posted (.error e) := by
  obtain ⟨c, hc, hplace⟩ := Option.bind_eq_some_iff.mp h
  refine ⟨c, hc, ?_⟩
  split at hplace
  · rename_i hposted
    cases hplace
    exact hposted
  · cases hplace

/-- The pound is posted once for two callers, and reversed by two, one of whom
loses the answer to its first statement and asks again. -/
def reversedTwice : List (Action Request Draw) :=
  [.exec 4 ⟨.answered, clearingId⟩, .exec 3 ⟨.answered, clearingId⟩, .exec 3 ⟨.answered, clearingId⟩,
    .arrive (.reverse 0 "k2" 1), .exec 5 ⟨.failed, clearingId⟩, .arrive (.reverse 0 "k2" 1),
    .arrive (.reverse 0 "k3" 1),
    .exec 6 ⟨.answered, clearingId⟩, .exec 7 ⟨.answered, clearingId⟩, .exec 6 ⟨.answered, clearingId⟩,
    .exec 7 ⟨.answered, clearingId⟩, .exec 6 ⟨.answered, clearingId⟩, .exec 7 ⟨.answered, clearingId⟩,
    .exec 7 ⟨.answered, clearingId⟩, .exec 7 ⟨.answered, clearingId⟩]

theorem no_call_loses_a_race_reversedTwice : ∃ s c,
    run (machine allThere).step ⟨.empty, []⟩ (overlapping ++ reversedTwice) = some s ∧
    s.tables.transactions.length = 2 ∧ s.calls[7]? = some c ∧
    c.place = .posted (.error (.ledgerError (Ledger.alreadyReversed 0))) ∧
      ∃ draft, Asked s.tables c.request draft ∧ Contested s.tables draft := by
  have hrun : (run (machine allThere).step ⟨.empty, []⟩ (overlapping ++ reversedTwice)).map (fun s =>
      (s.tables.transactions.length, refusal s 7)) =
      some (2, some (.ledgerError (Ledger.alreadyReversed 0))) := by
    decide +kernel
  have hmeets : Meets (machine allThere).step (fun u a => fair (fun _ => true) 7 u a = true) ⟨.empty, []⟩
      (overlapping ++ reversedTwice) := by
    decide +kernel
  obtain ⟨s, hs, hend⟩ := Option.map_eq_some_iff.mp hrun
  obtain ⟨hlength, hrefusal⟩ := Prod.mk.inj hend
  obtain ⟨c, hc, hplace⟩ := refusal_eq_some hrefusal
  exact ⟨s, c, hs, hlength, hc, hplace, (no_call_loses_a_race allThere hs hmeets hc).2.1 _ hplace⟩

end RentalMarket.Payments.LedgerCalls
