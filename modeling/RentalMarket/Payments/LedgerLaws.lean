import RentalMarket.Payments.Ledger
import RentalMarket.Lib.Refusal
import RentalMarket.Lib.Runs
import RentalMarket.Lib.Keyed

namespace RentalMarket.Payments

open RentalMarket.Core Runs

/-- What `assertPostable` makes sure of. -/
structure Postable (draft : LedgerDraft) : Prop where
  entries : 2 ≤ draft.entries.length
  key : isBlank draft.idempotencyKey = false
  positive : ∀ e ∈ draft.entries, e.amount.currency = draft.currency ∧ 0 < e.amount.amount
  balanced : Money.total (amountsOn .debit draft.entries) = Money.total (amountsOn .credit draft.entries)
  safe : Money.total (amountsOn .debit draft.entries) ≤ Money.maxSafeInteger

theorem assertEntry_eq_ok {currency : Currency} {entry : LedgerEntry} :
    assertEntry currency entry = .ok () ↔
      entry.amount.currency = currency ∧ 0 < entry.amount.amount := by
  unfold assertEntry
  rw [Refusal.ite_error_eq_ok, Refusal.ite_error_eq_ok, not_not, not_le]
  simp

theorem amountsOn_currency {draft : LedgerDraft}
    (h : ∀ e ∈ draft.entries, e.amount.currency = draft.currency ∧ 0 < e.amount.amount)
    (direction : LedgerDirection) :
    ∀ v ∈ amountsOn direction draft.entries, v.currency = draft.currency ∧ 0 ≤ v.amount := by
  intro v hv
  obtain ⟨e, he, rfl⟩ := List.mem_map.mp hv
  obtain ⟨hcur, hpos⟩ := h e (List.mem_filter.mp he).1
  exact ⟨hcur, hpos.le⟩

theorem totalsOf_eq_ok {draft : LedgerDraft} {totals : Money × Money}
    (h : totalsOf draft = .ok totals) :
    totals.1.amount = Money.total (amountsOn .debit draft.entries) ∧
      totals.2.amount = Money.total (amountsOn .credit draft.entries) ∧
      Money.total (amountsOn .debit draft.entries) ≤ Money.maxSafeInteger := by
  unfold totalsOf at h
  obtain ⟨debits, hd, h⟩ := Refusal.bind_eq_ok.mp h
  obtain ⟨credits, hc, h⟩ := Refusal.bind_eq_ok.mp h
  cases h
  rw [Money.sum_eq_ok hd, Money.sum_eq_ok hc]
  exact ⟨rfl, rfl, Money.sum_safe hd⟩

theorem assertPostable_eq_ok {draft : LedgerDraft} :
    assertPostable draft = .ok () ↔ Postable draft := by
  unfold assertPostable
  rw [Refusal.ite_error_eq_ok, Refusal.ite_error_eq_ok, Refusal.bind_eq_ok]
  constructor
  · rintro ⟨hlen, hkey, ⟨⟩, hentries, h⟩
    obtain ⟨totals, htotals, h⟩ := Refusal.bind_eq_ok.mp h
    obtain ⟨hbalanced, -⟩ := Refusal.ite_error_eq_ok.mp h
    obtain ⟨hd, hc, hsafe⟩ := totalsOf_eq_ok htotals
    refine ⟨by omega, by simpa using hkey, fun e he => ?_, ?_, hsafe⟩
    · exact assertEntry_eq_ok.mp (Refusal.forM_eq_ok.mp hentries e he)
    · rw [← hd, ← hc]
      exact not_not.mp hbalanced
  · intro h
    have hcur := amountsOn_currency h.positive
    refine ⟨by have := h.entries; omega, by simp [h.key], ⟨⟩, ?_, ?_⟩
    · exact Refusal.forM_eq_ok.mpr (fun e he => assertEntry_eq_ok.mpr (h.positive e he))
    · have hcredit : Money.total (amountsOn .credit draft.entries) ≤ Money.maxSafeInteger :=
        h.balanced ▸ h.safe
      rw [totalsOf, Money.sum_ok (hcur .debit) h.safe, Money.sum_ok (hcur .credit) hcredit]
      simp [Except.bind, h.balanced]

theorem amountsOn_perm {es es' : List LedgerEntry} (h : es.Perm es') (direction : LedgerDirection) :
    Money.total (amountsOn direction es) = Money.total (amountsOn direction es') :=
  (((h.filter _).map _).map _).sum_eq

theorem Postable.perm {draft draft' : LedgerDraft} (h : Postable draft)
    (hkey : draft'.idempotencyKey = draft.idempotencyKey) (hcur : draft'.currency = draft.currency)
    (hperm : draft.entries.Perm draft'.entries) : Postable draft' where
  entries := hperm.length_eq ▸ h.entries
  key := hkey ▸ h.key
  positive e he := hcur ▸ h.positive e (hperm.mem_iff.mpr he)
  balanced := by
    rw [← amountsOn_perm hperm, ← amountsOn_perm hperm]
    exact h.balanced
  safe := amountsOn_perm hperm .debit ▸ h.safe

theorem LedgerDirection.text_plain (d : LedgerDirection) :
    '|' ∉ d.text.toList ∧ ',' ∉ d.text.toList := by
  cases d <;> decide

theorem code_plain (c : Currency) : '|' ∉ c.code.toList ∧ ',' ∉ c.code.toList := by
  cases c
  decide

theorem LedgerEntry.text_injective : Function.Injective LedgerEntry.text := by
  have hplain : ∀ e : LedgerEntry, ∀ s ∈ [e.accountId.text, e.direction.text, e.amount.amount.repr,
      e.amount.currency.code], '|' ∉ s.toList := by
    intro e s hs
    simp only [List.mem_cons, List.not_mem_nil, or_false] at hs
    rcases hs with rfl | rfl | rfl | rfl
    · exact e.accountId.bar
    · exact e.direction.text_plain.1
    · exact Text.not_mem_intRepr (by decide) (by decide) _
    · exact (code_plain _).1
  intro e e' h
  have hparts := Text.intercalate_injective (hplain e) (hplain e') (by simp) (by simp) h
  rw [List.cons.injEq, List.cons.injEq, List.cons.injEq] at hparts
  obtain ⟨hid, hdir, hamount, -⟩ := hparts
  obtain ⟨⟨id, hb, hc⟩, dir, ⟨amount, cur⟩⟩ := e
  obtain ⟨⟨id', hb', hc'⟩, dir', ⟨amount', cur'⟩⟩ := e'
  simp only at hid hdir hamount
  subst hid
  rw [Int.repr_inj] at hamount
  subst hamount
  cases cur
  cases cur'
  cases dir <;> cases dir' <;> first | rfl | exact absurd hdir (by decide)

theorem LedgerEntry.comma_text (e : LedgerEntry) : ',' ∉ e.text.toList := by
  unfold LedgerEntry.text
  rw [String.toList_intercalate]
  have hid := e.accountId.comma
  have hdir := e.direction.text_plain.2
  have hamount := Text.not_mem_intRepr (c := ',') (by decide) (by decide) e.amount.amount
  have hcode := (code_plain e.amount.currency).2
  simp [List.intercalate, hid, hdir, hamount, hcode]

theorem fingerprintOf_eq_iff {es es' : List LedgerEntry} (hne : es ≠ []) (hne' : es' ≠ []) :
    fingerprintOf es = fingerprintOf es' ↔ es.Perm es' := by
  have hsorted : ∀ l : List LedgerEntry, l ≠ [] →
      (∀ s ∈ (l.map LedgerEntry.text).insertionSort (· ≤ ·), ',' ∉ s.toList) ∧
        (l.map LedgerEntry.text).insertionSort (· ≤ ·) ≠ [] := by
    intro l hl
    have hperm := List.perm_insertionSort (· ≤ ·) (l.map LedgerEntry.text)
    constructor
    · intro s hs
      obtain ⟨e, -, rfl⟩ := List.mem_map.mp (hperm.mem_iff.mp hs)
      exact e.comma_text
    · intro hnil
      rw [hnil] at hperm
      exact hl (List.map_eq_nil_iff.mp hperm.symm.eq_nil)
  obtain ⟨hfree, hsome⟩ := hsorted es hne
  obtain ⟨hfree', hsome'⟩ := hsorted es' hne'
  constructor
  · intro h
    have hsame := Text.intercalate_injective hfree hfree' hsome hsome' h
    rw [Text.insertionSort_eq_iff] at hsame
    exact (List.map_perm_map_iff LedgerEntry.text_injective).mp hsame
  · intro h
    rw [fingerprintOf, fingerprintOf, Text.insertionSort_eq_iff.mpr (h.map _)]

/-- The same money for the same reason, whatever the order of the entries. -/
structure SameContent (draft : LedgerDraft) (posted : PostedTransaction) : Prop where
  kind : draft.kind = posted.kind
  currency : draft.currency = posted.currency
  bookingId : draft.bookingId = posted.bookingId
  reverses : draft.reversesTransactionId = posted.reversesTransactionId
  entries : draft.entries.Perm posted.entries

theorem ne_nil_of_two_le {α : Type} {l : List α} (h : 2 ≤ l.length) : l ≠ [] := by
  rintro rfl
  simp at h

theorem assertSameTransaction_eq_ok {draft : LedgerDraft} {posted : PostedTransaction}
    (hd : 2 ≤ draft.entries.length) (hp : 2 ≤ posted.entries.length) :
    assertSameTransaction draft posted = .ok () ↔ SameContent draft posted := by
  have hfinger := fingerprintOf_eq_iff (ne_nil_of_two_le hd) (ne_nil_of_two_le hp)
  unfold assertSameTransaction
  rw [Refusal.ite_error_eq_ok, not_or, not_or, not_or, not_or, not_not, not_not, not_not, not_not,
    not_not]
  constructor
  · rintro ⟨⟨hk, hc, hb, hr, he⟩, -⟩
    exact ⟨hk, hc, hb, hr, hfinger.mp he⟩
  · intro h
    exact ⟨⟨h.kind, h.currency, h.bookingId, h.reverses, hfinger.mpr h.entries⟩, rfl⟩

structure Ledger.Sound (l : Ledger) : Prop where
  postable : ∀ t ∈ l.transactions, Postable t.toLedgerDraft
  keys : (l.transactions.map (·.idempotencyKey)).Nodup
  ids : l.transactions.map (·.id) = List.range l.transactions.length
  reversals : ∀ t ∈ l.transactions, ∀ t' ∈ l.transactions, ∀ id,
    t.reversesTransactionId = some id → t'.reversesTransactionId = some id → t = t'
  accounts : (l.accounts.map (·.id)).Nodup
  identities : (l.accounts.map (·.identity)).Nodup
  known : ∀ t ∈ l.transactions, ∀ e ∈ t.entries, ∃ a ∈ l.accounts, a.id = e.accountId

theorem Ledger.sound_empty : Ledger.empty.Sound where
  postable _ h := nomatch h
  keys := List.nodup_nil
  ids := rfl
  reversals _ h := nomatch h
  accounts := List.nodup_nil
  identities := List.nodup_nil
  known _ h := nomatch h

section Calls

variable {bookingExists : String → Bool} {l l' : Ledger} {draft : LedgerDraft} {t : PostedTransaction}

theorem find_key (hs : l.Sound) (ht : t ∈ l.transactions) :
    l.findByIdempotencyKey t.idempotencyKey = some t := Keyed.find?_key hs.keys ht

theorem find_key_eq_some {key : String} (h : l.findByIdempotencyKey key = some t) :
    t ∈ l.transactions ∧ t.idempotencyKey = key :=
  ⟨List.mem_of_find?_eq_some h, by simpa using List.find?_some h⟩

def Ledger.newRow (l : Ledger) (draft : LedgerDraft) : PostedTransaction :=
  { draft with id := l.transactions.length }

def Ledger.append (l : Ledger) (t : PostedTransaction) : Ledger :=
  { l with transactions := l.transactions ++ [t] }

/-- The three ways a posting goes: a key met again, a new row, a refusal. -/
theorem post_cases (bookingExists : String → Bool) (l : Ledger) (draft : LedgerDraft) :
    (∃ t, l.findByIdempotencyKey draft.idempotencyKey = some t ∧ Postable draft ∧
      assertSameTransaction draft t = .ok () ∧ l.post bookingExists draft = (.ok t, l)) ∨
    (l.findByIdempotencyKey draft.idempotencyKey = none ∧ Postable draft ∧
      l.accepts bookingExists draft = true ∧
      l.post bookingExists draft = (.ok (l.newRow draft), l.append (l.newRow draft))) ∨
    ∃ e, l.post bookingExists draft = (.error e, l) := by
  unfold Ledger.post
  cases hp : assertPostable draft with
  | error e => exact .inr (.inr ⟨e, rfl⟩)
  | ok u =>
    have hpost : Postable draft := assertPostable_eq_ok.mp hp
    unfold Ledger.store
    cases hf : l.findByIdempotencyKey draft.idempotencyKey with
    | some t =>
      simp only
      cases hsame : assertSameTransaction draft t with
      | error e => exact .inr (.inr ⟨e, rfl⟩)
      | ok u => exact .inl ⟨t, rfl, hpost, hsame, rfl⟩
    | none =>
      simp only
      by_cases ha : l.accepts bookingExists draft = true
      · -- what was written reads back as what was asked
        have hsame : assertSameTransaction draft (l.newRow draft) = .ok () :=
          (assertSameTransaction_eq_ok hpost.entries hpost.entries).mpr
            ⟨rfl, rfl, rfl, rfl, List.Perm.refl _⟩
        rw [if_pos ha]
        simp only [Ledger.newRow] at hsame
        simp only [hsame]
        exact .inr (.inl ⟨trivial, hpost, ha, rfl⟩)
      · rw [if_neg ha]
        split <;> rename_i heq
        · rename_i e' l''
          have hl : l'' = l := by
            split at heq
            · split at heq <;> cases heq <;> rfl
            · cases heq; rfl
          exact .inr (.inr ⟨e', by rw [hl]⟩)
        · split at heq
          · split at heq <;> cases heq
          · cases heq

theorem post_error {e : String} (h : (l.post bookingExists draft).1 = .error e) :
    (l.post bookingExists draft).2 = l := by
  rcases post_cases bookingExists l draft with ⟨t, -, -, -, hp⟩ | ⟨-, -, -, hp⟩ | ⟨e', hp⟩
  · rw [hp] at h; cases h
  · rw [hp] at h; cases h
  · rw [hp]

theorem Ledger.Sound.append (hs : l.Sound) (hpost : Postable draft)
    (hnone : l.findByIdempotencyKey draft.idempotencyKey = none)
    (ha : l.accepts bookingExists draft = true) : (l.append (l.newRow draft)).Sound := by
  simp only [Ledger.accepts, Bool.and_eq_true] at ha
  obtain ⟨⟨⟨⟨⟨-, -⟩, hrev⟩, hentries⟩, -⟩, -⟩ := ha
  refine ⟨?_, ?_, ?_, ?_, hs.accounts, hs.identities, ?_⟩
  · intro t ht
    rcases List.mem_append.mp ht with ht | ht
    · exact hs.postable t ht
    · rw [List.mem_singleton.mp ht]
      exact hpost
  · simp only [Ledger.append, List.map_append, List.map_cons, List.map_nil]
    refine List.nodup_append.mpr ⟨hs.keys, List.nodup_singleton _, ?_⟩
    intro a hk b hb hab
    obtain ⟨t, ht, rfl⟩ := List.mem_map.mp hk
    rw [List.mem_singleton.mp hb] at hab
    have hmiss := List.find?_eq_none.mp hnone t ht
    simp [hab, Ledger.newRow] at hmiss
  · simp only [Ledger.append, List.map_append, hs.ids, List.length_append, List.length_singleton,
      List.range_succ]
    rfl
  · -- the new row reverses something only if nothing did before
    have hfresh : ∀ t ∈ l.transactions, ∀ id, (l.newRow draft).reversesTransactionId = some id →
        t.reversesTransactionId ≠ some id := by
      intro t ht id hid
      rw [show draft.reversesTransactionId = some id from hid, Option.all_some, Bool.and_eq_true] at hrev
      simpa using List.all_eq_true.mp hrev.2 t ht
    intro t ht t' ht' id hid hid'
    rcases List.mem_append.mp ht with ht | ht
    · rcases List.mem_append.mp ht' with ht' | ht'
      · exact hs.reversals t ht t' ht' id hid hid'
      · rw [List.mem_singleton.mp ht'] at hid'
        exact absurd hid (hfresh t ht id hid')
    · rw [List.mem_singleton.mp ht] at hid ⊢
      rcases List.mem_append.mp ht' with ht' | ht'
      · exact absurd hid' (hfresh t' ht' id hid)
      · exact (List.mem_singleton.mp ht').symm
  · intro t ht e he
    rcases List.mem_append.mp ht with ht | ht
    · exact hs.known t ht e he
    · rw [List.mem_singleton.mp ht] at he
      have hrow := List.all_eq_true.mp hentries e he
      rw [Bool.and_eq_true, List.any_eq_true] at hrow
      obtain ⟨a, ham, haid⟩ := hrow.2
      rw [decide_eq_true_eq] at haid
      exact ⟨a, ham, haid.1⟩

theorem Ledger.Sound.post (hs : l.Sound) (draft : LedgerDraft) :
    (l.post bookingExists draft).2.Sound := by
  rcases post_cases bookingExists l draft with
    ⟨t, -, -, -, hp⟩ | ⟨hnone, hpost, ha, hp⟩ | ⟨e, hp⟩
  · rw [hp]; exact hs
  · rw [hp]; exact hs.append hpost hnone ha
  · rw [hp]; exact hs

theorem Ledger.Sound.accountFor (hs : l.Sound) {id : AccountId} (hid : ∀ a ∈ l.accounts, a.id ≠ id)
    (spec : AccountSpec) : (l.accountFor id spec).2.Sound := by
  unfold Ledger.accountFor
  cases hi : accountIdentityOf spec with
  | error e => exact hs
  | ok identity =>
    simp only
    cases hf : l.accounts.find? (fun a => a.identity = identity) with
    | some account => exact hs
    | none =>
      refine ⟨hs.postable, hs.keys, hs.ids, hs.reversals, ?_, ?_, ?_⟩
      · rw [List.map_append]
        refine List.nodup_append.mpr ⟨hs.accounts, List.nodup_singleton _, ?_⟩
        intro a ha b hb hab
        obtain ⟨c, hc, rfl⟩ := List.mem_map.mp ha
        rw [List.mem_singleton.mp hb] at hab
        exact hid c hc hab
      · rw [List.map_append]
        refine List.nodup_append.mpr ⟨hs.identities, List.nodup_singleton _, ?_⟩
        intro a ha b hb hab
        obtain ⟨c, hc, rfl⟩ := List.mem_map.mp ha
        rw [List.mem_singleton.mp hb] at hab
        have hmiss := List.find?_eq_none.mp hf c hc
        simp [hab] at hmiss
      · intro t ht e he
        obtain ⟨a, ha, hae⟩ := hs.known t ht e he
        exact ⟨a, List.mem_append_left _ ha, hae⟩

theorem Ledger.Sound.step (hs : l.Sound) {op : LedgerOp}
    (h : ledgerStep bookingExists l op = some l') : l'.Sound := by
  cases op with
  | accountFor id spec =>
    simp only [ledgerStep] at h
    split at h
    · rename_i hfresh
      cases h
      exact hs.accountFor (by simpa using hfresh) spec
    · cases h
  | post draft =>
    cases h
    exact hs.post draft
  | reverse transactionId idempotencyKey occurredAt =>
    cases h
    unfold Ledger.reverse
    split
    · exact hs
    · exact hs.post _

def netOn (account : AccountId) (entries : List LedgerEntry) : Int :=
  Money.total (amountsOn .debit (entries.filter (fun e => e.accountId = account))) -
    Money.total (amountsOn .credit (entries.filter (fun e => e.accountId = account)))

def LedgerEntry.signed (e : LedgerEntry) : Int :=
  match e.direction with
  | .debit => e.amount.amount
  | .credit => -e.amount.amount

theorem total_debit_sub_credit (es : List LedgerEntry) :
    Money.total (amountsOn .debit es) - Money.total (amountsOn .credit es) =
      (es.map LedgerEntry.signed).sum := by
  induction es with
  | nil => rfl
  | cons e es ih =>
    rw [List.map_cons, List.sum_cons, ← ih]
    cases hd : e.direction <;> simp [amountsOn, Money.total, LedgerEntry.signed, hd] <;> omega

theorem netOn_eq (account : AccountId) (es : List LedgerEntry) :
    netOn account es = ((es.filter (fun e => e.accountId = account)).map LedgerEntry.signed).sum :=
  total_debit_sub_credit _

theorem netOn_perm {es es' : List LedgerEntry} (h : es.Perm es') (account : AccountId) :
    netOn account es = netOn account es' := by
  rw [netOn_eq, netOn_eq]
  exact ((h.filter _).map _).sum_eq

theorem accountBalance_eq (l : Ledger) (account : LedgerAccount) :
    l.accountBalance account = Money.money
      (match account.kind.normalSide with
        | .debit => netOn account.id l.entries
        | .credit => -netOn account.id l.entries) account.currency := by
  unfold Ledger.accountBalance netOn
  cases account.kind <;> simp [LedgerAccountKind.normalSide, LedgerDirection.opposite]

theorem netOn_reversal (account : AccountId) (es : List LedgerEntry) :
    netOn account (es.map (fun e => { e with direction := e.direction.opposite })) =
      -netOn account es := by
  rw [netOn_eq, netOn_eq]
  induction es with
  | nil => rfl
  | cons e es ih =>
    have hsigned : LedgerEntry.signed { e with direction := e.direction.opposite } = -e.signed := by
      cases hd : e.direction <;> simp [LedgerEntry.signed, LedgerDirection.opposite, hd]
    by_cases hid : e.accountId = account
    · simp only [List.map_cons, List.filter_cons, hid, decide_true, if_true, List.sum_cons, ih]
      rw [← hid, hsigned]
      omega
    · simp only [List.map_cons, List.filter_cons, hid, decide_false, Bool.false_eq_true, if_false]
      exact ih

theorem sum_ite_account {accounts : List LedgerAccount} (hn : (accounts.map (·.id)).Nodup)
    {id : AccountId} (hid : ∃ a ∈ accounts, a.id = id) (x : Int) :
    (accounts.map (fun a => if id = a.id then x else 0)).sum = x := by
  induction accounts with
  | nil =>
    obtain ⟨a, ha, -⟩ := hid
    cases ha
  | cons b accounts ih =>
    rw [List.map_cons, List.nodup_cons] at hn
    rw [List.map_cons, List.sum_cons]
    by_cases hb : id = b.id
    · have hzero : (accounts.map (fun a => if id = a.id then x else 0)).sum = 0 := by
        refine List.sum_eq_zero (fun y hy => ?_)
        obtain ⟨a, ha, rfl⟩ := List.mem_map.mp hy
        rw [if_neg]
        intro h
        exact hn.1 (List.mem_map.mpr ⟨a, ha, h.symm.trans hb⟩)
      rw [if_pos hb, hzero, add_zero]
    · obtain ⟨a, ha, haid⟩ := hid
      rcases List.mem_cons.mp ha with rfl | ha
      · exact absurd haid.symm hb
      · rw [if_neg hb, zero_add]
        exact ih hn.2 ⟨a, ha, haid⟩

theorem sum_netOn {accounts : List LedgerAccount} (hn : (accounts.map (·.id)).Nodup)
    {es : List LedgerEntry} (hes : ∀ e ∈ es, ∃ a ∈ accounts, a.id = e.accountId) :
    (accounts.map (fun a => netOn a.id es)).sum = (es.map LedgerEntry.signed).sum := by
  induction es with
  | nil => simp [netOn, amountsOn, Money.total]
  | cons e es ih =>
    have hstep : ∀ a : LedgerAccount, netOn a.id (e :: es) =
        (if e.accountId = a.id then e.signed else 0) + netOn a.id es := by
      intro a
      rw [netOn_eq, netOn_eq, List.filter_cons]
      by_cases h : e.accountId = a.id
      · simp [h]
      · simp [h]
    rw [List.map_congr_left (fun a _ => hstep a), List.sum_map_add,
      sum_ite_account hn (hes e List.mem_cons_self), ih (fun e he => hes e (List.mem_cons_of_mem _ he)),
      List.map_cons, List.sum_cons]

theorem sum_signed_eq_zero (hs : l.Sound) : (l.entries.map LedgerEntry.signed).sum = 0 := by
  rw [Ledger.entries, List.map_flatMap, List.flatMap_def, List.sum_flatten, List.map_map]
  refine List.sum_eq_zero (fun y hy => ?_)
  obtain ⟨t, ht, rfl⟩ := List.mem_map.mp hy
  rw [Function.comp_apply, ← total_debit_sub_credit, (hs.postable t ht).balanced, sub_self]

/-- A posted reversal undoes what it names, account by account. -/
theorem reverse_cancels (hs : l.Sound) {id : Nat} {key : String} {occurredAt : Int}
    (h : (l.reverse bookingExists id key occurredAt).1 = .ok t) :
    ∃ original ∈ l.transactions, original.id = id ∧ t.reversesTransactionId = some id ∧
      t ∈ (l.reverse bookingExists id key occurredAt).2.transactions ∧
      ∀ account, netOn account original.entries + netOn account t.entries = 0 := by
  unfold Ledger.reverse at h ⊢
  cases hf : l.findById id with
  | none => rw [hf] at h; cases h
  | some original =>
    simp only [hf] at h ⊢
    have hm : original ∈ l.transactions := List.mem_of_find?_eq_some hf
    have hid : original.id = id := by simpa using List.find?_some hf
    refine ⟨original, hm, hid, ?_⟩
    have hnet : ∀ es : List LedgerEntry, (reversalOf original key occurredAt).entries.Perm es →
        ∀ account, netOn account original.entries + netOn account es = 0 := by
      intro es hperm account
      rw [← netOn_perm hperm, show (reversalOf original key occurredAt).entries =
        original.entries.map (fun e => { e with direction := e.direction.opposite }) from rfl,
        netOn_reversal, add_neg_cancel]
    rcases post_cases bookingExists l (reversalOf original key occurredAt) with
      ⟨t', hkey, hpost, hsame, hp⟩ | ⟨-, -, -, hp⟩ | ⟨e, hp⟩
    · rw [hp] at h ⊢
      cases h
      have ht := (find_key_eq_some hkey).1
      have hcontent := (assertSameTransaction_eq_ok hpost.entries (hs.postable t ht).entries).mp hsame
      refine ⟨?_, ht, hnet _ hcontent.entries⟩
      rw [← hcontent.reverses, ← hid]
      rfl
    · rw [hp] at h ⊢
      cases h
      refine ⟨congrArg some hid, List.mem_append_right _ (List.mem_singleton_self _), ?_⟩
      exact hnet _ (List.Perm.refl _)
    · rw [hp] at h
      cases h

/-- A key met again with the same content changes nothing and answers with
what was written first. -/
theorem post_same (hs : l.Sound) (ht : t ∈ l.transactions)
    (hkey : draft.idempotencyKey = t.idempotencyKey) (hsame : SameContent draft t) :
    l.post bookingExists draft = (.ok t, l) := by
  have hpost : Postable draft :=
    (hs.postable t ht).perm hkey hsame.currency hsame.entries.symm
  have hok := (assertSameTransaction_eq_ok hpost.entries (hs.postable t ht).entries).mpr hsame
  have hfind := find_key hs ht
  rw [← hkey] at hfind
  unfold Ledger.post Ledger.store
  rw [assertPostable_eq_ok.mpr hpost, hfind]
  simp only [hok]

theorem post_different (hs : l.Sound) (ht : t ∈ l.transactions)
    (hkey : draft.idempotencyKey = t.idempotencyKey) (hdiff : ¬SameContent draft t) :
    ∃ e, l.post bookingExists draft = (.error e, l) := by
  have hfind := find_key hs ht
  rw [← hkey] at hfind
  rcases post_cases bookingExists l draft with ⟨t', hf, hpost, hsame, -⟩ | ⟨hnone, -⟩ | herror
  · rw [hfind] at hf
    cases hf
    exact absurd ((assertSameTransaction_eq_ok hpost.entries (hs.postable t ht).entries).mp hsame) hdiff
  · rw [hfind] at hnone
    cases hnone
  · exact herror

end Calls

/-- The ledger over whole runs of its calls, returning or throwing. -/
theorem ledger_sound (bookingExists : String → Bool) (ops : List LedgerOp) (l : Ledger)
    (hrun : run (ledgerStep bookingExists) Ledger.empty ops = some l) :
    (∀ t ∈ l.transactions,
      Money.total (amountsOn .debit t.entries) = Money.total (amountsOn .credit t.entries) ∧
        ∀ e ∈ t.entries, e.amount.currency = t.currency ∧ 0 < e.amount.amount) ∧
    (l.transactions.map (·.idempotencyKey)).Nodup ∧
    (∀ t ∈ l.transactions, ∀ t' ∈ l.transactions, ∀ id, t.reversesTransactionId = some id →
      t'.reversesTransactionId = some id → t = t') ∧
    (∀ id key occurredAt t, (l.reverse bookingExists id key occurredAt).1 = .ok t →
      ∃ original ∈ l.transactions, original.id = id ∧ t.reversesTransactionId = some id ∧
        t ∈ (l.reverse bookingExists id key occurredAt).2.transactions ∧
        ∀ account, netOn account original.entries + netOn account t.entries = 0) ∧
    (l.accounts.map (fun a => netOn a.id l.entries)).sum = 0 ∧
    (∀ t ∈ l.transactions, ∀ draft : LedgerDraft, draft.idempotencyKey = t.idempotencyKey →
      (SameContent draft t → l.post bookingExists draft = (.ok t, l)) ∧
        (¬SameContent draft t → ∃ e, l.post bookingExists draft = (.error e, l))) ∧
    ∀ draft e, (l.post bookingExists draft).1 = .error e → (l.post bookingExists draft).2 = l := by
  have hs : l.Sound := run_preserves (P := Ledger.Sound) (fun _ _ _ hs hstep => hs.step hstep) hrun
    Ledger.sound_empty
  refine ⟨fun t ht => ⟨(hs.postable t ht).balanced, (hs.postable t ht).positive⟩, hs.keys,
    hs.reversals, fun id key occurredAt t h => reverse_cancels hs h, ?_, ?_, ?_⟩
  · rw [sum_netOn hs.accounts, sum_signed_eq_zero hs]
    intro e he
    obtain ⟨t, ht, he⟩ := List.mem_flatMap.mp he
    exact hs.known t ht e he
  · intro t ht draft hkey
    exact ⟨post_same hs ht hkey, post_different hs ht hkey⟩
  · intro draft e h
    exact post_error h

def clearingId : AccountId := ⟨"c1", by decide, by decide⟩

def revenueId : AccountId := ⟨"r1", by decide, by decide⟩

def onePound (key : String) (reverses : Option Nat) : LedgerDraft where
  idempotencyKey := key
  kind := .ownerPayout
  currency := .gbp
  bookingId := none
  occurredAt := 0
  entries := [⟨clearingId, .debit, ⟨100, .gbp⟩⟩, ⟨revenueId, .credit, ⟨100, .gbp⟩⟩]
  reversesTransactionId := reverses

def openAccounts : List LedgerOp :=
  [.accountFor clearingId ⟨.providerClearing, .gbp, none⟩,
    .accountFor revenueId ⟨.platformRevenue, .gbp, none⟩]

theorem ledger_sound_reversed : ∃ l,
    run (ledgerStep (fun _ => true)) Ledger.empty
      (openAccounts ++ [.post (onePound "k1" none), .reverse 0 "k2" 1]) = some l ∧
    l.transactions.length = 2 ∧ (l.accounts.map (fun a => netOn a.id l.entries)).sum = 0 ∧
    (l.transactions.map (·.idempotencyKey)).Nodup := by
  have hrun : (run (ledgerStep (fun _ => true)) Ledger.empty
      (openAccounts ++ [.post (onePound "k1" none), .reverse 0 "k2" 1])).map
      (fun l => l.transactions.length) = some 2 := by decide +kernel
  obtain ⟨l, hl, hlen⟩ := Option.map_eq_some_iff.mp hrun
  have h := ledger_sound _ _ l hl
  exact ⟨l, hl, hlen, h.2.2.2.2.1, h.2.1⟩

/-- Nothing holds a draft that names what it reverses to the entries that
would undo it: this one moves the pound a second time. -/
theorem reversal_need_not_cancel : ∃ l,
    run (ledgerStep (fun _ => true)) Ledger.empty
      (openAccounts ++ [.post (onePound "k1" none), .post (onePound "k2" (some 0))]) = some l ∧
    ∃ t ∈ l.transactions, ∃ r ∈ l.transactions, r.reversesTransactionId = some t.id ∧
      netOn clearingId t.entries + netOn clearingId r.entries = 200 := by
  have hrun : (run (ledgerStep (fun _ => true)) Ledger.empty
      (openAccounts ++ [.post (onePound "k1" none), .post (onePound "k2" (some 0))])).map
      (fun l => l.transactions) =
      some [{ onePound "k1" none with id := 0 }, { onePound "k2" (some 0) with id := 1 }] := by
    decide +kernel
  obtain ⟨l, hl, hrows⟩ := Option.map_eq_some_iff.mp hrun
  refine ⟨l, hl, { onePound "k1" none with id := 0 }, by simp [hrows],
    { onePound "k2" (some 0) with id := 1 }, by simp [hrows], rfl, by decide⟩

end RentalMarket.Payments
