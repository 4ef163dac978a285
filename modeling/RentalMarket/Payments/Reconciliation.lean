import Mathlib
import RentalMarket.Payments.Service
import RentalMarket.Lib.Runs
import RentalMarket.Lib.Keyed

namespace RentalMarket.Payments.Reconciliation

open RentalMarket.Core RentalMarket.Pricing Runs

/-- A row of `payment_intents` with the time of its last write. -/
structure Stored where
  intent : PaymentIntent
  updatedAt : Int
  deriving DecidableEq, Repr

/-- The tables a sweep works on, the provider calls made so far, and what the
sweeps have done: the attempts they took up, those whose row they wrote, and
when the last one finished. -/
structure State where
  rows : List Stored
  ledger : Ledger
  reads : List (Nat × Nat)
  examined : List Nat
  written : List Nat
  finishedAt : Int
  deriving DecidableEq, Repr

/-- Who answers a read. Its answers do not change, and one of them may be that
it cannot answer. -/
abbrev Provider := Nat → Except String PaymentAttempt

/-- The ids drawn for new accounts and the clock, as one attempt meets them. -/
structure Draw where
  clearingId : AccountId
  payableId : AccountId
  revenueId : AccountId
  now : Int

/-- A sweep: when it starts and finishes, how the database breaks ties, and what
each attempt meets. -/
structure Sweep where
  now : Int
  finishedAt : Int
  rank : Nat → Nat
  draws : Nat → Draw

def staleAfterMs : Int := 15 * 60000

def batchLimit : Nat := 100

def undivided (id : Nat) : String :=
  s!"payment intent {id} is a hire charge with no division, which intent_divides_only_if_it_is_a_charge should make unstorable"

def outcomeRefused (id : Nat) : String :=
  s!"the database refused the outcome for payment attempt {id}. The commonest cause is a second successful attempt against a booking that has already been captured, which §8.7.1 does not permit"

namespace State

def find (s : State) (id : Nat) : Option Stored := s.rows.find? (fun r => r.intent.id = id)

def stale (s : State) (now : Int) : List Stored :=
  s.rows.filter (fun r => !r.intent.status.isTerminal && decide (r.updatedAt < now - staleAfterMs))

end State

/-- Oldest first. What the database does with a tie is up to it. -/
def updatedOrder (rank : Nat → Nat) (r r' : Stored) : Prop :=
  r.updatedAt < r'.updatedAt ∨ r.updatedAt = r'.updatedAt ∧ rank r.intent.id ≤ rank r'.intent.id

instance (rank : Nat → Nat) : DecidableRel (updatedOrder rank) :=
  fun _ _ => inferInstanceAs (Decidable (_ ∨ _))

def findUnsettled (rank : Nat → Nat) (s : State) (now : Int) (limit : Nat) : List Stored :=
  ((s.stale now).insertionSort (updatedOrder rank)).take limit

section

variable (w : Wiring) (provider : Provider)

def State.write (s : State) (id : Nat) (attempt : PaymentAttempt) (now : Int) : State :=
  { s with
    rows := s.rows.map (fun r => if r.intent.id = id then ⟨recorded r.intent attempt, now⟩ else r)
    written := s.written ++ [id] }

def recordOutcome (s : State) (id : Nat) (attempt : PaymentAttempt) (now : Int) :
    Except String PaymentIntent × State :=
  match s.find id with
  | none => (.error (outcomeRefused id), s)
  | some row =>
    if outcomeAllowed { Payments.State.empty with intents := s.rows.map (·.intent) } (recorded row.intent attempt) then
      (.ok (recorded row.intent attempt), s.write id attempt now)
    else (.error (outcomeRefused id), s)

def postCapture (l : Ledger) (intent : PaymentIntent) (attempt : PaymentAttempt) (d : Draw) :
    Except String Unit × Ledger :=
  match intent.charge with
  | none => (.error (undivided intent.id), l)
  | some charge =>
    match settle w intent.bookingId intent.categoryVersionId charge with
    | .error e => (.error e, l)
    | .ok settlement =>
      let currency := settlement.renterPays.currency
      match l.accountFor d.clearingId ⟨.providerClearing, currency, none⟩ with
      | (.error e, l) => (.error e, l)
      | (.ok clearing, l) =>
        match l.accountFor d.payableId ⟨.ownerPayable, currency, some intent.ownerId⟩ with
        | (.error e, l) => (.error e, l)
        | (.ok payable, l) =>
          match l.accountFor d.revenueId ⟨.platformRevenue, currency, none⟩ with
          | (.error e, l) => (.error e, l)
          | (.ok revenue, l) =>
            match hireCaptureEntries settlement clearing.id payable.id revenue.id with
            | .error e => (.error e, l)
            | .ok entries =>
              let posted := l.post w.bookingExists (captureDraft intent attempt currency d.now entries)
              (posted.1.map (fun _ => ()), posted.2)

def applyOutcome (s : State) (intent : PaymentIntent) (attempt : PaymentAttempt) (d : Draw) :
    Except String PaymentIntent × State :=
  match dispositionOf intent.status attempt.status with
  | .error e => (.error e, s)
  | .ok (.ignore _) => (.ok intent, s)
  | .ok .apply =>
    if attempt.status = .succeeded ∧ intent.purpose = .hireCharge then
      let captured := postCapture w s.ledger intent attempt d
      match captured.1 with
      | .error e => (.error e, { s with ledger := captured.2 })
      | .ok _ => recordOutcome { s with ledger := captured.2 } intent.id attempt d.now
    else recordOutcome s intent.id attempt d.now

def refresh (s : State) (id : Nat) (d : Draw) : Except String (Option PaymentIntent) × State :=
  match s.find id with
  | none => (.ok none, s)
  | some row =>
    if row.intent.status.isTerminal then (.ok (some row.intent), s)
    else match row.intent.providerReference with
      | none => (.ok (some row.intent), s)
      | some reference =>
        let asked := { s with reads := s.reads ++ [(id, reference)] }
        match provider reference with
        | .error e => (.error e, asked)
        | .ok attempt =>
          let applied := applyOutcome w asked row.intent attempt d
          (applied.1.map some, applied.2)

structure ReconciliationResult where
  examined : Nat
  settled : Nat
  stillPending : Nat
  unreconcilable : Nat
  failed : Nat
  reachedLimit : Bool
  deriving DecidableEq, Repr

/-- One attempt of a sweep. A failure is counted and does not abandon the rest. -/
def examine (draws : Nat → Draw) (acc : ReconciliationResult × State) (row : Stored) :
    ReconciliationResult × State :=
  let s := { acc.2 with examined := acc.2.examined ++ [row.intent.id] }
  match row.intent.providerReference with
  | none => ({ acc.1 with unreconcilable := acc.1.unreconcilable + 1 }, s)
  | some _ =>
    let refreshed := refresh w provider s row.intent.id (draws row.intent.id)
    match refreshed.1 with
    | .error _ => ({ acc.1 with failed := acc.1.failed + 1 }, refreshed.2)
    | .ok intent =>
      if intent.any (fun i => i.status.isTerminal) then
        ({ acc.1 with settled := acc.1.settled + 1 }, refreshed.2)
      else ({ acc.1 with stillPending := acc.1.stillPending + 1 }, refreshed.2)

def sweep (limit : Nat) (s : State) (a : Sweep) : ReconciliationResult × State :=
  let stale := findUnsettled a.rank s a.now limit
  let counted : ReconciliationResult := ⟨stale.length, 0, 0, 0, 0, decide (limit ≤ stale.length)⟩
  stale.foldl (examine w provider a.draws) (counted, s)

/-- A sweep that starts later than the threshold after the one before it, and
whose writes fall between its start and its end. -/
def step (limit : Nat) (s : State) (a : Sweep) : Option State :=
  if s.finishedAt + staleAfterMs < a.now ∧ a.now ≤ a.finishedAt ∧
      (findUnsettled a.rank s a.now limit).all (fun r =>
        decide (a.now ≤ (a.draws r.intent.id).now ∧ (a.draws r.intent.id).now ≤ a.finishedAt)) then
    some { (sweep w provider limit s a).2 with finishedAt := a.finishedAt }
  else none

/-- No place of the batch goes to an attempt that an earlier sweep took up and
left as it was, while one that no sweep has taken up is left out. -/
def WastesNoPlace (limit : Nat) (s : State) (a : Sweep) : Prop :=
  ∀ row ∈ findUnsettled a.rank s a.now limit, row.intent.id ∈ s.examined → row.intent.id ∉ s.written →
    ∀ other ∈ s.stale a.now, other.intent.id ∉ s.examined → other ∈ findUnsettled a.rank s a.now limit

instance (limit : Nat) (s : State) (a : Sweep) : Decidable (WastesNoPlace limit s a) :=
  inferInstanceAs (Decidable (∀ row ∈ _, _))

/-- What a call about one attempt can do: its row is left or written, and
nothing else of the table changes. -/
structure Effect (id : Nat) (now : Int) (s s' : State) : Prop where
  rows : s'.rows = s.rows ∧ s'.written = s.written ∨
    ∃ attempt, s'.rows = (s.write id attempt now).rows ∧ s'.written = s.written ++ [id]
  reads : s.reads ⊆ s'.reads
  examined : s'.examined = s.examined

variable {s : State}

theorem Effect.refl (id : Nat) (now : Int) (s : State) : Effect id now s s :=
  ⟨.inl ⟨rfl, rfl⟩, List.Subset.refl _, rfl⟩

theorem recordOutcome_effect (id : Nat) (attempt : PaymentAttempt) (now : Int) (s : State) :
    Effect id now s (recordOutcome s id attempt now).2 := by
  unfold recordOutcome
  split
  · exact .refl id now s
  · split
    · exact ⟨.inr ⟨attempt, rfl, rfl⟩, List.Subset.refl _, rfl⟩
    · exact .refl id now s

theorem applyOutcome_effect (s : State) (intent : PaymentIntent) (attempt : PaymentAttempt) (d : Draw) :
    Effect intent.id d.now s (applyOutcome w s intent attempt d).2 := by
  unfold applyOutcome
  split
  · exact .refl _ _ s
  · exact .refl _ _ s
  · split
    · dsimp only
      split
      · exact ⟨.inl ⟨rfl, rfl⟩, List.Subset.refl _, rfl⟩
      · have heffect := recordOutcome_effect intent.id attempt d.now
          { s with ledger := (postCapture w s.ledger intent attempt d).2 }
        exact ⟨heffect.rows, heffect.reads, heffect.examined⟩
    · exact recordOutcome_effect intent.id attempt d.now s

theorem State.find_id {id : Nat} {row : Stored} (h : s.find id = some row) : row.intent.id = id := by
  simpa using List.find?_some h

theorem refresh_effect (s : State) (id : Nat) (d : Draw) :
    Effect id d.now s (refresh w provider s id d).2 := by
  unfold refresh
  cases hfind : s.find id with
  | none => exact .refl id d.now s
  | some row =>
    have hid := State.find_id hfind
    dsimp only
    split
    · exact .refl id d.now s
    · split
      · exact .refl id d.now s
      · rename_i reference _
        split
        · exact ⟨.inl ⟨rfl, rfl⟩, List.subset_append_left _ _, rfl⟩
        · rename_i attempt _
          have heffect := applyOutcome_effect w { s with reads := s.reads ++ [(id, reference)] }
            row.intent attempt d
          rw [hid] at heffect
          exact ⟨heffect.rows, fun x hx => heffect.reads (List.mem_append_left _ hx), heffect.examined⟩

theorem refresh_reads {id reference : Nat} {row : Stored} (hfind : s.find id = some row)
    (hopen : row.intent.status.isTerminal = false)
    (hreference : row.intent.providerReference = some reference) (d : Draw) :
    (id, reference) ∈ (refresh w provider s id d).2.reads := by
  unfold refresh
  simp only [hfind, hopen, hreference, Bool.false_eq_true, if_false]
  split
  · exact List.mem_append_right _ List.mem_cons_self
  · rename_i attempt _
    have heffect := applyOutcome_effect w { s with reads := s.reads ++ [(id, reference)] }
      row.intent attempt d
    exact heffect.reads (List.mem_append_right _ List.mem_cons_self)

theorem examine_effect (draws : Nat → Draw) (acc : ReconciliationResult × State) (row : Stored) :
    Effect row.intent.id (draws row.intent.id).now
      { acc.2 with examined := acc.2.examined ++ [row.intent.id] } (examine w provider draws acc row).2 := by
  unfold examine
  cases hreference : row.intent.providerReference with
  | none => exact .refl _ _ _
  | some reference =>
    have heffect := refresh_effect w provider
      { acc.2 with examined := acc.2.examined ++ [row.intent.id] } row.intent.id (draws row.intent.id)
    dsimp only
    split
    · exact heffect
    · split
      · exact heffect
      · exact heffect

theorem write_ids (s : State) (id : Nat) (attempt : PaymentAttempt) (now : Int) :
    (s.write id attempt now).rows.map (·.intent.id) = s.rows.map (·.intent.id) := by
  rw [State.write, List.map_map]
  apply List.map_congr_left
  intro r _
  simp only [Function.comp_apply]
  split <;> rfl

theorem mem_write {id : Nat} {attempt : PaymentAttempt} {now : Int} {r : Stored}
    (h : r ∈ (s.write id attempt now).rows) :
    r ∈ s.rows ∧ r.intent.id ≠ id ∨ r.intent.id = id ∧ r.updatedAt = now := by
  obtain ⟨old, hold, rfl⟩ := List.mem_map.mp h
  by_cases hid : old.intent.id = id
  · rw [if_pos hid]
    exact .inr ⟨hid, rfl⟩
  · rw [if_neg hid]
    exact .inl ⟨hold, hid⟩

theorem mem_write_of_ne {id : Nat} {attempt : PaymentAttempt} {now : Int} {r : Stored} (h : r ∈ s.rows)
    (hid : r.intent.id ≠ id) : r ∈ (s.write id attempt now).rows :=
  List.mem_map.mpr ⟨r, h, if_neg hid⟩

/-- What sweeps that began at `began` keep of the table they started from: the
rows they have not taken up are as they were, those they wrote are no older than
the first of them, and what they took up they asked about. -/
structure Kept (origin : State) (began : Int) (s : State) : Prop where
  keys : (s.rows.map (·.intent.id)).Nodup
  untouched : ∀ r, r.intent.id ∉ s.examined → (r ∈ s.rows ↔ r ∈ origin.rows)
  written : ∀ r ∈ s.rows, r.intent.id ∈ s.written → began ≤ r.updatedAt
  read : ∀ r ∈ origin.stale began, r.intent.id ∈ s.examined →
    ∀ reference, r.intent.providerReference = some reference → (r.intent.id, reference) ∈ s.reads

section

variable {origin : State} {began : Int} (horigin : (origin.rows.map (·.intent.id)).Nodup)

include horigin

/-- One attempt more. -/
theorem examine_kept (draws : Nat → Draw) {acc : ReconciliationResult × State} {row : Stored}
    (hkept : Kept origin began acc.2) (hrow : row.intent.id ∉ acc.2.examined → row ∈ origin.rows)
    (hnow : began ≤ (draws row.intent.id).now) :
    Kept origin began (examine w provider draws acc row).2 ∧
      (examine w provider draws acc row).2.examined = acc.2.examined ++ [row.intent.id] := by
  have heffect := examine_effect w provider draws acc row
  refine ⟨⟨?_, ?_, ?_, ?_⟩, heffect.examined⟩
  · obtain ⟨hrows, -⟩ | ⟨attempt, hrows, -⟩ := heffect.rows
    · rw [hrows]
      exact hkept.keys
    · rw [hrows, write_ids]
      exact hkept.keys
  · intro r hr
    rw [heffect.examined, List.mem_append, List.mem_singleton, not_or] at hr
    rw [← hkept.untouched r hr.1]
    obtain ⟨hrows, -⟩ | ⟨attempt, hrows, -⟩ := heffect.rows
    · rw [hrows]
    · rw [hrows]
      constructor
      · intro hmem
        obtain ⟨hmem, -⟩ | ⟨hid, -⟩ := mem_write hmem
        · exact hmem
        · exact absurd hid hr.2
      · intro hmem
        exact mem_write_of_ne hmem hr.2
  · intro r hr hwritten
    obtain ⟨hrows, hids⟩ | ⟨attempt, hrows, hids⟩ := heffect.rows
    · rw [hrows] at hr
      rw [hids] at hwritten
      exact hkept.written r hr hwritten
    · rw [hrows] at hr
      rw [hids, List.mem_append, List.mem_singleton] at hwritten
      obtain ⟨hmem, hne⟩ | ⟨-, hupdated⟩ := mem_write hr
      · exact hkept.written r hmem (hwritten.resolve_right hne)
      · rw [hupdated]
        exact hnow
  · intro r hr hexamined reference hreference
    by_cases hbefore : r.intent.id ∈ acc.2.examined
    · exact heffect.reads (hkept.read r hr hbefore reference hreference)
    · rw [heffect.examined, List.mem_append, List.mem_singleton] at hexamined
      have hid := hexamined.resolve_left hbefore
      obtain ⟨hmem, hstale⟩ := List.mem_filter.mp hr
      rw [hid] at hbefore
      -- The row of the batch is still the row the sweeps started from.
      have hsame : r = row := Keyed.eq_of_key horigin hmem
        (hrow hbefore) hid
      subst hsame
      have hfind : acc.2.find r.intent.id = some r :=
        Keyed.find?_key hkept.keys ((hkept.untouched r hbefore).mpr hmem)
      have hopen : r.intent.status.isTerminal = false := by
        simp only [Bool.and_eq_true, Bool.not_eq_true'] at hstale
        exact hstale.1
      have hread := refresh_reads w provider
        (s := { acc.2 with examined := acc.2.examined ++ [r.intent.id] }) hfind hopen hreference
        (draws r.intent.id)
      unfold examine
      simp only [hreference]
      split
      · exact hread
      · split
        · exact hread
        · exact hread

theorem foldl_examine_kept (draws : Nat → Draw) (batch : List Stored) (acc : ReconciliationResult × State)
    (hkept : Kept origin began acc.2)
    (hrows : ∀ row ∈ batch, row.intent.id ∉ acc.2.examined → row ∈ origin.rows)
    (hnow : ∀ row ∈ batch, began ≤ (draws row.intent.id).now) :
    Kept origin began (batch.foldl (examine w provider draws) acc).2 ∧
      (batch.foldl (examine w provider draws) acc).2.examined =
        acc.2.examined ++ batch.map (·.intent.id) := by
  induction batch generalizing acc with
  | nil => exact ⟨hkept, by simp⟩
  | cons row batch ih =>
    obtain ⟨hnext, hexamined⟩ := examine_kept w provider horigin draws hkept
      (hrows row List.mem_cons_self) (hnow row List.mem_cons_self)
    obtain ⟨hlast, hall⟩ := ih (examine w provider draws acc row) hnext
      (fun other hother hnot => hrows other (List.mem_cons_of_mem row hother) (fun hmem => hnot (by
        rw [hexamined]
        exact List.mem_append_left _ hmem)))
      (fun other hother => hnow other (List.mem_cons_of_mem row hother))
    refine ⟨hlast, ?_⟩
    rw [List.foldl_cons, hall, hexamined, List.map_cons, List.append_assoc, List.singleton_append]

end

instance (rank : Nat → Nat) : Std.Total (updatedOrder rank) where
  total r r' := by
    unfold updatedOrder
    omega

instance (rank : Nat → Nat) : IsTrans Stored (updatedOrder rank) where
  trans r r' r'' h h' := by
    unfold updatedOrder at h h' ⊢
    omega

theorem mem_stale_of_mem {rank : Nat → Nat} {now : Int} {limit : Nat} {r : Stored}
    (h : r ∈ findUnsettled rank s now limit) : r ∈ s.stale now :=
  (List.mem_insertionSort _).mp (List.mem_of_mem_take h)

theorem findUnsettled_of_not_mem {rank : Nat → Nat} {now : Int} {limit : Nat} {u : Stored}
    (hu : u ∈ s.stale now) (hout : u ∉ findUnsettled rank s now limit) :
    (findUnsettled rank s now limit).length = limit ∧
      ∀ r ∈ findUnsettled rank s now limit, r.updatedAt ≤ u.updatedAt := by
  unfold findUnsettled at hout ⊢
  have hsorted := List.pairwise_insertionSort (updatedOrder rank) (s.stale now)
  have hu' := (List.mem_insertionSort (updatedOrder rank)).mpr hu
  generalize (s.stale now).insertionSort (updatedOrder rank) = sorted at hsorted hu' hout
  have hsplit : u ∈ sorted.take limit ∨ u ∈ sorted.drop limit := by
    rw [← List.mem_append, List.take_append_drop]
    exact hu'
  have hdrop := hsplit.resolve_left hout
  rw [← List.take_append_drop limit sorted, List.pairwise_append] at hsorted
  constructor
  · rw [List.length_take, min_eq_left]
    have hpos := List.length_pos_of_mem hdrop
    rw [List.length_drop] at hpos
    omega
  · intro r hr
    obtain hlt | ⟨heq, -⟩ := hsorted.2.2 r hr u hdrop
    · exact hlt.le
    · exact heq.le

def waiting (origin : State) (began : Int) (s : State) : List Stored :=
  (origin.stale began).filter (fun r => r.intent.id ∉ s.examined)

/-- Where somebody who waits is left out, the batch is full of those who wait. -/
theorem batch_waiting {origin : State} {began : Int} {limit : Nat} {a : Sweep} (hkept : Kept origin began s)
    (hnow : began ≤ a.now) (hplaces : WastesNoPlace limit s a) {u : Stored}
    (hu : u ∈ waiting origin began s) (hout : u ∉ findUnsettled a.rank s a.now limit) :
    (findUnsettled a.rank s a.now limit).length = limit ∧
      ∀ r ∈ findUnsettled a.rank s a.now limit, r ∈ waiting origin began s := by
  obtain ⟨hstale, hnew⟩ := List.mem_filter.mp hu
  obtain ⟨hrow, hold⟩ := List.mem_filter.mp hstale
  have hnew : u.intent.id ∉ s.examined := by simpa using hnew
  simp only [Bool.and_eq_true, decide_eq_true_eq] at hold
  have hstale' : u ∈ s.stale a.now := by
    refine List.mem_filter.mpr ⟨(hkept.untouched u hnew).mpr hrow, ?_⟩
    simp only [Bool.and_eq_true, decide_eq_true_eq]
    exact ⟨hold.1, by omega⟩
  obtain ⟨hfull, hle⟩ := findUnsettled_of_not_mem hstale' hout
  refine ⟨hfull, fun r hr => ?_⟩
  have hrstale := mem_stale_of_mem hr
  obtain ⟨hrrow, hropen⟩ := List.mem_filter.mp hrstale
  simp only [Bool.and_eq_true, decide_eq_true_eq] at hropen
  have hbefore : r.updatedAt < began - staleAfterMs := (hle r hr).trans_lt hold.2
  -- A row that was written is newer than everybody who waits.
  have hunwritten : r.intent.id ∉ s.written := by
    intro hwritten
    have hlate := hkept.written r hrrow hwritten
    unfold staleAfterMs at hbefore
    omega
  have hrnew : r.intent.id ∉ s.examined := fun hexamined =>
    hout (hplaces r hr hexamined hunwritten u hstale' hnew)
  refine List.mem_filter.mpr ⟨List.mem_filter.mpr ⟨(hkept.untouched r hrnew).mp hrrow, ?_⟩, by simpa using hrnew⟩
  simp only [Bool.and_eq_true, decide_eq_true_eq]
  exact ⟨hropen.1, hbefore⟩

section

variable {origin : State} {began : Int} (horigin : (origin.rows.map (·.intent.id)).Nodup)

include horigin

/-- A sweep that wastes no place takes up a whole batch of those, or all of them. -/
theorem sweep_progress {limit : Nat} {s' : State} {a : Sweep} (hkept : Kept origin began s)
    (hnow : began ≤ a.now) (hplaces : WastesNoPlace limit s a) (h : step w provider limit s a = some s') :
    Kept origin began s' ∧ (waiting origin began s').length ≤ (waiting origin began s).length - limit := by
  unfold step at h
  split at h
  · rename_i hclock
    cases h
    obtain ⟨-, -, hclock⟩ := hclock
    let batch := findUnsettled a.rank s a.now limit
    have hbatch : ∀ row ∈ batch, row.intent.id ∉ s.examined → row ∈ origin.rows := fun row hrow hnew =>
      (hkept.untouched row hnew).mp (List.mem_filter.mp (mem_stale_of_mem hrow)).1
    obtain ⟨hnext, hexamined⟩ := foldl_examine_kept w provider horigin a.draws batch
      (⟨batch.length, 0, 0, 0, 0, decide (limit ≤ batch.length)⟩, s) hkept hbatch
      (fun row hrow => hnow.trans (of_decide_eq_true (List.all_eq_true.mp hclock row hrow)).1)
    refine ⟨⟨hnext.keys, hnext.untouched, hnext.written, hnext.read⟩, ?_⟩
    have hstill : waiting origin began { (sweep w provider limit s a).2 with finishedAt := a.finishedAt } =
        (waiting origin began s).filter (fun r => r.intent.id ∉ batch.map (·.intent.id)) := by
      unfold waiting
      rw [List.filter_filter]
      apply List.filter_congr
      intro r _
      have hexamined' : (sweep w provider limit s a).2.examined = s.examined ++ batch.map (·.intent.id) := hexamined
      simp only [hexamined', List.mem_append, not_or, Bool.decide_and, Bool.and_comm]
    rw [hstill]
    by_cases hall : ∀ u ∈ waiting origin began s, u ∈ batch
    · -- Everything that waited is in the batch.
      have hnone : (waiting origin began s).filter (fun r => r.intent.id ∉ batch.map (·.intent.id)) = [] := by
        refine List.filter_eq_nil_iff.mpr (fun u hu => ?_)
        simpa using ⟨u, hall u hu, rfl⟩
      rw [hnone]
      exact Nat.zero_le _
    · -- Somebody is left out, so the batch is full, and nobody in it was taken up before.
      push Not at hall
      obtain ⟨u, hu, hout⟩ := hall
      obtain ⟨hfull, hnew⟩ := batch_waiting hkept hnow hplaces hu hout
      have hlength : batch.length = limit := hfull
      have hids : (batch.map (·.intent.id)).Nodup :=
        (hkept.keys.sublist (List.filter_sublist.map _)).perm
          ((List.perm_insertionSort (updatedOrder a.rank) (s.stale a.now)).symm.map _) |>.sublist
            ((List.take_sublist limit _).map _)
      have hplaced : batch.length ≤ ((waiting origin began s).filter
          (fun r => r.intent.id ∈ batch.map (·.intent.id))).length := by
        have hsubset : batch ⊆ (waiting origin began s).filter (fun r => r.intent.id ∈ batch.map (·.intent.id)) :=
          fun r hr => List.mem_filter.mpr ⟨hnew r hr, by simpa using ⟨r, hr, rfl⟩⟩
        exact (List.subperm_of_subset hids.of_map hsubset).length_le
      have hcount := List.length_eq_length_filter_add (l := waiting origin began s)
        (fun r => decide (r.intent.id ∈ batch.map (·.intent.id)))
      simp only [decide_not] at hcount ⊢
      omega
  · cases h

end

theorem step_clock {limit : Nat} {s' : State} {a : Sweep} (h : step w provider limit s a = some s') :
    s.finishedAt + staleAfterMs < a.now ∧ a.now ≤ s'.finishedAt := by
  unfold step at h
  split at h
  · rename_i hclock
    cases h
    exact ⟨hclock.1, hclock.2.1⟩
  · cases h

/-- Sweeps that waste no place make progress: after one sweep for each batch of
the attempts that were stale at the first, every one of them that has a
reference has been read from the provider. -/
theorem sweeps_read_all {limit : Nat} (hlimit : 0 < limit) {s' : State} {first : Sweep} {rest : List Sweep}
    (hkeys : (s.rows.map (·.intent.id)).Nodup) (hfresh : s.examined = [] ∧ s.written = [])
    (hrun : run (step w provider limit) s (first :: rest) = some s')
    (hplaces : Meets (step w provider limit) (WastesNoPlace limit) s (first :: rest))
    (hlength : ((s.stale first.now).length + limit - 1) / limit ≤ (first :: rest).length) :
    ∀ row ∈ s.stale first.now, ∀ reference, row.intent.providerReference = some reference →
      (row.intent.id, reference) ∈ s'.reads := by
  have hstart : Kept s first.now s :=
    ⟨hkeys, fun _ _ => Iff.rfl, by simp [hfresh.2], by simp [hfresh.1]⟩
  have hall : (waiting s first.now s).length = (s.stale first.now).length := by
    simp [waiting, hfresh.1]
  obtain ⟨u, hu, hrun⟩ := run_cons_eq_some.mp hrun
  obtain ⟨hfirst, hplaces⟩ := (meets_cons hu).mp hplaces
  obtain ⟨hkept, hle⟩ := sweep_progress w provider hkeys hstart le_rfl hfirst hu
  have hclock := (step_clock w provider hu).2
  -- Every later sweep starts after the first one has finished.
  have hlater : ∀ t a t', Kept s first.now t ∧ first.now ≤ t.finishedAt → WastesNoPlace limit t a →
      step w provider limit t a = some t' → (Kept s first.now t' ∧ first.now ≤ t'.finishedAt) ∧
        (waiting s first.now t').length ≤ (waiting s first.now t).length - limit := by
    intro t a t' ht ha hstep
    obtain ⟨hstarts, hends⟩ := step_clock w provider hstep
    unfold staleAfterMs at hstarts
    obtain ⟨hkept', hle'⟩ := sweep_progress w provider hkeys ht.1 (by omega) ha hstep
    exact ⟨⟨hkept', by omega⟩, hle'⟩
  obtain ⟨⟨hlast, -⟩, hdone⟩ := run_countdown hlater hrun hplaces ⟨hkept, hclock⟩
  have henough : (s.stale first.now).length ≤ limit * (rest.length + 1) := by
    have hlt := (Nat.div_lt_iff_lt_mul hlimit).mp (Nat.lt_succ_of_le hlength)
    rw [List.length_cons, Nat.succ_mul, Nat.mul_comm] at hlt
    omega
  rw [Nat.mul_succ] at henough
  have hempty : waiting s first.now s' = [] := List.length_eq_zero_iff.mp (by omega)
  intro row hrow reference hreference
  refine hlast.read row hrow ?_ reference hreference
  by_contra hnew
  have hwaits : row ∈ waiting s first.now s' := List.mem_filter.mpr ⟨hrow, by simpa using hnew⟩
  rw [hempty] at hwaits
  cases hwaits

end

def nothingWired : Wiring := ⟨fun _ => none, exactPercentageOf, fun _ => true, "fake"⟩

def sweepAt (now : Int) : Sweep where
  now := now
  finishedAt := now
  rank := fun id => id
  draws := fun _ => ⟨⟨"clearing", by decide, by decide⟩, ⟨"payable", by decide, by decide⟩,
    ⟨"revenue", by decide, by decide⟩, now⟩

def openHold (id : Nat) (providerReference : Option Nat) : PaymentIntent where
  bookingId := id.repr
  purpose := .damageSecurity
  attemptKey := securityHoldKey id.repr 0
  ownerId := "owner"
  categoryVersionId := "v1"
  division := none
  amount := ⟨5000, .gbp⟩
  provider := "fake"
  id := id
  status := if providerReference.isSome then .processing else .initiated
  providerReference := providerReference
  authorisationExpiresAt := none
  failure := none

def allSucceeded : Provider := fun reference => .ok ⟨reference, .succeeded, none, none, none, none⟩

def twoHolds : State where
  rows := [⟨openHold 0 (some 10), 0⟩, ⟨openHold 1 (some 11), 1⟩]
  ledger := .empty
  reads := []
  examined := []
  written := []
  finishedAt := 0

theorem twoHolds_read : ∃ s', run (step nothingWired allSucceeded 1) twoHolds [sweepAt 1000000, sweepAt 2000000] =
    some s' ∧ (0, 10) ∈ s'.reads ∧ (1, 11) ∈ s'.reads := by
  have hrun : (run (step nothingWired allSucceeded 1) twoHolds [sweepAt 1000000, sweepAt 2000000]).isSome := by
    decide +kernel
  obtain ⟨s', hs'⟩ := Option.isSome_iff_exists.mp hrun
  have hplaces : Meets (step nothingWired allSucceeded 1) (WastesNoPlace 1) twoHolds
      [sweepAt 1000000, sweepAt 2000000] := by decide +kernel
  have hread := sweeps_read_all nothingWired allSucceeded (by decide) (by decide) (by decide) hs' hplaces
    (by decide +kernel)
  exact ⟨s', hs', hread ⟨openHold 0 (some 10), 0⟩ (by decide +kernel) 10 rfl,
    hread ⟨openHold 1 (some 11), 1⟩ (by decide +kernel) 11 rfl⟩

/-- A hundred attempts that were written and never sent, and behind them one
that was. -/
def crowded : State where
  rows := (List.range 101).map (fun id => ⟨openHold id (if id = 100 then some 7 else none), id⟩)
  ledger := .empty
  reads := []
  examined := []
  written := []
  finishedAt := 0

/-- Two sweeps, enough for all hundred and one, never get to the one that could
be read. -/
theorem crowded_never_read : ¬ ∀ (w : Wiring) (provider : Provider) (limit : Nat) (s s' : State)
    (first : Sweep) (rest : List Sweep), 0 < limit → (s.rows.map (·.intent.id)).Nodup →
    s.examined = [] ∧ s.written = [] → run (step w provider limit) s (first :: rest) = some s' →
    ((s.stale first.now).length + limit - 1) / limit ≤ (first :: rest).length →
    ∀ row ∈ s.stale first.now, ∀ reference, row.intent.providerReference = some reference →
      (row.intent.id, reference) ∈ s'.reads := by
  intro hclaim
  have hrun : (run (step nothingWired allSucceeded batchLimit) crowded
      [sweepAt 1000000, sweepAt 2000000]).map (·.reads) = some [] := by
    decide +kernel
  obtain ⟨s', hs', hreads⟩ := Option.map_eq_some_iff.mp hrun
  have hread := hclaim nothingWired allSucceeded batchLimit crowded s' (sweepAt 1000000) [sweepAt 2000000]
    (by decide) (by decide +kernel) (by decide) hs' (by decide +kernel) ⟨openHold 100 (some 7), 100⟩
    (by decide +kernel) 7 rfl
  rw [hreads] at hread
  cases hread

end RentalMarket.Payments.Reconciliation
