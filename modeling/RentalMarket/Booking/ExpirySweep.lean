import RentalMarket.Booking.History
import RentalMarket.Booking.Tables
import RentalMarket.Lib.Backlog

namespace RentalMarket.Booking

open RentalMarket.Core BookingState State Backlog

structure ExpiredRequest where
  id : Id
  renterId : Id
  listingId : Id
  deriving DecidableEq, Repr

def ExpiredRequest.ofRow (row : BookingRow) : ExpiredRequest := ⟨row.id, row.renterId, row.listingId⟩

structure ExpirySweepResult where
  expired : List ExpiredRequest
  reachedLimit : Bool
  deriving DecidableEq, Repr

def ExpirySweepResult.ids (result : ExpirySweepResult) : List Id := result.expired.map (·.id)

theorem ids_ofRow (rows : List BookingRow) (reachedLimit : Bool) :
    ExpirySweepResult.ids ⟨rows.map .ofRow, reachedLimit⟩ = rows.map (·.id) := List.map_map

def expiredEvent (id : Id) : BookingEvent := stateChangedEvent id requested expired none

namespace Tables

/-- `expireRequests` with its answer, statement by statement. -/
def expireRequestsReturning (r : Tables) (now : Instant) (limit : Nat) : ExpirySweepResult × Tables :=
  let candidates := r.quiet.expiryCandidates now limit
  if candidates.length = 0 then (⟨[], false⟩, r)
  else
    -- the `WHERE` of the update restates the state and the deadline
    let rows := candidates.filterMap (fun id => (r.find id).filter (overdue now))
    (⟨rows.map ExpiredRequest.ofRow, decide (candidates.length = limit)⟩,
      ⟨r.move (rows.map (·.id)) expired, r.events ++ rows.map (fun row => expiredEvent row.id)⟩)

def sweeps (now : Instant) (limit : Nat) : Nat → Tables → List ExpirySweepResult × Tables
  | 0, r => ([], r)
  | k + 1, r =>
    let first := r.expireRequestsReturning now limit
    let rest := sweeps now limit k first.2
    (first.1 :: rest.1, rest.2)

end Tables

/-- `BATCH_LIMIT` of `RequestExpiryService`. -/
def batchLimit : Nat := 500

/-- `RequestExpiryService.sweep`. -/
def Tables.sweep (r : Tables) (now : Instant) :
    Except (BookingState × BookingState) (ExpirySweepResult × Tables) :=
  match assertTransition requested expired with
  | .error e => .error e
  | .ok _ => .ok (r.expireRequestsReturning now batchLimit)

/-- From one pair of tables to the next these overdue requests have expired,
each with one event, and nothing else has changed. -/
structure Expires (now : Instant) (r r' : Tables) (ids : List Id) : Prop where
  nodup : ids.Nodup
  due : ∀ id ∈ ids, ∃ row ∈ r.bookings, row.id = id ∧ overdue now row = true
  bookings : r'.bookings = r.move ids expired
  events : r'.events = r.events ++ ids.map expiredEvent

/-- As many as there are up to `n`, and none before one that has waited longer. -/
structure Earliest (now : Instant) (n : Nat) (r : Tables) (ids : List Id) : Prop where
  length : ids.length = min (r.bookings.countP (overdue now)) n
  first : ∀ row ∈ r.bookings, row.id ∈ ids →
    ∀ other ∈ r.bookings, overdue now other = true → other.id ∉ ids → expiryOrder row other

/-- What `k` calls in a row do, and what the call after them answers. -/
structure Drains (now : Instant) (limit k : Nat) (r : Tables) : Prop where
  expires : Expires now r (Tables.sweeps now limit k r).2 ((Tables.sweeps now limit k r).1.flatMap (·.ids))
  earliest : Earliest now (k * limit) r ((Tables.sweeps now limit k r).1.flatMap (·.ids))
  selected : ((Tables.sweeps now limit k r).2.expireRequestsReturning now limit).1.reachedLimit = true ↔
    ((Tables.sweeps now limit k r).2.quiet.expiryCandidates now limit).length = limit
  stops : ((Tables.sweeps now limit k r).2.expireRequestsReturning now limit).1.reachedLimit = true ↔
    (k + 1) * limit ≤ r.bookings.countP (overdue now)
  cleared : ((Tables.sweeps now limit k r).2.expireRequestsReturning now limit).1.reachedLimit = false →
    ∀ row ∈ ((Tables.sweeps now limit k r).2.expireRequestsReturning now limit).2.bookings,
      overdue now row = false

instance : Std.Total expiryOrder where
  total r r' := by
    rcases lt_trichotomy r.requestExpiresAt r'.requestExpiresAt with h | h | h
    · exact .inl (.inl h)
    · exact (le_total r.id r'.id).imp (fun hid => .inr ⟨h, hid⟩) (fun hid => .inr ⟨h.symm, hid⟩)
    · exact .inr (.inl h)

instance : IsTrans BookingRow expiryOrder where
  trans r r' r'' h h' := by
    obtain h | ⟨h, hid⟩ := h
    · obtain h' | ⟨h', -⟩ := h'
      · exact .inl (h.trans h')
      · exact .inl (h' ▸ h)
    · obtain h' | ⟨h', hid'⟩ := h'
      · exact .inl (h ▸ h')
      · exact .inr ⟨h.trans h', hid.trans hid'⟩

theorem expiryOrder_antisymm {r r' : BookingRow} (h : expiryOrder r r') (h' : expiryOrder r' r) :
    r.id = r'.id := by
  obtain h | ⟨h, hid⟩ := h
  · obtain h' | ⟨h', -⟩ := h'
    · exact absurd h h'.not_gt
    · exact absurd h' h.ne'
  · obtain h' | ⟨-, hid'⟩ := h'
    · exact absurd h h'.ne'
    · exact le_antisymm hid hid'

namespace Tables

abbrev overdueRows (r : Tables) (now : Instant) : List BookingRow := backlog expiryOrder (overdue now) r.bookings

variable {r : Tables} {now : Instant}

theorem expiryCandidates_eq (limit : Nat) :
    r.quiet.expiryCandidates now limit = ((r.overdueRows now).take limit).map (·.id) := rfl

theorem move_nil (state : BookingState) : r.move [] state = r.bookings := by
  simp [move]

theorem move_move (ids ids' : List Id) (state : BookingState) (events : List BookingEvent) :
    move ⟨r.move ids state, events⟩ ids' state = r.move (ids ++ ids') state := by
  rw [move, move, move, List.map_map]
  apply List.map_congr_left
  intro row _
  by_cases h : row.id ∈ ids <;> by_cases h' : row.id ∈ ids' <;> simp [h, h']

theorem filterMap_expiryCandidates (hn : (r.bookings.map (·.id)).Nodup) (limit : Nat) :
    (r.quiet.expiryCandidates now limit).filterMap (fun id => (r.find id).filter (overdue now)) =
      (r.overdueRows now).take limit := by
  have hrow : ∀ row ∈ (r.overdueRows now).take limit, (r.find row.id).filter (overdue now) = some row := by
    intro row hrow
    obtain ⟨hmem, hdue⟩ := mem_backlog.mp (List.mem_of_mem_take hrow)
    rw [find, Keyed.find?_key hn hmem, Option.filter_some_pos hdue]
  rw [expiryCandidates_eq, List.filterMap_map]
  exact (List.filterMap_congr hrow).trans List.filterMap_some

theorem expireRequests_eq (limit : Nat) : r.expireRequests now limit =
    ⟨r.move (((r.overdueRows now).take limit).map (·.id)) expired,
      r.events ++ ((r.overdueRows now).take limit).map (fun row => expiredEvent row.id)⟩ := by
  simp only [expireRequests, expiryCandidates_eq, List.map_map]
  rfl

/-- The update takes every candidate, and a batch is full when there are rows
enough to fill it. -/
theorem expireRequestsReturning_eq (hn : (r.bookings.map (·.id)).Nodup) {limit : Nat} (hlimit : 1 ≤ limit) :
    r.expireRequestsReturning now limit =
      (⟨((r.overdueRows now).take limit).map .ofRow, decide (limit ≤ (r.overdueRows now).length)⟩,
        r.expireRequests now limit) := by
  have hlength : (r.quiet.expiryCandidates now limit).length = min limit (r.overdueRows now).length := by
    rw [expiryCandidates_eq, List.length_map, List.length_take]
  simp only [expireRequestsReturning, filterMap_expiryCandidates hn, hlength]
  split
  · rename_i hnone
    have hempty : r.overdueRows now = [] := List.length_eq_zero_iff.mp (by omega)
    rw [expireRequests_eq, hempty]
    simp [move_nil]
    omega
  · rw [expireRequests_eq]
    congr 2
    simp

theorem keys_expireRequests (hn : (r.bookings.map (·.id)).Nodup) (limit : Nat) :
    ((r.expireRequests now limit).bookings.map (·.id)).Nodup := by
  rw [expireRequests_eq, move_ids]
  exact hn

theorem overdueRows_expireRequests (hn : (r.bookings.map (·.id)).Nodup) (limit : Nat) :
    (r.expireRequests now limit).overdueRows now = (r.overdueRows now).drop limit := by
  rw [expireRequests_eq]
  apply backlog_served hn (fun _ _ => expiryOrder_antisymm)
  · intro row
    rfl
  · intro row
    rfl

theorem expireRequests_expireRequests (hn : (r.bookings.map (·.id)).Nodup) (limit limit' : Nat) :
    (r.expireRequests now limit).expireRequests now limit' = r.expireRequests now (limit + limit') := by
  rw [expireRequests_eq (r := r.expireRequests now limit), overdueRows_expireRequests hn,
    expireRequests_eq, expireRequests_eq, List.take_add, move_move]
  simp

theorem sweeps_eq (hn : (r.bookings.map (·.id)).Nodup) {limit : Nat} (hlimit : 1 ≤ limit) (k : Nat) :
    (sweeps now limit k r).1.flatMap (·.ids) = ((r.overdueRows now).take (k * limit)).map (·.id) ∧
      (sweeps now limit k r).2 = r.expireRequests now (k * limit) := by
  induction k generalizing r with
  | zero =>
    rw [Nat.zero_mul, expireRequests_eq]
    simp [sweeps, move_nil]
  | succ k ih =>
    have hn' : ((r.expireRequests now limit).bookings.map (·.id)).Nodup := keys_expireRequests hn limit
    obtain ⟨hids, htables⟩ := ih hn'
    have hlimits : (k + 1) * limit = limit + k * limit := by rw [Nat.succ_mul, Nat.add_comm]
    simp only [sweeps, expireRequestsReturning_eq hn hlimit, List.flatMap_cons]
    rw [hids, htables, overdueRows_expireRequests hn, expireRequests_expireRequests hn, hlimits, List.take_add,
      List.map_append, ids_ofRow]
    exact ⟨rfl, rfl⟩

theorem expires_expireRequests (hn : (r.bookings.map (·.id)).Nodup) (limit : Nat) :
    Expires now r (r.expireRequests now limit) (((r.overdueRows now).take limit).map (·.id)) where
  nodup := (nodup_backlog hn).sublist ((List.take_sublist _ _).map _)
  due id hid := by
    obtain ⟨row, hrow, rfl⟩ := List.mem_map.mp hid
    obtain ⟨hmem, hdue⟩ := mem_backlog.mp (List.mem_of_mem_take hrow)
    exact ⟨row, hmem, rfl, hdue⟩
  bookings := rfl
  events := rfl

theorem earliest_expireRequests (hn : (r.bookings.map (·.id)).Nodup) (limit : Nat) :
    Earliest now limit r (((r.overdueRows now).take limit).map (·.id)) where
  length := by
    rw [List.length_map, List.length_take, length_backlog, Nat.min_comm]
  first row hrow hid other hother hdue hleft := by
    obtain ⟨chosen, hchosen, hsame⟩ := List.mem_map.mp hid
    have hmem := mem_backlog.mp (List.mem_of_mem_take hchosen)
    rw [← Keyed.eq_of_key hn hmem.1 hrow hsame]
    apply le_of_take_of_drop hchosen
    apply (mem_drop_backlog hn).mpr
    exact ⟨mem_backlog.mpr ⟨hother, hdue⟩, hleft⟩

theorem reachedLimit_iff (hn : (r.bookings.map (·.id)).Nodup) {limit : Nat} (hlimit : 1 ≤ limit) :
    (r.expireRequestsReturning now limit).1.reachedLimit = true ↔
      (r.quiet.expiryCandidates now limit).length = limit := by
  rw [expireRequestsReturning_eq hn hlimit, expiryCandidates_eq, List.length_map, List.length_take]
  simp

theorem not_overdue_of_reachedLimit (hn : (r.bookings.map (·.id)).Nodup) {limit : Nat} (hlimit : 1 ≤ limit)
    (h : (r.expireRequestsReturning now limit).1.reachedLimit = false) :
    ∀ row ∈ (r.expireRequestsReturning now limit).2.bookings, overdue now row = false := by
  rw [expireRequestsReturning_eq hn hlimit] at h ⊢
  have hrest : (r.expireRequests now limit).overdueRows now = [] := by
    rw [overdueRows_expireRequests hn]
    apply List.drop_eq_nil_of_le
    have hshort : ¬limit ≤ (r.overdueRows now).length := by simpa using h
    omega
  intro row hrow
  by_contra hdue
  have hmem : row ∈ (r.expireRequests now limit).overdueRows now :=
    mem_backlog.mpr ⟨hrow, by simpa using hdue⟩
  rw [hrest] at hmem
  cases hmem

theorem keys_sweeps (hn : (r.bookings.map (·.id)).Nodup) {limit : Nat} (hlimit : 1 ≤ limit) (k : Nat) :
    ((sweeps now limit k r).2.bookings.map (·.id)).Nodup := by
  rw [(sweeps_eq hn hlimit k).2]
  exact keys_expireRequests hn _

/-- The call after `k` others fills its batch as long as there are requests
for it. -/
theorem reachedLimit_sweeps (hn : (r.bookings.map (·.id)).Nodup) {limit : Nat} (hlimit : 1 ≤ limit) (k : Nat) :
    ((sweeps now limit k r).2.expireRequestsReturning now limit).1.reachedLimit = true ↔
      (k + 1) * limit ≤ r.bookings.countP (overdue now) := by
  rw [(sweeps_eq hn hlimit k).2, expireRequestsReturning_eq (keys_expireRequests hn _) hlimit,
    overdueRows_expireRequests hn, List.length_drop, length_backlog, Nat.succ_mul, decide_eq_true_iff]
  omega

theorem drains (hn : (r.bookings.map (·.id)).Nodup) {limit : Nat} (hlimit : 1 ≤ limit) (k : Nat) :
    Drains now limit k r where
  expires := by
    rw [(sweeps_eq hn hlimit k).1, (sweeps_eq hn hlimit k).2]
    exact expires_expireRequests hn _
  earliest := by
    rw [(sweeps_eq hn hlimit k).1]
    exact earliest_expireRequests hn _
  selected := reachedLimit_iff (keys_sweeps hn hlimit k) hlimit
  stops := reachedLimit_sweeps hn hlimit k
  cleared := not_overdue_of_reachedLimit (keys_sweeps hn hlimit k) hlimit

theorem sweep_ok (r : Tables) (now : Instant) :
    r.sweep now = .ok (r.expireRequestsReturning now batchLimit) := rfl

end Tables

def State.tables (s : State) : Tables := ⟨s.bookings, s.events⟩

/-- Where a sweep called at `now` stands, and what it has expired by then. -/
inductive Stands (now : Instant) : Proc → List Id → Prop where
  | idle : Stands now .idle []
  | sweepRead (limit : Nat) : Stands now (.sweepRead now limit) []
  | sweepUpdate (done todo : List Id) : Stands now (.sweepUpdate now done todo) done
  | commit (ids : List Id) : Stands now (.commit (.swept ids)) ids

/-- A sweep under way: its story is what it has expired, and as committed all of
that is still overdue. -/
structure Sweeping (now : Instant) (t : Pid) (s : State) (ids : List Id) : Prop where
  stands : Stands now (s.procs t) ids
  story : s.story t = ids.map expiredEvent
  due : ∀ id ∈ ids, ∃ row ∈ s.bookings, row.id = id ∧ overdue now row = true

section

variable {ownerOf : Id → Option Id} {now : Instant} {t u : Pid} {s s' : State} {ids : List Id}

theorem Sweeping.dirty_iff (hs : Sound s) (h : Sweeping now t s ids) {id : Id} {state : BookingState} :
    s.dirty id = some (t, state) ↔ id ∈ ids ∧ state = expired := by
  rw [hs.dirty, h.story]
  constructor
  · rintro ⟨e, he, hid, -, hstate⟩
    obtain ⟨i, hi, rfl⟩ := List.mem_map.mp he
    exact ⟨hid ▸ hi, (Option.some.inj hstate).symm⟩
  · rintro ⟨hid, rfl⟩
    exact ⟨expiredEvent id, List.mem_map_of_mem hid, rfl, nofun, rfl⟩

theorem Effect.mem_of_locked (h : Effect s u s') {row : BookingRow} (hrow : row ∈ s.bookings)
    {state : BookingState} (hlock : s.dirty row.id = some (t, state)) (ht : t ≠ u) : row ∈ s'.bookings := by
  cases h with
  | commit hdue =>
    refine mem_bookings_commit.mpr (.inl ⟨row, hrow, ?_⟩)
    simp [State.settle, hlock, ht]
  | _ => exact hrow

theorem Sweeping.frame (hs : Sound s) (h : Sweeping now t s ids) (he : Effect s u s') (ht : t ≠ u) :
    Sweeping now t s' ids where
  stands := by
    rw [(he.frame ht).1]
    exact h.stands
  story := by
    rw [State.story, (he.frame ht).1, (he.frame ht).2]
    exact h.story
  due id hid := by
    obtain ⟨row, hrow, rfl, hdue⟩ := h.due id hid
    have hlock : s.dirty row.id = some (t, expired) := (h.dirty_iff hs).mpr ⟨hid, rfl⟩
    exact ⟨row, he.mem_of_locked hrow hlock ht, rfl, hdue⟩

theorem Sweeping.setProc (h : Sweeping now t s ids) {p : Proc} (hdue : p.due = (s.procs t).due)
    (hstands : Stands now p ids) : Sweeping now t (s.setProc t p) ids where
  stands := by simpa [State.setProc] using hstands
  story := by
    rw [story_setProc, if_pos rfl, hdue]
    exact h.story
  due := h.due

theorem sweeping_idle (hidle : s.procs t = .idle) (hstory : s.story t = []) : Sweeping now t s [] where
  stands := hidle ▸ .idle
  story := hstory
  due := nofun

/-- One statement of the sweep. -/
theorem Sweeping.exec (h : Sweeping now t s ids) (hx : exec ownerOf s t = some s') :
    ∃ ids', Sweeping now t s' ids' := by
  obtain ⟨hstands, hstory, hdue⟩ := id h
  generalize hp : s.procs t = p at hstands
  cases hstands with
  | idle => simp [Booking.exec, hp] at hx
  | sweepRead limit =>
    simp only [Booking.exec, hp, Option.some.injEq] at hx
    subst hx
    exact ⟨[], h.setProc (by rw [hp]; rfl) (.sweepUpdate [] _)⟩
  | sweepUpdate _ todo =>
    cases todo with
    | nil =>
      simp only [Booking.exec, hp, Option.some.injEq] at hx
      subst hx
      refine ⟨ids, by simpa [State.setProc] using .commit ids, ?_, hdue⟩
      rw [story_log_setProc, if_pos rfl, ← hstory, State.story, hp]
      simp [Proc.due]
    | cons id todo =>
      have hskip : Sweeping now t (s.setProc t (.sweepUpdate now ids todo)) ids :=
        h.setProc (by rw [hp]; rfl) (.sweepUpdate ids todo)
      simp only [Booking.exec, hp] at hx
      split at hx
      · cases hx
        exact ⟨ids, hskip⟩
      · rename_i row hrow
        obtain ⟨hmem, hid⟩ := find_eq_some hrow
        split at hx
        · rename_i hover
          obtain ⟨s₁, hupdate, rfl⟩ := Option.map_eq_some_iff.mp hx
          obtain ⟨-, -, rfl⟩ := update_eq_some hupdate
          refine ⟨ids ++ [id], by simpa [State.setProc] using .sweepUpdate (ids ++ [id]) todo, ?_, ?_⟩
          · rw [story_setProc, if_pos rfl, List.map_append, ← hstory, State.story, hp]
            simp [Proc.due, State.write, expiredEvent]
          · intro i hi
            obtain hi | hi := List.mem_append.mp hi
            · exact hdue i hi
            · exact ⟨row, hmem, hid.trans (List.mem_singleton.mp hi).symm, hover⟩
        · cases hx
          exact ⟨ids, hskip⟩
  | commit =>
    simp only [Booking.exec, hp, Option.some.injEq] at hx
    subst hx
    have hrolled : (s.commit t).story t = [] := (story_release s t t).trans (if_pos rfl)
    exact ⟨[], sweeping_idle (by simp [State.commit, State.release]) hrolled⟩

theorem Sweeping.step {a : Action} (hs : Sound s) (h : Sweeping now t s ids)
    (ha : ∀ op, a ≠ .call t op) (hstep : step ownerOf s a = some s') : ∃ ids', Sweeping now t s' ids' := by
  by_cases ht : t = a.pid
  · cases a with
    | call u op => exact absurd (congrArg (Action.call · op) ht.symm) (ha op)
    | exec u =>
      subst ht
      exact h.exec hstep
    | abort u =>
      subst ht
      simp only [Booking.step] at hstep
      split at hstep
      · cases hstep
      · cases hstep
        have hrolled : (s.release t).story t = [] := (story_release s t t).trans (if_pos rfl)
        exact ⟨[], sweeping_idle (by simp [State.release]) hrolled⟩
  · exact ⟨ids, h.frame hs (step_effect hs hstep) ht⟩

/-- A call of `expireRequests` and whatever happens around it. -/
theorem sweeping_run {as bs : List Action} {limit : Nat}
    (hr : Runs.run (step ownerOf) State.empty (as ++ .call t (.expireRequests now limit) :: bs) = some s)
    (hbs : ∀ op, .call t op ∉ bs) : Sound s ∧ ∃ ids, Sweeping now t s ids := by
  obtain ⟨s₀, has, hrest⟩ := Runs.run_append_eq_some.mp hr
  obtain ⟨s₁, hcall, hbs'⟩ := Runs.run_cons_eq_some.mp hrest
  have hs₀ : Sound s₀ := Runs.run_preserves (fun _ _ _ => sound_step) has sound_empty
  have hsweeping : ∃ ids, Sweeping now t s₁ ids := by
    simp only [step] at hcall
    split at hcall
    · rename_i hidle
      cases hcall
      have hstart : Sweeping now t s₀ [] := sweeping_idle hidle (story_of_idle hs₀ hidle)
      exact ⟨[], hstart.setProc (by rw [hidle]; rfl) (.sweepRead limit)⟩
    · cases hcall
  have hmeets : Runs.Meets (step ownerOf) (fun _ a => ∀ op, a ≠ Action.call t op) s₁ bs :=
    Runs.meets_of_forall (fun a ha op hop => hbs op (hop ▸ ha))
  refine Runs.run_preserves_of_meets (P := fun s => Sound s ∧ ∃ ids, Sweeping now t s ids) ?_ hbs' hmeets
    ⟨sound_step hs₀ hcall, hsweeping⟩
  rintro s a s' ⟨hs, ids, h⟩ ha hstep
  exact ⟨sound_step hs hstep, h.step hs ha hstep⟩

/-- What a sweep commits. -/
theorem Sweeping.expires (hs : Sound s) (h : Sweeping now t s ids) (hp : s.procs t = .commit (.swept ids)) :
    Expires now s.tables (s.commit t).tables ids where
  nodup := by
    have hn := hs.storyNodup t
    rw [h.story, List.map_map] at hn
    exact hn.of_map _
  due := h.due
  bookings := by
    have hnone : s.inserting.filter (fun i => i.1 = t) = [] := by
      refine List.filter_eq_nil_iff.mpr (fun i hi ht => ?_)
      have hstory := hs.insertStory i hi
      rw [show i.1 = t by simpa using ht, h.story] at hstory
      obtain ⟨id, -, he⟩ := List.mem_map.mp (hstory ▸ List.mem_singleton_self (requestedEvent i.2))
      cases he
    simp only [State.tables, State.commit, Tables.move, hnone, List.map_nil, List.append_nil]
    apply List.map_congr_left
    intro row _
    by_cases hid : row.id ∈ ids
    · rw [if_pos hid, State.settle, (h.dirty_iff hs).mpr ⟨hid, rfl⟩]
      exact if_pos rfl
    · rw [if_neg hid, State.settle]
      split
      · rename_i u state hd
        refine if_neg (fun ht => hid ?_)
        exact ((h.dirty_iff hs).mp (ht ▸ hd)).1
      · rfl
  events := by
    have hlogged : s.logged t = ids.map expiredEvent := by
      rw [← h.story, State.story, hp]
      exact (List.append_nil _).symm
    simp only [State.tables, State.commit, hlogged]

theorem overdue_of_expired {done todo : List Id} (hp : s.procs t = .sweepUpdate now done todo)
    (hx : exec ownerOf s t = some s') {id : Id} (hid : s'.dirty id ≠ s.dirty id) :
    s'.dirty id = some (t, expired) ∧ ∃ row ∈ s.bookings, row.id = id ∧ overdue now row = true := by
  cases todo with
  | nil =>
    simp only [exec, hp, Option.some.injEq] at hx
    subst hx
    exact absurd rfl hid
  | cons i todo =>
    simp only [exec, hp] at hx
    split at hx
    · cases hx
      exact absurd rfl hid
    · rename_i row hrow
      obtain ⟨hmem, rfl⟩ := find_eq_some hrow
      split at hx
      · rename_i hover
        obtain ⟨s₁, hupdate, rfl⟩ := Option.map_eq_some_iff.mp hx
        obtain ⟨-, -, rfl⟩ := update_eq_some hupdate
        by_cases he : id = row.id
        · subst he
          exact ⟨Function.update_self _ _ _, row, hmem, rfl, hover⟩
        · exact absurd (Function.update_of_ne he _ _) hid
      · cases hx
        exact absurd rfl hid

end

section

variable {ownerOf : Id → Option Id} {now : Instant} {t : Pid} {r : Tables}

/-- A sweep alone on the tables, having locked what it has expired so far. -/
def Tables.sweeping (r : Tables) (t : Pid) (done : List Id) (p : Proc) : State :=
  { r.quiet with
    dirty := fun id => if id ∈ done then some (t, expired) else none
    procs := Function.update (fun _ => .idle) t p }

@[simp] theorem procs_sweeping (done : List Id) (p : Proc) : (r.sweeping t done p).procs t = p := by
  simp [Tables.sweeping]

theorem setProc_sweeping (done : List Id) (p p' : Proc) :
    (r.sweeping t done p).setProc t p' = r.sweeping t done p' := by
  simp [Tables.sweeping, State.setProc]

theorem write_sweeping (done : List Id) (p : Proc) (id : Id) :
    (r.sweeping t done p).write t id expired = r.sweeping t (done ++ [id]) p := by
  simp only [Tables.sweeping, State.write]
  congr 1
  funext i
  by_cases hi : i = id
  · simp [hi]
  · simp [hi]

theorem exec_sweepUpdate {done todo : List Id} {id : Id} {row : BookingRow} (hrow : r.find id = some row)
    (hdue : overdue now row = true) :
    exec ownerOf (r.sweeping t done (.sweepUpdate now done (id :: todo))) t =
      some (r.sweeping t (done ++ [id]) (.sweepUpdate now (done ++ [id]) todo)) := by
  have hfind : (r.sweeping t done (.sweepUpdate now done (id :: todo))).find id = some row := hrow
  have hfree : (r.sweeping t done (.sweepUpdate now done (id :: todo))).unlocked t id = true := by
    by_cases hid : id ∈ done <;> simp [State.unlocked, Tables.sweeping, hid]
  obtain rfl := Tables.find_id hrow
  simp [exec, hfind, hdue, State.update, hfree, State.excluded, excludeStates, write_sweeping, setProc_sweeping]

theorem run_sweepUpdate {done todo : List Id}
    (htodo : ∀ id ∈ todo, ∃ row, r.find id = some row ∧ overdue now row = true) :
    Runs.run (step ownerOf) (r.sweeping t done (.sweepUpdate now done todo))
      (List.replicate todo.length (.exec t)) =
        some (r.sweeping t (done ++ todo) (.sweepUpdate now (done ++ todo) [])) := by
  induction todo generalizing done with
  | nil => simp
  | cons id todo ih =>
    obtain ⟨row, hrow, hdue⟩ := htodo id List.mem_cons_self
    have htodo' : ∀ i ∈ todo, ∃ row, r.find i = some row ∧ overdue now row = true :=
      fun i hi => htodo i (List.mem_cons_of_mem _ hi)
    rw [List.length_cons, List.replicate_succ, Runs.run_cons, step, exec_sweepUpdate hrow hdue,
      Option.bind_some, ih htodo', List.append_assoc, List.singleton_append]

theorem commit_sweeping (now : Instant) (t : Pid) (r : Tables) (done : List Id) :
    ((((r.sweeping t done (.sweepUpdate now done [])).log t (done.map expiredEvent)).setProc t
      (.commit (.swept done))).commit t) =
        Tables.quiet ⟨r.move done expired, r.events ++ done.map expiredEvent⟩ := by
  simp only [State.commit, Tables.quiet, State.mk.injEq]
  refine ⟨?_, ?_, ?_, rfl, ?_, ?_⟩
  · have hsettle : ∀ row, (((r.sweeping t done (.sweepUpdate now done [])).log t (done.map expiredEvent)).setProc t
        (.commit (.swept done))).settle t row = if row.id ∈ done then { row with state := expired } else row := by
      intro row
      by_cases hid : row.id ∈ done <;>
        simp [State.settle, State.setProc, State.log, Tables.sweeping, hid]
    rw [funext hsettle]
    exact List.append_nil _
  · simp [State.setProc, State.log, Tables.sweeping, Tables.quiet, State.empty]
  · funext id
    by_cases hid : id ∈ done <;>
      simp [State.release, State.setProc, State.log, Tables.sweeping, State.empty, hid]
  · funext u
    by_cases hu : u = t <;>
      simp [State.release, State.setProc, State.log, Tables.sweeping, Tables.quiet, State.empty, hu]
  · funext u
    by_cases hu : u = t <;>
      simp [State.release, State.setProc, State.log, Tables.sweeping, State.empty, hu]

theorem run_events (done : List Id) :
    Runs.run (step ownerOf) (r.sweeping t done (.sweepUpdate now done [])) (List.replicate 2 (.exec t)) =
      some (Tables.quiet ⟨r.move done expired, r.events ++ done.map expiredEvent⟩) := by
  have hevents : step ownerOf (r.sweeping t done (.sweepUpdate now done [])) (.exec t) =
      some (((r.sweeping t done (.sweepUpdate now done [])).log t (done.map expiredEvent)).setProc t
        (.commit (.swept done))) := by
    simp only [step, exec, procs_sweeping]
    rfl
  rw [List.replicate_succ, Runs.run_cons, hevents, Option.bind_some, List.replicate_succ, Runs.run_cons,
    List.replicate_zero, ← commit_sweeping now t]
  simp only [step, exec, State.setProc, Function.update_self, Option.bind_some, Runs.run_nil]

/-- The statements of the call, run with nobody else there, do what
`Tables.expireRequests` says. -/
theorem run_expireRequests (hn : (r.bookings.map (·.id)).Nodup) (limit : Nat) :
    Runs.run (step ownerOf) r.quiet (.call t (.expireRequests now limit) ::
      List.replicate ((r.quiet.expiryCandidates now limit).length + 3) (.exec t)) =
        some (r.expireRequests now limit).quiet := by
  have hcall : step ownerOf r.quiet (.call t (.expireRequests now limit)) =
      some (r.sweeping t [] (.sweepRead now limit)) := by
    simp [step, Op.start, Tables.quiet, State.empty, Tables.sweeping, State.setProc]
  have hread : step ownerOf (r.sweeping t [] (.sweepRead now limit)) (.exec t) =
      some (r.sweeping t [] (.sweepUpdate now [] (r.quiet.expiryCandidates now limit))) := by
    simp only [step, exec, procs_sweeping, setProc_sweeping]
    rfl
  have hfound : ∀ id ∈ r.quiet.expiryCandidates now limit,
      ∃ row, r.find id = some row ∧ overdue now row = true := by
    intro id hid
    obtain ⟨row, hrow, rfl, hdue⟩ := (Tables.expires_expireRequests hn limit).due id hid
    exact ⟨row, Keyed.find?_key hn hrow, hdue⟩
  rw [Runs.run_cons, hcall, Option.bind_some, List.replicate_succ, Runs.run_cons, hread, Option.bind_some,
    List.replicate_add, Runs.run_append, run_sweepUpdate hfound, Option.bind_some, List.nil_append]
  exact run_events _

end

/-- Calls in a row with nobody else there expire the requests that have waited
longest, as many as their limits come to, and a call whose batch did not fill
leaves none. Whatever interleaves, the update takes overdue requests only, and
what a sweep commits is their expiry with one event for each. -/
theorem expiry_is_exact (ownerOf : Id → Option Id) (now : Instant) :
    (∀ r : Tables, (r.bookings.map (·.id)).Nodup → ∀ limit, 1 ≤ limit → ∀ k, Drains now limit k r) ∧
    ∀ as t s s', Runs.run (step ownerOf) State.empty as = some s → step ownerOf s (.exec t) = some s' →
      (∀ done todo, s.procs t = .sweepUpdate now done todo → ∀ id, s'.dirty id ≠ s.dirty id →
        s'.dirty id = some (t, expired) ∧ ∃ row ∈ s.bookings, row.id = id ∧ overdue now row = true) ∧
      ∀ pre post limit ids, as = pre ++ .call t (.expireRequests now limit) :: post →
        (∀ op, .call t op ∉ post) → s.procs t = .commit (.swept ids) → Expires now s.tables s'.tables ids := by
  refine ⟨fun r hn limit hlimit k => Tables.drains hn hlimit k, ?_⟩
  intro as t s s' hr hx
  refine ⟨fun done todo hp id hid => overdue_of_expired hp hx hid, ?_⟩
  rintro pre post limit ids rfl hpost hp
  obtain ⟨hs, ids', h⟩ := sweeping_run hr hpost
  have hids : ids' = ids := by
    have hstands := h.stands
    rw [hp] at hstands
    cases hstands
    rfl
  subst hids
  have hcommit : s' = s.commit t := by
    simp only [step, exec, hp, Option.some.injEq] at hx
    exact hx.symm
  rw [hcommit]
  exact h.expires hs hp

def lapsing (id : Id) (requestExpiresAt : Instant) : BookingRow :=
  { drillHire with id := id, quoteId := id, state := requested, requestExpiresAt := requestExpiresAt }

def lapsed : Tables := ⟨[lapsing "b1" 30, lapsing "b2" 10, lapsing "b3" 30, lapsing "b4" 90], []⟩

def declineDuringSweep : List Action :=
  requestDrill ++ [.call 1 (.expireRequests 172800000 500), .call 2 (.decline "b1" "owner" 0), .exec 1, .exec 2,
    .exec 1, .exec 1]

theorem three_lapsed_in_two_sweeps : Drains 50 2 2 lapsed ∧
    (Tables.sweeps 50 2 2 lapsed).1.map (fun result => (result.ids, result.reachedLimit)) =
      [(["b2", "b1"], true), (["b3"], false)] ∧
    ∃ s s', Runs.run (step (fun _ => some "owner")) State.empty declineDuringSweep = some s ∧
      step (fun _ => some "owner") s (.exec 1) = some s' ∧ s'.bookings.map (·.state) = [expired] ∧
      Expires 172800000 s.tables s'.tables ["b1"] := by
  refine ⟨(expiry_is_exact (fun _ => none) 50).1 lapsed (by decide +kernel) 2 (by decide) 2,
    by decide +kernel, ?_⟩
  have hrun : (Runs.run (step (fun _ => some "owner")) State.empty declineDuringSweep).bind (fun s =>
      (step (fun _ => some "owner") s (.exec 1)).map (fun s' => (s.procs 1, s'.bookings.map (·.state)))) =
      some (.commit (.swept ["b1"]), [expired]) := by decide +kernel
  obtain ⟨s, hs, hrun⟩ := Option.bind_eq_some_iff.mp hrun
  obtain ⟨s', hs', hrun⟩ := Option.map_eq_some_iff.mp hrun
  obtain ⟨hproc, hstates⟩ := Prod.mk.inj hrun
  refine ⟨s, s', hs, hs', hstates, ?_⟩
  exact ((expiry_is_exact _ 172800000).2 _ 1 s s' hs hs').2 requestDrill _ 500 ["b1"] rfl (by simp) hproc

end RentalMarket.Booking
