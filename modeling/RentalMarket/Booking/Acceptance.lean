import RentalMarket.Booking.Calendar
import RentalMarket.Booking.Availability

namespace RentalMarket.Booking.Acceptance

open RentalMarket.Core BookingState Runs

inductive Answer where
  | notFound
  | refused (refusal : String)
  | answered
  deriving DecidableEq, Repr

/-- A call of `BookingsService.accept` between two store steps. Once it is
`accepting`, the store runs its transaction under the same pid. -/
inductive Call where
  | idle
  | find (bookingId ownerId : Id)
  | checkBlocks (booking : BookingRow) (ownerId : Id)
  | checkBooked (booking : BookingRow) (ownerId : Id)
  | accepting (booking : BookingRow) (ownerId : Id) (now : Instant)
  | ended (answer : Answer)
  deriving DecidableEq, Repr

def Call.isOver : Call → Bool
  | .idle => true
  | .ended _ => true
  | _ => false

structure State where
  store : Booking.State
  blocks : List AvailabilityBlock
  calls : Pid → Call

namespace State

def empty : State := ⟨.empty, [], fun _ => .idle⟩

def setCall (s : State) (t : Pid) (c : Call) : State :=
  { s with calls := Function.update s.calls t c }

end State

def noLongerWaiting : String :=
  "That request is no longer waiting for an answer. Reload the page to see what is."

def requestHasExpired : String :=
  "That request has expired, so it can no longer be accepted. The renter can ask again."

/-- `accept` comes through its service only, and no `advance` of the code asks
for that move. -/
def Op.isOther : Op → Bool
  | .accept _ _ _ => false
  | .advance _ _ dst _ => dst != accepted
  | _ => true

section

variable (z : Zone) (ownerOf : Id → Option Id)

def findForParty (s : Booking.State) (bookingId userId : Id) : Option BookingRow :=
  (s.find bookingId).filter (fun r => r.renterId = userId ∨ ownerOf r.listingId = some userId)

/-- The next store step of `t`. -/
def exec (s : State) (t : Pid) (now : Instant) : Option State :=
  match s.calls t with
  | .find bookingId ownerId =>
    match findForParty ownerOf s.store bookingId ownerId with
    | none => some (s.setCall t (.ended .notFound))
    | some booking =>
      if booking.state ≠ requested then some (s.setCall t (.ended (.refused noLongerWaiting)))
      else if booking.requestExpiresAt ≤ now then
        some (s.setCall t (.ended (.refused requestHasExpired)))
      else some (s.setCall t (.checkBlocks booking ownerId))
  | .checkBlocks booking ownerId =>
    if isBlocked s.blocks booking.listingId booking.period then
      some (s.setCall t (.ended (.refused (describeUnavailableToOwner .blocked))))
    else some (s.setCall t (.checkBooked booking ownerId))
  | .checkBooked booking ownerId =>
    if isBooked s.store.bookings booking.listingId booking.period then
      some (s.setCall t (.ended (.refused (describeUnavailableToOwner .booked))))
    else match assertTransition requested accepted with
      | .error _ => none
      | .ok _ => (Booking.step ownerOf s.store (.call t (.accept booking.id ownerId now))).map
        (fun store => { s with store := store }.setCall t (.accepting booking ownerId now))
  | .accepting booking ownerId now =>
    (Booking.step ownerOf s.store (.exec t)).map (fun store => { s with store := store }.setCall t
      (if store.procs t = Proc.idle then .ended .answered else .accepting booking ownerId now))
  | _ => (Booking.step ownerOf s.store (.exec t)).map (fun store => { s with store := store })

/-- `retry` is the second attempt of the store's transaction after a deadlock,
with no second look at the blocks. -/
inductive Action where
  | accept (t : Pid) (bookingId ownerId : Id)
  | call (t : Pid) (op : Op)
  | exec (t : Pid) (now : Instant)
  | retry (t : Pid)
  | abort (t : Pid)
  | block (now : Instant) (id listingId ownerId : Id) (request : AvailabilityBlockRequest)
  | unblock (blockId listingId ownerId : Id)
  deriving DecidableEq, Repr

def step (s : State) : Action → Option State
  | .accept t bookingId ownerId =>
    if (s.calls t).isOver ∧ s.store.procs t = .idle then
      some (s.setCall t (.find bookingId ownerId)) else none
  | .call t op =>
    if (s.calls t).isOver ∧ Op.isOther op then
      (Booking.step ownerOf s.store (.call t op)).map (fun store => { s with store := store })
    else none
  | .exec t now => exec ownerOf s t now
  | .retry t =>
    match s.calls t with
    | .accepting booking ownerId now =>
      (Booking.step ownerOf (s.store.release t) (.call t (.accept booking.id ownerId now))).map
        (fun store => { s with store := store })
    | _ => none
  | .abort t => some ({ s with store := s.store.release t }.setCall t .idle)
  | .block now id listingId ownerId request =>
    match newBlock z ownerOf now id listingId ownerId request with
    | .ok (some block) =>
      if s.blocks.all (fun b => b.id ≠ block.id) then
        some { s with blocks := s.blocks ++ [block] } else none
    | _ => some s
  | .unblock blockId listingId ownerId =>
    if ownerOf listingId = some ownerId then
      some { s with blocks := s.blocks.filter (fun b => ¬(b.id = blockId ∧ b.listingId = listingId)) }
    else some s

end

def Call.booking : Call → Option BookingRow
  | .checkBlocks booking _ => some booking
  | .checkBooked booking _ => some booking
  | .accepting booking _ _ => some booking
  | _ => none

def Call.cleared : Call → Option BookingRow
  | .checkBooked booking _ => some booking
  | .accepting booking _ _ => some booking
  | _ => none

def Call.transacting : Call → Option BookingRow
  | .accepting booking _ _ => some booking
  | _ => none

/-- What the block check of an acceptance is worth until it commits. -/
structure Guarded (s : State) : Prop where
  sound : Sound s.store
  held : ∀ t, ∀ booking ∈ (s.calls t).booking, Holds s.store.bookings booking
  clear : ∀ t, ∀ booking ∈ (s.calls t).cleared,
    isBlocked s.blocks booking.listingId booking.period = false
  accepts : ∀ t, ∀ id ∈ (s.store.procs t).accepts, ∃ booking ∈ (s.calls t).transacting, booking.id = id
  story : ∀ t, ∀ e ∈ s.store.story t, e.toState = some accepted →
    ∃ booking ∈ (s.calls t).transacting, booking.id = e.bookingId

/-- A block is inserted only while no acceptance of an overlapping booking of
its listing stands between its look at the blocks and its commit. A request
that inserts nothing may come at any time. -/
def ClearOfAcceptances (z : Zone) (ownerOf : Id → Option Id) (s : State) : Action → Prop
  | .block now id listingId ownerId request =>
    ∀ block, newBlock z ownerOf now id listingId ownerId request = .ok (some block) →
      ∀ t, ∀ booking ∈ (s.calls t).cleared, booking.listingId = block.listingId →
        Period.rangeOverlaps block.period booking.period = false
  | _ => True

theorem guarded_empty : Guarded State.empty where
  sound := sound_empty
  held _ _ h := nomatch h
  clear _ _ h := nomatch h
  accepts _ _ h := nomatch h
  story _ _ h := nomatch h

theorem Guarded.store {s : State} (h : Guarded s) {t : Pid} {store : Booking.State}
    (he : Effect s.store t store)
    (haccepts : ∀ id ∈ (store.procs t).accepts, ∃ booking ∈ (s.calls t).transacting, booking.id = id)
    (hstory : ∀ e ∈ store.story t, e.toState = some accepted →
      ∃ booking ∈ (s.calls t).transacting, booking.id = e.bookingId) :
    Guarded { s with store := store } where
  sound := h.sound.effect he
  held u booking hb := he.holds (h.held u booking hb)
  clear := h.clear
  accepts u id hid := by
    by_cases hu : u = t
    · subst hu
      exact haccepts id hid
    · rw [show (store.procs u) = s.store.procs u from (he.frame hu).1] at hid
      exact h.accepts u id hid
  story u e heu hto := by
    by_cases hu : u = t
    · subst hu
      exact hstory e heu hto
    · have hsame : store.story u = s.store.story u := by
        rw [Booking.State.story, (he.frame hu).1, (he.frame hu).2]
        rfl
      rw [show State.store { s with store := store } = store from rfl, hsame] at heu
      exact h.story u e heu hto

/-- A statement of a transaction adds an acceptance only where the call set
out for one. -/
theorem Guarded.exec {ownerOf : Id → Option Id} {s : State} (h : Guarded s) {t : Pid}
    {store : Booking.State} (hstep : Booking.step ownerOf s.store (.exec t) = some store) :
    Guarded { s with store := store } := by
  have he : Effect s.store t store := exec_effect h.sound hstep
  refine h.store he (fun id hid => h.accepts t id (exec_accepts hstep hid)) (fun e hes hto => ?_)
  rcases he.story_grows h.sound with ⟨rfl, -⟩ | ⟨-, -, hst⟩
  · have hnil : (s.store.commit t).story t = [] := by
      rw [show (s.store.commit t).story t = (s.store.release t).story t from rfl, story_release,
        if_pos rfl]
    rw [hnil] at hes
    cases hes
  · rcases hst t e hes with hold | ⟨-, ⟨-, -, hreq⟩ | ⟨src, dst, -, hdst, -, -, -, hacc⟩⟩
    · exact h.story t e hold hto
    · rw [hreq] at hto
      cases hto
    · rw [hdst] at hto
      exact h.accepts t e.bookingId (hacc (Option.some.inj hto))

/-- A call outside its transaction may move between its own steps. -/
theorem Guarded.setCall {s : State} (h : Guarded s) {t : Pid} {c : Call}
    (hquiet : (s.calls t).transacting = none ∨ s.store.procs t = .idle)
    (hheld : ∀ booking ∈ c.booking, Holds s.store.bookings booking)
    (hclear : ∀ booking ∈ c.cleared, isBlocked s.blocks booking.listingId booking.period = false) :
    Guarded (s.setCall t c) := by
  have haccepts : (s.store.procs t).accepts = none := by
    rcases hquiet with hnone | hidle
    · cases ha : (s.store.procs t).accepts with
      | none => rfl
      | some id =>
        obtain ⟨booking, hb, -⟩ := h.accepts t id ha
        rw [hnone] at hb
        cases hb
    · rw [hidle]
      rfl
  have hstory : ∀ e ∈ s.store.story t, e.toState ≠ some accepted := by
    intro e he hto
    rcases hquiet with hnone | hidle
    · obtain ⟨booking, hb, -⟩ := h.story t e he hto
      rw [hnone] at hb
      cases hb
    · rw [story_of_idle h.sound hidle] at he
      cases he
  have hother : ∀ u, u ≠ t → (s.setCall t c).calls u = s.calls u :=
    fun u hu => by simp [State.setCall, hu]
  have hself : (s.setCall t c).calls t = c := by simp [State.setCall]
  refine ⟨h.sound, fun u booking hb => ?_, fun u booking hb => ?_, fun u id hid => ?_,
    fun u e he hto => ?_⟩
  · by_cases hu : u = t
    · rw [hu, hself] at hb
      exact hheld booking hb
    · rw [hother u hu] at hb
      exact h.held u booking hb
  · by_cases hu : u = t
    · rw [hu, hself] at hb
      exact hclear booking hb
    · rw [hother u hu] at hb
      exact h.clear u booking hb
  · by_cases hu : u = t
    · rw [hu, show (s.setCall t c).store = s.store from rfl, haccepts] at hid
      cases hid
    · rw [hother u hu]
      exact h.accepts u id hid
  · by_cases hu : u = t
    · rw [hu] at he
      exact absurd hto (hstory e he)
    · rw [hother u hu]
      exact h.story u e he hto

theorem Guarded.release {s : State} (h : Guarded s) (t : Pid) :
    Guarded { s with store := s.store.release t } := by
  refine h.store .release (fun id hid => ?_) (fun e he => ?_)
  · simp [Booking.State.release, Proc.accepts] at hid
  · rw [story_release, if_pos rfl] at he
    cases he

theorem Guarded.accept {ownerOf : Id → Option Id} {s : State} (h : Guarded s) {t : Pid}
    {booking : BookingRow} {ownerId : Id} {now : Instant} {store : Booking.State}
    (hb : booking ∈ (s.calls t).transacting)
    (hstep : Booking.step ownerOf s.store (.call t (.accept booking.id ownerId now)) = some store) :
    Guarded { s with store := store } := by
  have he := call_effect h.sound hstep
  simp only [Booking.step] at hstep
  split at hstep
  · rename_i hidle
    cases hstep
    refine h.store he (fun id hid => ⟨booking, hb, ?_⟩) (fun e hes => ?_)
    · simpa [Booking.State.setProc, Proc.accepts] using hid
    · have hlogged : s.store.logged t = [] := by
        have hok := h.sound.procs t
        rwa [hidle] at hok
      rw [story_setProc, if_pos rfl, hlogged] at hes
      cases hes
  · cases hstep

theorem Guarded.call {ownerOf : Id → Option Id} {s : State} (h : Guarded s) {t : Pid} {op : Op}
    {store : Booking.State} (hop : Op.isOther op = true)
    (hstep : Booking.step ownerOf s.store (.call t op) = some store) :
    Guarded { s with store := store } := by
  have he := call_effect h.sound hstep
  simp only [Booking.step] at hstep
  split at hstep
  · rename_i hidle
    obtain ⟨p, hp, rfl⟩ := Option.map_eq_some_iff.mp hstep
    have hnone : p.accepts = none := by
      cases op with
      | accept bookingId ownerId now => cases hop
      | advance bookingId src dst actorId =>
        simp only [Op.start, assertTransition] at hp
        have hdst : dst ≠ accepted := by simpa [Op.isOther] using hop
        split at hp
        · rename_i hd
          split at hd
          · cases hd
            cases hp
            exact if_neg hdst
          · cases hd
        · cases hp
      | _ => cases hp; rfl
    refine h.store he (fun id hid => ?_) (fun e hes => ?_)
    · rw [show (s.store.setProc t p).procs t = p by simp [Booking.State.setProc], hnone] at hid
      cases hid
    · have hlogged : s.store.logged t = [] := by
        have hok := h.sound.procs t
        rwa [hidle] at hok
      rw [story_setProc, if_pos rfl, hlogged, start_due hp] at hes
      cases hes
  · cases hstep

theorem Guarded.blocks {s : State} (h : Guarded s) {blocks : List AvailabilityBlock}
    (hclear : ∀ t, ∀ booking ∈ (s.calls t).cleared,
      isBlocked blocks booking.listingId booking.period = false) :
    Guarded { s with blocks := blocks } :=
  ⟨h.sound, h.held, hclear, h.accepts, h.story⟩

theorem booking_of_cleared {c : Call} {booking : BookingRow} (h : booking ∈ c.cleared) :
    booking ∈ c.booking := by
  cases c with
  | checkBooked b ownerId => exact h
  | accepting b ownerId now => exact h
  | _ => cases h

theorem guarded_exec {ownerOf : Id → Option Id} {s s' : State} {t : Pid} {now : Instant}
    (h : Guarded s) (hstep : exec ownerOf s t now = some s') : Guarded s' := by
  unfold Acceptance.exec at hstep
  have hheld := h.held t
  have hclear := h.clear t
  split at hstep
  · -- the read of the booking, then the service's own refusals
    rename_i hc
    have hquiet : (s.calls t).transacting = none := by rw [hc]; rfl
    have hnone : ∀ a, Guarded (s.setCall t (.ended a)) := fun a =>
      h.setCall (.inl hquiet) (fun _ hb => nomatch hb) (fun _ hb => nomatch hb)
    split at hstep
    · cases hstep
      exact hnone _
    · rename_i booking hf
      rw [findForParty, Option.filter_eq_some_iff] at hf
      split at hstep
      · cases hstep
        exact hnone _
      · split at hstep
        · cases hstep
          exact hnone _
        · cases hstep
          refine h.setCall (.inl hquiet) (fun b hb => ?_) (fun _ hb => nomatch hb)
          cases hb
          exact holds_of_mem (find_eq_some hf.1).1
  · -- the block check
    rename_i hc
    rw [hc] at hheld
    have hquiet : (s.calls t).transacting = none := by rw [hc]; rfl
    split at hstep
    · cases hstep
      exact h.setCall (.inl hquiet) (fun _ hb => nomatch hb) (fun _ hb => nomatch hb)
    · rename_i hfree
      cases hstep
      refine h.setCall (.inl hquiet) hheld (fun b hb => ?_)
      cases hb
      simpa using hfree
  · -- the calendar check, then the transaction
    rename_i booking ownerId hc
    rw [hc] at hheld hclear
    have hquiet : (s.calls t).transacting = none := by rw [hc]; rfl
    split at hstep
    · cases hstep
      exact h.setCall (.inl hquiet) (fun _ hb => nomatch hb) (fun _ hb => nomatch hb)
    · split at hstep
      · cases hstep
      · obtain ⟨store, hs, rfl⟩ := Option.map_eq_some_iff.mp hstep
        have hset : Guarded (s.setCall t (.accepting booking ownerId now)) :=
          h.setCall (.inl hquiet) hheld hclear
        exact hset.accept (by simp [State.setCall, Call.transacting]) hs
  · rename_i booking ownerId now' hc
    obtain ⟨store, hs, rfl⟩ := Option.map_eq_some_iff.mp hstep
    have hnext := h.exec hs
    split
    · rename_i hidle
      exact hnext.setCall (.inr hidle) (fun _ hb => nomatch hb) (fun _ hb => nomatch hb)
    · have hsame : State.setCall { s with store := store } t (.accepting booking ownerId now') =
          { s with store := store } := by
        simp [State.setCall, ← hc]
      rw [hsame]
      exact hnext
  · obtain ⟨store, hs, rfl⟩ := Option.map_eq_some_iff.mp hstep
    exact h.exec hs

theorem guarded_step {z : Zone} {ownerOf : Id → Option Id} {s s' : State} {a : Action}
    (h : Guarded s) (hclear : ClearOfAcceptances z ownerOf s a) (hstep : step z ownerOf s a = some s') :
    Guarded s' := by
  cases a with
  | accept t bookingId ownerId =>
    simp only [step] at hstep
    split at hstep
    · rename_i hc
      cases hstep
      exact h.setCall (.inr hc.2) (fun _ hb => nomatch hb) (fun _ hb => nomatch hb)
    · cases hstep
  | call t op =>
    simp only [step] at hstep
    split at hstep
    · rename_i hc
      obtain ⟨store, hs, rfl⟩ := Option.map_eq_some_iff.mp hstep
      exact h.call hc.2 hs
    · cases hstep
  | exec t now => exact guarded_exec h hstep
  | retry t =>
    simp only [step] at hstep
    split at hstep
    · rename_i booking ownerId now hc
      obtain ⟨store, hs, rfl⟩ := Option.map_eq_some_iff.mp hstep
      exact (h.release t).accept (by simp [hc, Call.transacting]) hs
    · cases hstep
  | abort t =>
    cases hstep
    refine (h.release t).setCall (.inr ?_) (fun _ hb => nomatch hb) (fun _ hb => nomatch hb)
    simp [Booking.State.release]
  | block now id listingId ownerId request =>
    simp only [step] at hstep
    split at hstep
    · rename_i block hnew
      obtain ⟨-, hperiod⟩ := newBlock_eq_some hnew
      split at hstep
      · cases hstep
        refine h.blocks (fun t booking hb => isBlocked_eq_false.mpr (fun b hmem hid => ?_))
        rcases List.mem_append.mp hmem with hmem | hmem
        · exact isBlocked_eq_false.mp (h.clear t booking hb) b hmem hid
        · -- the new block, declared with nobody in the middle of an acceptance
          rw [List.mem_singleton.mp hmem] at hid ⊢
          have hapart := hclear block hnew t booking hb hid.symm
          have hbooking := h.sound.period_nonempty (h.held t booking (booking_of_cleared hb))
          have hblock := periodFromLocalDates_nonempty z request.ordered
          rw [← hperiod] at hblock
          rw [Period.overlaps_eq_rangeOverlaps hbooking hblock, Period.rangeOverlaps_comm]
          exact hapart
      · cases hstep
    · cases hstep
      exact h
  | unblock blockId listingId ownerId =>
    simp only [step] at hstep
    split at hstep
    · cases hstep
      refine h.blocks (fun t booking hb => isBlocked_eq_false.mpr (fun b hmem hid => ?_))
      exact isBlocked_eq_false.mp (h.clear t booking hb) b (List.mem_filter.mp hmem).1 hid
    · cases hstep
      exact h

/-- A step that touches the bookings is a statement of some call, and leaves
the blocks alone. -/
theorem step_store {z : Zone} {ownerOf : Id → Option Id} {s s' : State} {a : Action}
    (h : Sound s.store) (hstep : step z ownerOf s a = some s') :
    s'.store.bookings = s.store.bookings ∨
      (s'.blocks = s.blocks ∧ ∃ t, Effect s.store t s'.store) := by
  cases a with
  | exec t now =>
    simp only [step, exec] at hstep
    split at hstep
    case h_4 =>
      obtain ⟨store, hs, rfl⟩ := Option.map_eq_some_iff.mp hstep
      exact .inr ⟨rfl, t, exec_effect h hs⟩
    case h_5 =>
      obtain ⟨store, hs, rfl⟩ := Option.map_eq_some_iff.mp hstep
      exact .inr ⟨rfl, t, exec_effect h hs⟩
    case h_3 =>
      split at hstep
      · cases hstep
        exact .inl rfl
      · split at hstep
        · cases hstep
        · obtain ⟨store, hs, rfl⟩ := Option.map_eq_some_iff.mp hstep
          exact .inr ⟨rfl, t, call_effect h hs⟩
    all_goals
      repeat' split at hstep
      all_goals
        cases hstep
        exact .inl rfl
  | call t op =>
    simp only [step] at hstep
    split at hstep
    · obtain ⟨store, hs, rfl⟩ := Option.map_eq_some_iff.mp hstep
      exact .inr ⟨rfl, t, call_effect h hs⟩
    · cases hstep
  | retry t =>
    simp only [step] at hstep
    split at hstep
    · obtain ⟨store, hs, rfl⟩ := Option.map_eq_some_iff.mp hstep
      simp only [Booking.step] at hs
      split at hs
      · cases hs
        exact .inl rfl
      · cases hs
    · cases hstep
  | accept t bookingId ownerId =>
    simp only [step] at hstep
    split at hstep
    · cases hstep
      exact .inl rfl
    · cases hstep
  | abort t =>
    cases hstep
    exact .inl rfl
  | block now id listingId ownerId request =>
    simp only [step] at hstep
    repeat' split at hstep
    all_goals
      cases hstep
      try exact .inl rfl
  | unblock blockId listingId ownerId =>
    simp only [step] at hstep
    repeat' split at hstep
    all_goals
      cases hstep
      exact .inl rfl

theorem guarded_run {z : Zone} {ownerOf : Id → Option Id} {s s' : State} {as : List Action}
    (h : Guarded s) (hclear : Meets (step z ownerOf) (ClearOfAcceptances z ownerOf) s as)
    (hrun : run (step z ownerOf) s as = some s') : Guarded s' :=
  run_preserves_of_meets (fun _ _ _ hs ha hstep => guarded_step hs ha hstep) hrun hclear h

/-- No acceptance commits onto a blocked period, as long as no block is
inserted between an acceptance's look at the blocks and its commit. -/
theorem accepted_clear_of_blocks (z : Zone) (ownerOf : Id → Option Id) (as : List Action)
    (a : Action) (s s' : State) (hrun : run (step z ownerOf) State.empty as = some s)
    (hclear : Meets (step z ownerOf) (ClearOfAcceptances z ownerOf) State.empty as)
    (hstep : step z ownerOf s a = some s') :
    ∀ r' ∈ s'.store.bookings, r'.state = accepted →
      (∀ r ∈ s.store.bookings, r.id = r'.id → r.state ≠ accepted) →
      ∀ b ∈ s'.blocks, b.listingId = r'.listingId →
        Period.rangeOverlaps r'.period b.period = false := by
  have h := guarded_run guarded_empty hclear hrun
  intro r' hr' hstate hnew b hb hlisting
  rcases step_store h.sound hstep with hsame | ⟨hblocks, t, he⟩
  · exact absurd hstate (hnew r' (hsame ▸ hr') rfl)
  · obtain ⟨r, hr, heq, hd⟩ := he.moved h.sound hr' (by rw [hstate]; decide)
      (fun r hr hid => by rw [hstate]; exact hnew r hr hid)
    rw [hstate] at hd heq
    obtain ⟨e, hes, hid, -, hto⟩ := (h.sound.dirty t r.id accepted).mp hd
    obtain ⟨booking, hbooking, hbid⟩ := h.story t e hes hto
    -- what the call checked is the row its transaction moves
    have hcleared : booking ∈ (s.calls t).cleared := by
      cases hc : s.calls t with
      | accepting b' ownerId now => rw [hc] at hbooking; exact hbooking
      | _ => rw [hc] at hbooking; cases hbooking
    obtain ⟨r₁, hr₁, state, rfl⟩ := h.held t booking (booking_of_cleared hcleared)
    have hrow : r₁ = r := Keyed.eq_of_key h.sound.ids hr₁ hr (hbid.trans hid)
    have hfree := isBlocked_eq_false.mp (h.clear t _ hcleared) b (hblocks ▸ hb)
    rw [heq] at hlisting ⊢
    rw [hrow] at hfree
    by_contra hover
    rw [Bool.not_eq_false] at hover
    rw [Period.overlaps_of_rangeOverlaps hover] at hfree
    exact absurd (hfree hlisting) (by simp)

theorem meets_of_no_block {z : Zone} {ownerOf : Id → Option Id} {s : State} {as : List Action}
    (h : ∀ a ∈ as, ∀ now id listingId ownerId request, a ≠ .block now id listingId ownerId request) :
    Meets (step z ownerOf) (ClearOfAcceptances z ownerOf) s as := by
  induction as generalizing s with
  | nil => trivial
  | cons a as ih =>
    refine ⟨?_, ?_⟩
    · cases a with
      | block now id listingId ownerId request => exact absurd rfl (h _ List.mem_cons_self _ _ _ _ _)
      | _ => trivial
    · split
      · exact ih (fun a ha => h a (List.mem_cons_of_mem _ ha))
      · trivial

def requestDrill : List Action :=
  [.call 0 (.createWithEvent drillHire), .exec 0 0, .exec 0 0, .exec 0 0]

def blockLater : Action := .block 0 "k1" "drill" "owner" ⟨20, 22, none, by decide⟩

/-- Its first ten days are asked for and all but accepted. -/
def acceptDrill : List Action :=
  requestDrill ++ [.accept 1 "b1" "owner", .exec 1 0, .exec 1 0, .exec 1 0, .exec 1 0, .exec 1 0,
    .exec 1 0, .exec 1 0, .exec 1 0]

theorem acceptDrill_clear_of_blocks : ∃ s s',
    run (step Zone.utc (fun _ => some "owner")) State.empty (blockLater :: acceptDrill) = some s ∧
    step Zone.utc (fun _ => some "owner") s (.exec 1 0) = some s' ∧
    s'.store.bookings.map (·.state) = [accepted] ∧ s'.blocks.length = 1 ∧
    ∀ r' ∈ s'.store.bookings, ∀ b ∈ s'.blocks, b.listingId = r'.listingId →
      Period.rangeOverlaps r'.period b.period = false := by
  have hrun : (run (step Zone.utc (fun _ => some "owner")) State.empty (blockLater :: acceptDrill)).bind
      (fun s => (step Zone.utc (fun _ => some "owner") s (.exec 1 0)).map (fun s' =>
        (s.store.bookings.map (·.state), s'.store.bookings.map (·.state), s'.blocks.length))) =
      some ([requested], [accepted], 1) := by decide +kernel
  obtain ⟨s, hs, hrun⟩ := Option.bind_eq_some_iff.mp hrun
  obtain ⟨s', hs', hrun⟩ := Option.map_eq_some_iff.mp hrun
  simp only [Prod.mk.injEq] at hrun
  obtain ⟨hbefore, hafter, hlen⟩ := hrun
  obtain ⟨u, hu, -⟩ := run_cons_eq_some.mp hs
  have hmeets : Meets (step Zone.utc (fun _ => some "owner")) (ClearOfAcceptances Zone.utc (fun _ => some "owner"))
      State.empty (blockLater :: acceptDrill) := by
    refine (meets_cons hu).mpr ⟨fun _ _ t booking hb => (nomatch hb), meets_of_no_block ?_⟩
    simp [acceptDrill, requestDrill]
  refine ⟨s, s', hs, hs', hafter, hlen, fun r' hr' b hb hlisting => ?_⟩
  have hstate : r'.state = accepted := by
    have hm : r'.state ∈ s'.store.bookings.map (·.state) := List.mem_map_of_mem hr'
    rw [hafter] at hm
    simpa using hm
  refine accepted_clear_of_blocks _ _ _ _ s s' hs hmeets hs' r' hr' hstate (fun r hr _ => ?_) b hb
    hlisting
  have hm : r.state ∈ s.store.bookings.map (·.state) := List.mem_map_of_mem hr
  rw [hbefore] at hm
  simp only [List.mem_singleton] at hm
  simp [hm]

def blockDuringAccept : List Action :=
  requestDrill ++ [.accept 1 "b1" "owner", .exec 1 0, .exec 1 0,
    .block 0 "k1" "drill" "owner" ⟨3, 5, none, by decide⟩, .exec 1 0, .exec 1 0, .exec 1 0,
    .exec 1 0, .exec 1 0, .exec 1 0]

theorem accepted_onto_block : ∃ s s',
    run (step Zone.utc (fun _ => some "owner")) State.empty blockDuringAccept = some s ∧
    step Zone.utc (fun _ => some "owner") s (.exec 1 0) = some s' ∧
    s.store.bookings = [{ drillHire with state := requested }] ∧
    s'.store.bookings = [{ drillHire with state := accepted }] ∧
    ∃ b ∈ s.blocks, b ∈ s'.blocks ∧ b.listingId = drillHire.listingId ∧
      Period.rangeOverlaps drillHire.period b.period = true := by
  have hrun : (run (step Zone.utc (fun _ => some "owner")) State.empty blockDuringAccept).bind
      (fun s => (step Zone.utc (fun _ => some "owner") s (.exec 1 0)).map (fun s' =>
        (s.store.bookings, s'.store.bookings, s.blocks, s'.blocks))) =
      some ([{ drillHire with state := requested }], [{ drillHire with state := accepted }],
        [⟨"k1", "drill", periodFromLocalDates Zone.utc 3 5, none⟩],
        [⟨"k1", "drill", periodFromLocalDates Zone.utc 3 5, none⟩]) := by decide +kernel
  obtain ⟨s, hs, hrun⟩ := Option.bind_eq_some_iff.mp hrun
  obtain ⟨s', hs', hrun⟩ := Option.map_eq_some_iff.mp hrun
  simp only [Prod.mk.injEq] at hrun
  obtain ⟨hbefore, hafter, hblocks, hblocks'⟩ := hrun
  refine ⟨s, s', hs, hs', hbefore, hafter,
    ⟨"k1", "drill", periodFromLocalDates Zone.utc 3 5, none⟩, ?_, ?_, rfl, ?_⟩
  · rw [hblocks]
    exact List.mem_singleton_self _
  · rw [hblocks']
    exact List.mem_singleton_self _
  · decide

end RentalMarket.Booking.Acceptance
