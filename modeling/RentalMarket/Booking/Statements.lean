import RentalMarket.Booking.Store

namespace RentalMarket.Booking

open RentalMarket.Core BookingState State

/-- The events of writes already made that the call has still to insert. -/
def Proc.due : Proc → List BookingEvent
  | .createEvent booking => [requestedEvent booking]
  | .acceptEvent booking ownerId =>
    [stateChangedEvent booking.id requested accepted (some ownerId)]
  | .autoDecline booking done _ => done.map (autoDeclinedEvent booking.id)
  | .declineEvent bookingId ownerId =>
    [stateChangedEvent bookingId requested declined (some ownerId)]
  | .advanceEvent bookingId src dst actorId => [stateChangedEvent bookingId src dst actorId]
  | .sweepUpdate _ done _ => done.map (fun id => stateChangedEvent id requested expired none)
  | _ => []

/-- What the transaction will have told the history once it commits, as far as
it has got: the events it inserted and those its writes still owe. -/
def State.story (s : State) (t : Pid) : List BookingEvent := s.logged t ++ (s.procs t).due

/-- Some committed row is this one up to its state. -/
def Holds (bookings : List BookingRow) (b : BookingRow) : Prop :=
  ∃ r ∈ bookings, ∃ state, b = { r with state := state }

def Known (bookings : List BookingRow) (id : Id) : Prop := ∃ r ∈ bookings, r.id = id

/-- What the locals of a call are worth, statement by statement. -/
def ProcOk (bookings : List BookingRow) (logged : List BookingEvent) : Proc → Prop
  | .commit _ => True
  | .acceptConflicts booking =>
    Holds bookings booking ∧
      ∃ o, logged = [stateChangedEvent booking.id requested accepted (some o)]
  | .autoDecline booking done todo =>
    Holds bookings booking ∧
      (∃ o, logged = [stateChangedEvent booking.id requested accepted (some o)]) ∧
      (booking.id :: (done ++ todo)).Nodup ∧ ∀ id ∈ done ++ todo, Known bookings id
  | .createRow booking => logged = [] ∧ booking.state = requested
  | .createEvent booking => logged = [] ∧ booking.state = requested
  | .acceptUpdate booking _ => logged = [] ∧ Holds bookings booking
  | .acceptEvent booking _ => logged = [] ∧ Holds bookings booking
  | .declineUpdate bookingId _ => logged = [] ∧ Known bookings bookingId
  | .advanceUpdate _ src dst _ => logged = [] ∧ canTransition src dst = true
  | .sweepUpdate _ done todo => logged = [] ∧ (done ++ todo).Nodup
  | _ => logged = []

/-- The structure every reachable state has, whatever raced: the two tables
are keyed, and locks, insertions and stories tell the same changes. -/
structure Sound (s : State) : Prop where
  ids : (s.bookings.map (·.id)).Nodup
  quotes : (s.bookings.map (·.quoteId)).Nodup
  allowed : ∀ r ∈ s.bookings, rowAllowed r = true
  events : ∀ e ∈ s.events, Known s.bookings e.bookingId
  insertFresh : ∀ i ∈ s.inserting, ∀ r ∈ s.bookings, r.id ≠ i.2.id ∧ r.quoteId ≠ i.2.quoteId
  insertDistinct : s.inserting.Pairwise (fun i j => i.2.id ≠ j.2.id ∧ i.2.quoteId ≠ j.2.quoteId)
  insertAllowed : ∀ i ∈ s.inserting, rowAllowed i.2 = true ∧ i.2.state = requested
  insertStory : ∀ i ∈ s.inserting, s.story i.1 = [requestedEvent i.2]
  storyInsert : ∀ t, ∀ e ∈ s.story t, e.fromState = none →
    ∃ row, (t, row) ∈ s.inserting ∧ e = requestedEvent row
  storyKnown : ∀ t, ∀ e ∈ s.story t, e.fromState ≠ none →
    Known s.bookings e.bookingId ∧ e.toState ≠ none
  storyNodup : ∀ t, ((s.story t).map (·.bookingId)).Nodup
  dirty : ∀ t id state, s.dirty id = some (t, state) ↔
    ∃ e ∈ s.story t, e.bookingId = id ∧ e.fromState ≠ none ∧ e.toState = some state
  procs : ∀ t, ProcOk s.bookings (s.logged t) (s.procs t)

/-- The id the next statement writes without looking at the row's state:
`accept` and `decline` update by id, and so does each row of the auto-decline. -/
def Proc.unguarded : Proc → Option Id
  | .acceptUpdate booking _ => some booking.id
  | .declineUpdate bookingId _ => some bookingId
  | .autoDecline _ _ (id :: _) => some id
  | _ => none

def Proc.autoDeclines : Proc → Option Id
  | .autoDecline _ _ (id :: _) => some id
  | _ => none

/-- The booking a call is about to move to `accepted`. -/
def Proc.accepts : Proc → Option Id
  | .acceptRead bookingId _ _ => some bookingId
  | .acceptUpdate booking _ => some booking.id
  | .advanceUpdate bookingId _ dst _ => if dst = accepted then some bookingId else none
  | _ => none

/-- Where a write comes from: an update by id alone, which takes the row for
`requested`, or one whose `WHERE` found the row in the state it leaves. -/
def WriteFrom (s : State) (t : Pid) (id : Id) (e : BookingEvent) : Prop :=
  (e.type = .autoDeclined ∧ (s.procs t).autoDeclines = some id ∧ e.fromState = some requested) ∨
  (e.type = .stateChanged ∧ (s.procs t).unguarded = some id ∧ e.fromState = some requested) ∨
  (e.type = .stateChanged ∧ ∃ r ∈ s.bookings, r.id = id ∧ e.fromState = some r.state)

/-- Everything one statement can do. -/
inductive Effect (s : State) (t : Pid) : State → Prop where
  | quiet (p : Proc) (hdue : p.due = (s.procs t).due) (hok : ProcOk s.bookings (s.logged t) p) :
      Effect s t (s.setProc t p)
  | log (es : List BookingEvent) (p : Proc) (howed : (s.procs t).due = es) (hdue : p.due = [])
      (hok : ProcOk s.bookings (s.logged t ++ es) p) : Effect s t ((s.log t es).setProc t p)
  | write (id : Id) (src dst : BookingState) (e : BookingEvent) (p : Proc)
      (hfree : s.unlocked t id = true) (hnew : id ∉ (s.story t).map (·.bookingId))
      (hstory : ∀ e ∈ s.story t, e.fromState ≠ none)
      (hknown : Known s.bookings id) (hedge : canTransition src dst = true)
      (he : e.bookingId = id) (hsrc : e.fromState = some src) (hdst : e.toState = some dst)
      (hfrom : WriteFrom s t id e) (haccept : dst = accepted → (s.procs t).accepts = some id)
      (hcalendar : excludeStates.contains dst = true →
        ∃ r ∈ s.bookings, r.id = id ∧ s.excluded r dst = false)
      (hdue : p.due = (s.procs t).due ++ [e]) (hok : ProcOk s.bookings (s.logged t) p) :
      Effect s t ((s.write t id dst).setProc t p)
  | insert (row : BookingRow) (hallowed : rowAllowed row = true) (hstate : row.state = requested)
      (hrows : ∀ r ∈ s.bookings, r.id ≠ row.id ∧ r.quoteId ≠ row.quoteId)
      (hinserts : ∀ i ∈ s.inserting, i.2.id ≠ row.id ∧ i.2.quoteId ≠ row.quoteId)
      (hdue : (s.procs t).due = []) (hlogged : s.logged t = []) :
      Effect s t ({ s with inserting := s.inserting ++ [(t, row)] }.setProc t (.createEvent row))
  | release : Effect s t (s.release t)
  | commit (hdue : (s.procs t).due = []) : Effect s t (s.commit t)

theorem find_eq_some {s : State} {id : Id} {r : BookingRow} (h : s.find id = some r) :
    r ∈ s.bookings ∧ r.id = id :=
  ⟨List.mem_of_find?_eq_some h, by simpa using List.find?_some h⟩

theorem findForOwner_eq_some {ownerOf : Id → Option Id} {s : State} {id owner : Id} {r : BookingRow}
    (h : s.findForOwner ownerOf id owner = some r) : r ∈ s.bookings ∧ r.id = id := by
  rw [State.findForOwner, Option.filter_eq_some_iff] at h
  exact find_eq_some h.1

theorem holds_of_mem {bookings : List BookingRow} {r : BookingRow} (h : r ∈ bookings) :
    Holds bookings r := ⟨r, h, r.state, rfl⟩

theorem Holds.known {bookings : List BookingRow} {b : BookingRow} (h : Holds bookings b) :
    Known bookings b.id := by
  obtain ⟨r, hr, state, rfl⟩ := h
  exact ⟨r, hr, rfl⟩

theorem update_eq_some {s s' : State} {t : Pid} {row : BookingRow} {state : BookingState}
    (h : s.update t row state = some s') :
    s.unlocked t row.id = true ∧ s.excluded row state = false ∧ s' = s.write t row.id state := by
  unfold State.update at h
  split at h
  · rename_i hc
    rw [Bool.and_eq_true, Bool.not_eq_true'] at hc
    exact ⟨hc.1, hc.2, (Option.some.inj h).symm⟩
  · cases h

theorem conflictsWith_nodup {s : State} (hs : Sound s) (b : BookingRow) :
    (b.id :: s.conflictsWith b).Nodup := by
  rw [List.nodup_cons]
  constructor
  · intro h
    obtain ⟨r, hr, he⟩ := List.mem_map.mp h
    simp only [List.mem_filter, Bool.and_eq_true, decide_eq_true_eq] at hr
    exact hr.2.1.1.1 he
  · exact hs.ids.sublist (List.filter_sublist.map _)

theorem known_of_mem_conflictsWith {s : State} {b : BookingRow} {id : Id}
    (h : id ∈ s.conflictsWith b) : Known s.bookings id := by
  obtain ⟨r, hr, he⟩ := List.mem_map.mp h
  exact ⟨r, (List.mem_filter.mp hr).1, he⟩

theorem expiryCandidates_nodup {s : State} (hs : Sound s) (now : Instant) (limit : Nat) :
    (s.expiryCandidates now limit).Nodup := by
  have hp : ((s.bookings.filter (overdue now)).insertionSort expiryOrder).Perm
      (s.bookings.filter (overdue now)) := List.perm_insertionSort _ _
  have hn : (((s.bookings.filter (overdue now)).insertionSort expiryOrder).map (·.id)).Nodup :=
    (hp.map _).nodup_iff.mpr (hs.ids.sublist (List.filter_sublist.map _))
  exact hn.sublist ((List.take_sublist _ _).map _)

theorem autoDecline_effect {s : State} {t : Pid} {b : BookingRow} {done todo : List Id} {id : Id}
    (hs : Sound s) (hp : s.procs t = .autoDecline b done (id :: todo))
    (hfree : s.unlocked t id = true) :
    Effect s t ((s.write t id declined).setProc t (.autoDecline b (done ++ [id]) todo)) := by
  have hok := hs.procs t
  rw [hp] at hok
  obtain ⟨hb, ⟨o, ho⟩, hn, hk⟩ := hok
  have hn' : (b.id :: ((done ++ [id]) ++ todo)).Nodup := by simpa using hn
  refine .write id requested declined (autoDeclinedEvent b.id id) _ hfree ?_ ?_ (hk id (by simp))
    rfl rfl rfl rfl (.inl ⟨rfl, by rw [hp]; rfl, rfl⟩) (fun h => nomatch h)
    (fun h => absurd h (by decide)) ?_ ?_
  · simp only [State.story, hp, ho, Proc.due, stateChangedEvent, autoDeclinedEvent, List.map_append,
      List.map_map, List.map_cons, List.map_nil, List.mem_append, List.mem_singleton, List.mem_map,
      Function.comp_apply, exists_eq_right]
    rintro (rfl | h)
    · simp at hn
    · have := List.nodup_append.mp (List.nodup_cons.mp hn).2
      exact this.2.2 id h id (by simp) rfl
  · simp [State.story, hp, ho, Proc.due, stateChangedEvent, autoDeclinedEvent]
  · rw [hp]
    simp [Proc.due]
  · exact ⟨hb, ⟨o, ho⟩, hn', by simpa using hk⟩

theorem sweepUpdate_effect {s s' : State} {t : Pid} {now : Instant} {done todo : List Id} {id : Id}
    {row : BookingRow} (hs : Sound s) (hp : s.procs t = .sweepUpdate now done (id :: todo))
    (hr : s.find id = some row) (hdue : overdue now row = true)
    (h : s.update t row expired = some s') :
    Effect s t (s'.setProc t (.sweepUpdate now (done ++ [id]) todo)) := by
  have hok := hs.procs t
  rw [hp] at hok
  obtain ⟨hl, hn⟩ := hok
  obtain ⟨hfree, -, rfl⟩ := update_eq_some h
  obtain ⟨hm, rfl⟩ := find_eq_some hr
  have hstate : row.state = requested := by
    simp only [overdue, Bool.and_eq_true, decide_eq_true_eq] at hdue
    exact hdue.1
  refine .write row.id requested expired (stateChangedEvent row.id requested expired none) _ hfree
    ?_ ?_ ⟨row, hm, rfl⟩ rfl rfl rfl rfl (.inr (.inr ⟨rfl, row, hm, rfl, by rw [hstate]; rfl⟩))
    (fun h => nomatch h) (fun h => absurd h (by decide)) ?_ ⟨hl, by simpa using hn⟩
  · simp only [State.story, hp, hl, Proc.due, stateChangedEvent, List.map_map, List.nil_append,
      List.mem_map, Function.comp_apply, exists_eq_right]
    intro hd
    exact (List.nodup_append.mp hn).2.2 row.id hd row.id (by simp) rfl
  · simp [State.story, hp, hl, Proc.due, stateChangedEvent]
  · rw [hp]
    simp [Proc.due]

/-- One statement does one of the six things `Effect` lists. -/
theorem exec_effect {ownerOf : Id → Option Id} {s s' : State} {t : Pid} (hs : Sound s)
    (h : exec ownerOf s t = some s') : Effect s t s' := by
  have hok := hs.procs t
  unfold exec at h
  split at h <;> rename_i hp <;> rw [hp] at hok
  · cases h
  · -- `createRow`: the unique keys and the row checks are the guard
    rename_i booking
    split at h
    · rename_i hc
      simp only [Bool.and_eq_true, List.all_eq_true, decide_eq_true_eq, ne_eq] at hc
      cases h
      exact .insert booking hc.1.1 hok.2 hc.1.2 hc.2 (by rw [hp]; rfl) hok.1
    · cases h
  · cases h
    exact .log _ _ (by rw [hp]; rfl) rfl trivial
  · split at h
    · cases h
      exact .quiet _ (by rw [hp]; rfl) trivial
    · rename_i booking hf
      split at h
      · cases h; exact .release
      · split at h
        · cases h; exact .release
        · cases h
          exact .quiet _ (by rw [hp]; rfl) ⟨hok, holds_of_mem (findForOwner_eq_some hf).1⟩
  · -- `acceptUpdate`: by id alone
    rename_i booking ownerId
    obtain ⟨s₁, hu, rfl⟩ := Option.map_eq_some_iff.mp h
    obtain ⟨hfree, hex, rfl⟩ := update_eq_some hu
    obtain ⟨hl, r, hr, state, rfl⟩ := hok
    refine .write r.id requested accepted (stateChangedEvent r.id requested accepted (some ownerId))
      _ hfree ?_ ?_ ⟨r, hr, rfl⟩ rfl rfl rfl rfl (.inr (.inl ⟨rfl, by rw [hp]; rfl, rfl⟩))
      (fun _ => by rw [hp]; rfl) (fun _ => ⟨r, hr, rfl, hex⟩) ?_ ⟨hl, r, hr, state, rfl⟩
    · simp [State.story, hp, hl, Proc.due]
    · simp [State.story, hp, hl, Proc.due]
    · rw [hp]; rfl
  · rename_i booking ownerId
    cases h
    exact .log _ _ (by rw [hp]; rfl) rfl (by rw [hok.1]; exact ⟨hok.2, ownerId, rfl⟩)
  · rename_i booking
    cases h
    refine .quiet _ (by rw [hp]; rfl) ⟨hok.1, hok.2, ?_, ?_⟩
    · simpa using conflictsWith_nodup hs booking
    · intro id hid
      exact known_of_mem_conflictsWith (by simpa using hid)
  · split at h
    · rename_i hfree
      cases h
      exact autoDecline_effect hs hp hfree
    · cases h
  · cases h
    exact .log _ _ (by rw [hp]; rfl) rfl trivial
  · split at h
    · cases h
      exact .quiet _ (by rw [hp]; rfl) trivial
    · rename_i booking hf
      obtain ⟨hm, rfl⟩ := findForOwner_eq_some hf
      split at h
      · cases h; exact .release
      · cases h
        exact .quiet _ (by rw [hp]; rfl) ⟨hok, booking, hm, rfl⟩
  · -- `declineUpdate`: by id alone
    rename_i bookingId ownerId
    split at h
    · rename_i hfree
      cases h
      refine .write bookingId requested declined
        (stateChangedEvent bookingId requested declined (some ownerId)) _ hfree ?_ ?_ hok.2 rfl rfl rfl
        rfl (.inr (.inl ⟨rfl, by rw [hp]; rfl, rfl⟩)) (fun h => nomatch h)
        (fun h => absurd h (by decide)) ?_ hok.1
      · simp [State.story, hp, hok.1, Proc.due]
      · simp [State.story, hp, hok.1, Proc.due]
      · rw [hp]; rfl
    · cases h
  · cases h
    exact .log _ _ (by rw [hp]; rfl) rfl trivial
  · -- `advanceUpdate`: the state it leaves is in the `WHERE`
    rename_i bookingId src dst actorId
    split at h
    · cases h
      exact .quiet _ (by rw [hp]; rfl) trivial
    · rename_i row hr
      obtain ⟨hm, rfl⟩ := find_eq_some hr
      split at h
      · rename_i hsrc
        obtain ⟨s₁, hu, rfl⟩ := Option.map_eq_some_iff.mp h
        obtain ⟨hfree, hex, rfl⟩ := update_eq_some hu
        refine .write row.id src dst (stateChangedEvent row.id src dst actorId) _ hfree ?_ ?_
          ⟨row, hm, rfl⟩ hok.2 rfl rfl rfl (.inr (.inr ⟨rfl, row, hm, rfl, by rw [hsrc]; rfl⟩))
          (fun h => by rw [hp, h]; rfl) (fun _ => ⟨row, hm, rfl, hex⟩) ?_ hok.1
        · simp [State.story, hp, hok.1, Proc.due]
        · simp [State.story, hp, hok.1, Proc.due]
        · rw [hp]; rfl
      · cases h
        exact .quiet _ (by rw [hp]; rfl) trivial
  · cases h
    exact .log _ _ (by rw [hp]; rfl) rfl trivial
  · rename_i now limit
    cases h
    exact .quiet _ (by rw [hp]; rfl) ⟨hok, by simpa using expiryCandidates_nodup hs now limit⟩
  · rename_i now done id todo
    have hskip : (done ++ todo).Nodup :=
      hok.2.sublist (List.Sublist.append_left (List.sublist_cons_self _ _) _)
    split at h
    · cases h
      exact .quiet _ (by rw [hp]; rfl) ⟨hok.1, hskip⟩
    · rename_i row hr
      split at h
      · rename_i hdue
        obtain ⟨s₁, hu, rfl⟩ := Option.map_eq_some_iff.mp h
        exact sweepUpdate_effect hs hp hr hdue hu
      · cases h
        exact .quiet _ (by rw [hp]; rfl) ⟨hok.1, hskip⟩
  · cases h
    exact .log _ _ (by rw [hp]; rfl) rfl trivial
  · cases h
    exact .commit (by rw [hp]; rfl)

end RentalMarket.Booking
