import RentalMarket.Booking.History

namespace RentalMarket.Booking

open RentalMarket.Core BookingState State Runs

theorem excludeStates_eq : excludeStates = calendarOccupyingStates := rfl

def Clash (r r' : BookingRow) : Prop :=
  r.id ≠ r'.id ∧ r.listingId = r'.listingId ∧ Period.rangeOverlaps r.period r'.period = true

theorem Clash.symm {r r' : BookingRow} (h : Clash r r') : Clash r' r :=
  ⟨h.1.symm, h.2.1.symm, by rw [Period.rangeOverlaps_comm]; exact h.2.2⟩

/-- Of two clashing rows at most one holds the calendar, in any version of it
that the open transactions could still commit. -/
def Exclusive (s : State) : Prop :=
  ∀ r ∈ s.bookings, ∀ r' ∈ s.bookings, Clash r r' → s.mayOccupy r = true → s.mayOccupy r' = false

theorem exclusive_empty : Exclusive State.empty := fun _ h => nomatch h

theorem mayOccupy_eq_true {s : State} {r : BookingRow} :
    s.mayOccupy r = true ↔ excludeStates.contains r.state = true ∨
      ∃ t state, s.dirty r.id = some (t, state) ∧ excludeStates.contains state = true := by
  rw [State.mayOccupy, Bool.or_eq_true, Option.any_eq_true_iff_get]
  cases h : s.dirty r.id with
  | none => simp
  | some w =>
    obtain ⟨t, state⟩ := w
    simp

theorem Exclusive.of_dirty {s s' : State} (h : Exclusive s) (hb : s'.bookings = s.bookings)
    (hd : ∀ id w, s'.dirty id = some w → s.dirty id = some w) : Exclusive s' := by
  have hmay : ∀ r, s'.mayOccupy r = true → s.mayOccupy r = true := by
    intro r hr
    rw [mayOccupy_eq_true] at hr ⊢
    rcases hr with hr | ⟨t, state, hw, hstate⟩
    · exact .inl hr
    · exact .inr ⟨t, state, hd _ _ hw, hstate⟩
  intro r hr r' hr' hclash hocc
  rw [hb] at hr hr'
  have hfree := h r hr r' hr' hclash (hmay r hocc)
  by_contra hocc'
  rw [Bool.not_eq_false] at hocc'
  rw [hmay r' hocc'] at hfree
  cases hfree

theorem not_mayOccupy_of_not_excluded {s : State} {r : BookingRow} {state : BookingState}
    (h : s.excluded r state = false) (hstate : excludeStates.contains state = true) :
    ∀ r' ∈ s.bookings, Clash r r' → s.mayOccupy r' = false := by
  intro r' hr' hclash
  rw [State.excluded, hstate, Bool.true_and, List.any_eq_false] at h
  have hrow := h r' hr'
  obtain ⟨hid, hlisting, hover⟩ := hclash.symm
  simpa [hid, hlisting, hover] using hrow

theorem Exclusive.write {s : State} (hs : Sound s) (h : Exclusive s) {t : Pid} {id : Id}
    {dst : BookingState} {p : Proc}
    (hcal : excludeStates.contains dst = true →
      ∃ r ∈ s.bookings, r.id = id ∧ s.excluded r dst = false) :
    Exclusive ((s.write t id dst).setProc t p) := by
  have hother : ∀ r : BookingRow, r.id ≠ id →
      ((s.write t id dst).setProc t p).mayOccupy r = s.mayOccupy r := by
    intro r hr
    simp [State.mayOccupy, State.write, State.setProc, hr]
  -- the row just written holds the calendar only if the constraint let it
  have hself : ∀ r ∈ s.bookings, r.id = id →
      ((s.write t id dst).setProc t p).mayOccupy r = true →
      ∀ r' ∈ s.bookings, Clash r r' → s.mayOccupy r' = false := by
    intro r hr hid hocc r' hr' hclash
    rw [mayOccupy_eq_true] at hocc
    rcases hocc with hocc | ⟨u, state, hw, hstate⟩
    · exact h r hr r' hr' hclash (mayOccupy_eq_true.mpr (.inl hocc))
    · have hst : state = dst := by
        simp only [State.write, State.setProc, hid, Function.update_self, Option.some.injEq,
          Prod.mk.injEq] at hw
        exact hw.2.symm
      rw [hst] at hstate
      obtain ⟨r₁, h₁, hid₁, hex⟩ := hcal hstate
      have heq : r₁ = r := Keyed.eq_of_key hs.ids h₁ hr (hid₁.trans hid.symm)
      rw [heq] at hex
      exact not_mayOccupy_of_not_excluded hex hstate r' hr' hclash
  intro r hr r' hr' hclash hocc
  by_cases hid : r.id = id
  · rw [hother r' (fun h => hclash.1 (hid.trans h.symm))]
    exact hself r hr hid hocc r' hr' hclash
  · rw [hother r hid] at hocc
    by_cases hid' : r'.id = id
    · by_contra hocc'
      rw [Bool.not_eq_false] at hocc'
      rw [hself r' hr' hid' hocc' r hr hclash.symm] at hocc
      cases hocc
    · rw [hother r' hid']
      exact h r hr r' hr' hclash hocc

theorem mayOccupy_settle {s : State} {t : Pid} {r : BookingRow}
    (h : (s.commit t).mayOccupy (s.settle t r) = true) : s.mayOccupy r = true := by
  rw [mayOccupy_eq_true, settle_id] at h
  rw [mayOccupy_eq_true]
  rcases h with h | ⟨u, state, hw, hstate⟩
  · unfold State.settle at h
    split at h
    · rename_i u state hd
      split at h
      · exact .inr ⟨u, state, hd, h⟩
      · exact .inl h
    · exact .inl h
  · exact .inr ⟨u, state, ((dirty_release s t u r.id state).mp hw).1, hstate⟩

theorem not_mayOccupy_inserted {s : State} (hs : Sound s) {t : Pid} {r : BookingRow}
    (h : (t, r) ∈ s.inserting) : (s.commit t).mayOccupy r = false := by
  by_contra hocc
  rw [Bool.not_eq_false, mayOccupy_eq_true, (hs.insertAllowed _ h).2] at hocc
  rcases hocc with hocc | ⟨u, state, hw, -⟩
  · exact absurd hocc (by decide)
  · -- nobody can have locked a row that is not there yet
    have hd := ((dirty_release s t u r.id state).mp hw).1
    obtain ⟨e, he, hid, hn, -⟩ := (hs.dirty u r.id state).mp hd
    obtain ⟨r', hr', hid'⟩ := (hs.storyKnown u e he hn).1
    exact (hs.insertFresh _ h r' hr').1 (hid'.trans hid)

theorem Exclusive.commit {s : State} (hs : Sound s) (h : Exclusive s) (t : Pid) :
    Exclusive (s.commit t) := by
  intro r hr r' hr' hclash hocc
  rcases mem_bookings_commit.mp hr with ⟨r₀, h₀, rfl⟩ | hr
  · rcases mem_bookings_commit.mp hr' with ⟨r₁, h₁, rfl⟩ | hr'
    · have hclash₀ : Clash r₀ r₁ := by
        rw [settle_eq s t r₀, settle_eq s t r₁] at hclash
        exact hclash
      have hfree := h r₀ h₀ r₁ h₁ hclash₀ (mayOccupy_settle hocc)
      by_contra hocc'
      rw [Bool.not_eq_false] at hocc'
      rw [mayOccupy_settle hocc'] at hfree
      cases hfree
    · exact not_mayOccupy_inserted hs hr'
  · rw [not_mayOccupy_inserted hs hr] at hocc
    cases hocc

theorem Exclusive.effect {s s' : State} {t : Pid} (hs : Sound s) (h : Exclusive s)
    (he : Effect s t s') : Exclusive s' := by
  cases he with
  | write id src dst e p hfree hnew hstory hknown hedge he hsrc hdst hfrom haccept hcal hdue hok =>
    exact h.write hs hcal
  | release =>
    refine h.of_dirty rfl (fun id w hw => ?_)
    exact ((dirty_release s t w.1 id w.2).mp hw).1
  | commit hdue => exact h.commit hs t
  | _ => exact h.of_dirty rfl (fun _ _ hw => hw)

theorem exclusive_run {ownerOf : Id → Option Id} {s : State} {as : List Action}
    (hrun : run (step ownerOf) State.empty as = some s) : Sound s ∧ Exclusive s := by
  refine run_preserves (P := fun s => Sound s ∧ Exclusive s) ?_ hrun ⟨sound_empty, exclusive_empty⟩
  rintro s a s' ⟨hs, h⟩ hstep
  exact ⟨sound_step hs hstep, h.effect hs (step_effect hs hstep)⟩

/-- The ids `accept` reads before it auto-declines: exactly the other open
requests of the listing whose period shares an instant with the accepted one. -/
theorem mem_conflictsWith {s : State} (hs : Sound s) {booking : BookingRow}
    (hb : Holds s.bookings booking) {id : Id} :
    id ∈ s.conflictsWith booking ↔ ∃ r ∈ s.bookings, r.id = id ∧ r.state = requested ∧
      Clash booking r := by
  have hbooking := hs.period_nonempty hb
  have hnonempty : ∀ r ∈ s.bookings, r.period.Nonempty :=
    fun r hr => hs.period_nonempty (holds_of_mem hr)
  simp only [State.conflictsWith, List.mem_map, List.mem_filter, Bool.and_eq_true,
    decide_eq_true_eq]
  constructor
  · rintro ⟨r, ⟨hr, ⟨⟨hne, hlisting⟩, hstate⟩, hover⟩, rfl⟩
    rw [Period.overlaps_eq_rangeOverlaps hbooking (hnonempty r hr)] at hover
    exact ⟨r, hr, rfl, hstate, hne.symm, hlisting.symm, hover⟩
  · rintro ⟨r, hr, rfl, hstate, hne, hlisting, hover⟩
    rw [← Period.overlaps_eq_rangeOverlaps hbooking (hnonempty r hr)] at hover
    exact ⟨r, ⟨hr, ⟨⟨hne.symm, hlisting.symm⟩, hstate⟩, hover⟩, rfl⟩

/-- Each auto-decline finds its booking not yet auto-declined by another
acceptance that committed after this one read its conflicts. -/
def SoleAutoDecline (s : State) : Action → Prop
  | .exec t => ∀ id ∈ (s.procs t).autoDeclines, ∀ e ∈ s.events, e.bookingId = id →
    e.type ≠ .autoDeclined
  | _ => True

instance (s : State) : ∀ a, Decidable (SoleAutoDecline s a)
  | .exec t => inferInstanceAs (Decidable (∀ id ∈ (s.procs t).autoDeclines, _))
  | .call _ _ => isTrue trivial
  | .abort _ => isTrue trivial

def State.autoDeclinesOf (s : State) (id : Id) : List BookingEvent :=
  (s.history id).filter (fun e => e.type = .autoDeclined)

/-- One auto-decline a booking, counting the ones not yet committed. -/
structure Sole (s : State) : Prop where
  committed : ∀ id, (s.autoDeclinesOf id).length ≤ 1
  pending : ∀ t, ∀ e ∈ s.story t, e.type = .autoDeclined → s.autoDeclinesOf e.bookingId = []

theorem sole_empty : Sole State.empty where
  committed _ := Nat.zero_le 1
  pending _ _ h := nomatch h

theorem autoDeclinesOf_eq_nil {s : State} {id : Id} :
    s.autoDeclinesOf id = [] ↔ ∀ e ∈ s.events, e.bookingId = id → e.type ≠ .autoDeclined := by
  simp only [State.autoDeclinesOf, State.history, List.filter_filter, List.filter_eq_nil_iff,
    Bool.and_eq_true, decide_eq_true_eq, not_and]
  exact forall₂_congr (fun e _ => imp_not_comm)

theorem dirty_of_autoDeclined {s : State} (hs : Sound s) {t : Pid} {e : BookingEvent}
    (he : e ∈ s.story t) (htype : e.type = .autoDeclined) :
    ∃ state, s.dirty e.bookingId = some (t, state) := by
  have hn : e.fromState ≠ none := by
    intro hn
    obtain ⟨row, -, rfl⟩ := hs.storyInsert t e he hn
    cases htype
  obtain ⟨dst, hdst⟩ := Option.ne_none_iff_exists'.mp (hs.storyKnown t e he hn).2
  exact ⟨dst, (hs.dirty t _ dst).mpr ⟨e, he, rfl, hn, hdst⟩⟩

theorem autoDeclinesOf_commit (s : State) (t : Pid) (id : Id) :
    (s.commit t).autoDeclinesOf id = s.autoDeclinesOf id ++
      ((s.logged t).filter (fun e => e.bookingId = id)).filter (fun e => e.type = .autoDeclined) := by
  rw [State.autoDeclinesOf, history_commit, List.filter_append, State.autoDeclinesOf]

theorem Sole.commit {s : State} (hs : Sound s) (h : Sole s) {t : Pid}
    (hdue : (s.procs t).due = []) : Sole (s.commit t) where
  committed id := by
    have hlogged : s.story t = s.logged t := by simp [State.story, hdue]
    rw [autoDeclinesOf_commit, ← hlogged]
    by_cases hnew : ∃ e ∈ s.story t, e.bookingId = id ∧ e.type = .autoDeclined
    · obtain ⟨e, he, rfl, htype⟩ := hnew
      rw [h.pending t e he htype, Keyed.filter_key_eq_singleton (hs.storyNodup t) he]
      simp [htype]
    · have hnil : ((s.story t).filter (fun e => e.bookingId = id)).filter
          (fun e => e.type = .autoDeclined) = [] := by
        rw [List.filter_filter, List.filter_eq_nil_iff]
        intro e he hc
        simp only [Bool.and_eq_true, decide_eq_true_eq] at hc
        exact hnew ⟨e, he, hc.2, hc.1⟩
      rw [hnil, List.append_nil]
      exact h.committed id
  pending u e he htype := by
    have hu : (s.commit t).story u = if u = t then [] else s.story u := story_release s t u
    rw [hu] at he
    split at he
    · cases he
    · rename_i hut
      -- the row is locked by `u`, so the committing call has nothing to say of it
      obtain ⟨state, hd⟩ := dirty_of_autoDeclined hs he htype
      have hold := h.pending u e he htype
      rw [autoDeclinesOf_eq_nil] at hold ⊢
      intro d hdm hid hdt
      rcases List.mem_append.mp hdm with hdm | hdm
      · exact hold d hdm hid hdt
      · obtain ⟨state', hd'⟩ := dirty_of_autoDeclined hs (t := t)
          (List.mem_append_left _ hdm) hdt
        rw [hid, hd] at hd'
        cases hd'
        exact hut rfl

theorem Sole.of_story {s s' : State} (h : Sole s) (he : s'.events = s.events)
    (hst : ∀ u, ∀ e ∈ s'.story u, e ∈ s.story u ∨
      (e.type = .autoDeclined → s.autoDeclinesOf e.bookingId = [])) : Sole s' := by
  have hsame : ∀ id, s'.autoDeclinesOf id = s.autoDeclinesOf id := by
    intro id
    rw [State.autoDeclinesOf, State.history, he]
    rfl
  constructor
  · intro id
    rw [hsame]
    exact h.committed id
  · intro u e hu htype
    rw [hsame]
    rcases hst u e hu with hold | hnew
    · exact h.pending u e hold htype
    · exact hnew htype

theorem Sole.effect {s s' : State} {t : Pid} (hs : Sound s) (h : Sole s)
    (hsole : SoleAutoDecline s (.exec t)) (he : Effect s t s') : Sole s' := by
  rcases he.story_grows hs with ⟨rfl, hdue⟩ | ⟨-, hev, hst⟩
  · exact h.commit hs hdue
  · refine h.of_story hev (fun u e hu => ?_)
    rcases hst u e hu with hold | ⟨-, hnew⟩
    · exact .inl hold
    · refine .inr (fun htype => ?_)
      rcases hnew with ⟨hreq, -⟩ | ⟨src, dst, -, -, -, -, hfrom, -⟩
      · rw [hreq] at htype
        cases htype
      · rcases hfrom with ⟨-, hpc, -⟩ | ⟨hchanged, -⟩ | ⟨hchanged, -⟩
        · exact autoDeclinesOf_eq_nil.mpr (hsole _ hpc)
        · rw [hchanged] at htype
          cases htype
        · rw [hchanged] at htype
          cases htype

theorem Sole.step {ownerOf : Id → Option Id} {s s' : State} {a : Action} (hs : Sound s)
    (h : Sole s) (hsole : SoleAutoDecline s a) (hstep : step ownerOf s a = some s') : Sole s' := by
  rcases step_cases hs hstep with ⟨t, rfl, he⟩ | ⟨-, hev, hst⟩
  · exact h.effect hs hsole he
  · exact h.of_story hev (fun u e hu => .inl (hst u e hu))

theorem sole_run {ownerOf : Id → Option Id} {s s' : State} {as : List Action} (hs : Sound s)
    (h : Sole s) (hsole : Meets (step ownerOf) SoleAutoDecline s as)
    (hrun : run (step ownerOf) s as = some s') : Sound s' ∧ Sole s' :=
  run_preserves_of_meets (P := fun s => Sound s ∧ Sole s)
    (fun _ _ _ hs ha hstep => ⟨sound_step hs.1 hstep, hs.2.step hs.1 ha hstep⟩) hrun hsole ⟨hs, h⟩

/-- An acceptance between its conflict read and its commit, with the ids it
read. Idle is where a rollback leaves it. -/
def Accepting (t : Pid) (booking : BookingRow) (ids : List Id) (s : State) : Prop :=
  s.procs t = .idle ∨
  (∃ done todo, s.procs t = .autoDecline booking done todo ∧ done ++ todo = ids) ∨
  (s.procs t = .commit (.accepted booking ids) ∧
    ∃ o, s.logged t = stateChangedEvent booking.id requested accepted (some o) ::
      ids.map (autoDeclinedEvent booking.id))

theorem Accepting.step {ownerOf : Id → Option Id} {s s' : State} {a : Action} (hs : Sound s)
    {t : Pid} {booking : BookingRow} {ids : List Id} (h : Accepting t booking ids s)
    (hcall : ∀ op, a ≠ .call t op) (hstep : step ownerOf s a = some s') :
    Accepting t booking ids s' := by
  by_cases ha : t = a.pid
  · cases a with
    | call u op => exact absurd (congrArg (Action.call · op) ha.symm) (hcall op)
    | abort u =>
      simp only [Booking.step] at hstep
      split at hstep
      · cases hstep
      · cases hstep
        left
        simp [State.release, ha, Action.pid]
    | exec u =>
      have hu : u = t := ha.symm
      subst hu
      rcases h with hp | ⟨done, todo, hp, hids⟩ | ⟨hp, -⟩
      · simp [Booking.step, exec, hp] at hstep
      · cases todo with
        | nil =>
          simp only [Booking.step, exec, hp, Option.some.injEq] at hstep
          have hok := hs.procs u
          rw [hp] at hok
          obtain ⟨o, ho⟩ := hok.2.1
          rw [List.append_nil] at hids
          subst hstep hids
          exact .inr (.inr ⟨by simp [State.setProc], o, by simp [State.setProc, State.log, ho]⟩)
        | cons id todo =>
          simp only [Booking.step, exec, hp] at hstep
          split at hstep
          · cases hstep
            exact .inr (.inl ⟨done ++ [id], todo, by simp [State.setProc], by simpa using hids⟩)
          · cases hstep
      · simp only [Booking.step, exec, hp, Option.some.injEq] at hstep
        subst hstep
        exact .inl (by simp [State.commit, State.release])
  · obtain ⟨hp, hl⟩ := (step_effect hs hstep).frame ha
    rw [Accepting, hp, hl]
    exact h

theorem accepting_run {ownerOf : Id → Option Id} {s s' : State} {as : List Action} (hs : Sound s)
    {t : Pid} {booking : BookingRow} {ids : List Id} (h : Accepting t booking ids s)
    (hcall : ∀ op, Action.call t op ∉ as) (hrun : run (step ownerOf) s as = some s') :
    Accepting t booking ids s' := by
  induction as generalizing s with
  | nil => cases hrun; exact h
  | cons a as ih =>
    obtain ⟨u, hu, hrun⟩ := run_cons_eq_some.mp hrun
    refine ih (sound_step hs hu) (h.step hs ?_ hu) ?_ hrun
    · rintro op rfl
      exact hcall op List.mem_cons_self
    · exact fun op hop => hcall op (List.mem_cons_of_mem _ hop)

theorem accepting_of_acceptConflicts {ownerOf : Id → Option Id} {s s' : State} {t : Pid}
    {booking : BookingRow} (hp : s.procs t = .acceptConflicts booking)
    (hstep : step ownerOf s (.exec t) = some s') :
    Accepting t booking (s.conflictsWith booking) s' := by
  simp only [step, exec, hp, Option.some.injEq] at hstep
  subst hstep
  exact .inr (.inl ⟨[], s.conflictsWith booking, by simp [State.setProc], rfl⟩)

/-- What the commit of an acceptance does to the rows: each conflict is
declined under one event, the rest keep their state. -/
theorem accepted_commit {s : State} (hs : Sound s) (h : Sole s) {t : Pid} {booking : BookingRow}
    {ids : List Id} (hp : s.procs t = .commit (.accepted booking ids))
    (hacc : Accepting t booking ids s) :
    (∀ id ∈ ids, (∃ r ∈ (s.commit t).bookings, r.id = id ∧ r.state = declined) ∧
      (s.commit t).autoDeclinesOf id = [autoDeclinedEvent booking.id id]) ∧
    ∀ r ∈ s.bookings, r.id ≠ booking.id → r.id ∉ ids → r ∈ (s.commit t).bookings := by
  have hdue : (s.procs t).due = [] := by rw [hp]; rfl
  obtain ⟨o, hlogged⟩ : ∃ o, s.logged t =
      stateChangedEvent booking.id requested accepted (some o) ::
        ids.map (autoDeclinedEvent booking.id) := by
    rcases hacc with hidle | ⟨done, todo, hbusy, -⟩ | ⟨-, hl⟩
    · rw [hp] at hidle; cases hidle
    · rw [hp] at hbusy; cases hbusy
    · exact hl
  have hstory : s.story t = s.logged t := by simp [State.story, hdue]
  constructor
  · intro id hid
    have he : autoDeclinedEvent booking.id id ∈ s.story t := by
      rw [hstory, hlogged]
      exact List.mem_cons_of_mem _ (List.mem_map_of_mem hid)
    have hd : s.dirty id = some (t, declined) :=
      (hs.dirty t id declined).mpr ⟨_, he, rfl, Option.some_ne_none _, rfl⟩
    obtain ⟨r, hr, hrid⟩ := (hs.storyKnown t _ he (Option.some_ne_none _)).1
    have hrid : r.id = id := hrid
    constructor
    · refine ⟨s.settle t r, mem_bookings_commit.mpr (.inl ⟨r, hr, rfl⟩), ?_, ?_⟩
      · rw [settle_id, hrid]
      · rw [settle_of_dirty (hrid ▸ hd)]
    · have hnone : s.autoDeclinesOf id = [] := h.pending t _ he rfl
      rw [autoDeclinesOf_commit, hnone, List.nil_append, ← hstory]
      have hone := Keyed.filter_key_eq_singleton (hs.storyNodup t) he
      rw [show (autoDeclinedEvent booking.id id).bookingId = id from rfl] at hone
      rw [hone]
      rfl
  · intro r hr hb hids
    have hkeep : s.settle t r = r := by
      rcases logged_of_row hs hdue hr with ⟨-, hsame⟩ | ⟨e, he, src, dst, hid, -⟩
      · exact hsame
      · rw [hstory, hlogged] at he
        rcases List.mem_cons.mp he with rfl | he
        · exact absurd hid.symm hb
        · obtain ⟨id, hmem, rfl⟩ := List.mem_map.mp he
          exact absurd (hid ▸ hmem) hids
    exact mem_bookings_commit.mpr (.inl ⟨r, hr, hkeep⟩)

/-- No double booking, whatever interleaves; and an acceptance that returns
has declined the requests it read in its way, once each, and no others, as long
as no two acceptances auto-decline the same request. -/
theorem accept_clears_calendar (ownerOf : Id → Option Id) (as : List Action) (s : State)
    (hrun : run (step ownerOf) State.empty as = some s)
    (hsole : Meets (step ownerOf) SoleAutoDecline State.empty as) :
    (∀ r ∈ s.bookings, ∀ r' ∈ s.bookings, r.id ≠ r'.id → r.listingId = r'.listingId →
      occupiesCalendar r.state = true → occupiesCalendar r'.state = true →
      Period.rangeOverlaps r.period r'.period = false) ∧
    (∀ p q : Period, p.Nonempty → q.Nonempty →
      Period.overlaps p.startAt p.endAt q = Period.rangeOverlaps p q ∧
        Period.inMemoryOverlap q p = Period.rangeOverlaps p q) ∧
    (∀ t booking, s.procs t = .acceptConflicts booking → ∀ mid s₂ s₃ ids,
      run (step ownerOf) s (.exec t :: mid) = some s₂ →
      Meets (step ownerOf) SoleAutoDecline s (.exec t :: mid) →
      (∀ op, Action.call t op ∉ mid) → s₂.procs t = .commit (.accepted booking ids) →
      step ownerOf s₂ (.exec t) = some s₃ →
      (∀ id, id ∈ ids ↔ ∃ r ∈ s.bookings, r.id = id ∧ r.state = requested ∧ r.id ≠ booking.id ∧
        r.listingId = booking.listingId ∧ Period.rangeOverlaps booking.period r.period = true) ∧
      (∀ id ∈ ids, (∃ r ∈ s₃.bookings, r.id = id ∧ r.state = declined) ∧
        s₃.autoDeclinesOf id = [autoDeclinedEvent booking.id id]) ∧
      ∀ r ∈ s₂.bookings, r.id ≠ booking.id → r.id ∉ ids → r ∈ s₃.bookings) := by
  obtain ⟨hs, hexclusive⟩ := exclusive_run hrun
  refine ⟨?_, ?_, ?_⟩
  · intro r hr r' hr' hne hlisting hocc hocc'
    by_contra hover
    rw [Bool.not_eq_false] at hover
    have hmay : ∀ r : BookingRow, occupiesCalendar r.state = true → s.mayOccupy r = true :=
      fun r h => mayOccupy_eq_true.mpr (.inl h)
    have hfree := hexclusive r hr r' hr' ⟨hne, hlisting, hover⟩ (hmay r hocc)
    rw [hmay r' hocc'] at hfree
    cases hfree
  · intro p q hp hq
    have h := Period.overlaps_eq_rangeOverlaps hp hq
    exact ⟨h, Period.overlaps_eq_inMemoryOverlap p q ▸ h⟩
  · intro t booking hp mid s₂ s₃ ids hrun₂ hsole₂ hcall hp₂ hstep
    obtain ⟨s₁, hstep₁, hrun₁⟩ := run_cons_eq_some.mp hrun₂
    have hs₁ := sound_step hs hstep₁
    have hacc := accepting_run hs₁ (accepting_of_acceptConflicts hp hstep₁) hcall hrun₁
    have hids : ids = s.conflictsWith booking := by
      rcases hacc with hidle | ⟨done, todo, hbusy, -⟩ | ⟨hcommit, -⟩
      · rw [hp₂] at hidle; cases hidle
      · rw [hp₂] at hbusy; cases hbusy
      · rw [hp₂] at hcommit; cases hcommit; rfl
    rw [← hids] at hacc
    have hsole₀ := (sole_run sound_empty sole_empty hsole hrun).2
    obtain ⟨hs₂, hsole₂⟩ := sole_run hs hsole₀ hsole₂ hrun₂
    simp only [step, exec, hp₂, Option.some.injEq] at hstep
    subst hstep
    refine ⟨?_, accepted_commit hs₂ hsole₂ hp₂ hacc⟩
    intro id
    have hok := hs.procs t
    rw [hp] at hok
    rw [hids, mem_conflictsWith hs hok.1]
    constructor
    · rintro ⟨r, hr, hid, hstate, hne, hlisting, hover⟩
      exact ⟨r, hr, hid, hstate, hne.symm, hlisting.symm, hover⟩
    · rintro ⟨r, hr, hid, hstate, hne, hlisting, hover⟩
      exact ⟨r, hr, hid, hstate, hne.symm, hlisting.symm, hover⟩

/-- The drill asked for from one day to another, as a booking of its own. -/
def drillHireOver (id : Id) (firstDay lastDay : Int) : BookingRow :=
  { drillHire with
    id := id, quoteId := id, period := ⟨firstDay * 86400000, (lastDay + 1) * 86400000⟩ }

def requestThree : List Action :=
  [.call 0 (.createWithEvent (drillHireOver "b1" 0 9)), .exec 0, .exec 0, .exec 0,
    .call 0 (.createWithEvent (drillHireOver "b2" 10 19)), .exec 0, .exec 0, .exec 0,
    .call 0 (.createWithEvent (drillHireOver "b3" 5 14)), .exec 0, .exec 0, .exec 0]

def acceptFirst : List Action :=
  requestThree ++ [.call 1 (.accept "b1" "owner" 0), .exec 1, .exec 1, .exec 1]

theorem accept_first_clears_calendar : ∃ s s₂ s₃,
    run (step (fun _ => some "owner")) State.empty acceptFirst = some s ∧
    run (step (fun _ => some "owner")) s [.exec 1, .exec 1, .exec 1] = some s₂ ∧
    step (fun _ => some "owner") s₂ (.exec 1) = some s₃ ∧
    s₃.autoDeclinesOf "b3" = [autoDeclinedEvent "b1" "b3"] := by
  have hrun : (run (step (fun _ => some "owner")) State.empty acceptFirst).bind (fun s =>
      (run (step (fun _ => some "owner")) s [.exec 1, .exec 1, .exec 1]).bind (fun s₂ =>
        (step (fun _ => some "owner") s₂ (.exec 1)).map (fun _ =>
          (s.procs 1, s₂.procs 1, decide (Meets (step (fun _ => some "owner")) SoleAutoDecline s
            [.exec 1, .exec 1, .exec 1]))))) =
      some (.acceptConflicts { drillHireOver "b1" 0 9 with state := requested },
        .commit (.accepted { drillHireOver "b1" 0 9 with state := requested } ["b3"]), true) := by
    decide +kernel
  obtain ⟨s, hs, hrun⟩ := Option.bind_eq_some_iff.mp hrun
  obtain ⟨s₂, hs₂, hrun⟩ := Option.bind_eq_some_iff.mp hrun
  obtain ⟨s₃, hs₃, hrun⟩ := Option.map_eq_some_iff.mp hrun
  simp only [Prod.mk.injEq, decide_eq_true_eq] at hrun
  obtain ⟨hp, hp₂, hsole⟩ := hrun
  have h := (accept_clears_calendar _ _ s hs (by decide +kernel)).2.2 1 _ hp [.exec 1, .exec 1] s₂ s₃
    ["b3"] hs₂ hsole (by simp) hp₂ hs₃
  exact ⟨s, s₂, s₃, hs, hs₂, hs₃, (h.2.1 "b3" (by simp)).2⟩

/-- Both back-to-back hires are accepted at once: each has read the third as
its conflict before the other commits. -/
def acceptBoth : List Action :=
  requestThree ++ [.call 1 (.accept "b1" "owner" 0), .exec 1, .exec 1, .exec 1,
    .call 2 (.accept "b2" "owner" 0), .exec 2, .exec 2, .exec 2, .exec 1]

theorem auto_declined_twice : ∃ s s₂ s₃,
    run (step (fun _ => some "owner")) State.empty acceptBoth = some s ∧
    run (step (fun _ => some "owner")) s [.exec 2, .exec 1, .exec 1, .exec 1, .exec 2, .exec 2] = some s₂ ∧
    step (fun _ => some "owner") s₂ (.exec 2) = some s₃ ∧
    s.procs 2 = .acceptConflicts { drillHireOver "b2" 10 19 with state := requested } ∧
    s₂.procs 2 = .commit (.accepted { drillHireOver "b2" 10 19 with state := requested } ["b3"]) ∧
    s₃.autoDeclinesOf "b3" = [autoDeclinedEvent "b1" "b3", autoDeclinedEvent "b2" "b3"] := by
  have hrun : (run (step (fun _ => some "owner")) State.empty acceptBoth).bind (fun s =>
      (run (step (fun _ => some "owner")) s [.exec 2, .exec 1, .exec 1, .exec 1, .exec 2, .exec 2]).bind
        (fun s₂ => (step (fun _ => some "owner") s₂ (.exec 2)).map (fun s₃ =>
          (s.procs 2, s₂.procs 2, s₃.autoDeclinesOf "b3")))) =
      some (.acceptConflicts { drillHireOver "b2" 10 19 with state := requested },
        .commit (.accepted { drillHireOver "b2" 10 19 with state := requested } ["b3"]),
        [autoDeclinedEvent "b1" "b3", autoDeclinedEvent "b2" "b3"]) := by decide +kernel
  obtain ⟨s, hs, hrun⟩ := Option.bind_eq_some_iff.mp hrun
  obtain ⟨s₂, hs₂, hrun⟩ := Option.bind_eq_some_iff.mp hrun
  obtain ⟨s₃, hs₃, hrun⟩ := Option.map_eq_some_iff.mp hrun
  simp only [Prod.mk.injEq] at hrun
  exact ⟨s, s₂, s₃, hs, hs₂, hs₃, hrun⟩

end RentalMarket.Booking
