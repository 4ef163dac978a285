import RentalMarket.Booking.Soundness
import RentalMarket.Lib.Keyed
import Mathlib.Data.List.Chain

namespace RentalMarket.Booking

open RentalMarket.Core BookingState State Runs

def State.history (s : State) (id : Id) : List BookingEvent :=
  s.events.filter (fun e => e.bookingId = id)

/-- A booking's events tell how it came to its state: the first comes from
nothing, each starts where the one before ended, every move is allowed, and
the last ends where the row stands. -/
structure Records (es : List BookingEvent) (state : BookingState) : Prop where
  first : ∃ e, es.head? = some e ∧ e.fromState = none ∧ e.toState = some requested
  chained : es.IsChain (fun e e' => e'.fromState = e.toState)
  edges : ∀ e ∈ es, ∀ src, e.fromState = some src →
    ∃ dst, e.toState = some dst ∧ canTransition src dst = true
  last : ∃ e, es.getLast? = some e ∧ e.toState = some state

theorem records_requested (row : BookingRow) : Records [requestedEvent row] requested where
  first := ⟨requestedEvent row, rfl, rfl, rfl⟩
  chained := List.IsChain.singleton _
  edges e he src h := by
    rw [List.mem_singleton.mp he] at h
    cases h
  last := ⟨requestedEvent row, rfl, rfl⟩

theorem Records.append {es : List BookingEvent} {src dst : BookingState} {e : BookingEvent}
    (h : Records es src) (hsrc : e.fromState = some src) (hdst : e.toState = some dst)
    (hedge : canTransition src dst = true) : Records (es ++ [e]) dst where
  first := by
    obtain ⟨d, hd, hn⟩ := h.first
    exact ⟨d, by rw [List.head?_append, hd]; rfl, hn⟩
  chained := by
    refine List.isChain_append.mpr ⟨h.chained, List.IsChain.singleton _, ?_⟩
    obtain ⟨d, hd, hto⟩ := h.last
    intro x hx y hy
    rw [hd, Option.mem_some_iff] at hx
    rw [List.head?_cons, Option.mem_some_iff] at hy
    subst hx hy
    rw [hsrc, hto]
  edges d hd s hs := by
    rcases List.mem_append.mp hd with hd | hd
    · exact h.edges d hd s hs
    · rw [List.mem_singleton.mp hd] at hs ⊢
      rw [hsrc] at hs
      cases hs
      exact ⟨dst, hdst, hedge⟩
  last := ⟨e, by simp, hdst⟩

/-- Past the answer no move starts from `requested` again. -/
theorem not_from_requested {e : BookingEvent} {es : List BookingEvent} {state : BookingState}
    (hc : (e :: es).IsChain (fun e e' => e'.fromState = e.toState))
    (hedges : ∀ d ∈ es, ∀ src, d.fromState = some src →
      ∃ dst, d.toState = some dst ∧ canTransition src dst = true)
    (hto : e.toState = some state) (hd : state ≠ draft) (hr : state ≠ requested) :
    ∀ d ∈ es, d.fromState ≠ some requested := by
  induction es generalizing e state with
  | nil =>
    intro d h
    cases h
  | cons e' es ih =>
    rw [List.isChain_cons_cons] at hc
    have hfrom : e'.fromState = some state := hc.1.trans hto
    obtain ⟨dst, hdst, hedge⟩ := hedges e' List.mem_cons_self state hfrom
    have hdst_draft : dst ≠ draft := by
      rintro rfl
      rw [canTransition_draft] at hedge
      cases hedge
    have hdst_requested : dst ≠ requested := by
      rintro rfl
      exact hd (src_eq_draft_of_canTransition_requested hedge)
    intro d h
    rcases List.mem_cons.mp h with rfl | h
    · rw [hfrom]
      exact fun h => hr (Option.some.inj h)
    · exact ih hc.2 (fun d h => hedges d (List.mem_cons_of_mem _ h)) hdst hdst_draft
        hdst_requested d h

/-- A request is answered once: one event at most leaves `requested`. -/
theorem Records.answered_once {es : List BookingEvent} {state : BookingState}
    (h : Records es state) :
    (es.filter (fun e => e.fromState = some requested)).length ≤ 1 := by
  obtain ⟨e, he, hfrom, hto⟩ := h.first
  obtain ⟨rest, rfl⟩ := List.head?_eq_some_iff.mp he
  have hskip : e.fromState ≠ some requested := by simp [hfrom]
  rw [List.filter_cons_of_neg (by simpa using hskip)]
  cases rest with
  | nil => simp
  | cons e' rest =>
    have hc := List.isChain_cons_cons.mp h.chained
    have hfrom' : e'.fromState = some requested := hc.1.trans hto
    obtain ⟨dst, hdst, hedge⟩ := h.edges e' (by simp) requested hfrom'
    have hnone : rest.filter (fun e => e.fromState = some requested) = [] := by
      refine List.filter_eq_nil_iff.mpr (fun d hd hfd => ?_)
      have hne : dst ≠ draft ∧ dst ≠ requested := by
        constructor <;> (rintro rfl; exact absurd hedge (by decide))
      refine not_from_requested hc.2 ?_ hdst hne.1 hne.2 d hd (by simpa using hfd)
      intro d hd
      exact h.edges d (by simp [hd])
    rw [List.filter_cons_of_pos (by simpa using hfrom'), hnone]
    simp

/-- Every open story starts from the state its row is committed in. -/
structure Told (s : State) : Prop where
  rows : ∀ r ∈ s.bookings, Records (s.history r.id) r.state
  story : ∀ t, ∀ e ∈ s.story t, ∀ src, e.fromState = some src →
    (∃ r ∈ s.bookings, r.id = e.bookingId ∧ r.state = src) ∧
      ∃ dst, e.toState = some dst ∧ canTransition src dst = true

/-- Each update by id alone finds its row still `requested`: nobody answered
or expired the request between the call's read and its write. -/
def Fresh (s : State) : Action → Prop
  | .exec t => ∀ id ∈ (s.procs t).unguarded, ∃ r ∈ s.bookings, r.id = id ∧ r.state = requested
  | _ => True

instance (s : State) : ∀ a, Decidable (Fresh s a)
  | .exec t => inferInstanceAs (Decidable (∀ id ∈ (s.procs t).unguarded, _))
  | .call _ _ => isTrue trivial
  | .abort _ => isTrue trivial

theorem told_empty : Told State.empty where
  rows _ h := nomatch h
  story _ _ h := nomatch h

theorem writeFrom_committed {s : State} {t : Pid} {id : Id} {src : BookingState} {e : BookingEvent}
    (hfresh : Fresh s (.exec t)) (hsrc : e.fromState = some src) (h : WriteFrom s t id e) :
    ∃ r ∈ s.bookings, r.id = id ∧ r.state = src := by
  have hrequested : (s.procs t).unguarded = some id → e.fromState = some requested →
      ∃ r ∈ s.bookings, r.id = id ∧ r.state = src := by
    intro hu hq
    rw [hsrc] at hq
    cases hq
    exact hfresh id hu
  rcases h with ⟨-, hu, hq⟩ | ⟨-, hu, hq⟩ | ⟨-, r, hr, hid, hq⟩
  · refine hrequested ?_ hq
    unfold Proc.autoDeclines at hu
    split at hu
    · rename_i hp; rw [hp]; exact hu
    · cases hu
  · exact hrequested hu hq
  · rw [hsrc] at hq
    exact ⟨r, hr, hid, (Option.some.inj hq).symm⟩

theorem settle_of_dirty_other {s : State} {t u : Pid} {r : BookingRow} {state : BookingState}
    (h : s.dirty r.id = some (u, state)) (hu : u ≠ t) : s.settle t r = r := by
  simp [State.settle, h, hu]

theorem settle_of_dirty {s : State} {t : Pid} {r : BookingRow} {state : BookingState}
    (h : s.dirty r.id = some (t, state)) : s.settle t r = { r with state := state } := by
  simp [State.settle, h]

theorem history_commit (s : State) (t : Pid) (id : Id) :
    (s.commit t).history id = s.history id ++ (s.logged t).filter (fun e => e.bookingId = id) := by
  simp [State.history, State.commit]

/-- What a commit adds to one booking's history: nothing, if it holds no lock
on the row, and otherwise the one event that tells the write. -/
theorem logged_of_row {s : State} (hs : Sound s) {t : Pid} (hdue : (s.procs t).due = [])
    {r : BookingRow} (hr : r ∈ s.bookings) :
    ((s.logged t).filter (fun e => e.bookingId = r.id) = [] ∧ s.settle t r = r) ∨
    ∃ e ∈ s.story t, ∃ src dst, e.bookingId = r.id ∧ e.fromState = some src ∧
      e.toState = some dst ∧ (s.logged t).filter (fun e => e.bookingId = r.id) = [e] ∧
      s.settle t r = { r with state := dst } := by
  have hlogged : s.story t = s.logged t := by simp [State.story, hdue]
  by_cases hd : ∃ state, s.dirty r.id = some (t, state)
  · obtain ⟨state, hd⟩ := hd
    obtain ⟨e, he, hid, hn, hto⟩ := (hs.dirty t r.id state).mp hd
    obtain ⟨src, hsrc⟩ := Option.ne_none_iff_exists'.mp hn
    refine .inr ⟨e, he, src, state, hid, hsrc, hto, ?_, settle_of_dirty hd⟩
    rw [← hlogged, ← hid]
    exact Keyed.filter_key_eq_singleton (hs.storyNodup t) he
  · refine .inl ⟨?_, ?_⟩
    · refine List.filter_eq_nil_iff.mpr (fun e he hid => ?_)
      rw [decide_eq_true_eq] at hid
      rw [← hlogged] at he
      cases hfrom : e.fromState with
      | none =>
        obtain ⟨row, hrow, rfl⟩ := hs.storyInsert t e he hfrom
        exact (hs.insertFresh _ hrow r hr).1 hid.symm
      | some src =>
        -- an event with a source state is owed to a lock, and `t` holds none here
        have hn : e.fromState ≠ none := by rw [hfrom]; exact Option.some_ne_none _
        cases hto : e.toState with
        | none => exact absurd hto (hs.storyKnown t e he hn).2
        | some dst => exact hd ⟨dst, (hs.dirty t r.id dst).mpr ⟨e, he, hid, hn, hto⟩⟩
    · unfold State.settle
      split
      · rename_i u state hu
        split
        · rename_i hut
          subst hut
          exact absurd ⟨state, hu⟩ hd
        · rfl
      · rfl

theorem Told.commit {s : State} (hs : Sound s) (h : Told s) {t : Pid}
    (hdue : (s.procs t).due = []) : Told (s.commit t) where
  rows r hr := by
    rw [history_commit]
    rcases mem_bookings_commit.mp hr with ⟨r₀, h₀, rfl⟩ | hr
    · rw [settle_id]
      rcases logged_of_row hs hdue h₀ with ⟨hnil, hr₀⟩ | ⟨e, he, src, dst, hid, hsrc, hdst, hone, hr₀⟩
      · rw [hnil, List.append_nil, hr₀]
        exact h.rows r₀ h₀
      · obtain ⟨⟨r₁, h₁, hid₁, rfl⟩, dst', hdst', hedge⟩ := h.story t e he src hsrc
        rw [hdst] at hdst'
        cases hdst'
        have heq : r₁ = r₀ := Keyed.eq_of_key hs.ids h₁ h₀ (hid₁.trans hid)
        subst heq
        rw [hone, hr₀]
        exact (h.rows r₁ h₀).append hsrc hdst hedge
    · -- an inserted row has no past, and its one event is the request
      have hnil : s.history r.id = [] := by
        refine List.filter_eq_nil_iff.mpr (fun e he hid => ?_)
        rw [decide_eq_true_eq] at hid
        obtain ⟨r', hr', hid'⟩ := hs.events e he
        exact (hs.insertFresh _ hr r' hr').1 (hid'.trans hid)
      have hlogged : s.logged t = [requestedEvent r] := by
        rw [← hs.insertStory _ hr]
        simp [State.story, hdue]
      rw [hnil, hlogged, (hs.insertAllowed _ hr).2]
      simpa [requestedEvent] using records_requested r
  story u e he src hsrc := by
    have hu : (s.commit t).story u = if u = t then [] else s.story u := story_release s t u
    rw [hu] at he
    split at he
    · cases he
    · rename_i hut
      obtain ⟨⟨r, hr, hid, hstate⟩, dst, hdst, hedge⟩ := h.story u e he src hsrc
      have hd : s.dirty r.id = some (u, dst) :=
        (hs.dirty u r.id dst).mpr ⟨e, he, hid.symm, by rw [hsrc]; exact Option.some_ne_none _, hdst⟩
      refine ⟨⟨r, mem_bookings_commit.mpr (.inl ⟨r, hr, settle_of_dirty_other hd hut⟩), hid, hstate⟩,
        dst, hdst, hedge⟩

/-- With the tables as they were, the stories need only be looked at where
they grew. -/
theorem Told.of_story {s s' : State} (h : Told s) (hb : s'.bookings = s.bookings)
    (he : s'.events = s.events)
    (hst : ∀ u, ∀ e ∈ s'.story u, e ∈ s.story u ∨ ∀ src, e.fromState = some src →
      (∃ r ∈ s.bookings, r.id = e.bookingId ∧ r.state = src) ∧
        ∃ dst, e.toState = some dst ∧ canTransition src dst = true) : Told s' where
  rows r hr := by
    rw [hb] at hr
    rw [State.history, he]
    exact h.rows r hr
  story u e hu src hsrc := by
    rw [hb]
    rcases hst u e hu with hold | hnew
    · exact h.story u e hold src hsrc
    · exact hnew src hsrc

theorem Told.effect {s s' : State} {t : Pid} (hs : Sound s) (h : Told s)
    (hfresh : Fresh s (.exec t)) (he : Effect s t s') : Told s' := by
  rcases he.story_grows hs with ⟨rfl, hdue⟩ | ⟨hb, hev, hst⟩
  · exact h.commit hs hdue
  · refine h.of_story hb hev (fun u e hu => ?_)
    rcases hst u e hu with hold | ⟨-, ⟨-, hnone, -⟩ | ⟨src, dst, hsrc, hdst, hedge, -, hfrom, -⟩⟩
    · exact .inl hold
    · refine .inr (fun src hsrc => ?_)
      rw [hnone] at hsrc
      cases hsrc
    · -- the one new event: its row is committed where the write starts
      refine .inr (fun src' hsrc' => ?_)
      rw [hsrc] at hsrc'
      cases hsrc'
      exact ⟨writeFrom_committed hfresh hsrc hfrom, dst, hdst, hedge⟩

theorem Told.step {ownerOf : Id → Option Id} {s s' : State} {a : Action} (hs : Sound s)
    (h : Told s) (hfresh : Fresh s a) (hstep : step ownerOf s a = some s') : Told s' := by
  rcases step_cases hs hstep with ⟨t, rfl, he⟩ | ⟨hb, hev, hst⟩
  · exact h.effect hs hfresh he
  · exact h.of_story hb hev (fun u e hu => .inl (hst u e hu))

theorem told_run {ownerOf : Id → Option Id} {s s' : State} {as : List Action} (hs : Sound s)
    (h : Told s) (hfresh : Meets (step ownerOf) Fresh s as)
    (hrun : run (step ownerOf) s as = some s') : Sound s' ∧ Told s' :=
  run_preserves_of_meets (P := fun s => Sound s ∧ Told s)
    (fun _ _ _ hs ha hstep => ⟨sound_step hs.1 hstep, hs.2.step hs.1 ha hstep⟩) hrun hfresh ⟨hs, h⟩

theorem row_step {ownerOf : Id → Option Id} {s s' : State} {a : Action} (hs : Sound s)
    (h : Told s) (hstep : step ownerOf s a = some s') {r : BookingRow} (hr : r ∈ s.bookings) :
    r ∈ s'.bookings ∨ ∃ dst, canTransition r.state dst = true ∧ { r with state := dst } ∈ s'.bookings := by
  have he := step_effect hs hstep
  generalize a.pid = t at he
  cases he with
  | commit hdue =>
    have hm : s.settle t r ∈ (s.commit t).bookings := mem_bookings_commit.mpr (.inl ⟨r, hr, rfl⟩)
    rcases logged_of_row hs hdue hr with ⟨-, hsame⟩ | ⟨e, he, src, dst, hid, hsrc, hdst, -, hset⟩
    · rw [hsame] at hm
      exact .inl hm
    · obtain ⟨⟨r₁, h₁, hid₁, rfl⟩, dst', hdst', hedge⟩ := h.story t e he src hsrc
      have heq : r₁ = r := Keyed.eq_of_key hs.ids h₁ hr (hid₁.trans hid)
      rw [hdst] at hdst'
      cases hdst'
      rw [hset] at hm
      exact .inr ⟨dst, heq ▸ hedge, hm⟩
  | _ => exact .inl hr

theorem terminal_run {ownerOf : Id → Option Id} {s s' : State} {as : List Action} (hs : Sound s)
    (h : Told s) (hfresh : Meets (step ownerOf) Fresh s as)
    (hrun : run (step ownerOf) s as = some s') {r : BookingRow} (hr : r ∈ s.bookings)
    (hterminal : isTerminal r.state = true) : r ∈ s'.bookings := by
  refine (run_preserves_of_meets (P := fun s => (Sound s ∧ Told s) ∧ r ∈ s.bookings) ?_ hrun hfresh
    ⟨⟨hs, h⟩, hr⟩).2
  rintro s a s' ⟨⟨hs, h⟩, hr⟩ ha hstep
  refine ⟨⟨sound_step hs hstep, h.step hs ha hstep⟩, ?_⟩
  rcases row_step hs h hstep hr with hr' | ⟨dst, hedge, -⟩
  · exact hr'
  · rw [not_canTransition_of_isTerminal hterminal dst] at hedge
    cases hedge

/-- Whatever interleaves: as long as each update by id finds its request still
open, the events of every booking tell a walk of the state machine from
nothing to its row, closed rows stay closed, and a request has one answer. -/
theorem history_refines_stateMachine (ownerOf : Id → Option Id) (as : List Action) (s : State)
    (hrun : run (step ownerOf) State.empty as = some s)
    (hfresh : Meets (step ownerOf) Fresh State.empty as) :
    (∀ r ∈ s.bookings, Records (s.history r.id) r.state) ∧
    (∀ bs s', run (step ownerOf) s bs = some s' → Meets (step ownerOf) Fresh s bs →
      ∀ r ∈ s.bookings, isTerminal r.state = true → r ∈ s'.bookings) ∧
    (∀ r ∈ s.bookings,
      ((s.history r.id).filter (fun e => e.fromState = some requested)).length ≤ 1) := by
  obtain ⟨hs, h⟩ := told_run sound_empty told_empty hfresh hrun
  refine ⟨h.rows, ?_, fun r hr => (h.rows r hr).answered_once⟩
  intro bs s' hrun' hfresh' r hr hterminal
  exact terminal_run hs h hfresh' hrun' hr hterminal

def drillHire : BookingRow where
  id := "b1"
  listingId := "drill"
  renterId := "renter"
  state := draft
  period := ⟨0, 864000000⟩
  timeZone := "Europe/London"
  quoteId := "q1"
  categoryVersionId := "v1"
  itemChargeAmount := 1000
  renterFeeAmount := 100
  totalAmount := 1100
  currency := .gbp
  itemTitle := "Drill"
  categoryName := "Tools"
  damageExcess := none
  requestExpiresAt := 172800000

def requestDrill : List Action :=
  [.call 0 (.createWithEvent drillHire), .exec 0, .exec 0, .exec 0]

def acceptDrill : List Action :=
  requestDrill ++ [.call 1 (.accept "b1" "owner" 0), .exec 1, .exec 1, .exec 1, .exec 1, .exec 1,
    .exec 1]

theorem history_acceptDrill : ∃ s, run (step (fun _ => some "owner")) State.empty acceptDrill = some s ∧
    s.bookings.map (·.state) = [accepted] ∧ ∀ r ∈ s.bookings, Records (s.history r.id) r.state := by
  have hrun : (run (step (fun _ => some "owner")) State.empty acceptDrill).map
      (fun s => s.bookings.map (·.state)) = some [accepted] := by decide +kernel
  obtain ⟨s, hs, hstate⟩ := Option.map_eq_some_iff.mp hrun
  exact ⟨s, hs, hstate, (history_refines_stateMachine _ _ s hs (by decide +kernel)).1⟩

/-- The owner declines in one tab and accepts in another: both calls read the
request before either has written. -/
def declineThenAccept : List Action :=
  requestDrill ++ [.call 1 (.accept "b1" "owner" 0), .call 2 (.decline "b1" "owner" 0),
    .exec 1, .exec 2, .exec 2, .exec 2, .exec 2, .exec 1, .exec 1, .exec 1, .exec 1, .exec 1]

/-- The acceptance lands on the committed decline. -/
theorem decline_overwritten : ∃ s, run (step (fun _ => some "owner")) State.empty declineThenAccept = some s ∧
    ∃ r ∈ s.bookings, ¬ Records (s.history r.id) r.state ∧
      ((s.history r.id).filter (fun e => e.fromState = some requested)).map (·.toState) =
        [some declined, some accepted] := by
  have hrun : (run (step (fun _ => some "owner")) State.empty declineThenAccept).map (fun s =>
      (s.bookings.map (·.id), ((s.history "b1").filter (fun e => e.fromState = some requested)).map
        (·.toState))) = some (["b1"], [some declined, some accepted]) := by decide +kernel
  obtain ⟨s, hs, hf⟩ := Option.map_eq_some_iff.mp hrun
  obtain ⟨hid, hanswers⟩ := Prod.mk.inj hf
  obtain ⟨r, hr, hrid⟩ := List.mem_map.mp (hid ▸ List.mem_singleton_self "b1" : "b1" ∈ s.bookings.map (·.id))
  refine ⟨s, hs, r, hr, ?_, hrid ▸ hanswers⟩
  intro h
  have hone := h.answered_once
  have htwo := congrArg List.length hanswers
  rw [hrid] at hone
  simp only [List.length_map, List.length_cons, List.length_nil] at htwo
  omega

end RentalMarket.Booking
