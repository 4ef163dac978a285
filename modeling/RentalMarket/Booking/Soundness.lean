import RentalMarket.Booking.Statements
import Mathlib.Data.List.Pairwise

namespace RentalMarket.Booking

open RentalMarket.Core BookingState State

theorem Sound.period_nonempty {s : State} (hs : Sound s) {booking : BookingRow}
    (h : Holds s.bookings booking) : booking.period.Nonempty := by
  obtain ⟨r, hr, state, rfl⟩ := h
  have hrow := hs.allowed r hr
  simp only [rowAllowed, Bool.and_eq_true, decide_eq_true_eq] at hrow
  exact hrow.1.1.1.1

theorem story_setProc (s : State) (t : Pid) (p : Proc) (u : Pid) :
    (s.setProc t p).story u = if u = t then s.logged t ++ p.due else s.story u := by
  by_cases hu : u = t
  · subst hu; simp [State.story, State.setProc]
  · simp [State.story, State.setProc, hu]

theorem story_log_setProc (s : State) (t : Pid) (es : List BookingEvent) (p : Proc) (u : Pid) :
    ((s.log t es).setProc t p).story u =
      if u = t then s.logged t ++ es ++ p.due else s.story u := by
  by_cases hu : u = t
  · subst hu; simp [State.story, State.setProc, State.log]
  · simp [State.story, State.setProc, State.log, hu]

theorem story_release (s : State) (t u : Pid) :
    (s.release t).story u = if u = t then [] else s.story u := by
  by_cases hu : u = t
  · subst hu; simp [State.story, State.release, Proc.due]
  · simp [State.story, State.release, hu]

theorem dirty_release (s : State) (t u : Pid) (id : Id) (state : BookingState) :
    (s.release t).dirty id = some (u, state) ↔ s.dirty id = some (u, state) ∧ u ≠ t := by
  simp [State.release, Option.filter_eq_some_iff]

theorem procOk_setProc {s : State} (hs : Sound s) {t : Pid} {p : Proc}
    (hok : ProcOk s.bookings (s.logged t) p) (u : Pid) :
    ProcOk s.bookings (s.logged u) ((s.setProc t p).procs u) := by
  by_cases hu : u = t
  · subst hu; simpa [State.setProc] using hok
  · simpa [State.setProc, hu] using hs.procs u

theorem Sound.of_story {s s' : State} (hs : Sound s) (hb : s'.bookings = s.bookings)
    (he : s'.events = s.events) (hi : s'.inserting = s.inserting) (hd : s'.dirty = s.dirty)
    (hst : ∀ u, s'.story u = s.story u)
    (hp : ∀ u, ProcOk s.bookings (s'.logged u) (s'.procs u)) : Sound s' where
  ids := by rw [hb]; exact hs.ids
  quotes := by rw [hb]; exact hs.quotes
  allowed := by rw [hb]; exact hs.allowed
  events := by rw [hb, he]; exact hs.events
  insertFresh := by rw [hb, hi]; exact hs.insertFresh
  insertDistinct := by rw [hi]; exact hs.insertDistinct
  insertAllowed := by rw [hi]; exact hs.insertAllowed
  insertStory i hi' := by rw [hi] at hi'; rw [hst]; exact hs.insertStory i hi'
  storyInsert t e h := by rw [hst] at h; rw [hi]; exact hs.storyInsert t e h
  storyKnown t e h := by rw [hst] at h; rw [hb]; exact hs.storyKnown t e h
  storyNodup t := by rw [hst]; exact hs.storyNodup t
  dirty t id state := by rw [hd, hst]; exact hs.dirty t id state
  procs t := by rw [hb]; exact hp t

theorem Sound.quiet {s : State} (hs : Sound s) {t : Pid} {p : Proc}
    (hdue : p.due = (s.procs t).due) (hok : ProcOk s.bookings (s.logged t) p) :
    Sound (s.setProc t p) := by
  refine hs.of_story rfl rfl rfl rfl (fun u => ?_) (procOk_setProc hs hok)
  rw [story_setProc]
  split
  · rename_i hu
    rw [hu, hdue]; rfl
  · rfl

theorem Sound.log {s : State} (hs : Sound s) {t : Pid} {es : List BookingEvent} {p : Proc}
    (howed : (s.procs t).due = es) (hdue : p.due = [])
    (hok : ProcOk s.bookings (s.logged t ++ es) p) : Sound ((s.log t es).setProc t p) := by
  refine hs.of_story rfl rfl rfl rfl (fun u => ?_) (fun u => ?_)
  · rw [story_log_setProc]
    split
    · rename_i hu
      rw [hu, hdue, List.append_nil, ← howed]; rfl
    · rfl
  · by_cases hu : u = t
    · subst hu; simpa [State.setProc, State.log] using hok
    · simpa [State.setProc, State.log, hu] using hs.procs u

/-- The row lock was free, not merely ours: the transaction has no write of
this row behind it. -/
theorem Sound.dirty_eq_none {s : State} (hs : Sound s) {t : Pid} {id : Id}
    (hfree : s.unlocked t id = true) (hnew : id ∉ (s.story t).map (·.bookingId)) :
    s.dirty id = none := by
  cases hd : s.dirty id with
  | none => rfl
  | some w =>
    obtain ⟨u, state⟩ := w
    have hu : u = t := by simpa [State.unlocked, hd] using hfree
    subst hu
    obtain ⟨e, he, hid, -⟩ := (hs.dirty u id state).mp hd
    exact absurd (List.mem_map.mpr ⟨e, he, hid⟩) hnew

theorem Sound.write {s : State} (hs : Sound s) {t : Pid} {id : Id} {src dst : BookingState}
    {e : BookingEvent} {p : Proc} (hfree : s.unlocked t id = true)
    (hnew : id ∉ (s.story t).map (·.bookingId)) (hstory : ∀ e ∈ s.story t, e.fromState ≠ none)
    (hknown : Known s.bookings id) (he : e.bookingId = id) (hsrc : e.fromState = some src)
    (hdst : e.toState = some dst) (hdue : p.due = (s.procs t).due ++ [e])
    (hok : ProcOk s.bookings (s.logged t) p) : Sound ((s.write t id dst).setProc t p) := by
  have hfrom : e.fromState ≠ none := by rw [hsrc]; exact Option.some_ne_none _
  have hst : ∀ u, ((s.write t id dst).setProc t p).story u =
      if u = t then s.story t ++ [e] else s.story u := by
    intro u
    rw [story_setProc, hdue, ← List.append_assoc]
    rfl
  have hnone := hs.dirty_eq_none hfree hnew
  refine ⟨hs.ids, hs.quotes, hs.allowed, hs.events, hs.insertFresh, hs.insertDistinct,
    hs.insertAllowed, ?_, ?_, ?_, ?_, ?_, procOk_setProc hs hok⟩
  · intro i hi
    have hit : i.1 ≠ t := by
      rintro rfl
      exact hstory _ (by rw [hs.insertStory i hi]; exact List.mem_singleton_self _) rfl
    rw [hst, if_neg hit]
    exact hs.insertStory i hi
  · intro u e' h hn
    rw [hst] at h
    split at h
    · rename_i hu
      rcases List.mem_append.mp h with h | h
      · exact absurd hn (hstory e' h)
      · rw [List.mem_singleton.mp h] at hn
        exact absurd hn hfrom
    · exact hs.storyInsert u e' h hn
  · intro u e' h hn
    rw [hst] at h
    split at h
    · rcases List.mem_append.mp h with h | h
      · exact hs.storyKnown t e' h hn
      · rw [List.mem_singleton.mp h, he, hdst]
        exact ⟨hknown, Option.some_ne_none _⟩
    · exact hs.storyKnown u e' h hn
  · intro u
    rw [hst]
    split
    · rw [List.map_append, List.map_singleton, he, ← List.concat_eq_append]
      exact (hs.storyNodup t).concat hnew
    · exact hs.storyNodup u
  · intro u i state
    rw [hst]
    by_cases hi : i = id
    · subst hi
      have hself : ((s.write t i dst).setProc t p).dirty i = some (t, dst) := by
        simp [State.write, State.setProc]
      rw [hself, Option.some.injEq, Prod.mk.injEq]
      by_cases hu : u = t
      · subst hu
        rw [if_pos rfl]
        constructor
        · rintro ⟨-, rfl⟩
          exact ⟨e, by simp, he, hfrom, hdst⟩
        · rintro ⟨e', h, hid, -, hto⟩
          rcases List.mem_append.mp h with h | h
          · exact absurd (List.mem_map.mpr ⟨e', h, hid⟩) hnew
          · rw [List.mem_singleton.mp h, hdst] at hto
            exact ⟨rfl, Option.some.inj hto⟩
      · rw [if_neg hu]
        constructor
        · rintro ⟨rfl, -⟩
          exact absurd rfl hu
        · intro h
          rw [(hs.dirty u i state).mpr h] at hnone
          cases hnone
    · have hother : ((s.write t id dst).setProc t p).dirty i = s.dirty i := by
        simp [State.write, State.setProc, hi]
      rw [hother, hs.dirty u i state]
      split
      · rename_i hu
        subst hu
        constructor
        · rintro ⟨e', h, hrest⟩
          exact ⟨e', List.mem_append_left _ h, hrest⟩
        · rintro ⟨e', h, hid, hrest⟩
          rcases List.mem_append.mp h with h | h
          · exact ⟨e', h, hid, hrest⟩
          · rw [List.mem_singleton.mp h, he] at hid
            exact absurd hid.symm hi
      · rfl

theorem Sound.insert {s : State} (hs : Sound s) {t : Pid} {row : BookingRow}
    (hallowed : rowAllowed row = true) (hstate : row.state = requested)
    (hrows : ∀ r ∈ s.bookings, r.id ≠ row.id ∧ r.quoteId ≠ row.quoteId)
    (hinserts : ∀ i ∈ s.inserting, i.2.id ≠ row.id ∧ i.2.quoteId ≠ row.quoteId)
    (hdue : (s.procs t).due = []) (hlogged : s.logged t = []) :
    Sound ({ s with inserting := s.inserting ++ [(t, row)] }.setProc t (.createEvent row)) := by
  have hempty : s.story t = [] := by simp [State.story, hdue, hlogged]
  have hst : ∀ u, ({ s with inserting := s.inserting ++ [(t, row)] }.setProc t
      (.createEvent row)).story u = if u = t then [requestedEvent row] else s.story u := by
    intro u
    rw [story_setProc]
    simp only [hlogged, Proc.due, List.nil_append]
    rfl
  refine ⟨hs.ids, hs.quotes, hs.allowed, hs.events, ?_, ?_, ?_, ?_, ?_, ?_, ?_, ?_, ?_⟩
  · intro i hi r hr
    rcases List.mem_append.mp hi with hi | hi
    · exact hs.insertFresh i hi r hr
    · rw [List.mem_singleton.mp hi]
      exact hrows r hr
  · refine List.pairwise_append.mpr ⟨hs.insertDistinct, List.pairwise_singleton _ _, ?_⟩
    intro i hi j hj
    rw [List.mem_singleton.mp hj]
    exact hinserts i hi
  · intro i hi
    rcases List.mem_append.mp hi with hi | hi
    · exact hs.insertAllowed i hi
    · rw [List.mem_singleton.mp hi]
      exact ⟨hallowed, hstate⟩
  · intro i hi
    rw [hst]
    rcases List.mem_append.mp hi with hi | hi
    · have hit : i.1 ≠ t := by
        intro hit
        rw [← hit, hs.insertStory i hi] at hempty
        cases hempty
      rw [if_neg hit]
      exact hs.insertStory i hi
    · rw [List.mem_singleton.mp hi, if_pos rfl]
  · intro u e h hn
    rw [hst] at h
    split at h
    · rename_i hu
      subst hu
      exact ⟨row, List.mem_append_right _ (List.mem_singleton_self _), List.mem_singleton.mp h⟩
    · obtain ⟨r, hr, he⟩ := hs.storyInsert u e h hn
      exact ⟨r, List.mem_append_left _ hr, he⟩
  · intro u e h hn
    rw [hst] at h
    split at h
    · rw [List.mem_singleton.mp h] at hn
      exact absurd rfl hn
    · exact hs.storyKnown u e h hn
  · intro u
    rw [hst]
    split
    · exact List.nodup_singleton _
    · exact hs.storyNodup u
  · intro u i state
    rw [hst]
    refine (hs.dirty u i state).trans ?_
    split
    · rename_i hu
      subst hu
      simp [hempty, requestedEvent]
    · rfl
  · exact procOk_setProc hs ⟨hlogged, hstate⟩

theorem procOk_mono {bookings bookings' : List BookingRow} {logged : List BookingEvent} {p : Proc}
    (hh : ∀ b, Holds bookings b → Holds bookings' b)
    (hk : ∀ id, Known bookings id → Known bookings' id) (h : ProcOk bookings logged p) :
    ProcOk bookings' logged p := by
  cases p with
  | acceptConflicts booking => exact ⟨hh _ h.1, h.2⟩
  | autoDecline booking done todo =>
    exact ⟨hh _ h.1, h.2.1, h.2.2.1, fun id hid => hk id (h.2.2.2 id hid)⟩
  | acceptUpdate booking ownerId => exact ⟨h.1, hh _ h.2⟩
  | acceptEvent booking ownerId => exact ⟨h.1, hh _ h.2⟩
  | declineUpdate bookingId ownerId => exact ⟨h.1, hk _ h.2⟩
  | _ => exact h

theorem Sound.release {s : State} (hs : Sound s) (t : Pid) : Sound (s.release t) where
  ids := hs.ids
  quotes := hs.quotes
  allowed := hs.allowed
  events := hs.events
  insertFresh i hi := hs.insertFresh i (List.mem_filter.mp hi).1
  insertDistinct := hs.insertDistinct.sublist List.filter_sublist
  insertAllowed i hi := hs.insertAllowed i (List.mem_filter.mp hi).1
  insertStory i hi := by
    obtain ⟨hi, hit⟩ := List.mem_filter.mp hi
    rw [story_release, if_neg (by simpa using hit)]
    exact hs.insertStory i hi
  storyInsert u e h hn := by
    rw [story_release] at h
    split at h
    · cases h
    · rename_i hu
      obtain ⟨row, hr, he⟩ := hs.storyInsert u e h hn
      exact ⟨row, List.mem_filter.mpr ⟨hr, by simpa using hu⟩, he⟩
  storyKnown u e h hn := by
    rw [story_release] at h
    split at h
    · cases h
    · exact hs.storyKnown u e h hn
  storyNodup u := by
    rw [story_release]
    split
    · exact List.nodup_nil
    · exact hs.storyNodup u
  dirty u id state := by
    rw [dirty_release, story_release]
    by_cases hu : u = t
    · simp [hu]
    · simp only [hu, ne_eq, not_false_eq_true, and_true, if_false]
      exact hs.dirty u id state
  procs u := by
    by_cases hu : u = t
    · subst hu; simp [State.release, ProcOk]
    · simpa [State.release, hu] using hs.procs u

@[simp] theorem settle_id (s : State) (t : Pid) (r : BookingRow) : (s.settle t r).id = r.id := by
  unfold State.settle
  split
  · split <;> rfl
  · rfl

theorem settle_eq (s : State) (t : Pid) (r : BookingRow) :
    s.settle t r = { r with state := (s.settle t r).state } := by
  unfold State.settle
  split
  · split <;> rfl
  · rfl

theorem mem_bookings_commit {s : State} {t : Pid} {r : BookingRow} :
    r ∈ (s.commit t).bookings ↔
      (∃ r₀ ∈ s.bookings, s.settle t r₀ = r) ∨ (t, r) ∈ s.inserting := by
  simp only [State.commit, List.mem_append, List.mem_map, List.mem_filter, decide_eq_true_eq,
    Prod.exists]
  constructor
  · rintro (h | ⟨u, row, ⟨hm, rfl⟩, rfl⟩)
    · exact .inl h
    · exact .inr hm
  · rintro (h | h)
    · exact .inl h
    · exact .inr ⟨t, r, ⟨h, rfl⟩, rfl⟩

theorem known_commit {s : State} {t : Pid} {id : Id} (h : Known s.bookings id) :
    Known (s.commit t).bookings id := by
  obtain ⟨r, hr, rfl⟩ := h
  exact ⟨s.settle t r, mem_bookings_commit.mpr (.inl ⟨r, hr, rfl⟩), settle_id s t r⟩

theorem holds_commit {s : State} {t : Pid} {b : BookingRow} (h : Holds s.bookings b) :
    Holds (s.commit t).bookings b := by
  obtain ⟨r, hr, state, rfl⟩ := h
  refine ⟨s.settle t r, mem_bookings_commit.mpr (.inl ⟨r, hr, rfl⟩), state, ?_⟩
  rw [settle_eq]

theorem Sound.commit {s : State} (hs : Sound s) {t : Pid} (hdue : (s.procs t).due = []) :
    Sound (s.commit t) := by
  have hr := hs.release t
  have hlogged : s.story t = s.logged t := by simp [State.story, hdue]
  -- a settled row keeps its keys, an inserted one clashes with neither kind
  have hkeys : ∀ f : BookingRow → String, (∀ r, f (s.settle t r) = f r) →
      (s.bookings.map f).Nodup → (∀ i ∈ s.inserting, ∀ r ∈ s.bookings, f r ≠ f i.2) →
      s.inserting.Pairwise (fun i j => f i.2 ≠ f j.2) →
      ((s.commit t).bookings.map f).Nodup := by
    intro f hf hn hfresh hd
    simp only [State.commit, List.map_append, List.map_map]
    refine List.nodup_append.mpr ⟨?_, ?_, ?_⟩
    · rwa [show f ∘ s.settle t = f from funext hf]
    · exact List.pairwise_map.mpr (hd.sublist List.filter_sublist)
    · intro a ha b hb hab
      obtain ⟨r, hr, rfl⟩ := List.mem_map.mp ha
      obtain ⟨i, hi, rfl⟩ := List.mem_map.mp hb
      exact hfresh i (List.mem_filter.mp hi).1 r hr (by rw [← hf r]; exact hab)
  refine ⟨?_, ?_, ?_, ?_, ?_, hr.insertDistinct, hr.insertAllowed, hr.insertStory, hr.storyInsert,
    ?_, hr.storyNodup, hr.dirty, ?_⟩
  · exact hkeys (·.id) (settle_id s t) hs.ids (fun i hi r hr => (hs.insertFresh i hi r hr).1)
      (hs.insertDistinct.imp And.left)
  · exact hkeys (·.quoteId) (fun r => by rw [settle_eq]) hs.quotes
      (fun i hi r hr => (hs.insertFresh i hi r hr).2) (hs.insertDistinct.imp And.right)
  · intro r h
    rcases mem_bookings_commit.mp h with ⟨r₀, h₀, rfl⟩ | h
    · rw [settle_eq]
      exact hs.allowed r₀ h₀
    · exact (hs.insertAllowed _ h).1
  · intro e he
    rcases List.mem_append.mp he with he | he
    · exact known_commit (hs.events e he)
    · rw [← hlogged] at he
      by_cases hn : e.fromState = none
      · obtain ⟨row, hrow, rfl⟩ := hs.storyInsert t e he hn
        exact ⟨row, mem_bookings_commit.mpr (.inr hrow), rfl⟩
      · exact known_commit (hs.storyKnown t e he hn).1
  · intro i hi r h
    obtain ⟨hi, hit⟩ := List.mem_filter.mp hi
    rcases mem_bookings_commit.mp h with ⟨r₀, h₀, rfl⟩ | h
    · rw [settle_eq]
      exact hs.insertFresh i hi r₀ h₀
    · -- two open transactions never insert the same key
      have hne : ((t, r) : Pid × BookingRow) ≠ i := by
        rintro rfl
        simp at hit
      have hsymm : Std.Symm (fun i j : Pid × BookingRow =>
          i.2.id ≠ j.2.id ∧ i.2.quoteId ≠ j.2.quoteId) := ⟨fun _ _ h => ⟨h.1.symm, h.2.symm⟩⟩
      exact hs.insertDistinct.forall h hi hne
  · intro u e he hn
    exact (hr.storyKnown u e he hn).imp_left known_commit
  · intro u
    exact procOk_mono (fun _ => holds_commit) (fun _ => known_commit) (hr.procs u)

theorem Sound.effect {s s' : State} {t : Pid} (hs : Sound s) (h : Effect s t s') : Sound s' := by
  cases h with
  | quiet p hdue hok => exact hs.quiet hdue hok
  | log es p howed hdue hok => exact hs.log howed hdue hok
  | write id src dst e p hfree hnew hstory hknown hedge he hsrc hdst hfrom haccept hcal hdue hok =>
    exact hs.write hfree hnew hstory hknown he hsrc hdst hdue hok
  | insert row hallowed hstate hrows hinserts hdue hlogged =>
    exact hs.insert hallowed hstate hrows hinserts hdue hlogged
  | release => exact hs.release t
  | commit hdue => exact hs.commit hdue

/-- The event a statement adds to its story: a request, or the move of a row
nobody had locked. -/
def Tells (s : State) (t : Pid) (e : BookingEvent) : Prop :=
  (e.type = .requested ∧ e.fromState = none ∧ e.toState = some requested) ∨
  ∃ src dst, e.fromState = some src ∧ e.toState = some dst ∧ canTransition src dst = true ∧
    s.dirty e.bookingId = none ∧ WriteFrom s t e.bookingId e ∧
    (dst = accepted → (s.procs t).accepts = some e.bookingId)

theorem story_of_idle {s : State} (hs : Sound s) {t : Pid} (h : s.procs t = .idle) :
    s.story t = [] := by
  have hok := hs.procs t
  rw [h] at hok
  rw [State.story, h, show s.logged t = [] from hok]
  rfl

/-- A statement commits, or it leaves the tables alone and at most adds to its
own story. -/
theorem Effect.story_grows {s s' : State} {t : Pid} (hs : Sound s) (h : Effect s t s') :
    (s' = s.commit t ∧ (s.procs t).due = []) ∨
    (s'.bookings = s.bookings ∧ s'.events = s.events ∧
      ∀ u, ∀ e ∈ s'.story u, e ∈ s.story u ∨ (u = t ∧ Tells s t e)) := by
  cases h with
  | quiet p hdue hok =>
    refine .inr ⟨rfl, rfl, fun u e hu => .inl ?_⟩
    rw [story_setProc] at hu
    split at hu
    · rename_i hut
      rw [hut]
      simpa [State.story, hdue] using hu
    · exact hu
  | log es p howed hdue hok =>
    refine .inr ⟨rfl, rfl, fun u e hu => .inl ?_⟩
    rw [story_log_setProc] at hu
    split at hu
    · rename_i hut
      rw [hut]
      simpa [State.story, hdue, howed] using hu
    · exact hu
  | write id src dst e p hfree hnew hstory hknown hedge he hsrc hdst hfrom haccept hcal hdue hok =>
    refine .inr ⟨rfl, rfl, fun u d hu => ?_⟩
    rw [story_setProc, hdue, ← List.append_assoc] at hu
    split at hu
    · rename_i hut
      rcases List.mem_append.mp hu with hu | hu
      · exact .inl (hut ▸ hu)
      · rw [List.mem_singleton.mp hu]
        refine .inr ⟨hut, .inr ⟨src, dst, hsrc, hdst, hedge, ?_⟩⟩
        rw [he]
        exact ⟨hs.dirty_eq_none hfree hnew, hfrom, haccept⟩
    · exact .inl hu
  | insert row hallowed hstate hrows hinserts hdue hlogged =>
    refine .inr ⟨rfl, rfl, fun u e hu => ?_⟩
    rw [story_setProc] at hu
    split at hu
    · rename_i hut
      rw [show s.logged t = [] from hlogged, List.nil_append] at hu
      rw [List.mem_singleton.mp hu]
      exact .inr ⟨hut, .inl ⟨rfl, rfl, rfl⟩⟩
    · exact .inl hu
  | release =>
    refine .inr ⟨rfl, rfl, fun u e hu => .inl ?_⟩
    rw [story_release] at hu
    split at hu
    · cases hu
    · exact hu
  | commit hdue => exact .inl ⟨rfl, hdue⟩

theorem Effect.holds {s s' : State} {t : Pid} (h : Effect s t s') {b : BookingRow}
    (hb : Holds s.bookings b) : Holds s'.bookings b := by
  cases h with
  | commit hdue => exact holds_commit hb
  | _ => exact hb

theorem Effect.moved {s s' : State} {t : Pid} (hs : Sound s) (h : Effect s t s') {r' : BookingRow}
    (hr' : r' ∈ s'.bookings) (hstate : r'.state ≠ requested)
    (hnew : ∀ r ∈ s.bookings, r.id = r'.id → r.state ≠ r'.state) :
    ∃ r ∈ s.bookings, r' = { r with state := r'.state } ∧ s.dirty r.id = some (t, r'.state) := by
  cases h with
  | commit hdue =>
    rcases mem_bookings_commit.mp hr' with ⟨r, hr, rfl⟩ | hins
    · refine ⟨r, hr, settle_eq s t r, ?_⟩
      have hmoved := hnew r hr (settle_id s t r).symm
      unfold State.settle at hmoved ⊢
      split at hmoved
      · rename_i u state hd
        split at hmoved
        · rename_i hu
          rw [hd, hu]
          simp
        · exact absurd rfl hmoved
      · exact absurd rfl hmoved
    · exact absurd (hs.insertAllowed _ hins).2 hstate
  | _ => exact absurd rfl (hnew r' hr' rfl)

theorem Effect.frame {s s' : State} {t u : Pid} (h : Effect s t s') (hu : u ≠ t) :
    s'.procs u = s.procs u ∧ s'.logged u = s.logged u := by
  cases h <;> simp [State.setProc, State.log, State.write, State.release, State.commit, hu]

theorem start_due {op : Op} {p : Proc} (h : op.start = some p) : p.due = [] := by
  cases op with
  | createWithEvent booking => cases h; rfl
  | accept bookingId ownerId now => cases h; rfl
  | decline bookingId ownerId now => cases h; rfl
  | advance bookingId src dst actorId =>
    simp only [Op.start] at h
    split at h
    · cases h; rfl
    · cases h
  | expireRequests now limit => cases h; rfl

theorem start_ok {op : Op} {p : Proc} (h : op.start = some p) (bookings : List BookingRow) :
    ProcOk bookings [] p := by
  cases op with
  | createWithEvent booking => cases h; exact ⟨rfl, rfl⟩
  | accept bookingId ownerId now => cases h; exact rfl
  | decline bookingId ownerId now => cases h; exact rfl
  | advance bookingId src dst actorId =>
    simp only [Op.start, assertTransition] at h
    split at h
    · rename_i d hd
      split at hd
      · rename_i hc
        cases hd
        cases h
        exact ⟨rfl, hc⟩
      · cases hd
    · cases h
  | expireRequests now limit => cases h; exact rfl

theorem call_effect {ownerOf : Id → Option Id} {s s' : State} {t : Pid} {op : Op} (hs : Sound s)
    (h : step ownerOf s (.call t op) = some s') : Effect s t s' := by
  simp only [step] at h
  split at h
  · rename_i hidle
    obtain ⟨p, hp, rfl⟩ := Option.map_eq_some_iff.mp h
    have hlogged : s.logged t = [] := by
      have := hs.procs t
      rwa [hidle] at this
    refine .quiet p (by rw [start_due hp, hidle]; rfl) ?_
    rw [hlogged]
    exact start_ok hp s.bookings
  · cases h

def Action.pid : Action → Pid
  | .call t _ => t
  | .exec t => t
  | .abort t => t

theorem step_effect {ownerOf : Id → Option Id} {s s' : State} {a : Action} (hs : Sound s)
    (h : step ownerOf s a = some s') : Effect s a.pid s' := by
  cases a with
  | call t op => exact call_effect hs h
  | exec t => exact exec_effect hs h
  | abort t =>
    simp only [step] at h
    split at h
    · cases h
    · cases h
      exact .release

theorem step_cases {ownerOf : Id → Option Id} {s s' : State} {a : Action} (hs : Sound s)
    (h : step ownerOf s a = some s') :
    (∃ t, a = .exec t ∧ Effect s t s') ∨
    (s'.bookings = s.bookings ∧ s'.events = s.events ∧ ∀ u, ∀ e ∈ s'.story u, e ∈ s.story u) := by
  cases a with
  | call t op =>
    simp only [step] at h
    split at h
    · obtain ⟨p, hp, rfl⟩ := Option.map_eq_some_iff.mp h
      refine .inr ⟨rfl, rfl, fun u e hu => ?_⟩
      rw [story_setProc, start_due hp, List.append_nil] at hu
      split at hu
      · rename_i hut
        rw [hut]
        exact List.mem_append_left _ hu
      · exact hu
    · cases h
  | exec t => exact .inl ⟨t, rfl, exec_effect hs h⟩
  | abort t =>
    simp only [step] at h
    split at h
    · cases h
    · cases h
      refine .inr ⟨rfl, rfl, fun u e hu => ?_⟩
      rw [story_release] at hu
      split at hu
      · cases hu
      · exact hu

/-- A call only moves to `accepted` the booking it set out to. -/
theorem exec_accepts {ownerOf : Id → Option Id} {s s' : State} {t : Pid} {id : Id}
    (h : exec ownerOf s t = some s') (hid : (s'.procs t).accepts = some id) :
    (s.procs t).accepts = some id := by
  unfold exec at h
  split at h <;> rename_i hp
  case h_4 =>
    split at h
    · cases h
      simp [State.setProc, Proc.accepts] at hid
    · rename_i booking hf
      split at h
      · cases h
        simp [State.release, Proc.accepts] at hid
      · split at h
        · cases h
          simp [State.release, Proc.accepts] at hid
        · cases h
          rw [hp, Proc.accepts, ← (findForOwner_eq_some hf).2]
          simpa [State.setProc, Proc.accepts] using hid
  all_goals
    repeat' split at h
    all_goals
      first
        | cases h <;> simp [State.setProc, State.release, State.commit, Proc.accepts] at hid
        | obtain ⟨_, -, rfl⟩ := Option.map_eq_some_iff.mp h
          simp [State.setProc, Proc.accepts] at hid

theorem sound_empty : Sound State.empty where
  ids := List.nodup_nil
  quotes := List.nodup_nil
  allowed _ h := nomatch h
  events _ h := nomatch h
  insertFresh _ h := nomatch h
  insertDistinct := List.Pairwise.nil
  insertAllowed _ h := nomatch h
  insertStory _ h := nomatch h
  storyInsert _ _ h := nomatch h
  storyKnown _ _ h := nomatch h
  storyNodup _ := List.nodup_nil
  dirty _ _ _ := by simp [State.empty, State.story, Proc.due]
  procs _ := rfl

theorem sound_step {ownerOf : Id → Option Id} {s s' : State} {a : Action} (hs : Sound s)
    (h : step ownerOf s a = some s') : Sound s' := by
  exact hs.effect (step_effect hs h)

end RentalMarket.Booking
