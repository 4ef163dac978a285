import RentalMarket.Identity.SignIns
import RentalMarket.Identity.Erasure
import RentalMarket.Lib.Keyed

namespace RentalMarket.Identity.SignIns

open RentalMarket.Core RentalMarket.Booking Runs

def redacted (s : State) : Action → Option Id
  | .account a => redacts s.accounts a
  | _ => none

/-- Whose sign-ins a run redacts, one after another. -/
def erasures (w : Wiring) : State → List Action → List Id
  | _, [] => []
  | s, a :: as => (redacted s a).toList ++ (step w s a).elim [] (fun t => erasures w t as)

def HasAccount (s : State) (userId : Id) (clerkUserId : String) : Prop :=
  ∃ u ∈ s.accounts.tables.users, u.id = userId ∧ u.clerkUserId = clerkUserId

def Call.Ok (s : State) : Call → Prop
  | finding _ e userId => HasAccount s userId e.clerkUserId
  | inserting _ e userId => HasAccount s userId e.clerkUserId
  | processing _ e (.recorded _) => ∃ row ∈ s.events, row.key = e.key
  | returned e (.recorded _) => ∃ row ∈ s.events, row.key = e.key
  | _ => True

section

variable {w : Wiring} {s s' t : State} {a : Action} {d : Draw} {c c' : Call}

theorem next_frame (h : next w s d c = some (t, c')) :
    t.accounts.tables.users = s.accounts.tables.users ∧ t.accounts.calls = s.accounts.calls ∧
      t.sessions = s.sessions ∧ c'.event = c.event := by
  cases c with
  | claiming externalId e =>
    simp only [next] at h
    split at h <;> cases h <;> exact ⟨rfl, rfl, rfl, rfl⟩
  | looking externalId e =>
    cases hfound : s.accounts.tables.users.findByClerkUserId e.clerkUserId with
    | none =>
      simp only [next, hfound] at h
      cases h
      exact ⟨rfl, rfl, rfl, rfl⟩
    | some user =>
      simp only [next, hfound] at h
      cases h
      exact ⟨rfl, rfl, rfl, rfl⟩
  | finding externalId e userId =>
    simp only [next] at h
    split at h <;> cases h <;> exact ⟨rfl, rfl, rfl, rfl⟩
  | inserting externalId e userId =>
    simp only [next] at h
    split at h
    · cases h
      exact ⟨rfl, rfl, rfl, rfl⟩
    · split at h <;> cases h
      exact ⟨rfl, rfl, rfl, rfl⟩
  | processing externalId e answer =>
    cases h
    exact ⟨rfl, rfl, rfl, rfl⟩
  | returned e answer => cases h

theorem next_events (h : next w s d c = some (t, c')) : t.events = s.events ∨
    ∃ externalId e userId, c = .inserting externalId e userId ∧ (∀ row ∈ s.events, row.key ≠ e.key) ∧
      t.events = s.events ++ [newRow w.isIP d.id userId e] := by
  cases c with
  | claiming externalId e =>
    simp only [next] at h
    split at h <;> cases h <;> exact .inl rfl
  | looking externalId e =>
    cases h
    exact .inl rfl
  | finding externalId e userId =>
    simp only [next] at h
    split at h <;> cases h <;> exact .inl rfl
  | inserting externalId e userId =>
    simp only [next] at h
    split at h
    · cases h
      exact .inl rfl
    · rename_i hkey
      split at h <;> cases h
      exact .inr ⟨externalId, e, userId, rfl, by simpa using hkey, rfl⟩
  | processing externalId e answer =>
    cases h
    exact .inl rfl
  | returned e answer => cases h

theorem next_ok (h : next w s d c = some (t, c')) (hok : c.Ok s) : c'.Ok t := by
  cases c with
  | claiming externalId e =>
    simp only [next] at h
    split at h <;> cases h <;> trivial
  | looking externalId e =>
    cases hfound : s.accounts.tables.users.findByClerkUserId e.clerkUserId with
    | none =>
      simp only [next, hfound] at h
      cases h
      trivial
    | some user =>
      simp only [next, hfound] at h
      cases h
      exact ⟨user, Users.mem_of_findByClerkUserId hfound, rfl, by simpa using List.find?_some hfound⟩
  | finding externalId e userId =>
    simp only [next] at h
    split at h
    · rename_i hthere
      cases h
      exact (by simpa using hthere : ∃ row ∈ s.events, row.key = e.key)
    · cases h
      exact hok
  | inserting externalId e userId =>
    simp only [next] at h
    split at h
    · cases h
      trivial
    · split at h <;> cases h
      exact ⟨_, List.mem_append_right _ (List.mem_singleton_self _), rfl⟩
  | processing externalId e answer =>
    cases h
    cases answer with
    | recorded userId => exact hok
    | _ => trivial
  | returned e answer => cases h

/-- What a step is: something that goes on with an account, a delivery that
arrives or is ignored, or the statement of one, or its failure. -/
inductive Stepped (w : Wiring) (s : State) : Action → State → Prop
  | account {a : Identity.Action} {accounts : Identity.State}
      (h : Identity.step w.identity s.accounts a = some accounts) :
      Stepped w s (.account a) { s with accounts := accounts, events := redact (redacts s.accounts a) s.events }
  | ignored {externalId type : String} {payload : SessionPayload} {request : Option HttpRequest} :
      Stepped w s (.deliver externalId type payload request) s
  | delivered {externalId type : String} {payload : SessionPayload} {request : Option HttpRequest}
      {e : SessionRecorded} (h : mapClerkEvent type payload request = some e) :
      Stepped w s (.deliver externalId type payload request)
        { s with sessions := s.sessions ++ [.claiming externalId e] }
  | failed {i : Nat} {d : Draw} {c : Call} (hc : s.sessions[i]? = some c) :
      Stepped w s (.exec i d) (s.setCall i (.returned c.event .threw))
  | advanced {i : Nat} {d : Draw} {c c' : Call} {t : State} (hc : s.sessions[i]? = some c)
      (hnext : next w s d c = some (t, c')) : Stepped w s (.exec i d) (t.setCall i c')

theorem step_cases (h : step w s a = some s') : Stepped w s a s' := by
  cases a with
  | account a =>
    obtain ⟨accounts, haccounts, rfl⟩ := Option.map_eq_some_iff.mp h
    exact .account haccounts
  | deliver externalId type payload request =>
    cases hmap : mapClerkEvent type payload request with
    | none =>
      simp only [step, hmap] at h
      cases h
      exact .ignored
    | some e =>
      simp only [step, hmap] at h
      cases h
      exact .delivered hmap
  | exec i d =>
    obtain ⟨c, hc, h⟩ := Option.bind_eq_some_iff.mp h
    obtain ⟨⟨t, c'⟩, hnext, h⟩ := Option.map_eq_some_iff.mp h
    split at h
    · cases h
      exact .failed hc
    · cases h
      exact .advanced hc hnext

theorem redact_none (events : List AuthenticationEvent) : redact none events = events := by
  rw [redact]
  simp

theorem key_redact (userId : Option Id) (events : List AuthenticationEvent) :
    (redact userId events).map (·.key) = events.map (·.key) := by
  rw [redact, List.map_map]
  apply List.map_congr_left
  intro row _
  rw [Function.comp_apply]
  split <;> rfl

theorem mem_redact {userId : Option Id} {events : List AuthenticationEvent} {row : AuthenticationEvent}
    (h : row ∈ redact userId events) : ∃ row₀ ∈ events, row = row₀ ∨ row = row₀.redacted := by
  obtain ⟨row₀, hrow₀, rfl⟩ := List.mem_map.mp h
  refine ⟨row₀, hrow₀, ?_⟩
  split
  · exact .inr rfl
  · exact .inl rfl

theorem step_events (h : step w s a = some s') : s'.events = redact (redacted s a) s.events ∨
    ∃ i d externalId e userId, a = .exec i d ∧ s.sessions[i]? = some (.inserting externalId e userId) ∧
      (∀ row ∈ s.events, row.key ≠ e.key) ∧ s'.events = s.events ++ [newRow w.isIP d.id userId e] := by
  cases step_cases h with
  | account haccounts => exact .inl rfl
  | ignored => exact .inl (redact_none _).symm
  | delivered hmap => exact .inl (redact_none _).symm
  | failed hc => exact .inl (redact_none _).symm
  | advanced hc hnext =>
    obtain hsame | ⟨externalId, e, userId, rfl, hkey, hadded⟩ := next_events hnext
    · exact .inl (hsame.trans (redact_none _).symm)
    · exact .inr ⟨_, _, externalId, e, userId, rfl, hc, hkey, hadded⟩

/-- A row after a run that redacts these. -/
def after (ids : List Id) (row : AuthenticationEvent) : AuthenticationEvent :=
  if row.userId ∈ ids then row.redacted else row

theorem after_userId (ids : List Id) (row : AuthenticationEvent) : (after ids row).userId = row.userId := by
  rw [after]
  split <;> rfl

theorem after_after (ids ids' : List Id) (row : AuthenticationEvent) :
    after ids' (after ids row) = after (ids ++ ids') row := by
  rw [after, after_userId]
  by_cases h : row.userId ∈ ids
  · rw [after, after, if_pos h, if_pos (List.mem_append_left _ h)]
    split <;> rfl
  · rw [after, after, if_neg h]
    simp only [List.mem_append, h, false_or]

theorem redact_eq_map (userId : Option Id) (events : List AuthenticationEvent) :
    redact userId events = events.map (after userId.toList) := by
  apply List.map_congr_left
  intro row _
  rw [after]
  cases userId with
  | none => simp
  | some id => simp [eq_comm]

/-- What is there stays there, in its place, and is redacted just when its
account is erased. -/
theorem take_events {as : List Action} (hr : run (step w) s as = some s') :
    s'.events.take s.events.length = s.events.map (after (erasures w s as)) := by
  induction as generalizing s with
  | nil =>
    cases hr
    rw [List.take_length, List.map_congr_left (g := id), List.map_id]
    intro row _
    exact if_neg List.not_mem_nil
  | cons a as ih =>
    obtain ⟨u, hu, hrest⟩ := run_cons_eq_some.mp hr
    obtain ⟨added, hadded⟩ : ∃ added, u.events = s.events.map (after (redacted s a).toList) ++ added := by
      obtain hsame | ⟨i, d, externalId, e, userId, rfl, -, -, happended⟩ := step_events hu
      · exact ⟨[], by rw [hsame, redact_eq_map, List.append_nil]⟩
      · refine ⟨[newRow w.isIP d.id userId e], ?_⟩
        rw [happended, ← redact_eq_map]
        exact congrArg (· ++ _) (redact_none s.events).symm
    have hlength : s.events.length ≤ u.events.length := by
      rw [hadded, List.length_append, List.length_map]
      exact Nat.le_add_right _ _
    have hshort : (s.events.map (after (redacted s a).toList)).length = s.events.length := List.length_map _
    calc s'.events.take s.events.length
        = (s'.events.take u.events.length).take s.events.length := by
          rw [List.take_take, Nat.min_eq_left hlength]
      _ = (u.events.take s.events.length).map (after (erasures w u as)) := by
          rw [ih hrest, List.map_take]
      _ = (s.events.map (after (redacted s a).toList)).map (after (erasures w u as)) := by
          rw [hadded, List.take_left' hshort]
      _ = s.events.map (after (erasures w s (a :: as))) := by
          rw [List.map_map, erasures, hu, Option.elim_some]
          apply List.map_congr_left
          intro row _
          exact after_after _ _ row

theorem users_stay {s s' : Identity.State} {a : Identity.Action} {w : Identity.Wiring}
    (h : Identity.step w s a = some s') {u : MirroredUser} (hu : u ∈ s.tables.users) :
    ∃ u' ∈ s'.tables.users, u'.id = u.id ∧ u'.clerkUserId = u.clerkUserId := by
  have hupdate (id : Id) (change : MirroredUser → MirroredUser) (hid : ∀ u, (change u).id = u.id)
      (hclerk : ∀ u, (change u).clerkUserId = u.clerkUserId) :
      ∃ u' ∈ s.tables.users.update id change, u'.id = u.id ∧ u'.clerkUserId = u.clerkUserId := by
    refine ⟨_, List.mem_map_of_mem hu, ?_⟩
    split
    · exact ⟨hid u, hclerk u⟩
    · exact ⟨rfl, rfl⟩
  obtain hsame | ⟨i, d, c, -, -, -, hw⟩ := step_tables h
  · exact ⟨u, hsame ▸ hu, rfl, rfl⟩
  · generalize s'.tables = t' at hw ⊢
    cases hw with
    | created r hid hclerk => exact ⟨u, List.mem_append_left _ hu, rfl, rfl⟩
    | corrected r user hfree => exact hupdate _ _ (fun _ => rfl) (fun _ => rfl)
    | applied actor decision claimed counted => exact hupdate _ _ (fun _ => rfl) (fun _ => rfl)
    | suspended actor target reason counted => exact hupdate _ _ (fun _ => rfl) (fun _ => rfl)
    | reinstated actor target reason => exact hupdate _ _ (fun _ => rfl) (fun _ => rfl)
    | tombstoned user cause hfree => exact hupdate _ _ (fun _ => rfl) (fun _ => rfl)
    | _ => exact ⟨u, hu, rfl, rfl⟩

theorem HasAccount.step (h : step w s a = some s') {userId : Id} {clerkUserId : String}
    (haccount : HasAccount s userId clerkUserId) : HasAccount s' userId clerkUserId := by
  obtain ⟨u, hu, rfl, rfl⟩ := haccount
  cases step_cases h with
  | account haccounts =>
    obtain ⟨u', hu', hid, hclerk⟩ := users_stay haccounts hu
    exact ⟨u', hu', hid, hclerk⟩
  | ignored => exact ⟨u, hu, rfl, rfl⟩
  | delivered hmap => exact ⟨u, hu, rfl, rfl⟩
  | failed hc => exact ⟨u, hu, rfl, rfl⟩
  | @advanced i d c c' t hc hnext =>
    refine ⟨u, ?_, rfl, rfl⟩
    rw [← (next_frame hnext).1] at hu
    exact hu

theorem key_stays (h : step w s a = some s') {key : String × AuthenticationEventType}
    (hrow : ∃ row ∈ s.events, row.key = key) : ∃ row ∈ s'.events, row.key = key := by
  have hkey : key ∈ s.events.map (·.key) := List.mem_map.mpr hrow
  apply List.mem_map.mp
  obtain hsame | ⟨i, d, externalId, e, userId, -, -, -, hadded⟩ := step_events h
  · rw [hsame, key_redact]
    exact hkey
  · rw [hadded, List.map_append]
    exact List.mem_append_left _ hkey

theorem Call.Ok.step (h : step w s a = some s') (hok : c.Ok s) : c.Ok s' := by
  cases c with
  | finding externalId e userId => exact HasAccount.step h hok
  | inserting externalId e userId => exact HasAccount.step h hok
  | processing externalId e answer =>
    cases answer with
    | recorded userId => exact key_stays h hok
    | _ => trivial
  | returned e answer =>
    cases answer with
    | recorded userId => exact key_stays h hok
    | _ => trivial
  | _ => trivial

theorem Call.Ok.setCall {i : Nat} (hok : c.Ok s) : c.Ok (s.setCall i c') := by
  cases c with
  | processing externalId e answer => cases answer <;> exact hok
  | returned e answer => cases answer <;> exact hok
  | _ => exact hok

def Delivered (as : List Action) (e : SessionRecorded) : Prop :=
  ∃ externalId type payload request, .deliver externalId type payload request ∈ as ∧
    mapClerkEvent type payload request = some e

theorem Delivered.append {as bs : List Action} {e : SessionRecorded} (h : Delivered as e) :
    Delivered (as ++ bs) e := by
  obtain ⟨externalId, type, payload, request, hmem, hmap⟩ := h
  exact ⟨externalId, type, payload, request, List.mem_append_left _ hmem, hmap⟩

/-- A row tells what a delivery told, or has been redacted. -/
def Tells (w : Wiring) (as : List Action) (s : State) (row : AuthenticationEvent) : Prop :=
  ∃ e, Delivered as e ∧ HasAccount s row.userId e.clerkUserId ∧
    (row = newRow w.isIP row.id row.userId e ∨ row = (newRow w.isIP row.id row.userId e).redacted)

structure Told (w : Wiring) (as : List Action) (s : State) : Prop where
  keys : (s.events.map (·.key)).Nodup
  rows : ∀ row ∈ s.events, Tells w as s row
  calls : ∀ (i : Nat) (c : Call), s.sessions[i]? = some c → c.Ok s ∧ Delivered as c.event

theorem Tells.step {as : List Action} (h : step w s a = some s') {row : AuthenticationEvent}
    (htells : Tells w as s row) : Tells w (as ++ [a]) s' row := by
  obtain ⟨e, hdelivered, haccount, hrow⟩ := htells
  exact ⟨e, hdelivered.append, haccount.step h, hrow⟩

theorem Tells.redacted {as : List Action} {row : AuthenticationEvent} (htells : Tells w as s row) :
    Tells w as s row.redacted := by
  obtain ⟨e, hdelivered, haccount, hrow⟩ := htells
  refine ⟨e, hdelivered, haccount, .inr ?_⟩
  obtain hrow | hrow := hrow
  · exact congrArg AuthenticationEvent.redacted hrow
  · have htwice : row.redacted = (newRow w.isIP row.id row.userId e).redacted.redacted :=
      congrArg AuthenticationEvent.redacted hrow
    exact htwice

theorem Told.step {as : List Action} (h : Told w as s) (hx : step w s a = some s') : Told w (as ++ [a]) s' where
  keys := by
    obtain hsame | ⟨i, d, externalId, e, userId, -, -, hkey, hadded⟩ := step_events hx
    · rw [hsame, key_redact]
      exact h.keys
    · rw [hadded]
      exact Keyed.nodup_append h.keys hkey
  rows := by
    intro row hrow
    obtain hsame | ⟨i, d, externalId, e, userId, rfl, hc, -, hadded⟩ := step_events hx
    · rw [hsame] at hrow
      obtain ⟨row₀, hrow₀, rfl | rfl⟩ := mem_redact hrow
      · exact (h.rows row hrow₀).step hx
      · exact ((h.rows row₀ hrow₀).step hx).redacted
    · rw [hadded] at hrow
      obtain hrow | hrow := List.mem_append.mp hrow
      · exact (h.rows row hrow).step hx
      · rw [List.mem_singleton.mp hrow]
        obtain ⟨hok, hdelivered⟩ := h.calls i _ hc
        exact ⟨e, hdelivered.append, HasAccount.step hx hok, .inl rfl⟩
  calls := by
    have hold : ∀ (i : Nat) (c : Call), s.sessions[i]? = some c → c.Ok s' ∧ Delivered (as ++ [a]) c.event := by
      intro i c hc
      obtain ⟨hok, hdelivered⟩ := h.calls i c hc
      exact ⟨hok.step hx, hdelivered.append⟩
    intro j x hj
    cases step_cases hx with
    | account haccounts => exact hold j x hj
    | ignored => exact hold j x hj
    | @delivered externalId type payload request e hmap =>
      simp only [List.getElem?_append] at hj
      split at hj
      · exact hold j x hj
      · obtain rfl := List.mem_singleton.mp (List.mem_of_getElem? hj)
        exact ⟨trivial, externalId, type, payload, request,
          List.mem_append_right _ (List.mem_singleton_self _), hmap⟩
    | @failed i d c hc =>
      by_cases hij : i = j
      · subst hij
        rw [State.setCall, List.getElem?_set_self', hc] at hj
        cases hj
        exact ⟨trivial, (hold i c hc).2⟩
      · rw [State.setCall, List.getElem?_set_ne hij] at hj
        exact hold j x hj
    | @advanced i d c c' t hc hnext =>
      obtain ⟨-, -, hsessions, hevent⟩ := next_frame hnext
      rw [State.setCall, hsessions] at hj
      by_cases hij : i = j
      · subst hij
        rw [List.getElem?_set_self (List.getElem?_eq_some_iff.mp hc).1] at hj
        obtain rfl := Option.some.inj hj
        exact ⟨(next_ok hnext (h.calls i c hc).1).setCall, hevent ▸ (hold i c hc).2⟩
      · rw [List.getElem?_set_ne hij] at hj
        exact hold j x hj

/-- The sign-ins are told once, and as they were told first. In any order of
deliveries, replays, failures, sign-ups and erasures: there is one row for a
session and a kind of event at most; it is what a delivery about this account
said, with a browser, a version and a platform for all there is of a user agent,
or that with the activity taken out; and a delivery that is answered as recorded
has its row. -/
theorem sign_ins_are_told_once (w : Wiring) {s₀ s : State} {as : List Action} (hnone : s₀.events = [])
    (hidle : s₀.sessions = []) (hr : run (step w) s₀ as = some s) :
    (s.events.map (·.key)).Nodup ∧
    (∀ row ∈ s.events, ∃ externalId type payload request e,
      .deliver externalId type payload request ∈ as ∧ mapClerkEvent type payload request = some e ∧
      HasAccount s row.userId payload.userId ∧
      (row = newRow w.isIP row.id row.userId e ∨ row = (newRow w.isIP row.id row.userId e).redacted) ∧
      (⟨row.activity.browserName, row.activity.browserVersion, row.activity.deviceType,
        row.activity.isMobile⟩ : ParsedUserAgent).Minimal) ∧
    ∀ (i : Nat) (e : SessionRecorded) (userId : Id), s.sessions[i]? = some (.returned e (.recorded userId)) →
      ∃ row ∈ s.events, row.key = e.key := by
  have h : Told w as s := by
    refine run_induction (P := fun as s => Told w as s) ?_ (fun as s a t _ hs hx => hs.step hx) hr
    refine ⟨?_, ?_, ?_⟩
    · rw [hnone]
      exact List.nodup_nil
    · intro row hrow
      rw [hnone] at hrow
      cases hrow
    · intro i c hc
      rw [hidle] at hc
      cases hc
  refine ⟨h.keys, fun row hrow => ?_, fun i e userId hc => (h.calls i _ hc).1⟩
  obtain ⟨e, ⟨externalId, type, payload, request, hmem, hmap⟩, haccount, htold⟩ := h.rows row hrow
  obtain ⟨kind, -, rfl⟩ := Option.map_eq_some_iff.mp hmap
  refine ⟨externalId, type, payload, request, _, hmem, hmap, haccount, htold, ?_⟩
  obtain htold | htold := htold
  · rw [htold]
    exact parseUserAgent_minimal _
  · rw [htold]
    exact unknownUserAgent_minimal

theorem erasures_concat {s₀ : State} {as : List Action} (hr : run (step w) s₀ as = some s) (a : Action) :
    erasures w s₀ (as ++ [a]) = erasures w s₀ as ++ (redacted s a).toList := by
  induction as generalizing s₀ with
  | nil =>
    cases hr
    rw [List.nil_append, erasures, erasures, List.nil_append]
    cases step w s a with
    | none => exact List.append_nil _
    | some t => exact List.append_nil _
  | cons b as ih =>
    obtain ⟨u, hu, hrest⟩ := run_cons_eq_some.mp hr
    rw [List.cons_append, erasures, erasures, hu, Option.elim_some, Option.elim_some, ih hrest, List.append_assoc]

theorem exists_redacted {s₀ : State} {as : List Action} (hr : run (step w) s₀ as = some s) {userId : Id}
    (h : userId ∈ erasures w s₀ as) : ∃ pre a post mid, as = pre ++ a :: post ∧
      run (step w) s₀ pre = some mid ∧ redacted mid a = some userId := by
  induction as generalizing s₀ with
  | nil => cases h
  | cons b as ih =>
    obtain ⟨u, hu, hrest⟩ := run_cons_eq_some.mp hr
    rw [erasures, hu, Option.elim_some] at h
    obtain hnow | hlater := List.mem_append.mp h
    · exact ⟨[], b, as, s₀, rfl, rfl, Option.mem_toList.mp hnow⟩
    · obtain ⟨pre, a, post, mid, rfl, hpre, hredacted⟩ := ih hrest hlater
      exact ⟨b :: pre, a, post, mid, rfl, run_cons_eq_some.mpr ⟨u, hu, hpre⟩, hredacted⟩

/-- An erasure is at its tombstone only once it has redacted the sign-ins. -/
theorem step_tombstone {s s' : Identity.State} {a : Identity.Action} {w : Identity.Wiring}
    (h : Identity.step w s a = some s') {i : Nat} {user : MirroredUser} {cause : EraseCause}
    (hc : s'.calls[i]? = some (.erasing .tombstone user cause)) :
    s.calls[i]? = some (.erasing .tombstone user cause) ∨ redacts s a = some user.id := by
  cases Identity.step_cases h with
  | asked clerkUserId email secondFactor r =>
    simp only [List.getElem?_append] at hc
    split at hc
    · exact .inl hc
    · cases List.mem_singleton.mp (List.mem_of_getElem? hc)
  | told externalId event =>
    simp only [List.getElem?_append] at hc
    split at hc
    · exact .inl hc
    · cases List.mem_singleton.mp (List.mem_of_getElem? hc)
  | failed j d c hj hopen hfails =>
    by_cases hij : j = i
    · subst hij
      rw [List.getElem?_set_self (List.getElem?_eq_some_iff.mp hj).1] at hc
      cases hc
    · rw [List.getElem?_set_ne hij] at hc
      exact .inl hc
  | advanced j d c t c' hj hopen hfails hnext =>
    by_cases hij : j = i
    · subst hij
      rw [List.getElem?_set_self (List.getElem?_eq_some_iff.mp hj).1] at hc
      cases hc
      cases next_moved hnext with
      | resolving c c' hresolving => cases nextResolving_entry hresolving
      | toTombstone user cause =>
        right
        simp [redacts, hj, hfails]
    · rw [List.getElem?_set_ne hij] at hc
      exact .inl hc

/-- Every account that a run has closed is one that it has redacted. -/
structure Closed (w : Wiring) (s₀ : State) (as : List Action) (s : State) : Prop where
  tombstones : ∀ (i : Nat) (user : MirroredUser) (cause : EraseCause),
    s.accounts.calls[i]? = some (.erasing .tombstone user cause) → user.id ∈ erasures w s₀ as
  users : ∀ u ∈ s.accounts.tables.users, u.deletedAt ≠ none →
    (∃ u₀ ∈ s₀.accounts.tables.users, u₀.id = u.id ∧ u₀.deletedAt ≠ none) ∨ u.id ∈ erasures w s₀ as

theorem Closed.step {s₀ : State} {as : List Action} (hr : run (step w) s₀ as = some s)
    (h : Closed w s₀ as s) (hx : step w s a = some s') : Closed w s₀ (as ++ [a]) s' := by
  have hbefore : ∀ userId, userId ∈ erasures w s₀ as → userId ∈ erasures w s₀ (as ++ [a]) := by
    intro userId hmem
    rw [erasures_concat hr]
    exact List.mem_append_left _ hmem
  have hsame (hcalls : s'.accounts.calls = s.accounts.calls)
      (husers : s'.accounts.tables.users = s.accounts.tables.users) : Closed w s₀ (as ++ [a]) s' := by
    constructor
    · intro i user cause hc
      rw [hcalls] at hc
      exact hbefore _ (h.tombstones i user cause hc)
    · intro u hu hdeleted
      rw [husers] at hu
      exact (h.users u hu hdeleted).imp_right (hbefore u.id)
  cases step_cases hx with
  | ignored => exact hsame rfl rfl
  | delivered hmap => exact hsame rfl rfl
  | failed hc => exact hsame rfl rfl
  | advanced hc hnext =>
    obtain ⟨husers, hcalls, -, -⟩ := next_frame hnext
    exact hsame hcalls husers
  | @account a accounts haccounts =>
    constructor
    · intro i user cause hc
      obtain hold | hnow := step_tombstone haccounts hc
      · exact hbefore _ (h.tombstones i user cause hold)
      · rw [erasures_concat hr]
        exact List.mem_append_right _ (Option.mem_toList.mpr hnow)
    · intro u hu hdeleted
      obtain husers | ⟨i, d, c, -, hc, -, hw⟩ := step_tables haccounts
      · rw [husers] at hu
        exact (h.users u hu hdeleted).imp_right (hbefore u.id)
      · obtain ⟨old, hold, hid, hwas⟩ | ⟨user, cause, rfl, hid⟩ := written_deletedAt hw hu hdeleted
        · rw [← hid]
          exact (h.users old hold hwas).imp_right (hbefore old.id)
        · rw [← hid]
          exact .inr (hbefore _ (h.tombstones i user cause hc))

/-- Sign-ins are kept, and forgotten once. In any run, whatever else goes on:
each row that is there at any time of it stays there to the end, in its place
and as it is, but that its activity is taken out when its account is erased; and
an account that the run has closed was redacted on the way, so that a device or
an address that is still there for it is of a row that came afterwards. -/
theorem sign_ins_are_kept_until_erased (w : Wiring) {s₀ s : State} {as : List Action}
    (hidle : s₀.accounts.calls = []) (hr : run (step w) s₀ as = some s) :
    (∀ pre post mid, as = pre ++ post → run (step w) s₀ pre = some mid →
      s.events.take mid.events.length = mid.events.map (after (erasures w mid post))) ∧
    ∀ u ∈ s.accounts.tables.users, u.deletedAt ≠ none →
      (∃ u₀ ∈ s₀.accounts.tables.users, u₀.id = u.id ∧ u₀.deletedAt ≠ none) ∨
      ∃ pre a post mid, as = pre ++ a :: post ∧ run (step w) s₀ pre = some mid ∧
        redacted mid a = some u.id ∧
        ∀ row ∈ s.events.take mid.events.length, row.userId = u.id → row.activity = noSessionActivity := by
  refine ⟨?_, fun u hu hdeleted => ?_⟩
  · rintro pre post mid rfl hpre
    exact take_events (run_from hr hpre)
  have h : Closed w s₀ as s := by
    refine run_induction (P := fun as s => Closed w s₀ as s) ?_ (fun as s a t hr hs hx => hs.step hr hx) hr
    constructor
    · intro i user cause hc
      rw [hidle] at hc
      cases hc
    · exact fun u hu hdeleted => .inl ⟨u, hu, rfl, hdeleted⟩
  refine (h.users u hu hdeleted).imp_right (fun hmem => ?_)
  obtain ⟨pre, a, post, mid, rfl, hpre, hredacted⟩ := exists_redacted hr hmem
  refine ⟨pre, a, post, mid, rfl, hpre, hredacted, fun row hrow huser => ?_⟩
  obtain ⟨t, ht, hpost⟩ := run_rest hr hpre
  rw [take_events (run_cons_eq_some.mpr ⟨t, ht, hpost⟩)] at hrow
  obtain ⟨row₀, -, rfl⟩ := List.mem_map.mp hrow
  have herased : row₀.userId ∈ erasures w mid (a :: post) := by
    rw [after_userId] at huser
    rw [erasures, huser]
    exact List.mem_append_left _ (Option.mem_toList.mpr hredacted)
  rw [after, if_pos herased]
  rfl

def sampleSignIns : Wiring := ⟨sampleWiring, fun _ => true⟩

def signedUp : State := ⟨sampleStart [sampleAccount "cat" .user], [], []⟩

def goesOn (i count : Nat) : List Action := List.replicate count (.exec i ⟨"e1", false⟩)

/-- A sign-in from Edge, which says Chrome as well, told a second time from
somewhere else. -/
def signedInTwice : List Action :=
  .deliver "d1" "session.created" ⟨"s1", "clerk-cat", 5, 9⟩ (some ⟨some "10.0.0.1", some "Chrome/150 Edg/149.0"⟩) ::
    goesOn 0 5 ++
    .deliver "d2" "session.created" ⟨"s1", "clerk-cat", 5, 9⟩ (some ⟨some "10.6.6.6", none⟩) ::
    goesOn 1 4

def thenErased : List Action :=
  .account (asks "cat" .requestDeletion) :: List.replicate 8 (.account (runs 0 100 "x"))

theorem sign_ins_are_told_once_signedInTwice : ∃ s,
    run (step sampleSignIns) signedUp signedInTwice = some s ∧
    s.events.map (·.activity) = [⟨some "10.0.0.1", some "Edge", some "149", none, none⟩] ∧
    (s.events.map (·.key)).Nodup := by
  have hrun : (run (step sampleSignIns) signedUp signedInTwice).map (fun s => s.events.map (·.activity)) =
      some [⟨some "10.0.0.1", some "Edge", some "149", none, none⟩] := by
    decide +kernel
  obtain ⟨s, hs, hactivity⟩ := Option.map_eq_some_iff.mp hrun
  exact ⟨s, hs, hactivity, (sign_ins_are_told_once sampleSignIns rfl rfl hs).1⟩

theorem sign_ins_are_kept_until_erased_thenErased : ∃ mid s,
    run (step sampleSignIns) signedUp signedInTwice = some mid ∧
    run (step sampleSignIns) signedUp (signedInTwice ++ thenErased) = some s ∧
    s.events.take mid.events.length = mid.events.map (after (erasures sampleSignIns mid thenErased)) ∧
    s.events.map (·.activity) = [noSessionActivity] := by
  have hrun : (run (step sampleSignIns) signedUp signedInTwice).bind (fun mid =>
      (run (step sampleSignIns) mid thenErased).map (fun s => s.events.map (·.activity))) =
      some [noSessionActivity] := by
    decide +kernel
  obtain ⟨mid, hmid, hrest⟩ := Option.bind_eq_some_iff.mp hrun
  obtain ⟨s, hs, hactivity⟩ := Option.map_eq_some_iff.mp hrest
  have hwhole : run (step sampleSignIns) signedUp (signedInTwice ++ thenErased) = some s :=
    run_append_eq_some.mpr ⟨mid, hmid, hs⟩
  exact ⟨mid, s, hmid, hwhole, (sign_ins_are_kept_until_erased sampleSignIns rfl hwhole).1 signedInTwice
    thenErased mid rfl hmid, hactivity⟩

end

end RentalMarket.Identity.SignIns
