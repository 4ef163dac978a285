import RentalMarket.Runtime.Shutdown

namespace RentalMarket.Runtime

open Runs

@[simp] theorem callsOf_append (trace trace' : List Event) : callsOf (trace ++ trace') = callsOf trace ++ callsOf trace' :=
  List.filterMap_append

@[simp] theorem exitsOf_append (trace trace' : List Event) : exitsOf (trace ++ trace') = exitsOf trace ++ exitsOf trace' :=
  List.filterMap_append

namespace ShutdownOptions

variable (o : ShutdownOptions)

def wait (c : Closable) : Nat :=
  match c.close.due with
  | none => o.bound c
  | some after => min after (o.bound c)

def total (closables : List Closable) : Nat := (closables.map o.wait).sum

variable {o}

@[simp] theorem total_nil : o.total [] = 0 := rfl

@[simp] theorem total_cons (c : Closable) (rest : List Closable) : o.total (c :: rest) = o.wait c + o.total rest := rfl

theorem total_append (front rest : List Closable) : o.total (front ++ rest) = o.total front + o.total rest := by
  simp [total]

theorem wait_le_iff {c : Closable} {since clock : Nat} :
    since + o.wait c ≤ clock ↔ settled c since clock = true ∨ since + o.bound c ≤ clock := by
  rw [wait, settled]
  cases c.close.due with
  | none => simp
  | some after =>
    rw [Option.any_some, decide_eq_true_eq]
    dsimp only
    omega

theorem callsOf_settlement (c : Closable) : callsOf (settlement c) = [] := by
  rw [settlement]
  cases c.close <;> rfl

theorem exitsOf_settlement (c : Closable) : exitsOf (settlement c) = [] := by
  rw [settlement]
  cases c.close <;> rfl

theorem timedOut_not_mem_settlement (c : Closable) (timeoutMs : Nat) : .timedOut timeoutMs ∉ settlement c := by
  rw [settlement]
  cases c.close <;> simp

/-- So far some resources were called, in order, and nothing has ended. -/
structure Going (o : ShutdownOptions) (called : List Closable) (trace : List Event) : Prop where
  calls : callsOf trace = called.map (·.name)
  exits : exitsOf trace = []
  backstop : ∀ timeoutMs, .timedOut timeoutMs ∉ trace

theorem Going.append {called : List Closable} {trace more : List Event} (h : Going o called trace)
    (hcalls : callsOf more = []) (hexits : exitsOf more = []) (hbackstop : ∀ timeoutMs, .timedOut timeoutMs ∉ more) :
    Going o called (trace ++ more) := by
  refine ⟨by rw [callsOf_append, h.calls, hcalls, List.append_nil], by rw [exitsOf_append, h.exits, hexits]; rfl, ?_⟩
  intro timeoutMs hmem
  exact (List.mem_append.mp hmem).elim (h.backstop timeoutMs) (hbackstop timeoutMs)

def OnTime (o : ShutdownOptions) (s : State) : Prop :=
  match s.phase with
  | .running => Going o [] s.trace
  | .closing request c since rest => ∃ done, o.closables = done ++ c :: rest ∧ Going o (done ++ [c]) s.trace ∧
      since = request.time + o.total done ∧ since ≤ s.clock ∧ s.clock ≤ since + o.wait c
  | .ended => ∃ before signal, s.trace = before ++ [.complete signal, .exit 0] ∧ Going o o.closables before

theorem onTime_advance {request : Request} {clock : Nat} {trace : List Event} {done rest : List Closable}
    (hsplit : o.closables = done ++ rest) (hgoing : Going o done trace) (hclock : clock = request.time + o.total done) :
    OnTime o (advance request clock trace rest) := by
  cases rest with
  | nil =>
    rw [List.append_nil] at hsplit
    exact ⟨trace, request.signal, rfl, hsplit ▸ hgoing⟩
  | cons c rest =>
    have hcalled : Going o (done ++ [c]) (trace ++ [.called c.name]) := by
      refine ⟨?_, ?_, ?_⟩
      · rw [callsOf_append, hgoing.calls, List.map_append]
        rfl
      · rw [exitsOf_append, hgoing.exits]
        rfl
      · intro timeoutMs hmem
        obtain hmem | hmem := List.mem_append.mp hmem
        · exact hgoing.backstop timeoutMs hmem
        · cases List.mem_singleton.mp hmem
    exact ⟨done, hsplit, hcalled, hclock, Nat.le_refl _, Nat.le_add_right _ _⟩

theorem lt_backstop (hbudget : o.total o.closables < o.timeoutMs) {request : Request} {c : Closable}
    {done rest : List Closable} (hsplit : o.closables = done ++ c :: rest) {clock : Nat}
    (hclock : clock ≤ request.time + o.total done + o.wait c) : clock < request.time + o.timeoutMs := by
  rw [hsplit, total_append, total_cons] at hbudget
  omega

/-- What a step of a stop that is on time does: time passes, or the wait is over and the loop goes on. -/
theorem step_closing (hbudget : o.total o.closables < o.timeoutMs) {s t : State} {request : Request} {c : Closable}
    {since : Nat} {rest : List Closable} (hphase : s.phase = .closing request c since rest) (hs : OnTime o s)
    {a : Action} (h : o.stepUnasked s a = some t) :
    (t = ⟨s.clock + 1, .closing request c since rest, s.trace⟩ ∧ s.clock + 1 ≤ since + o.wait c) ∨
      ∃ more, since + o.wait c ≤ s.clock ∧ callsOf more = [] ∧ exitsOf more = [] ∧
        (∀ timeoutMs, .timedOut timeoutMs ∉ more) ∧ t = advance request s.clock (s.trace ++ more) rest := by
  cases a with
  | signal name => cases h
  | tick =>
    simp only [stepUnasked, step, hphase] at h
    split at h
    · cases h
    · rename_i hnot
      have hwaiting : ¬since + o.wait c ≤ s.clock := fun hle =>
        hnot ((wait_le_iff.mp hle).elim .inl (fun hbound => .inr (.inl hbound)))
      exact .inl ⟨(Option.some.inj h).symm, Nat.lt_of_not_le hwaiting⟩
  | settle =>
    simp only [stepUnasked, step, hphase] at h
    split at h
    · rename_i hsettled
      exact .inr ⟨settlement c, wait_le_iff.mpr (.inl hsettled), callsOf_settlement c, exitsOf_settlement c,
        timedOut_not_mem_settlement c, (Option.some.inj h).symm⟩
    · cases h
  | giveUp =>
    simp only [stepUnasked, step, hphase] at h
    split at h
    · rename_i hbound
      exact .inr ⟨[.gaveUp c.name (o.bound c)], wait_le_iff.mpr (.inr hbound), rfl, rfl, by simp,
        (Option.some.inj h).symm⟩
    · cases h
  | forceExit =>
    simp only [stepUnasked, step, hphase] at h
    split at h
    · rename_i hdue
      rw [OnTime, hphase] at hs
      obtain ⟨done, hsplit, -, rfl, -, hclock⟩ := hs
      exact absurd hdue (Nat.not_le.mpr (lt_backstop hbudget hsplit hclock))
    · cases h

theorem stepUnasked_of_not_signal {s : State} {a : Action} (h : ∀ name, a ≠ .signal name) :
    o.stepUnasked s a = o.step s a := by
  cases a with
  | signal name => exact absurd rfl (h name)
  | _ => rfl

theorem stepUnasked_ended {s : State} (hphase : s.phase = .ended) (a : Action) : o.stepUnasked s a = none := by
  cases a <;> simp only [stepUnasked, step, hphase]

theorem step_signal {s : State} (hphase : s.phase ≠ .running) (name : String) : o.step s (.signal name) = some s := by
  rw [step]
  split
  · rename_i hrunning
    exact absurd hrunning hphase
  · rfl

theorem onTime_closing (hbudget : o.total o.closables < o.timeoutMs) {s t : State} {request : Request} {c : Closable}
    {since : Nat} {rest : List Closable} (hphase : s.phase = .closing request c since rest) (hs : OnTime o s)
    {a : Action} (h : o.stepUnasked s a = some t) : OnTime o t := by
  have hmoved := step_closing hbudget hphase hs h
  rw [OnTime, hphase] at hs
  obtain ⟨done, hsplit, hgoing, rfl, hsince, hclock⟩ := hs
  obtain ⟨rfl, hless⟩ | ⟨more, hover, hcalls, hexits, hbackstop, rfl⟩ := hmoved
  · exact ⟨done, hsplit, hgoing, rfl, Nat.le_succ_of_le hsince, hless⟩
  · apply onTime_advance _ (hgoing.append hcalls hexits hbackstop)
    · rw [total_append, total_cons, total_nil]
      omega
    · rw [hsplit, List.append_assoc]
      rfl

/-- The steps of a stop keep it on time. -/
theorem onTime_step (hbudget : o.total o.closables < o.timeoutMs) {s t : State} {a : Action} (hs : OnTime o s)
    (h : o.step s a = some t) : OnTime o t := by
  cases hphase : s.phase with
  | running =>
    have hgoing : Going o [] s.trace := by
      rw [OnTime, hphase] at hs
      exact hs
    cases a with
    | signal name =>
      simp only [step, hphase] at h
      cases h
      exact onTime_advance rfl (hgoing.append rfl rfl (by simp)) rfl
    | tick =>
      simp only [step, hphase] at h
      cases h
      exact hgoing
    | settle => simp only [step, hphase] at h; cases h
    | giveUp => simp only [step, hphase] at h; cases h
    | forceExit => simp only [step, hphase] at h; cases h
  | closing request c since rest =>
    have hne : s.phase ≠ .running := by simp [hphase]
    by_cases hsignal : ∃ name, a = .signal name
    · obtain ⟨name, rfl⟩ := hsignal
      rw [step_signal hne] at h
      cases h
      exact hs
    · rw [← stepUnasked_of_not_signal (fun name heq => hsignal ⟨name, heq⟩)] at h
      exact onTime_closing hbudget hphase hs h
  | ended =>
    have hne : s.phase ≠ .running := by simp [hphase]
    by_cases hsignal : ∃ name, a = .signal name
    · obtain ⟨name, rfl⟩ := hsignal
      rw [step_signal hne] at h
      cases h
      exact hs
    · rw [← stepUnasked_of_not_signal (fun name heq => hsignal ⟨name, heq⟩), stepUnasked_ended hphase] at h
      cases h

theorem onTime_run (hbudget : o.total o.closables < o.timeoutMs) {actions : List Action} {s : State}
    (hr : run o.step .start actions = some s) : OnTime o s :=
  run_preserves (fun _ _ _ hs h => onTime_step hbudget hs h) hr ⟨rfl, rfl, fun _ => List.not_mem_nil⟩

theorem closing_on {s : State} {request : Request} {c : Closable} {since : Nat} {rest : List Closable}
    (hphase : s.phase = .closing request c since rest) : ∃ a t, o.stepUnasked s a = some t := by
  by_cases hsettled : settled c since s.clock = true
  · exact ⟨.settle, _, by simp only [stepUnasked, step, hphase]; exact if_pos hsettled⟩
  · by_cases hbound : since + o.bound c ≤ s.clock
    · exact ⟨.giveUp, _, by simp only [stepUnasked, step, hphase]; exact if_pos hbound⟩
    · by_cases hdue : request.time + o.timeoutMs ≤ s.clock
      · exact ⟨.forceExit, _, by simp only [stepUnasked, step, hphase]; exact if_pos hdue⟩
      · refine ⟨.tick, ⟨s.clock + 1, .closing request c since rest, s.trace⟩, ?_⟩
        simp only [stepUnasked, step, hphase]
        exact if_neg (fun h => h.elim hsettled (fun h => h.elim hbound hdue))

def left (o : ShutdownOptions) (s : State) : Nat :=
  match s.phase with
  | .running => 0
  | .closing request _ _ rest => request.time + o.timeoutMs - s.clock + (rest.length + 1)
  | .ended => 0

theorem exits_of_ended {s : State} (hphase : s.phase = .ended) (hs : OnTime o s) : exitsOf s.trace = [0] := by
  rw [OnTime, hphase] at hs
  obtain ⟨before, signal, htrace, hgoing⟩ := hs
  rw [htrace, exitsOf_append, hgoing.exits]
  rfl

theorem advance_phase_ne {request : Request} {clock : Nat} {trace : List Event} {rest : List Closable} :
    (advance request clock trace rest).phase ≠ .running := by
  cases rest with
  | nil => exact Phase.noConfusion
  | cons c rest => exact Phase.noConfusion

/-- A stop that is on time comes to its exit. The variant is what is left of it. -/
theorem exit_inevitable (hbudget : o.total o.closables < o.timeoutMs) {s : State} (hs : OnTime o s)
    (hphase : s.phase ≠ .running) : Inevitable o.stepUnasked (fun t => exitsOf t.trace = [0]) s := by
  have hclosing (s : State) (hs : OnTime o s ∧ s.phase ≠ .running) (hexits : ¬exitsOf s.trace = [0]) :
      ∃ request c since rest, s.phase = .closing request c since rest := by
    cases hphase : s.phase with
    | running => exact absurd hphase hs.2
    | closing request c since rest => exact ⟨request, c, since, rest, rfl⟩
    | ended => exact absurd (exits_of_ended hphase hs.1) hexits
  refine inevitable_of_variant (V := left o) (I := fun s => OnTime o s ∧ s.phase ≠ .running) ?_ ?_ ⟨hs, hphase⟩
  · intro s hs hexits
    obtain ⟨request, c, since, rest, hphase⟩ := hclosing s hs hexits
    exact closing_on hphase
  · intro s a t hs hexits h
    obtain ⟨request, c, since, rest, hphase⟩ := hclosing s hs hexits
    have hon := onTime_closing hbudget hphase hs.1 h
    obtain ⟨rfl, hless⟩ | ⟨more, -, -, -, -, rfl⟩ := step_closing hbudget hphase hs.1 h
    · have hs := hs.1
      rw [OnTime, hphase] at hs
      obtain ⟨done, hsplit, -, rfl, -, hclock⟩ := hs
      have hbackstop := lt_backstop hbudget hsplit hclock
      refine ⟨⟨hon, Phase.noConfusion⟩, ?_⟩
      simp only [left, hphase]
      omega
    · refine ⟨⟨hon, advance_phase_ne⟩, ?_⟩
      cases rest with
      | nil =>
        simp only [left, hphase, advance]
        omega
      | cons c rest =>
        simp only [left, hphase, advance, List.length_cons]
        omega

/-- In a run that is on time every state is that of a clean stop. -/
theorem clean_of_onTime (hbudget : o.total o.closables < o.timeoutMs) {s : State} (hs : OnTime o s) : Clean o s := by
  have hstops := exit_inevitable hbudget hs
  cases hphase : s.phase with
  | running =>
    rw [OnTime, hphase] at hs
    refine ⟨?_, .inl hs.exits, hs.backstop, fun h => absurd hphase h, hstops⟩
    rw [hs.calls]
    exact List.nil_prefix
  | closing request c since rest =>
    rw [OnTime, hphase] at hs
    obtain ⟨done, hsplit, hgoing, -⟩ := hs
    refine ⟨?_, .inl hgoing.exits, hgoing.backstop, fun h name => step_signal h name, hstops⟩
    refine ⟨rest.map (·.name), ?_⟩
    rw [hgoing.calls, hsplit, ← List.map_append, List.append_assoc]
    rfl
  | ended =>
    rw [OnTime, hphase] at hs
    obtain ⟨before, signal, htrace, hgoing⟩ := hs
    have hcomplete : Going o o.closables (before ++ [.complete signal]) := hgoing.append rfl rfl (by simp)
    have hexit : s.trace = (before ++ [.complete signal]) ++ [.exit 0] := by
      rw [htrace, List.append_assoc]
      rfl
    refine ⟨?_, .inr ⟨_, hexit, hcomplete.exits, hcomplete.calls⟩, ?_, fun h name => step_signal h name, hstops⟩
    · have hnone : callsOf [.exit 0] = [] := rfl
      have hcalls := callsOf_append (before ++ [.complete signal]) [.exit 0]
      rw [hcomplete.calls, hnone, List.append_nil, ← hexit] at hcalls
      exact ⟨[], by rw [List.append_nil, hcalls]⟩
    · intro timeoutMs hmem
      rw [hexit] at hmem
      obtain hmem | hmem := List.mem_append.mp hmem
      · exact hcomplete.backstop timeoutMs hmem
      · cases List.mem_singleton.mp hmem

section Overrun

variable {request : Request} {c : Closable} {since clock : Nat} {rest : List Closable} {trace : List Event}

theorem run_ticks {n : Nat} (hwait : clock + n ≤ since + o.wait c) (hback : clock + n ≤ request.time + o.timeoutMs) :
    run o.step ⟨clock, .closing request c since rest, trace⟩ (List.replicate n .tick) =
      some ⟨clock + n, .closing request c since rest, trace⟩ := by
  induction n generalizing clock with
  | zero => rfl
  | succ n ih =>
    have hnotOver : ¬since + o.wait c ≤ clock := by omega
    have hidle : ¬(settled c since clock = true ∨ since + o.bound c ≤ clock ∨ request.time + o.timeoutMs ≤ clock) := by
      rintro (hsettled | hbound | hdue)
      · exact hnotOver (wait_le_iff.mpr (.inl hsettled))
      · exact hnotOver (wait_le_iff.mpr (.inr hbound))
      · omega
    have htick : o.step ⟨clock, .closing request c since rest, trace⟩ .tick =
        some ⟨clock + 1, .closing request c since rest, trace⟩ := if_neg hidle
    rw [List.replicate_succ, run_cons, htick, Option.bind_some, ih (by omega) (by omega)]
    congr 2
    omega

theorem step_over (hover : since + o.wait c ≤ clock) :
    ∃ a more, o.step ⟨clock, .closing request c since rest, trace⟩ a = some (advance request clock (trace ++ more) rest) := by
  obtain hsettled | hbound := wait_le_iff.mp hover
  · exact ⟨.settle, _, if_pos hsettled⟩
  · exact ⟨.giveUp, _, if_pos hbound⟩

theorem run_backstop (hsince : since ≤ request.time + o.timeoutMs)
    (hlong : request.time + o.timeoutMs ≤ since + o.wait c) :
    ∃ actions s, run o.step ⟨since, .closing request c since rest, trace⟩ actions = some s ∧
      .timedOut o.timeoutMs ∈ s.trace := by
  obtain ⟨n, hn⟩ := Nat.exists_eq_add_of_le hsince
  have hticks : run o.step ⟨since, .closing request c since rest, trace⟩ (List.replicate n .tick) =
      some ⟨since + n, .closing request c since rest, trace⟩ := run_ticks (hn ▸ hlong) (Nat.le_of_eq hn.symm)
  refine ⟨List.replicate n .tick ++ [.forceExit], ⟨since + n, .ended, trace ++ [.timedOut o.timeoutMs, .exit 1]⟩,
    run_append_eq_some.mpr ⟨_, hticks, ?_⟩, by simp⟩
  have hforce : o.step ⟨since + n, .closing request c since rest, trace⟩ .forceExit =
      some ⟨since + n, .ended, trace ++ [.timedOut o.timeoutMs, .exit 1]⟩ := if_pos (Nat.le_of_eq hn)
  rw [run_cons, hforce]
  rfl

/-- Waits that reach the backstop together can end in a crash. By induction on the resources:
time passes to the backstop, or to the end of the wait. -/
theorem run_overrun (hsince : since ≤ request.time + o.timeoutMs)
    (hlong : request.time + o.timeoutMs ≤ since + o.wait c + o.total rest) :
    ∃ actions s, run o.step ⟨since, .closing request c since rest, trace⟩ actions = some s ∧
      .timedOut o.timeoutMs ∈ s.trace := by
  induction rest generalizing c since trace with
  | nil => exact run_backstop hsince hlong
  | cons c' rest ih =>
    by_cases hwithin : request.time + o.timeoutMs ≤ since + o.wait c
    · exact run_backstop hsince hwithin
    · have hnext : since + o.wait c ≤ request.time + o.timeoutMs := Nat.le_of_not_le hwithin
      have hover : ∃ a more, o.step ⟨since + o.wait c, .closing request c since (c' :: rest), trace⟩ a =
          some (advance request (since + o.wait c) (trace ++ more) (c' :: rest)) := step_over (Nat.le_refl _)
      obtain ⟨a, more, ha⟩ := hover
      rw [total_cons, ← Nat.add_assoc] at hlong
      obtain ⟨actions, s, hr, htimedOut⟩ := ih hnext hlong
      refine ⟨List.replicate (o.wait c) .tick ++ a :: actions, s, ?_, htimedOut⟩
      refine run_append_eq_some.mpr ⟨_, run_ticks (Nat.le_refl _) hnext, run_cons_eq_some.mpr ⟨_, ha, hr⟩⟩

end Overrun

end ShutdownOptions

open ShutdownOptions in
theorem stopsCleanly_iff {o : ShutdownOptions} (hne : o.closables ≠ []) :
    StopsCleanly o ↔ o.total o.closables < o.timeoutMs := by
  constructor
  · intro hclean
    by_contra hlong
    cases hclosables : o.closables with
    | nil => exact hne hclosables
    | cons c rest =>
      rw [hclosables, total_cons] at hlong
      have hsignal : o.step .start (.signal "SIGTERM") =
          some ⟨0, .closing ⟨"SIGTERM", 0⟩ c 0 rest, [.requested "SIGTERM", .called c.name]⟩ := by
        simp only [step, State.start, hclosables, advance]
        rfl
      have hcrash : ∃ actions s, run o.step ⟨0, .closing ⟨"SIGTERM", 0⟩ c 0 rest,
          [.requested "SIGTERM", .called c.name]⟩ actions = some s ∧ .timedOut o.timeoutMs ∈ s.trace :=
        run_overrun (Nat.zero_le _) (show 0 + o.timeoutMs ≤ 0 + o.wait c + o.total rest by omega)
      obtain ⟨actions, s, hr, htimedOut⟩ := hcrash
      exact (hclean (.signal "SIGTERM" :: actions) s (run_cons_eq_some.mpr ⟨_, hsignal, hr⟩)).backstop _ htimedOut
  · intro hbudget actions s hr
    exact clean_of_onTime hbudget (onTime_run hbudget hr)

end RentalMarket.Runtime
