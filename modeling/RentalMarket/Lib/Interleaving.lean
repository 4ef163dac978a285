import RentalMarket.Lib.Runs
import Mathlib.Data.List.Perm.Basic

namespace RentalMarket.Interleaving

open Runs

/-- What calls share, and the calls, each at its next statement. -/
structure State (T C : Type*) where
  tables : T
  calls : List C
  deriving DecidableEq

inductive Action (R D : Type*) where
  | arrive (r : R)
  | exec (i : Nat) (d : D)

/-- Where a request starts, and what one statement does. A call that is over, or
that has to wait, has none. -/
structure Machine (T C R D : Type*) where
  start : R → C
  next : T → D → C → Option (T × C)

variable {T C R D : Type*}

namespace Machine

def step (m : Machine T C R D) (s : State T C) : Action R D → Option (State T C)
  | .arrive r => some ⟨s.tables, s.calls ++ [m.start r]⟩
  | .exec i d => (s.calls[i]?).bind (fun c =>
      (m.next s.tables d c).map (fun r => ⟨r.1, s.calls.set i r.2⟩))

end Machine

variable {m : Machine T C R D} {s s' : State T C} {a : Action R D}

theorem step_exec {i : Nat} {d : D} : m.step s (.exec i d) = some s' ↔
    ∃ c c', s.calls[i]? = some c ∧ m.next s.tables d c = some (s'.tables, c') ∧
      s'.calls = s.calls.set i c' := by
  rw [Machine.step, Option.bind_eq_some_iff]
  constructor
  · rintro ⟨c, hc, h⟩
    obtain ⟨⟨t, c'⟩, hnext, rfl⟩ := Option.map_eq_some_iff.mp h
    exact ⟨c, c', hc, hnext, rfl⟩
  · rintro ⟨c, c', hc, hnext, hcalls⟩
    refine ⟨c, hc, Option.map_eq_some_iff.mpr ⟨_, hnext, ?_⟩⟩
    rw [← hcalls]

theorem step_tables (h : m.step s a = some s') :
    s'.tables = s.tables ∨
      ∃ i d c c', a = .exec i d ∧ s.calls[i]? = some c ∧ m.next s.tables d c = some (s'.tables, c') := by
  cases a with
  | arrive r =>
    cases h
    exact .inl rfl
  | exec i d =>
    obtain ⟨c, c', hc, hnext, -⟩ := step_exec.mp h
    exact .inr ⟨i, d, c, c', rfl, hc, hnext⟩

theorem step_arrived {r : R} (h : m.step s (.arrive r) = some s') {j : Nat} {x : C}
    (hx : s'.calls[j]? = some x) : s.calls[j]? = some x ∨ j = s.calls.length ∧ x = m.start r := by
  cases h
  simp only [List.getElem?_append] at hx
  split at hx
  · exact .inl hx
  · rename_i hlast
    obtain ⟨hj, rfl⟩ := List.getElem?_eq_some_iff.mp hx
    rw [List.length_singleton] at hj
    exact .inr ⟨by omega, by simp⟩

theorem step_call (h : m.step s a = some s') {j : Nat} {x : C} (hx : s'.calls[j]? = some x) :
    (s.calls[j]? = some x ∧ ∀ d, a ≠ .exec j d) ∨ (∃ r, a = .arrive r ∧ x = m.start r) ∨
      ∃ d c, a = .exec j d ∧ s.calls[j]? = some c ∧ m.next s.tables d c = some (s'.tables, x) := by
  cases a with
  | arrive r =>
    obtain hold | ⟨-, hstart⟩ := step_arrived h hx
    · refine .inl ⟨hold, ?_⟩
      rintro d ⟨⟩
    · exact .inr (.inl ⟨r, rfl, hstart⟩)
  | exec i d =>
    obtain ⟨c, c', hc, hnext, hcalls⟩ := step_exec.mp h
    rw [hcalls] at hx
    by_cases hij : i = j
    · subst hij
      rw [List.getElem?_set_self', hc] at hx
      cases hx
      exact .inr (.inr ⟨d, c, rfl, hc, hnext⟩)
    · rw [List.getElem?_set_ne hij] at hx
      refine .inl ⟨hx, ?_⟩
      rintro e ⟨⟩
      exact hij rfl

theorem step_stays (h : m.step s a = some s') {j : Nat} {x : C} (hx : s.calls[j]? = some x)
    (hother : ∀ d, a ≠ .exec j d) : s'.calls[j]? = some x := by
  cases a with
  | arrive r =>
    cases h
    rw [List.getElem?_append_left (List.getElem?_eq_some_iff.mp hx).1]
    exact hx
  | exec i d =>
    obtain ⟨c, c', -, -, hcalls⟩ := step_exec.mp h
    rw [hcalls, List.getElem?_set_ne (fun hij => hother d (by rw [hij]))]
    exact hx

theorem step_ran {i : Nat} {d : D} {c : C} (hc : s.calls[i]? = some c) (h : m.step s (.exec i d) = some s') :
    ∃ c', m.next s.tables d c = some (s'.tables, c') ∧ s'.calls[i]? = some c' := by
  obtain ⟨c₀, c', hc₀, hnext, hcalls⟩ := step_exec.mp h
  rw [hc] at hc₀
  cases hc₀
  exact ⟨c', hnext, by rw [hcalls, List.getElem?_set_self', hc]; rfl⟩

theorem step_last (m : Machine T C R D) (t : T) (cs : List C) (c : C) (d : D) :
    m.step ⟨t, cs ++ [c]⟩ (.exec cs.length d) = (m.next t d c).map (fun r => ⟨r.1, cs ++ [r.2]⟩) := by
  rw [Machine.step, List.getElem?_concat_length, Option.bind_some]
  congr 1
  funext r
  rw [List.set_append_right _ _ (Nat.le_refl _), Nat.sub_self, List.set_cons_zero]

theorem calls_perm {i : Nat} {d : D} (h : m.step s (.exec i d) = some s') :
    ∃ c c', s.calls[i]? = some c ∧ m.next s.tables d c = some (s'.tables, c') ∧
      (c :: s'.calls).Perm (c' :: s.calls) := by
  obtain ⟨c, c', hc, hnext, hcalls⟩ := step_exec.mp h
  refine ⟨c, c', hc, hnext, ?_⟩
  obtain ⟨hi, rfl⟩ := List.getElem?_eq_some_iff.mp hc
  rw [hcalls]
  have hset := List.set_perm_cons_eraseIdx hi c'
  have hback := List.getElem_cons_eraseIdx_perm hi
  exact (hset.cons _).trans ((List.Perm.swap _ _ _).trans (hback.cons _))

theorem length_calls_le {as : List (Action R D)} (hr : run m.step s as = some s') :
    s.calls.length ≤ s'.calls.length := by
  apply run_preserves (P := fun u => s.calls.length ≤ u.calls.length) ?_ hr (Nat.le_refl _)
  intro u a t hle h
  cases a with
  | arrive r =>
    cases h
    rw [List.length_append]
    exact Nat.le_add_right_of_le hle
  | exec i d =>
    obtain ⟨c, c', -, -, hcalls⟩ := step_exec.mp h
    rw [hcalls, List.length_set]
    exact hle

/-- What is shared is as it should be, and every call where it may be. -/
def Holds (I : T → Prop) (Q : T → C → Prop) (s : State T C) : Prop :=
  I s.tables ∧ ∀ (i : Nat) (c : C), s.calls[i]? = some c → Q s.tables c

section

variable {I : T → Prop} {Q : T → C → Prop} {K : State T C → Action R D → Prop}

theorem holds_of_no_calls (hidle : s.calls = []) (h : I s.tables) : Holds I Q s := by
  refine ⟨h, ?_⟩
  intro i c hc
  rw [hidle] at hc
  cases hc

/-- The rule for interleaved calls: a statement has to keep what is shared, put
its own call where it may be, and leave every other call where it may be. -/
theorem Holds.after_step (hs : Holds I Q s) (h : m.step s a = some s')
    (hstart : ∀ r, a = .arrive r → Q s.tables (m.start r))
    (hnext : ∀ i d c c', a = .exec i d → s.calls[i]? = some c →
      m.next s.tables d c = some (s'.tables, c') →
      I s'.tables ∧ Q s'.tables c' ∧ ∀ c₂, Q s.tables c₂ → Q s'.tables c₂) : Holds I Q s' := by
  obtain ⟨htables, hcalls⟩ := hs
  cases a with
  | arrive r =>
    have hsame : s'.tables = s.tables := by
      cases h
      rfl
    refine ⟨hsame ▸ htables, ?_⟩
    intro j x hx
    rw [hsame]
    obtain ⟨hold, -⟩ | ⟨r', ⟨⟩, rfl⟩ | ⟨d, c, ⟨⟩, -⟩ := step_call h hx
    · exact hcalls j x hold
    · exact hstart r rfl
  | exec i d =>
    obtain ⟨c, c', hc, hrun, hset⟩ := step_exec.mp h
    obtain ⟨hI, hQ, hothers⟩ := hnext i d c c' rfl hc hrun
    refine ⟨hI, ?_⟩
    intro j x hx
    obtain ⟨hold, -⟩ | ⟨r, ⟨⟩, -⟩ | ⟨e, c₀, ⟨⟩, hc₀, hrun'⟩ := step_call h hx
    · exact hothers x (hcalls j x hold)
    · rw [hc] at hc₀
      cases hc₀
      rw [hrun] at hrun'
      cases hrun'
      exact hQ

theorem Holds.after_run {as : List (Action R D)}
    (hstart : ∀ t r, I t → Q t (m.start r))
    (hnext : ∀ t d c t' c', I t → Q t c → m.next t d c = some (t', c') →
      I t' ∧ Q t' c' ∧ ∀ c₂, Q t c₂ → Q t' c₂)
    (hs : Holds I Q s) (hr : run m.step s as = some s') : Holds I Q s' := by
  refine run_preserves ?_ hr hs
  intro s a s' hs h
  refine hs.after_step h (fun r _ => hstart _ r hs.1) ?_
  intro i d c c' _ hc hrun
  exact hnext _ d c _ c' hs.1 (hs.2 i c hc) hrun

theorem Holds.after_run_of_meets {as : List (Action R D)}
    (hstart : ∀ t r, I t → Q t (m.start r))
    (hnext : ∀ (s : State T C) i d c t' c', I s.tables → Q s.tables c → K s (.exec i d) →
      s.calls[i]? = some c → m.next s.tables d c = some (t', c') →
      I t' ∧ Q t' c' ∧ ∀ c₂, Q s.tables c₂ → Q t' c₂)
    (hs : Holds I Q s) (hr : run m.step s as = some s') (hmeets : Meets m.step K s as) : Holds I Q s' := by
  refine run_preserves_of_meets ?_ hr hmeets hs
  intro s a s' hs hK h
  refine hs.after_step h (fun r _ => hstart _ r hs.1) ?_
  rintro i d c c' rfl hc hrun
  exact hnext s i d c _ c' hs.1 (hs.2 i c hc) hK hc hrun

end

/-- In the run every statement of a call left what is shared as it was. -/
def WroteNothing (m : Machine T C R D) (s₀ : State T C) (as : List (Action R D)) (i : Nat) : Prop :=
  ∀ (pre post : List (Action R D)) (d : D) (u u' : State T C), as = pre ++ .exec i d :: post →
    run m.step s₀ pre = some u → m.step u (.exec i d) = some u' → u'.tables = u.tables

/-- Where calls come to certain places only from others of them, by statements
that write nothing, a call that is there has written nothing. -/
theorem wroteNothing_of_run {U : C → Prop} {s₀ : State T C} {as : List (Action R D)}
    (hnext : ∀ t d c t' c', m.next t d c = some (t', c') → U c' → U c ∧ t' = t)
    (hr : run m.step s₀ as = some s) {i : Nat} (hU : ∀ c, s.calls[i]? = some c → U c) :
    WroteNothing m s₀ as i := by
  revert hU
  refine run_induction (P := fun as s => (∀ c, s.calls[i]? = some c → U c) → WroteNothing m s₀ as i) ?_ ?_ hr
  · intro _ pre post d u u' hcut
    simp at hcut
  · intro as s a s' hrun ih h hU
    have hbefore : ∀ c, s.calls[i]? = some c → U c := by
      intro c hc
      by_cases hown : ∃ d, a = .exec i d
      · obtain ⟨d, rfl⟩ := hown
        obtain ⟨c', hnextc, hc'⟩ := step_ran hc h
        exact (hnext _ d c _ c' hnextc (hU c' hc')).1
      · exact hU c (step_stays h hc (fun d hd => hown ⟨d, hd⟩))
    intro pre post d u u' hcut hpre hstep
    obtain ⟨rfl, rfl⟩ | ⟨post', hearlier⟩ := append_cut hcut
    · rw [hrun] at hpre
      cases hpre
      rw [h] at hstep
      cases hstep
      obtain ⟨c, c', hc, hnextc, -⟩ := step_exec.mp h
      obtain ⟨c'', hnextc', hc'⟩ := step_ran hc h
      exact (hnext _ d c _ c'' hnextc' (hU c'' hc')).2
    · exact ih hbefore pre post' d u u' hearlier hpre hstep

end RentalMarket.Interleaving
