import Mathlib.Data.List.Induction

namespace RentalMarket.Runs

variable {S A : Type*}

/-- Take the actions one after another. The run is `none` as soon as one of
them is not enabled in the state it meets. -/
def run (step : S → A → Option S) : S → List A → Option S
  | s, [] => some s
  | s, a :: as => (step s a).bind (fun t => run step t as)

/-- Every action of the list meets `C` in the state it is taken in. -/
def Meets (step : S → A → Option S) (C : S → A → Prop) : S → List A → Prop
  | _, [] => True
  | s, a :: as => C s a ∧ match step s a with
    | some t => Meets step C t as
    | none => True

instance decidableMeets (step : S → A → Option S) (C : S → A → Prop)
    [∀ s a, Decidable (C s a)] : ∀ s as, Decidable (Meets step C s as)
  | _, [] => isTrue trivial
  | s, a :: as =>
    have : Decidable (match step s a with
        | some t => Meets step C t as
        | none => True) :=
      match step s a with
      | some t => decidableMeets step C t as
      | none => isTrue trivial
    inferInstanceAs (Decidable (_ ∧ _))

variable {step : S → A → Option S}

@[simp] theorem run_nil (s : S) : run step s [] = some s := rfl

theorem run_cons (s : S) (a : A) (as : List A) :
    run step s (a :: as) = (step s a).bind (fun t => run step t as) := rfl

theorem run_cons_eq_some {s t : S} {a : A} {as : List A} :
    run step s (a :: as) = some t ↔ ∃ u, step s a = some u ∧ run step u as = some t := by
  rw [run_cons, Option.bind_eq_some_iff]

theorem run_append (s : S) (as bs : List A) :
    run step s (as ++ bs) = (run step s as).bind (fun t => run step t bs) := by
  induction as generalizing s with
  | nil => rfl
  | cons a as ih =>
    rw [List.cons_append, run_cons, run_cons]
    cases step s a with
    | none => rfl
    | some u => exact ih u

theorem meets_cons {C : S → A → Prop} {s u : S} {a : A} {as : List A} (hu : step s a = some u) :
    Meets step C s (a :: as) ↔ C s a ∧ Meets step C u as := by
  simp only [Meets, hu]

theorem run_append_eq_some {s u : S} {as bs : List A} :
    run step s (as ++ bs) = some u ↔ ∃ t, run step s as = some t ∧ run step t bs = some u := by
  rw [run_append, Option.bind_eq_some_iff]

theorem run_from {s t u : S} {pre post : List A} (hr : run step s (pre ++ post) = some u)
    (hpre : run step s pre = some t) : run step t post = some u := by
  obtain ⟨t₀, hpre₀, hrest⟩ := run_append_eq_some.mp hr
  rw [hpre] at hpre₀
  cases hpre₀
  exact hrest

theorem run_rest {s t u : S} {a : A} {pre post : List A} (hr : run step s (pre ++ a :: post) = some u)
    (hpre : run step s pre = some t) : ∃ t', step t a = some t' ∧ run step t' post = some u :=
  run_cons_eq_some.mp (run_from hr hpre)

theorem append_cut {as pre post : List A} {a b : A} (h : as ++ [a] = pre ++ b :: post) :
    (as = pre ∧ a = b) ∨ ∃ post', as = pre ++ b :: post' := by
  obtain rfl | ⟨post', x, rfl⟩ := List.eq_nil_or_concat post
  · obtain ⟨has, hab⟩ := List.append_inj' h rfl
    exact .inl ⟨has, List.singleton_inj.mp hab⟩
  · rw [List.concat_eq_append, ← List.cons_append, ← List.append_assoc] at h
    exact .inr ⟨post', (List.append_inj' h rfl).1⟩

theorem meets_iff {C : S → A → Prop} {s : S} {as : List A} :
    Meets step C s as ↔
      ∀ pre a post t, as = pre ++ a :: post → run step s pre = some t → C t a := by
  induction as generalizing s with
  | nil => simp [Meets]
  | cons b as ih =>
    constructor
    · rintro ⟨hb, hrest⟩ pre a post t hcut hpre
      cases pre with
      | nil =>
        cases hcut
        cases hpre
        exact hb
      | cons c pre =>
        obtain ⟨hbc, htail⟩ := List.cons.inj hcut
        obtain ⟨u, hu, hpre⟩ := run_cons_eq_some.mp hpre
        rw [hbc, hu] at hrest
        exact ih.mp hrest pre a post t htail hpre
    · intro h
      refine ⟨h [] b as s rfl rfl, ?_⟩
      cases hu : step s b with
      | none => trivial
      | some u =>
        refine ih.mpr (fun pre a post t hcut hpre => h (b :: pre) a post t ?_ ?_)
        · rw [hcut, List.cons_append]
        · rw [run_cons, hu]
          exact hpre

theorem meets_left {C : S → A → Prop} {s : S} {as bs : List A} (h : Meets step C s (as ++ bs)) :
    Meets step C s as := by
  refine meets_iff.mpr (fun pre a post t hcut hpre => ?_)
  refine meets_iff.mp h pre a (post ++ bs) t ?_ hpre
  rw [hcut, List.append_assoc, List.cons_append]

theorem meets_right {C : S → A → Prop} {s t : S} {as bs : List A} (h : Meets step C s (as ++ bs))
    (hr : run step s as = some t) : Meets step C t bs := by
  refine meets_iff.mpr (fun pre a post u hcut hpre => ?_)
  refine meets_iff.mp h (as ++ pre) a post u ?_ (run_append_eq_some.mpr ⟨t, hr, hpre⟩)
  rw [hcut, List.append_assoc]

theorem meets_and {C D : S → A → Prop} {s : S} {as : List A} (hc : Meets step C s as)
    (hd : Meets step D s as) : Meets step (fun s a => C s a ∧ D s a) s as :=
  meets_iff.mpr (fun pre a post t hcut hpre =>
    ⟨meets_iff.mp hc pre a post t hcut hpre, meets_iff.mp hd pre a post t hcut hpre⟩)

theorem meets_of_forall {C : A → Prop} {s : S} {as : List A} (h : ∀ a ∈ as, C a) :
    Meets step (fun _ a => C a) s as :=
  meets_iff.mpr (fun pre a _ _ hcut _ => h a (hcut ▸ List.mem_append_right pre List.mem_cons_self))

theorem run_preserves {P : S → Prop} (hstep : ∀ s a t, P s → step s a = some t → P t)
    {s t : S} {as : List A} (hr : run step s as = some t) (hs : P s) : P t := by
  induction as generalizing s with
  | nil => cases hr; exact hs
  | cons a as ih =>
    obtain ⟨u, hu, hr⟩ := run_cons_eq_some.mp hr
    exact ih hr (hstep s a u hs hu)

theorem run_induction {P : List A → S → Prop} {s₀ : S} (hnil : P [] s₀)
    (hstep : ∀ as s a t, run step s₀ as = some s → P as s → step s a = some t → P (as ++ [a]) t)
    {as : List A} {s : S} (hr : run step s₀ as = some s) : P as s := by
  induction as using List.reverseRecOn generalizing s with
  | nil =>
    cases hr
    exact hnil
  | append_singleton as a ih =>
    obtain ⟨u, hu, hr⟩ := run_append_eq_some.mp hr
    obtain ⟨t, ht, hr⟩ := run_cons_eq_some.mp hr
    cases hr
    exact hstep as u a _ hu (ih hu) ht

theorem run_preserves_of_meets {P : S → Prop} {C : S → A → Prop}
    (hstep : ∀ s a t, P s → C s a → step s a = some t → P t)
    {s t : S} {as : List A} (hr : run step s as = some t) (hc : Meets step C s as) (hs : P s) :
    P t := by
  induction as generalizing s with
  | nil => cases hr; exact hs
  | cons a as ih =>
    obtain ⟨u, hu, hr⟩ := run_cons_eq_some.mp hr
    obtain ⟨ha, hc⟩ := (meets_cons hu).mp hc
    exact ih hr hc (hstep s a u hs ha hu)

/-- The progress rule: what every step brings down by at least `n`, a run brings
down by `n` for each of its steps. -/
theorem run_countdown {P : S → Prop} {C : S → A → Prop} {μ : S → Nat} {n : Nat}
    (hstep : ∀ s a t, P s → C s a → step s a = some t → P t ∧ μ t ≤ μ s - n)
    {s t : S} {as : List A} (hr : run step s as = some t) (hc : Meets step C s as) (hs : P s) :
    P t ∧ μ t ≤ μ s - n * as.length := by
  induction as generalizing s with
  | nil =>
    cases hr
    exact ⟨hs, Nat.le_refl _⟩
  | cons a as ih =>
    obtain ⟨u, hu, hr⟩ := run_cons_eq_some.mp hr
    obtain ⟨ha, hc⟩ := (meets_cons hu).mp hc
    obtain ⟨hPu, hle⟩ := hstep s a u hs ha hu
    obtain ⟨hPt, hrest⟩ := ih hr hc hPu
    refine ⟨hPt, Nat.le_trans hrest ?_⟩
    rw [List.length_cons, Nat.mul_succ]
    omega

end RentalMarket.Runs
