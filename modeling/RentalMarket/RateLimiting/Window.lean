import RentalMarket.RateLimiting.Limiter

namespace RentalMarket.RateLimiting

open Runs Interleaving FixedWindow

/-- What the stored key knows of the uses so far. -/
structure Knows (w : Setting) (r : Redis) (uses : List Use) (c : Counter) : Prop where
  lifetime : c.lifetime = r.lifetimes
  since : c.since ≤ r.now
  expiry : ∀ t, c.expiresAt = some t → c.since + w.window ≤ t ∧ t ≤ r.now + w.window
  count : ∀ u ∈ uses, u.window = c.lifetime → u.count ≤ c.count
  earlier : ∀ u ∈ uses, u.window < c.lifetime → u.instant ≤ c.since
  before : ∀ u ∈ uses, u.window + 2 ≤ c.lifetime → u.instant + w.window ≤ c.since

structure Sound (w : Setting) (r : Redis) (uses : List Use) : Prop where
  counted : Counted w.window uses
  past : ∀ u ∈ uses, u.instant ≤ r.now ∧ u.window ≤ r.lifetimes
  unused : r.stored = none → uses = []
  stored : ∀ c, r.stored = some c → Knows w r uses c

section

variable {w : Setting} {r : Redis} {uses uses' : List Use} {c : Counter}

theorem Sound.perm (h : Sound w r uses) (hp : uses.Perm uses') : Sound w r uses' where
  counted := by
    refine ⟨(hp.map _).nodup_iff.mp h.counted.distinct, ?_, ?_⟩
    · intro u hu
      exact h.counted.positive u (hp.mem_iff.mpr hu)
    · intro u hu v hv
      exact h.counted.apart u (hp.mem_iff.mpr hu) v (hp.mem_iff.mpr hv)
  past u hu := h.past u (hp.mem_iff.mpr hu)
  unused hnone := List.perm_nil.mp (h.unused hnone ▸ hp.symm)
  stored c hc := by
    obtain ⟨hlifetime, hsince, hexpiry, hcount, hearlier, hbefore⟩ := h.stored c hc
    exact ⟨hlifetime, hsince, hexpiry, fun u hu => hcount u (hp.mem_iff.mpr hu),
      fun u hu => hearlier u (hp.mem_iff.mpr hu), fun u hu => hbefore u (hp.mem_iff.mpr hu)⟩

theorem Sound.after (h : Sound w r uses) (elapsed : Nat) : Sound w (r.after elapsed) uses where
  counted := h.counted
  past u hu := ⟨(h.past u hu).1.trans (Nat.le_add_right _ _), (h.past u hu).2⟩
  unused := h.unused
  stored c hc := by
    obtain ⟨hlifetime, hsince, hexpiry, hcount, hearlier, hbefore⟩ := h.stored c hc
    refine ⟨hlifetime, hsince.trans (Nat.le_add_right _ _), fun t ht => ?_, hcount, hearlier, hbefore⟩
    have hle := hexpiry t ht
    simp only [Redis.after]
    omega

theorem key_eq_some : r.key = some c ↔ r.stored = some c ∧ ∀ t, c.expiresAt = some t → r.now < t := by
  rw [Redis.key, Option.filter_eq_some_iff]
  cases c.expiresAt with
  | none => simp
  | some t => simp

theorem key_eq_none (h : r.key = none) : r.stored = none ∨ ∃ c t, r.stored = some c ∧ c.expiresAt = some t ∧ t ≤ r.now := by
  cases hs : r.stored with
  | none => exact .inl rfl
  | some c =>
    right
    by_contra hlive
    have hkey : r.key = some c := by
      refine key_eq_some.mpr ⟨hs, fun t ht => ?_⟩
      by_contra hover
      exact hlive ⟨c, t, rfl, ht, not_lt.mp hover⟩
    rw [h] at hkey
    cases hkey

/-- A first command makes a new use: the next of its lifetime, or the first of a new
one. -/
theorem Sound.incr (h : Sound w r uses) :
    Sound w r.incr (⟨r.incremented.lifetime, r.incremented.count, r.now⟩ :: uses) := by
  cases hkey : r.key with
  | some c =>
    obtain ⟨hstored, -⟩ := key_eq_some.mp hkey
    obtain ⟨hlifetime, hsince, hexpiry, hcount, hearlier, hbefore⟩ := h.stored c hstored
    have hincremented : r.incremented = { c with count := c.count + 1 } := by rw [Redis.incremented, hkey]
    rw [Redis.incr, hincremented]
    refine ⟨h.counted.cons ?_ (Nat.le_add_left _ _) ?_ ?_, ?_, fun hnone => absurd hnone (Option.some_ne_none _), ?_⟩
    · intro v hv hwindow
      exact Nat.lt_succ_of_le (hcount v hv hwindow)
    · intro v hv
      exact hlifetime ▸ (h.past v hv).2
    · intro v hv hwindows
      exact (hbefore v hv hwindows).trans hsince
    · intro v hv
      obtain rfl | hv := List.mem_cons.mp hv
      · exact ⟨Nat.le_refl _, Nat.le_refl _⟩
      · exact ⟨(h.past v hv).1, hlifetime ▸ (h.past v hv).2⟩
    · rintro c' ⟨⟩
      refine ⟨rfl, hsince, hexpiry, ?_, ?_, ?_⟩
      · intro v hv hwindow
        obtain rfl | hv := List.mem_cons.mp hv
        · exact Nat.le_refl _
        · exact (hcount v hv hwindow).trans (Nat.le_succ _)
      · intro v hv hwindow
        obtain rfl | hv := List.mem_cons.mp hv
        · exact absurd hwindow (lt_irrefl _)
        · exact hearlier v hv hwindow
      · intro v hv hwindow
        obtain rfl | hv := List.mem_cons.mp hv
        · simp only at hwindow
          omega
        · exact hbefore v hv hwindow
  | none =>
    have hincremented : r.incremented = ⟨1, none, r.lifetimes + 1, r.now⟩ := by rw [Redis.incremented, hkey]
    -- whoever was counted two lifetimes ago was counted a whole one before this
    have hapart : ∀ v ∈ uses, v.window + 2 ≤ r.lifetimes + 1 → v.instant + w.window ≤ r.now := by
      intro v hv hwindows
      obtain hnone | ⟨c, t, hstored, ht, hover⟩ := key_eq_none hkey
      · rw [h.unused hnone] at hv
        cases hv
      · have hknows := h.stored c hstored
        have hearlier := hknows.earlier v hv (by rw [hknows.lifetime]; omega)
        have hexpiry := (hknows.expiry t ht).1
        omega
    rw [Redis.incr, hincremented]
    refine ⟨h.counted.cons ?_ (Nat.le_refl _) ?_ hapart, ?_, fun hnone => absurd hnone (Option.some_ne_none _), ?_⟩
    · intro v hv hwindow
      have hle := (h.past v hv).2
      simp only at hwindow
      omega
    · intro v hv
      exact (h.past v hv).2.trans (Nat.le_succ _)
    · intro v hv
      obtain rfl | hv := List.mem_cons.mp hv
      · exact ⟨Nat.le_refl _, Nat.le_refl _⟩
      · exact ⟨(h.past v hv).1, (h.past v hv).2.trans (Nat.le_succ _)⟩
    · rintro c' ⟨⟩
      refine ⟨rfl, Nat.le_refl _, fun t ht => absurd ht (Option.some_ne_none t).symm, ?_, ?_, ?_⟩
      · intro v hv hwindow
        obtain rfl | hv := List.mem_cons.mp hv
        · exact Nat.le_refl _
        · have hle := (h.past v hv).2
          simp only at hwindow
          omega
      · intro v hv hwindow
        obtain rfl | hv := List.mem_cons.mp hv
        · exact Nat.le_refl _
        · exact (h.past v hv).1
      · intro v hv hwindow
        obtain rfl | hv := List.mem_cons.mp hv
        · simp only at hwindow
          omega
        · exact hapart v hv hwindow

theorem expireNx_now (r : Redis) (window : Nat) : (r.expireNx window).now = r.now := by
  unfold Redis.expireNx
  split
  · rfl
  · split <;> rfl

theorem expireNx_lifetimes (r : Redis) (window : Nat) : (r.expireNx window).lifetimes = r.lifetimes := by
  unfold Redis.expireNx
  split
  · rfl
  · split <;> rfl

theorem Sound.expireNx (h : Sound w r uses) : Sound w (r.expireNx w.window) uses := by
  unfold Redis.expireNx
  split
  · exact h
  · rename_i c hkey
    split
    · obtain ⟨hstored, -⟩ := key_eq_some.mp hkey
      obtain ⟨hlifetime, hsince, -, hcount, hearlier, hbefore⟩ := h.stored c hstored
      refine ⟨h.counted, h.past, fun hnone => absurd hnone (Option.some_ne_none _), ?_⟩
      rintro c' ⟨⟩
      refine ⟨hlifetime, hsince, ?_, hcount, hearlier, hbefore⟩
      rintro t ⟨⟩
      exact ⟨Nat.add_le_add_right hsince _, Nat.le_refl _⟩
    · exact h

def usesOf (calls : List Call) : List Use := calls.filterMap Call.use

def Answers (w : Setting) : Call → Prop
  | .answered use decision => ∃ ttl, decision = decisionOf w.policy use.count ttl
  | _ => True

structure Inv (w : Setting) (s : State Redis Call) : Prop where
  sound : Sound w s.tables (usesOf s.calls)
  answers : ∀ c ∈ s.calls, Answers w c

theorem next_sound (h : Sound w r uses) {elapsed : Nat} {c c' : Call} {r' : Redis}
    (hn : next w r elapsed c = some (r', c')) (huses : ∀ u, c.use = some u → u ∈ uses) :
    Answers w c' ∧ ((c'.use = c.use ∧ Sound w r' uses) ∨ ∃ u, c.use = none ∧ c'.use = some u ∧ Sound w r' (u :: uses)) := by
  cases c with
  | incrementing =>
    cases hn
    exact ⟨trivial, .inr ⟨_, rfl, rfl, (h.after elapsed).incr⟩⟩
  | expiring use =>
    cases hn
    exact ⟨trivial, .inl ⟨rfl, (h.after elapsed).expireNx⟩⟩
  | reading use =>
    cases hn
    exact ⟨⟨_, rfl⟩, .inl ⟨rfl, h.after elapsed⟩⟩
  | answered use decision => cases hn

theorem usesOf_cons (c : Call) (calls : List Call) : usesOf (c :: calls) = c.use.toList ++ usesOf calls := by
  rw [usesOf, List.filterMap_cons]
  cases c.use <;> rfl

theorem Inv.step {s s' : State Redis Call} {a : Interleaving.Action Unit Nat} (h : Inv w s)
    (hx : (limiter w).step s a = some s') : Inv w s' := by
  cases a with
  | arrive r =>
    cases hx
    refine ⟨?_, fun c hc => ?_⟩
    · have huses : usesOf (s.calls ++ [Call.incrementing]) = usesOf s.calls := by
        rw [usesOf, List.filterMap_append]
        exact List.append_nil _
      show Sound w s.tables (usesOf (s.calls ++ [Call.incrementing]))
      rw [huses]
      exact h.sound
    · obtain hc | hc := List.mem_append.mp hc
      · exact h.answers c hc
      · rw [List.mem_singleton.mp hc]
        trivial
  | exec i d =>
    obtain ⟨c, c', hc, hn, hperm⟩ := calls_perm hx
    have hmem := List.mem_of_getElem? hc
    obtain ⟨hanswers, hsound⟩ := next_sound h.sound hn (fun u hu => List.mem_filterMap.mpr ⟨c, hmem, hu⟩)
    refine ⟨?_, fun x hx => ?_⟩
    · have huses : (c.use.toList ++ usesOf s'.calls).Perm (c'.use.toList ++ usesOf s.calls) := by
        rw [← usesOf_cons, ← usesOf_cons]
        exact hperm.filterMap Call.use
      obtain ⟨hsame, hsound⟩ | ⟨u, hnone, hsome, hsound⟩ := hsound
      · rw [hsame] at huses
        exact hsound.perm ((List.perm_append_left_iff _).mp huses).symm
      · rw [hnone, hsome] at huses
        exact hsound.perm huses.symm
    · obtain rfl | hold := List.mem_cons.mp (hperm.mem_iff.mp (List.mem_cons_of_mem c hx))
      · exact hanswers
      · exact h.answers x hold

theorem inv_run {s : State Redis Call} {as : List (Interleaving.Action Unit Nat)}
    (hr : run (limiter w).step initial as = some s) : Inv w s := by
  refine run_preserves (P := Inv w) (fun s a s' hs hx => hs.step hx) hr ?_
  refine ⟨⟨⟨List.nodup_nil, by simp [usesOf, initial], by simp [usesOf, initial]⟩, by simp [usesOf, initial],
    fun _ => rfl, fun c hc => ?_⟩, by simp [initial]⟩
  cases hc

theorem allowed_sublist (calls : List Call) : (calls.filterMap Call.allowed).Sublist (usesOf calls) := by
  induction calls with
  | nil => exact List.nil_sublist _
  | cons c calls ih =>
    rw [usesOf_cons, List.filterMap_cons]
    cases hallowed : c.allowed with
    | none => exact ih.trans (List.sublist_append_right _ _)
    | some u =>
      have huse : c.use = some u := by
        cases c with
        | answered use decision =>
          simp only [Call.allowed] at hallowed
          split at hallowed <;> cases hallowed
          rfl
        | _ => cases hallowed
      rw [huse]
      exact ih.cons_cons u

theorem Inv.allowed {s : State Redis Call} (h : Inv w s) : Counted w.window (allowed s) ∧
    ∀ u ∈ allowed s, u.count ≤ w.policy.limit := by
  refine ⟨h.sound.counted.sublist (allowed_sublist s.calls), fun u hu => ?_⟩
  obtain ⟨c, hc, hallowed⟩ := List.mem_filterMap.mp hu
  cases c with
  | answered use decision =>
    obtain ⟨ttl, rfl⟩ := h.answers _ hc
    simp only [Call.allowed] at hallowed
    split at hallowed <;> cases hallowed
    rename_i hle
    simpa [decisionOf] using hle
  | _ => cases hallowed

def GoneBy (instant lifetime : Nat) (r : Redis) : Prop :=
  lifetime ≤ r.lifetimes ∧ ∀ c, r.stored = some c → c.lifetime = r.lifetimes ∧
    (lifetime < c.lifetime ∨ ∃ t, c.expiresAt = some t ∧ t ≤ instant)

/-- `EXPIRE` mends a key whose expiry was lost. -/
theorem Sound.goneBy (h : Sound w r uses) : GoneBy (r.now + w.window) r.lifetimes (r.expireNx w.window) := by
  unfold Redis.expireNx
  split
  · rename_i hkey
    refine ⟨Nat.le_refl _, fun c hc => ⟨(h.stored c hc).lifetime, .inr ?_⟩⟩
    obtain hnone | ⟨c', t, hstored, ht, hover⟩ := key_eq_none hkey
    · rw [hnone] at hc
      cases hc
    · rw [hc] at hstored
      cases hstored
      exact ⟨t, ht, hover.trans (Nat.le_add_right _ _)⟩
  · rename_i c hkey
    have hknows := h.stored c (key_eq_some.mp hkey).1
    split
    · refine ⟨Nat.le_refl _, ?_⟩
      rintro c' ⟨⟩
      exact ⟨hknows.lifetime, .inr ⟨_, rfl, Nat.le_refl _⟩⟩
    · rename_i hset
      refine ⟨Nat.le_refl _, fun c' hc' => ?_⟩
      rw [(key_eq_some.mp hkey).1] at hc'
      cases hc'
      obtain ⟨t, ht⟩ := Option.ne_none_iff_exists'.mp hset
      exact ⟨hknows.lifetime, .inr ⟨t, ht, (hknows.expiry t ht).2⟩⟩

theorem GoneBy.expireNx {instant lifetime : Nat} (h : GoneBy instant lifetime r) {window : Nat} :
    GoneBy instant lifetime (r.expireNx window) := by
  unfold Redis.expireNx
  split
  · exact h
  · rename_i c hkey
    split
    · rename_i hlost
      refine ⟨h.1, ?_⟩
      rintro c' ⟨⟩
      obtain ⟨hlifetime, hlater | ⟨t, ht, -⟩⟩ := h.2 c (key_eq_some.mp hkey).1
      · exact ⟨hlifetime, .inl hlater⟩
      · rw [hlost] at ht
        cases ht
    · exact h

theorem GoneBy.incr {instant lifetime : Nat} (h : GoneBy instant lifetime r) : GoneBy instant lifetime r.incr := by
  cases hkey : r.key with
  | some c =>
    obtain ⟨hlifetime, hgone⟩ := h.2 c (key_eq_some.mp hkey).1
    have hincremented : r.incremented = { c with count := c.count + 1 } := by rw [Redis.incremented, hkey]
    rw [Redis.incr, hincremented]
    refine ⟨hlifetime ▸ h.1, ?_⟩
    rintro c' ⟨⟩
    exact ⟨rfl, hgone⟩
  | none =>
    have hincremented : r.incremented = ⟨1, none, r.lifetimes + 1, r.now⟩ := by rw [Redis.incremented, hkey]
    rw [Redis.incr, hincremented]
    refine ⟨h.1.trans (Nat.le_succ _), ?_⟩
    rintro c' ⟨⟩
    exact ⟨rfl, .inl (Nat.lt_succ_of_le h.1)⟩

theorem GoneBy.step {instant lifetime : Nat} {s s' : State Redis Call} {a : Interleaving.Action Unit Nat}
    (h : GoneBy instant lifetime s.tables) (hx : (limiter w).step s a = some s') : GoneBy instant lifetime s'.tables := by
  cases a with
  | arrive r =>
    cases hx
    exact h
  | exec i elapsed =>
    obtain ⟨c, c', -, hn, -⟩ := step_exec.mp hx
    have hafter : GoneBy instant lifetime (s.tables.after elapsed) := h
    cases c with
    | incrementing =>
      obtain ⟨hr, -⟩ := Prod.mk.inj (Option.some.inj hn)
      rw [← hr]
      exact hafter.incr
    | expiring use =>
      obtain ⟨hr, -⟩ := Prod.mk.inj (Option.some.inj hn)
      rw [← hr]
      exact hafter.expireNx
    | reading use =>
      obtain ⟨hr, -⟩ := Prod.mk.inj (Option.some.inj hn)
      rw [← hr]
      exact hafter
    | answered use decision => cases hn

theorem decisionOf_resets (policy : RateLimitPolicy) (count : Nat) (ttl : Int) :
    1 ≤ (decisionOf policy count ttl).resetInSeconds := by
  have hwindow := policy.window_pos
  have hreset : (decisionOf policy count ttl).resetInSeconds = if ttl > 0 then ttl else policy.windowSeconds := rfl
  rw [hreset]
  split <;> omega

end

/-- The limit is not raced and not wedged. However the commands of calls interleave and
wherever calls die, a call uses the allowance when it increments: of one lifetime of the
key, and of any interval as long as the window, only so many uses are answered allowed.
Every answer can be waited for, and after an `EXPIRE` what is stored is gone within a
window. -/
theorem limit_holds (w : Setting) {s : State Redis Call} {as : List (Interleaving.Action Unit Nat)}
    (hr : run (limiter w).step initial as = some s) :
    (∀ lifetime, ((allowed s).filter (fun u => u.window = lifetime)).length ≤ w.policy.limit) ∧
    (∀ start, ((allowed s).filter (fun u => start ≤ u.instant ∧ u.instant < start + w.window)).length ≤
      2 * w.policy.limit) ∧
    (∀ use decision, .answered use decision ∈ s.calls → 0 ≤ decision.remaining ∧ 1 ≤ decision.resetInSeconds ∧
      retryAfterSeconds decision.resetInSeconds = decision.resetInSeconds) ∧
    ∀ i elapsed s' use, s.calls[i]? = some (.expiring use) → (limiter w).step s (.exec i elapsed) = some s' →
      (∀ c, s'.tables.key = some c → ∃ t, c.expiresAt = some t ∧ s'.tables.now < t ∧ t ≤ s'.tables.now + w.window) ∧
      ∀ bs s'', run (limiter w).step s' bs = some s'' → s'.tables.now + w.window ≤ s''.tables.now →
        ∀ c, s''.tables.key = some c → s'.tables.lifetimes < c.lifetime := by
  have hinv : Inv w s := inv_run hr
  obtain ⟨hcounted, hcount⟩ := hinv.allowed
  refine ⟨fun lifetime => ?_, fun start => ?_, ?_, ?_⟩
  · apply (hcounted.sublist List.filter_sublist).length_le (n := lifetime)
    · exact fun u hu => by simpa using (List.mem_filter.mp hu).2
    · exact fun u hu => hcount u (List.mem_of_mem_filter hu)
  · apply (hcounted.sublist List.filter_sublist).length_interval_le
    · exact fun u hu => by simpa using (List.mem_filter.mp hu).2
    · exact fun u hu => hcount u (List.mem_of_mem_filter hu)
  · intro use decision hanswered
    obtain ⟨ttl, rfl⟩ := hinv.answers _ hanswered
    have hresets := decisionOf_resets w.policy use.count ttl
    exact ⟨le_max_left _ _, hresets, max_eq_right hresets⟩
  · intro i elapsed s' use hc hx
    obtain ⟨c, c', hc', hn, -⟩ := step_exec.mp hx
    rw [hc] at hc'
    cases hc'
    obtain ⟨htables, -⟩ := Prod.mk.inj (Option.some.inj hn)
    have hgone : GoneBy (s'.tables.now + w.window) s'.tables.lifetimes s'.tables := by
      have hmended := (hinv.sound.after elapsed).goneBy
      rw [← htables, expireNx_now, expireNx_lifetimes]
      exact hmended
    constructor
    · intro c hkey
      obtain ⟨hstored, halive⟩ := key_eq_some.mp hkey
      obtain ⟨hlifetime, hnew | ⟨t, ht, hsoon⟩⟩ := hgone.2 c hstored
      · exact absurd hlifetime hnew.ne'
      · exact ⟨t, ht, halive t ht, hsoon⟩
    · intro bs s'' hbs hpast c hkey
      have hlater := run_preserves (fun u a u' hu hstep => GoneBy.step hu hstep) hbs hgone
      obtain ⟨-, hnew | ⟨t, ht, hover⟩⟩ := hlater.2 c (key_eq_some.mp hkey).1
      · exact hnew
      · have halive := (key_eq_some.mp hkey).2 t ht
        omega

def oneASecond : Setting := ⟨⟨1, 1, by decide⟩, 1, by decide⟩

/-- Three calls, each of which increments and sets the expiry in a second of its own,
and none of which has asked for the `TTL` yet. -/
def threeStalled : List (Interleaving.Action Unit Nat) :=
  List.replicate 3 (.arrive ()) ++ [.exec 0 0, .exec 0 0, .exec 1 1, .exec 1 0, .exec 2 1, .exec 2 0]

def allAnswered : List (Interleaving.Action Unit Nat) := [.exec 0 0, .exec 1 0, .exec 2 0]

theorem limit_holds_threeStalled : ∃ s,
    run (limiter oneASecond).step initial (threeStalled ++ allAnswered) = some s ∧ (allowed s).length = 3 ∧
    ∀ lifetime, ((allowed s).filter (fun u => u.window = lifetime)).length ≤ 1 := by
  have hrun : (run (limiter oneASecond).step initial (threeStalled ++ allAnswered)).map
      (fun s => (allowed s).length) = some 3 := by decide +kernel
  obtain ⟨s, hs, hthree⟩ := Option.map_eq_some_iff.mp hrun
  exact ⟨s, hs, hthree, (limit_holds oneASecond hs).1⟩

/-- By when they are answered, calls that stalled are too many: three of a limit of one
at one instant, of one lifetime. -/
theorem three_answers_at_once : ∃ s s',
    run (limiter oneASecond).step initial threeStalled = some s ∧
    run (limiter oneASecond).step s allAnswered = some s' ∧ (allowed s).length = 0 ∧
    s'.tables = s.tables ∧ s.tables.key.isSome = true ∧ (allowed s').length = 3 := by
  have hrun : ((run (limiter oneASecond).step initial threeStalled).bind (fun s =>
      (run (limiter oneASecond).step s allAnswered).map (fun s' => (s, s')))).map (fun p =>
        ((allowed p.1).length, decide (p.2.tables = p.1.tables), p.1.tables.key.isSome, (allowed p.2).length)) =
      some (0, true, true, 3) := by decide +kernel
  obtain ⟨⟨s, s'⟩, hruns, hfacts⟩ := Option.map_eq_some_iff.mp hrun
  obtain ⟨s₀, hs, hrest⟩ := Option.bind_eq_some_iff.mp hruns
  obtain ⟨s₁, hs', hpair⟩ := Option.map_eq_some_iff.mp hrest
  obtain ⟨rfl, rfl⟩ := Prod.mk.inj hpair
  rw [Prod.mk.injEq, Prod.mk.injEq, Prod.mk.injEq] at hfacts
  obtain ⟨hnone, hsame, hkey, hthree⟩ := hfacts
  exact ⟨s₀, s₁, hs, hs', hnone, of_decide_eq_true hsame, hkey, hthree⟩

end RentalMarket.RateLimiting
