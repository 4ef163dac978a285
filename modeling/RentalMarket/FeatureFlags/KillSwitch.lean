import RentalMarket.FeatureFlags.Flags

namespace RentalMarket.FeatureFlags

open Runs Interleaving

theorem enabledIn_readThrough (s : Service) (key : FeatureFlagKey) :
    enabledIn (readThrough s) key = enabledIn s.overrides.rows key := by
  have hdeclared : isFeatureFlagKey key.text = true := by cases key <;> decide
  have hfind : (readThrough s).find? (fun row => row.key = key.text) =
      s.overrides.rows.find? (fun row => row.key = key.text) := by
    rw [readThrough, List.find?_filter]
    congr 1
    funext row
    by_cases h : row.key = key.text
    · simp [h, hdeclared]
    · simp [h]
  rw [enabledIn, enabledIn, hfind]

theorem enabled_snapshot (rows : List FeatureFlagOverrideRecord) (key : FeatureFlagKey) :
    Cache.enabled (snapshot rows) key = enabledIn rows key := by
  rw [Cache.enabled, enabledIn, snapshot, List.find?_map, Option.map_map]
  rfl

theorem text_injective {key key' : FeatureFlagKey} (h : key.text = key'.text) : key = key' := by
  cases key <;> cases key' <;> first | rfl | exact absurd h (by decide)

/-- A set says what its key is, and nothing of another. -/
theorem enabledIn_set (o : Overrides) (c : Change) (id : Id) (now : Int) (key : FeatureFlagKey) :
    enabledIn (o.set c id now).rows key = if c.key = key then c.enabled else enabledIn o.rows key := by
  have hrows : (o.set c id now).rows = Overrides.upserted o.rows c id now := rfl
  rw [enabledIn, hrows]
  unfold Overrides.upserted
  split
  · rename_i hany
    have hchanged : (o.rows.map (fun row => if row.key = c.key.text then Overrides.updated c now row else row)).find?
          (fun row => row.key = key.text) =
        (o.rows.find? (fun row => row.key = key.text)).map
          (fun row => if row.key = c.key.text then Overrides.updated c now row else row) :=
      @Keyed.find?_changed _ _ _ FeatureFlagOverrideRecord.key _ _ (Overrides.updated c now) (fun _ => rfl) _
    rw [hchanged, Option.map_map]
    by_cases hkey : c.key = key
    · obtain ⟨row, hrow, hrowkey⟩ := List.any_eq_true.mp hany
      have hfind : o.rows.find? (fun row => row.key = key.text) = some row := by
        have hfind := Keyed.find?_key o.keys hrow
        rwa [of_decide_eq_true hrowkey, hkey] at hfind
      rw [hfind, if_pos hkey, Option.map_some, Option.getD_some, Function.comp_apply,
        if_pos (of_decide_eq_true hrowkey), Overrides.updated]
    · rw [if_neg hkey, enabledIn]
      congr 1
      apply Option.map_congr
      intro row hrow
      have hrowkey : row.key = key.text := by simpa using List.find?_some hrow
      rw [Function.comp_apply, if_neg]
      intro h
      exact hkey (text_injective (h.symm.trans hrowkey))
  · rename_i hnone
    rw [List.find?_append]
    by_cases hkey : c.key = key
    · have hfind : o.rows.find? (fun row => row.key = key.text) = none := by
        apply List.find?_eq_none.mpr
        intro row hrow hrowkey
        exact hnone (List.any_eq_true.mpr ⟨row, hrow, by rw [hkey]; exact hrowkey⟩)
      rw [hfind, if_pos hkey, hkey, Option.none_or, List.find?_singleton, if_pos (decide_eq_true rfl)]
      rfl
    · have hne : ¬c.key.text = key.text := fun h => hkey (text_injective h)
      rw [if_neg hkey, List.find?_singleton, if_neg (by simpa using hne), Option.or_none, enabledIn]

section

variable {s s' : Service} {d : Draw} {c c' : Call}

theorem next_overrides (h : next s d c = some (s', c')) : s'.overrides = s.overrides ∨
    ∃ change before row, c = .writing change before ∧ d.fails = false ∧
      s'.overrides = s.overrides.set change d.id d.now ∧ c' = .clearing change before row := by
  cases c with
  | writing change before =>
    rw [next] at h
    split at h
    · cases h
      exact .inl rfl
    · rename_i hworks
      cases h
      exact .inr ⟨change, before, _, rfl, by simpa using hworks, rfl, rfl⟩
  | auditing change before after row =>
    rw [next] at h
    split at h <;> cases h <;> exact .inl rfl
  | returned answer => cases h
  | _ =>
    cases h
    exact .inl rfl

theorem next_cache (h : next s d c = some (s', c')) :
    (∃ change before row, c = .clearing change before row) ∧ s'.cache = none ∨
      (∃ key rows, c = .filling key rows ∧ s'.cache = some ⟨d.now, snapshot rows⟩) ∨ s'.cache = s.cache := by
  cases c with
  | writing change before =>
    rw [next] at h
    split at h <;> cases h <;> exact .inr (.inr rfl)
  | auditing change before after row =>
    rw [next] at h
    split at h <;> cases h <;> exact .inr (.inr rfl)
  | clearing change before row =>
    cases h
    exact .inl ⟨⟨change, before, row, rfl⟩, rfl⟩
  | filling key rows =>
    cases h
    exact .inr (.inl ⟨key, rows, rfl, rfl⟩)
  | returned answer => cases h
  | _ =>
    cases h
    exact .inr (.inr rfl)

theorem next_filling {key : FeatureFlagKey} {rows : List FeatureFlagOverrideRecord}
    (h : next s d c = some (s', .filling key rows)) : s' = s ∧ rows = readThrough s := by
  cases c with
  | checking asked =>
    simp only [next] at h
    split at h <;> cases h
  | reading asked =>
    simp only [next] at h
    split at h
    · cases h
    · cases h
      exact ⟨rfl, rfl⟩
  | returned answer => cases h
  | _ =>
    simp only [next] at h
    first
    | cases h
    | split at h <;> cases h

theorem next_enabled {key : FeatureFlagKey} {value : Bool}
    (h : next s d c = some (s', .returned (.enabled key value))) :
    (∃ cached, s.cache = some cached ∧ value = Cache.enabled cached.overrides key) ∨
      ∃ rows, c = .filling key rows ∧ value = enabledIn rows key := by
  cases c with
  | checking asked =>
    simp only [next] at h
    split at h
    · rename_i overrides hfresh
      cases h
      obtain ⟨cached, hcached, hfresh⟩ := Option.bind_eq_some_iff.mp hfresh
      split at hfresh
      · cases hfresh
        exact .inl ⟨cached, hcached, rfl⟩
      · cases hfresh
    · cases h
  | filling asked rows =>
    cases h
    exact .inr ⟨rows, rfl, enabled_snapshot rows key⟩
  | returned answer => cases h
  | _ =>
    simp only [next] at h
    first
    | cases h
    | split at h <;> cases h

end

def writesKey (key : FeatureFlagKey) (s : State) : Action → Bool
  | .exec i d =>
    match s.calls[i]? with
    | some (.writing change _) => decide (change.key = key) && !d.fails
    | _ => false
  | .arrive _ => false

/-- In the run a set of the flag has written and returned, and nothing has written
the flag since. -/
structure Switch (s₀ : State) (as : List Action) (key : FeatureFlagKey) (value : Bool) where
  before : List Action
  mid : List Action
  rest : List Action
  call : Nat
  draw : Draw
  change : Change
  flag : AdminFeatureFlag
  thrown : State
  returned : State
  answer : Answer
  cut : as = before ++ .exec call draw :: (mid ++ rest)
  reached : run machine.step s₀ before = some thrown
  writing : thrown.calls[call]? = some (.writing change flag)
  works : draw.fails = false
  sets : change.key = key ∧ change.enabled = value
  ran : run machine.step s₀ (before ++ .exec call draw :: mid) = some returned
  done : returned.calls[call]? = some (.returned answer)
  last : ∀ t, machine.step thrown (.exec call draw) = some t →
    Meets machine.step (fun s a => writesKey key s a = false) t (mid ++ rest)

/-- No call remembers what it read before a set that has already made the service
forget, unless what it read is so. -/
def Timely (s₀ : State) (as : List Action) : Prop :=
  ∀ (pre : List Action) (i : Nat) (d : Draw) (post : List Action) (u : State) (asked : FeatureFlagKey)
    (rows : List FeatureFlagOverrideRecord),
    as = pre ++ .exec i d :: post → run machine.step s₀ pre = some u → u.calls[i]? = some (.filling asked rows) →
      ∀ (p : List Action) (a : Nat) (e : Draw) (q : List Action) (u₁ : State) (change : Change)
        (flag : AdminFeatureFlag),
        pre = p ++ .exec a e :: q → run machine.step s₀ p = some u₁ →
          u₁.calls[a]? = some (.writing change flag) → e.fails = false →
            u₁.calls[i]? = some (.filling asked rows) →
              enabledIn rows change.key = enabledIn u.tables.overrides.rows change.key ∨
                ∃ flag row, u.calls[a]? = some (.clearing change flag row)

/-- How things are after the write of a set: what is stored, what calls have read,
and what is served once the set has cleared. -/
structure Obeyed (thrown : State) (call : Nat) (key : FeatureFlagKey) (value : Bool) (s : State) : Prop where
  stored : enabledIn s.tables.overrides.rows key = value
  read : ∀ (i : Nat) (asked : FeatureFlagKey) (rows : List FeatureFlagOverrideRecord), s.calls[i]? = some (.filling asked rows) →
    enabledIn rows key = value ∨ thrown.calls[i]? = some (.filling asked rows)
  served : (∃ change flag row, s.calls[call]? = some (.clearing change flag row)) ∨
    ∀ cached, s.tables.cache = some cached → Cache.enabled cached.overrides key = value

def fillsInTime (thrown : State) (call : Nat) (key : FeatureFlagKey) (s : State) (a : Action) : Prop :=
  ∀ (i : Nat) (d : Draw) (asked : FeatureFlagKey) (rows : List FeatureFlagOverrideRecord),
    a = .exec i d → s.calls[i]? = some (.filling asked rows) → thrown.calls[i]? = some (.filling asked rows) →
      enabledIn rows key = enabledIn s.tables.overrides.rows key ∨
        ∃ change flag row, s.calls[call]? = some (.clearing change flag row)

section

variable {s₀ s s' thrown : State} {as : List Action} {a : Action} {call : Nat} {key : FeatureFlagKey}
  {value : Bool}

theorem writesKey_eq_false {i : Nat} {d : Draw} {change : Change} {flag : AdminFeatureFlag}
    (h : writesKey key s (.exec i d) = false) (hc : s.calls[i]? = some (.writing change flag))
    (hworks : d.fails = false) : change.key ≠ key := by
  simp only [writesKey, hc, hworks, Bool.not_false, Bool.and_true, decide_eq_false_iff_not] at h
  exact h

theorem Obeyed.after_step (hs : Obeyed thrown call key value s) (hlast : writesKey key s a = false)
    (hfills : fillsInTime thrown call key s a) (h : machine.step s a = some s') :
    Obeyed thrown call key value s' := by
  have hstored : enabledIn s'.tables.overrides.rows key = value := by
    obtain hsame | ⟨i, d, c, c', rfl, hc, hnext⟩ := step_tables h
    · rw [hsame]
      exact hs.stored
    · obtain hsame | ⟨change, before, row, rfl, hworks, hset, -⟩ := next_overrides hnext
      · rw [hsame]
        exact hs.stored
      · rw [hset, enabledIn_set, if_neg (writesKey_eq_false hlast hc hworks)]
        exact hs.stored
  refine ⟨hstored, ?_, ?_⟩
  · intro j asked rows hj
    obtain ⟨hold, -⟩ | ⟨r, -, hstart⟩ | ⟨d, c, -, -, hnext⟩ := step_call h hj
    · exact hs.read j asked rows hold
    · cases r with
      | set actorId text enabled reason =>
        simp only [machine, start] at hstart
        split at hstart <;> cases hstart
      | _ => cases hstart
    · obtain ⟨hsame, rfl⟩ := next_filling hnext
      rw [enabledIn_readThrough, ← hsame]
      exact .inl hstored
  · have hclearing : (∃ change flag row, s.calls[call]? = some (.clearing change flag row)) →
        (∃ change flag row, s'.calls[call]? = some (.clearing change flag row)) ∨ s'.tables.cache = none := by
      rintro ⟨change, flag, row, hcall⟩
      by_cases hown : ∃ d, a = .exec call d
      · obtain ⟨d, rfl⟩ := hown
        obtain ⟨c', hnext, -⟩ := step_ran hcall h
        obtain ⟨htables, -⟩ := Prod.mk.inj (Option.some.inj hnext)
        exact .inr (by rw [← htables])
      · exact .inl ⟨change, flag, row, step_stays h hcall (fun d hd => hown ⟨d, hd⟩)⟩
    have hnone : s'.tables.cache = none →
        ∀ cached, s'.tables.cache = some cached → Cache.enabled cached.overrides key = value := by
      intro hcache cached hcached
      rw [hcache] at hcached
      cases hcached
    obtain hold | hserved := hs.served
    · obtain hstill | hcache := hclearing hold
      · exact .inl hstill
      · exact .inr (hnone hcache)
    obtain hsame | ⟨i, d, c, c', rfl, hc, hnext⟩ := step_tables h
    · rw [hsame]
      exact .inr hserved
    obtain ⟨-, hcache⟩ | ⟨asked, rows, rfl, hcache⟩ | hcache := next_cache hnext
    · exact .inr (hnone hcache)
    · have hrows : enabledIn rows key = value ∨
          ∃ change flag row, s.calls[call]? = some (.clearing change flag row) := by
        obtain hvalue | hold := hs.read i asked rows hc
        · exact .inl hvalue
        · rw [← hs.stored]
          exact hfills i d asked rows rfl hc hold
      obtain hvalue | hold := hrows
      · refine .inr ?_
        intro cached hcached
        rw [hcache] at hcached
        cases hcached
        rw [enabled_snapshot, hvalue]
      · obtain hstill | hcache := hclearing hold
        · exact .inl hstill
        · exact .inr (hnone hcache)
    · rw [hcache]
      exact .inr hserved

theorem Obeyed.start {d : Draw} {change : Change} {flag : AdminFeatureFlag}
    (hwriting : thrown.calls[call]? = some (.writing change flag)) (hworks : d.fails = false)
    (hkey : change.key = key) (hvalue : change.enabled = value)
    (h : machine.step thrown (.exec call d) = some s) : Obeyed thrown call key value s := by
  obtain ⟨c', hnext, hcall⟩ := step_ran hwriting h
  simp only [machine, next, hworks, Bool.false_eq_true, if_false] at hnext
  obtain ⟨htables, rfl⟩ := Prod.mk.inj (Option.some.inj hnext)
  refine ⟨?_, ?_, .inl ⟨_, _, _, hcall⟩⟩
  · rw [← htables, enabledIn_set, if_pos hkey, hvalue]
  · intro i asked rows hi
    by_cases hown : i = call
    · rw [hown, hcall] at hi
      cases hi
    · obtain ⟨hold, -⟩ | ⟨r, ⟨⟩, -⟩ | ⟨e, c, he, -⟩ := step_call h hi
      · exact .inr hold
      · cases he
        exact absurd rfl hown

theorem Switch.fillsInTime (sw : Switch s₀ as key value) (h : Timely s₀ as)
    (hstep : machine.step sw.thrown (.exec sw.call sw.draw) = some s) :
    Meets machine.step (FeatureFlags.fillsInTime sw.thrown sw.call key) s (sw.mid ++ sw.rest) := by
  apply meets_iff.mpr
  rintro pre a post u hcut hpre i d asked rows rfl hi hold
  have hreached : run machine.step s₀ (sw.before ++ .exec sw.call sw.draw :: pre) = some u :=
    run_append_eq_some.mpr ⟨sw.thrown, sw.reached, run_cons_eq_some.mpr ⟨s, hstep, hpre⟩⟩
  have hwhole : as = (sw.before ++ .exec sw.call sw.draw :: pre) ++ .exec i d :: post := by
    apply sw.cut.trans
    rw [hcut, List.append_assoc, List.cons_append]
  obtain hvalue | ⟨flag, row, hclearing⟩ := h _ i d post u asked rows hwhole hreached hi sw.before sw.call
    sw.draw pre sw.thrown sw.change sw.flag rfl sw.reached sw.writing sw.works hold
  · rw [sw.sets.1] at hvalue
    exact .inl hvalue
  · exact .inr ⟨sw.change, flag, row, hclearing⟩

/-- What is served once the set has returned, and what has been answered since. -/
structure Answered (thrown : State) (call : Nat) (key : FeatureFlagKey) (value : Bool) (n : Nat)
    (s : State) : Prop where
  obeyed : Obeyed thrown call key value s
  done : ∃ answer, s.calls[call]? = some (.returned answer)
  answers : ∀ (e : Nat) (b : Bool), n ≤ e → s.calls[e]? = some (.returned (.enabled key b)) → b = value

theorem Answered.after_step {n : Nat} (hs : Answered thrown call key value n s) (hn : thrown.calls.length ≤ n)
    (hlast : writesKey key s a = false) (hfills : fillsInTime thrown call key s a)
    (h : machine.step s a = some s') : Answered thrown call key value n s' := by
  obtain ⟨answer, hdone⟩ := hs.done
  have hother : ∀ d, a ≠ .exec call d := by
    rintro d rfl
    obtain ⟨c', hnext, -⟩ := step_ran hdone h
    cases hnext
  refine ⟨hs.obeyed.after_step hlast hfills h, ⟨answer, step_stays h hdone hother⟩, ?_⟩
  intro e b he hb
  obtain ⟨hold, -⟩ | ⟨r, -, hstart⟩ | ⟨d, c, -, hc, hnext⟩ := step_call h hb
  · exact hs.answers e b he hold
  · cases r with
    | set actorId text enabled reason =>
      simp only [machine, start] at hstart
      split at hstart <;> cases hstart
    | _ => cases hstart
  · obtain ⟨cached, hcached, rfl⟩ | ⟨rows, rfl, rfl⟩ := next_enabled hnext
    · obtain ⟨change, flag, row, hclearing⟩ | hserved := hs.obeyed.served
      · rw [hdone] at hclearing
        cases hclearing
      · exact hserved cached hcached
    · obtain hvalue | hold := hs.obeyed.read e key rows hc
      · exact hvalue
      · have hlt := (List.getElem?_eq_some_iff.mp hold).1
        omega

/-- Where no stale read is remembered, whoever asks after a set has returned is told
what the set said, whatever else runs in between. -/
theorem a_thrown_switch_is_obeyed (sw : Switch s₀ as key value) (htimely : Timely s₀ as)
    (hr : run machine.step s₀ as = some s) {e : Nat} (hlate : sw.returned.calls.length ≤ e) {b : Bool}
    (h : s.calls[e]? = some (.returned (.enabled key b))) : b = value := by
  obtain ⟨t, hstep, hmid⟩ := run_rest sw.ran sw.reached
  have hfills := sw.fillsInTime htimely hstep
  have hlast := sw.last t hstep
  have hobeyed : Obeyed sw.thrown sw.call key value sw.returned := by
    refine run_preserves_of_meets ?_ hmid (meets_and (meets_left hlast) (meets_left hfills))
      (Obeyed.start sw.writing sw.works sw.sets.1 sw.sets.2 hstep)
    intro s a s' hs hmeets h
    exact hs.after_step hmeets.1 hmeets.2 h
  have hrest : run machine.step sw.returned sw.rest = some s := by
    rw [sw.cut, ← List.cons_append, ← List.append_assoc] at hr
    obtain ⟨u, hu, hrest⟩ := run_append_eq_some.mp hr
    rw [sw.ran] at hu
    cases hu
    exact hrest
  have hcalls : sw.thrown.calls.length ≤ sw.returned.calls.length :=
    (length_calls_le (run_cons_eq_some.mpr ⟨t, hstep, hmid⟩))
  have hstart : Answered sw.thrown sw.call key value sw.returned.calls.length sw.returned := by
    refine ⟨hobeyed, ⟨sw.answer, sw.done⟩, ?_⟩
    intro e b he hb
    have hlt := (List.getElem?_eq_some_iff.mp hb).1
    omega
  have hanswered : Answered sw.thrown sw.call key value sw.returned.calls.length s := by
    refine run_preserves_of_meets ?_ hrest (meets_and (meets_right hlast hmid) (meets_right hfills hmid)) hstart
    intro s a s' hs hmeets h
    exact hs.after_step hcalls hmeets.1 hmeets.2 h
  exact hanswered.answers e b hlate h

end

def untouched : State := ⟨⟨none, ⟨[], List.nodup_nil⟩, []⟩, []⟩

def runs (i : Nat) (now : Int) : Action := .exec i ⟨now, "f1", false⟩

def switchOff : Request := .set "ada" "listing.publication" false "spam"

/-- What a fill would remember is what the table says. -/
def fillsTruth (s : State) : Action → Bool
  | .exec i _ =>
    match s.calls[i]? with
    | some (.filling _ rows) =>
      featureFlagKeys.all (fun key => enabledIn rows key == enabledIn s.tables.overrides.rows key)
    | _ => true
  | .arrive _ => true

theorem timely_of_meets {s₀ : State} {as : List Action}
    (h : Meets machine.step (fun s a => fillsTruth s a = true) s₀ as) : Timely s₀ as := by
  intro pre i d post u asked rows hcut hpre hi p a e q u₁ change flag _ _ _ _ _
  have htruth := meets_iff.mp h pre (.exec i d) post u hcut hpre
  have hkey : change.key ∈ featureFlagKeys := by cases change.key <;> decide
  simp only [fillsTruth, hi] at htruth
  exact .inl (eq_of_beq (List.all_eq_true.mp htruth change.key hkey))

def switchedOff (i : Nat) (now : Int) : List Action :=
  [runs i now, runs i now, runs i (now + 1), runs i (now + 2), runs i (now + 3)]

def inTurn : List Action :=
  [.arrive (.isEnabled .listingPublication), runs 0 1000, runs 0 1001, runs 0 1002, .arrive switchOff] ++
    switchedOff 1 1003 ++ [.arrive (.isEnabled .listingPublication), runs 2 1010, runs 2 1011, runs 2 1012]

def overtaken : List Action :=
  [.arrive (.isEnabled .listingPublication), runs 0 1000, runs 0 1001, .arrive switchOff] ++
    switchedOff 1 1002 ++ [runs 0 1009, .arrive (.isEnabled .listingPublication), runs 2 1010]

def reachedBy (as : List Action) : State := (run machine.step untouched as).getD untouched

theorem run_reachedBy {as : List Action} (h : (run machine.step untouched as).isSome = true) :
    run machine.step untouched as = some (reachedBy as) := by
  obtain ⟨s, hs⟩ := Option.isSome_iff_exists.mp h
  rw [reachedBy, hs, Option.getD_some]

/-- The state after one more action is the one that the longer run reaches. -/
theorem reachedBy_snoc {as : List Action} {a : Action} {t : State}
    (h : (run machine.step untouched as).isSome = true) (hx : machine.step (reachedBy as) a = some t) :
    t = reachedBy (as ++ [a]) := by
  have hr : run machine.step untouched (as ++ [a]) = some t :=
    run_append_eq_some.mpr ⟨reachedBy as, run_reachedBy h, by rw [run_cons, hx]; rfl⟩
  rw [reachedBy, hr, Option.getD_some]

def setInTurn : Switch untouched inTurn .listingPublication false where
  before := inTurn.take 6
  mid := [runs 1 1004, runs 1 1005, runs 1 1006]
  rest := inTurn.drop 10
  call := 1
  draw := ⟨1003, "f1", false⟩
  change := ⟨"ada", .listingPublication, false, "spam"⟩
  flag := adminFeatureFlag [] .listingPublication
  thrown := reachedBy (inTurn.take 6)
  returned := reachedBy (inTurn.take 10)
  answer := .changed (some (adminFeatureFlag [⟨"f1", "listing.publication", false, "ada", 1003⟩]
    .listingPublication))
  cut := rfl
  reached := run_reachedBy (by decide +kernel)
  writing := by decide +kernel
  works := rfl
  sets := ⟨rfl, rfl⟩
  ran := run_reachedBy (by decide +kernel)
  done := by decide +kernel
  last t h := by
    rw [reachedBy_snoc (by decide +kernel) h]
    decide +kernel

def setOvertaken : Switch untouched overtaken .listingPublication false where
  before := overtaken.take 5
  mid := [runs 1 1003, runs 1 1004, runs 1 1005]
  rest := overtaken.drop 9
  call := 1
  draw := ⟨1002, "f1", false⟩
  change := ⟨"ada", .listingPublication, false, "spam"⟩
  flag := adminFeatureFlag [] .listingPublication
  thrown := reachedBy (overtaken.take 5)
  returned := reachedBy (overtaken.take 9)
  answer := .changed (some (adminFeatureFlag [⟨"f1", "listing.publication", false, "ada", 1002⟩]
    .listingPublication))
  cut := rfl
  reached := run_reachedBy (by decide +kernel)
  writing := by decide +kernel
  works := rfl
  sets := ⟨rfl, rfl⟩
  ran := run_reachedBy (by decide +kernel)
  done := by decide +kernel
  last t h := by
    rw [reachedBy_snoc (by decide +kernel) h]
    decide +kernel

theorem the_second_owner_is_refused : ∃ s, run machine.step untouched inTurn = some s ∧
    s.calls[2]?.isSome ∧
    ∀ b, s.calls[2]? = some (.returned (.enabled .listingPublication b)) → b = false := by
  have hr : run machine.step untouched inTurn = some (reachedBy inTurn) := run_reachedBy (by decide +kernel)
  have htimely : Timely untouched inTurn := timely_of_meets (by decide +kernel)
  refine ⟨reachedBy inTurn, hr, by decide +kernel, ?_⟩
  intro b h
  exact a_thrown_switch_is_obeyed setInTurn htimely hr (by decide +kernel) h

/-- What was read before the switch is remembered after it, and served. -/
theorem a_read_in_flight_undoes_the_switch :
    ∃ (sw : Switch untouched overtaken .listingPublication false) (s : State),
      run machine.step untouched overtaken = some s ∧ sw.returned.calls.length ≤ 2 ∧
        s.calls[2]? = some (.returned (.enabled .listingPublication true)) := by
  refine ⟨setOvertaken, reachedBy overtaken, ?_, ?_, ?_⟩
  · exact run_reachedBy (by decide +kernel)
  · decide +kernel
  · decide +kernel

end RentalMarket.FeatureFlags
