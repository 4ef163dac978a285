import RentalMarket.Release.Deploy

namespace RentalMarket.Release

open Runs

/-- An environment's record, and the releases that a rollback has brought up and found
unhealthy and that no deploy has brought up since. -/
structure Watched where
  file : StateFile
  shunned : List Tag

def fresh : Watched := ⟨.blank, []⟩

def shunnedAfter (shunned : List Tag) (outcome : Outcome) (plan : ReleasePlan) : List Tag :=
  if outcome.migrated then
    match plan.action, outcome.ready with
    | .rollback, false => plan.target :: shunned
    | .deploy, true => shunned.filter (fun tag => tag ≠ plan.target)
    | _, _ => shunned
  else shunned

def watch (w : Watched) (a : Attempt) : Option Watched :=
  some ⟨(deploy w.file a).file,
    match planFor w.file a.mode with
    | .error _ => w.shunned
    | .ok plan => shunnedAfter w.shunned a.outcome plan⟩

/-- A failed rollback is not left in place by `--no-rollback`, and no deploy succeeds
over a release that a rollback has found unhealthy. -/
def CarefulOver (s : ReleaseState) (shunned : List Tag) : Attempt → Prop
  | ⟨.rollback, revertOnFailure, outcome⟩ =>
    outcome.migrated = true → outcome.ready = false → revertOnFailure = false → s.history[1]? = none
  | ⟨.tag tag, _, outcome⟩ =>
    outcome.migrated = true → outcome.ready = true → isImmutableTag tag = true →
      ∀ current ∈ s.current, current ∈ shunned → current = tag

instance (s : ReleaseState) (shunned : List Tag) : ∀ a, Decidable (CarefulOver s shunned a)
  | ⟨.rollback, _, _⟩ => inferInstanceAs (Decidable (_ → _))
  | ⟨.tag _, _, _⟩ => inferInstanceAs (Decidable (_ → _))

def Careful (w : Watched) (a : Attempt) : Prop :=
  ∀ s, parseState w.file = .ok s → CarefulOver s w.shunned a

instance (w : Watched) (a : Attempt) : Decidable (Careful w a) :=
  match h : parseState w.file with
  | .error _ => isTrue (fun _ hs => nomatch h.symm.trans hs)
  | .ok s => decidable_of_iff (CarefulOver s w.shunned a)
      ⟨fun hc _ hs => Except.ok.inj (h.symm.trans hs) ▸ hc, fun hc => hc s h⟩

/-- A rollback goes to no release that was shunned. When the migrations apply, the
record goes one release back, and only the oldest release refuses to. -/
def WalksBack (w : Watched) (a : Attempt) : Prop :=
  a.mode = .rollback → ∀ s, parseState w.file = .ok s →
    match planFor w.file a.mode with
    | .ok plan => plan.target ∉ w.shunned ∧ s.history[1]? = some plan.target ∧
        (a.outcome.migrated = true →
          parseState (deploy w.file a).file = .ok ⟨some plan.target, s.history.drop 1⟩)
    | .error _ => s.history.drop 1 = []

/-- What the record says, with none of the releases a rollback can still reach shunned. -/
structure Watched.Sound (w : Watched) (s : ReleaseState) : Prop where
  recorded : parseState w.file = .ok s
  kept : s.Kept
  unshunned : ∀ tag ∈ s.history.drop 1, tag ∉ w.shunned

theorem fresh_sound : fresh.Sound emptyState := ⟨rfl, emptyState_kept, nofun⟩

variable {w w' : Watched} {a : Attempt} {s : ReleaseState}

theorem ReleaseState.Kept.planRollback_error {error : ReleaseError} (h : s.Kept) (hplan : planRollback s = .error error) :
    s.history.drop 1 = [] := by
  obtain ⟨current, history⟩ := s
  have hcurrent : current = history.head? := h.current
  match history with
  | [] => rfl
  | [_] => rfl
  | _ :: _ :: _ =>
    rw [hcurrent] at hplan
    cases hplan

/-- What a run does to a record that says `s`. -/
inductive Ran (w : Watched) (a : Attempt) (s : ReleaseState) : Watched → Prop where
  | unmoved : Ran w a s w
  | leftInPlace (plan : ReleasePlan) (hmode : a.mode = .rollback) (hplan : planRollback s = .ok plan)
      (hmigrated : a.outcome.migrated = true) (hready : a.outcome.ready = false)
      (hrevert : a.revertOnFailure = false) : Ran w a s ⟨w.file, plan.target :: w.shunned⟩
  | walked (plan : ReleasePlan) (shunned : List Tag) (hplan : planRollback s = .ok plan)
      (hshunned : ∀ tag ∈ shunned, tag = plan.target ∨ tag ∈ w.shunned) :
      Ran w a s ⟨.json (ReleaseState.toJson ⟨some plan.target, s.history.drop 1⟩), shunned⟩
  | deployed (tag : Tag) (next : ReleaseState) (hmode : a.mode = .tag tag)
      (hmigrated : a.outcome.migrated = true) (hready : a.outcome.ready = true)
      (hnext : nextStateAfterDeploy s tag = .ok next) :
      Ran w a s ⟨.json next.toJson, w.shunned.filter (fun t => t ≠ tag)⟩

theorem ran_rollback (hs : parseState w.file = .ok s) (hmode : a.mode = .rollback)
    (h : watch w a = some w') : Ran w a s w' := by
  have hplanFor : planFor w.file a.mode = planRollback s := hmode ▸ planFor_rollback hs
  cases hplan : planRollback s with
  | error error =>
    simp only [watch, deploy_refused (hplanFor.trans hplan), hplanFor, hplan] at h
    cases h
    exact .unmoved
  | ok plan =>
    have haction : plan.action = .rollback := by
      obtain ⟨_, _, _, _, rfl⟩ := planRollback_eq_ok.mp hplan
      rfl
    simp only [watch, deploy_rollback hs hmode hplan, hplanFor, hplan, shunnedAfter, haction] at h
    cases hmigrated : a.outcome.migrated with
    | false =>
      simp only [hmigrated] at h
      cases h
      exact .unmoved
    | true =>
      cases hready : a.outcome.ready with
      | true =>
        simp only [hmigrated, hready] at h
        cases h
        exact .walked plan _ hplan (fun _ ht => .inr ht)
      | false =>
        cases hrevert : a.revertOnFailure with
        | false =>
          simp only [hmigrated, hready, hrevert] at h
          cases h
          exact .leftInPlace plan hmode hplan hmigrated hready hrevert
        | true =>
          simp only [hmigrated, hready, hrevert] at h
          cases h
          exact .walked plan _ hplan (fun _ ht => List.mem_cons.mp ht)

theorem ran_tag {tag : Tag} (hs : parseState w.file = .ok s) (hmode : a.mode = .tag tag)
    (h : watch w a = some w') : Ran w a s w' := by
  have hplanFor : planFor w.file a.mode = planDeploy s tag := hmode ▸ planFor_tag hs tag
  cases htag : assertDeployableTag tag with
  | error error =>
    have hplan : planDeploy s tag = .error error := by
      rw [planDeploy, htag]
      rfl
    simp only [watch, deploy_refused (hplanFor.trans hplan), hplanFor, hplan] at h
    cases h
    exact .unmoved
  | ok tag' =>
    obtain ⟨himmutable, rfl⟩ := assertDeployableTag_eq_ok.mp htag
    have hplan : planDeploy s tag' = .ok ⟨.deploy, tag', none, s.current, s.current = some tag'⟩ := by
      rw [planDeploy, htag]
      rfl
    obtain ⟨next, hnext⟩ : ∃ next, nextStateAfterDeploy s tag' = .ok next := by
      rw [nextStateAfterDeploy, htag]
      exact ⟨_, rfl⟩
    simp only [watch, deploy_tag hs hmode hnext, hplanFor, hplan, shunnedAfter] at h
    cases hmigrated : a.outcome.migrated with
    | false =>
      simp only [hmigrated] at h
      cases h
      exact .unmoved
    | true =>
      cases hready : a.outcome.ready with
      | false =>
        simp only [hmigrated, hready] at h
        cases h
        exact .unmoved
      | true =>
        simp only [hmigrated, hready] at h
        cases h
        exact .deployed tag' next hmode hmigrated hready hnext

theorem ran_of_watch (hs : parseState w.file = .ok s) (h : watch w a = some w') : Ran w a s w' := by
  cases hmode : a.mode with
  | rollback => exact ran_rollback hs hmode h
  | tag tag => exact ran_tag hs hmode h

theorem Ran.kept (h : Ran w a s w') (hs : parseState w.file = .ok s) (hkept : s.Kept) :
    ∃ s', parseState w'.file = .ok s' ∧ s'.Kept := by
  cases h with
  | unmoved => exact ⟨s, hs, hkept⟩
  | leftInPlace => exact ⟨s, hs, hkept⟩
  | walked plan shunned hplan =>
    have hnext := hkept.afterRollback (nextStateAfterRollback_eq hplan)
    exact ⟨_, hnext.recorded, hnext⟩
  | deployed tag next hmode hmigrated hready hnext =>
    exact ⟨next, (hkept.afterDeploy hnext).recorded, hkept.afterDeploy hnext⟩

theorem kept_after {file : StateFile} (a : Attempt) (hs : parseState file = .ok s) (hkept : s.Kept) :
    ∃ s', parseState (deploy file a).file = .ok s' ∧ s'.Kept := by
  have hran : Ran ⟨file, []⟩ a s _ := ran_of_watch hs rfl
  exact hran.kept hs hkept

theorem mem_drop_afterDeploy {tag t : Tag} {next : ReleaseState} (hnext : nextStateAfterDeploy s tag = .ok next)
    (hcurrent : s.current ≠ some tag) (ht : t ∈ next.history.drop 1) : t ∈ s.history ∧ t ≠ tag := by
  obtain ⟨tag', htag, rfl⟩ := Refusal.map_eq_ok.mp hnext
  obtain ⟨_, rfl⟩ := assertDeployableTag_eq_ok.mp htag
  rw [if_neg hcurrent, maxHistory, List.take_succ_cons, List.drop_one, List.tail_cons] at ht
  have hfiltered := List.mem_filter.mp (List.mem_of_mem_take ht)
  exact ⟨hfiltered.1, of_decide_eq_true hfiltered.2⟩

/-- A careful run leaves nothing shunned where a rollback can reach it. -/
theorem Watched.Sound.step (h : w.Sound s) (hcareful : Careful w a) (hw : watch w a = some w') :
    ∃ s', w'.Sound s' := by
  have hran := ran_of_watch h.recorded hw
  have hc := hcareful s h.recorded
  cases hran with
  | unmoved => exact ⟨s, h⟩
  | leftInPlace plan hmode hplan hmigrated hready hrevert =>
    obtain ⟨_, _, _, hprevious, rfl⟩ := planRollback_eq_ok.mp hplan
    obtain ⟨mode, revertOnFailure, outcome⟩ := a
    cases hmode
    cases hprevious.symm.trans (hc hmigrated hready hrevert)
  | walked plan shunned hplan hshunned =>
    have hnext := h.kept.afterRollback (nextStateAfterRollback_eq hplan)
    refine ⟨_, hnext.recorded, hnext, ?_⟩
    intro tag htag hmem
    obtain rfl | hmem := hshunned tag hmem
    · -- the target is now the first of the record, which lists nothing twice
      have hhead : some plan.target = (s.history.drop 1).head? := hnext.current
      have hcons := List.head?_eq_some_iff.mp hhead.symm
      obtain ⟨rest, hrest⟩ := hcons
      have hnodup := hnext.nodup
      simp only [hrest] at hnodup htag
      exact (List.nodup_cons.mp hnodup).1 htag
    · exact h.unshunned tag (List.mem_of_mem_drop htag) hmem
  | deployed tag next hmode hmigrated hready hnext =>
    have hkept := h.kept.afterDeploy hnext
    refine ⟨next, hkept.recorded, hkept, ?_⟩
    intro t ht hmem
    obtain ⟨hshunned, hne⟩ := List.mem_filter.mp hmem
    have hne : t ≠ tag := of_decide_eq_true hne
    obtain ⟨tag', htag, hnexteq⟩ := Refusal.map_eq_ok.mp hnext
    obtain ⟨himmutable, rfl⟩ := assertDeployableTag_eq_ok.mp htag
    obtain ⟨mode, revertOnFailure, outcome⟩ := a
    cases hmode
    by_cases hcurrent : s.current = some tag'
    · rw [if_pos hcurrent] at hnexteq
      subst hnexteq
      exact h.unshunned t ht hshunned
    · obtain ⟨hhistory, _⟩ := mem_drop_afterDeploy hnext hcurrent ht
      cases hlist : s.history with
      | nil =>
        rw [hlist] at hhistory
        cases hhistory
      | cons first rest =>
        rw [hlist] at hhistory
        obtain rfl | hrest := List.mem_cons.mp hhistory
        · -- the release that was current is reached by the next rollback
          have hfirst : s.current = some t := by rw [h.kept.current, hlist, List.head?_cons]
          exact hne (hc hmigrated hready himmutable t hfirst hshunned)
        · apply h.unshunned t _ hshunned
          rw [hlist]
          exact hrest

theorem Watched.Sound.walksBack (h : w.Sound s) (hcareful : Careful w a) : WalksBack w a := by
  intro hmode s' hs'
  cases h.recorded.symm.trans hs'
  have hc := hcareful s h.recorded
  have hplanFor : planFor w.file a.mode = planRollback s := hmode ▸ planFor_rollback h.recorded
  rw [hplanFor]
  cases hplan : planRollback s with
  | error error => exact h.kept.planRollback_error hplan
  | ok plan =>
    obtain ⟨_, _, _, hprevious, hplan'⟩ := planRollback_eq_ok.mp hplan
    have htarget : s.history[1]? = some plan.target := by rw [hprevious, hplan']
    refine ⟨?_, htarget, ?_⟩
    · apply h.unshunned
      apply List.mem_of_getElem? (i := 0)
      rw [List.getElem?_drop, htarget]
    · intro hmigrated
      have hnext := h.kept.afterRollback (nextStateAfterRollback_eq hplan)
      rw [deploy_rollback h.recorded hmode hplan, if_pos]
      · exact hnext.recorded
      · obtain ⟨mode, revertOnFailure, outcome⟩ := a
        cases hmode
        change outcome.migrated = true at hmigrated
        cases hready : outcome.ready with
        | true =>
          rw [hmigrated]
          rfl
        | false =>
          cases hrevert : revertOnFailure with
          | true =>
            rw [hmigrated]
            rfl
          | false => cases htarget.symm.trans (hc hmigrated hready hrevert)

theorem run_watch (w : Watched) (as : List Attempt) : ∃ w', run watch w as = some w' := by
  induction as generalizing w with
  | nil => exact ⟨w, rfl⟩
  | cons a as ih => exact ih _

/-- Whatever the runs and their outcomes, the record is kept. When the runs are careful,
every rollback walks backwards. -/
theorem rollbacks_walk_backwards (as : List Attempt) :
    (∃ w s, run watch fresh as = some w ∧ parseState w.file = .ok s ∧ s.Kept) ∧
      (Meets watch Careful fresh as → Meets watch WalksBack fresh as) := by
  constructor
  · obtain ⟨w, hrun⟩ := run_watch fresh as
    have hkept : ∃ s, parseState w.file = .ok s ∧ s.Kept := by
      apply run_preserves _ hrun ⟨emptyState, rfl, emptyState_kept⟩
      rintro w a w' ⟨s, hs, hkept⟩ hstep
      exact (ran_of_watch hs hstep).kept hs hkept
    obtain ⟨s, hs, hkept⟩ := hkept
    exact ⟨w, s, hrun, hs, hkept⟩
  · intro hcareful
    apply meets_iff.mpr
    intro pre a post w hcut hpre
    have hsound : ∃ s, w.Sound s := by
      apply run_preserves_of_meets _ hpre (meets_left (hcut ▸ hcareful)) ⟨emptyState, fresh_sound⟩
      rintro w a w' ⟨s, hs⟩ hc hstep
      exact hs.step hc hstep
    obtain ⟨s, hs⟩ := hsound
    exact hs.walksBack (meets_iff.mp hcareful pre a post w hcut hpre)

def commit (digit : Char) : Tag := String.ofList (List.replicate 40 digit)

def healthy : Outcome := ⟨true, true, true⟩

def unhealthy : Outcome := ⟨true, false, false⟩

def incident (revertOnFailure : Bool) : List Attempt :=
  [⟨.tag (commit 'a'), true, healthy⟩, ⟨.tag (commit 'b'), true, healthy⟩, ⟨.tag (commit 'c'), true, healthy⟩,
    ⟨.rollback, revertOnFailure, unhealthy⟩, ⟨.rollback, true, healthy⟩]

theorem the_incident_walks_backwards : Meets watch WalksBack fresh (incident true) :=
  (rollbacks_walk_backwards (incident true)).2 (by decide +kernel)

/-- With `--no-rollback` the second rollback redeploys the release that has just failed. -/
theorem the_failed_release_is_redeployed :
    ∃ w plan, run watch fresh ((incident false).take 4) = some w ∧
      planFor w.file .rollback = .ok plan ∧ plan.target = commit 'b' ∧ commit 'b' ∈ w.shunned := by
  refine ⟨((run watch fresh ((incident false).take 4)).getD fresh),
    ⟨.rollback, commit 'b', some (commit 'c'), none, false⟩, rfl, ?_, rfl, ?_⟩
  · decide +kernel
  · decide +kernel

end RentalMarket.Release
