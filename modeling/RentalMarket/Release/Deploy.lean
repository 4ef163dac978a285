import RentalMarket.Lib.Runs
import RentalMarket.Lib.Script
import RentalMarket.Release.Plan

namespace RentalMarket.Release

inductive Mode where
  | tag (tag : Tag)
  | rollback
  deriving DecidableEq, Repr

/-- What the box answers: whether the migrations apply, whether the target becomes
ready, and whether the release that is reverted to does. -/
structure Outcome where
  migrated : Bool
  ready : Bool
  recovered : Bool
  deriving DecidableEq, Repr

structure Attempt where
  mode : Mode
  revertOnFailure : Bool
  outcome : Outcome
  deriving DecidableEq, Repr

inductive Ending where
  | refused (error : ReleaseError)
  | migrationsFailed
  | serving (next : ReleaseState)
  | leftInPlace
  | stranded
  | stuck
  | reverted
  | revertFailed
  deriving DecidableEq, Repr

structure Applied where
  file : StateFile
  ending : Ending

/-- `writeState`, of a state that is still to be computed and may be refused. -/
def recording (file : StateFile) (next : Except ReleaseError ReleaseState) (ending : ReleaseState → Ending) :
    Applied :=
  match next with
  | .error error => ⟨file, .refused error⟩
  | .ok next => ⟨.json next.toJson, ending next⟩

def applyRelease (file : StateFile) (plan : ReleasePlan) (revertOnFailure : Bool) (outcome : Outcome) :
    Applied :=
  if !outcome.migrated then ⟨file, .migrationsFailed⟩
  else if outcome.ready then
    recording file ((parseState file).bind (fun state =>
      match plan.action with
      | .rollback => nextStateAfterRollback state
      | .deploy => nextStateAfterDeploy state plan.target)) .serving
  else if !revertOnFailure then ⟨file, .leftInPlace⟩
  else
    match planFailureResponse plan with
    | .stranded => recording file ((parseState file).bind nextStateAfterRollback) (fun _ => .stranded)
    | .stuck => ⟨file, .stuck⟩
    | .revert _ => ⟨file, if outcome.recovered then .reverted else .revertFailed⟩

def planFor (file : StateFile) (mode : Mode) : Except ReleaseError ReleasePlan :=
  (parseState file).bind (fun state =>
    match mode with
    | .rollback => planRollback state
    | .tag tag => planDeploy state tag)

/-- `main`, of a run that is no `--status`. -/
def deploy (file : StateFile) (a : Attempt) : Applied :=
  match planFor file a.mode with
  | .error error => ⟨file, .refused error⟩
  | .ok plan => applyRelease file plan a.revertOnFailure a.outcome

theorem tagsOf_string {tags : List Tag} (h : ∀ tag ∈ tags, isImmutableTag tag = true) :
    tagsOf (tags.map .string) = some tags := by
  induction tags with
  | nil => rfl
  | cons tag tags ih =>
    have htag := h tag List.mem_cons_self
    rw [List.map_cons, tagsOf, tagOf, if_pos htag, Option.bind_some,
      ih (fun t ht => h t (List.mem_cons_of_mem tag ht)), Option.map_some]

theorem parseState_toJson {state : ReleaseState} (hhistory : ∀ tag ∈ state.history, isImmutableTag tag = true)
    (hcurrent : ∀ tag, state.current = some tag → isImmutableTag tag = true) :
    parseState (.json state.toJson) = .ok state := by
  obtain ⟨current, history⟩ := state
  have hshape : readShape (ReleaseState.toJson ⟨current, history⟩) = some ⟨current, history⟩ := by
    have hmember : (ReleaseState.toJson ⟨current, history⟩).member "history" =
        some (.array (history.map .string)) := rfl
    rw [readShape, hmember]
    simp only [tagsOf_string hhistory, Option.bind_some]
    cases current with
    | none => rfl
    | some tag =>
      have hmember : (ReleaseState.toJson ⟨some tag, history⟩).member "current" = some (.string tag) := rfl
      rw [hmember]
      simp only [tagOf, hcurrent tag rfl, if_true, Option.map_some]
  rw [parseState, hshape]

theorem assertDeployableTag_eq_ok {tag t : Tag} :
    assertDeployableTag tag = .ok t ↔ isImmutableTag tag = true ∧ t = tag := by
  rw [assertDeployableTag]
  by_cases himmutable : isImmutableTag tag = true
  · rw [if_pos himmutable, Except.ok.injEq]
    exact ⟨fun h => ⟨himmutable, h.symm⟩, fun h => h.2.symm⟩
  · rw [if_neg himmutable]
    split <;> simp [himmutable]

theorem planRollback_eq_ok {s : ReleaseState} {plan : ReleasePlan} :
    planRollback s = .ok plan ↔ ∃ current previous, s.current = some current ∧
      s.history[1]? = some previous ∧ plan = ⟨.rollback, previous, some current, none, false⟩ := by
  rw [planRollback]
  constructor
  · intro h
    split at h
    · cases h
    · split at h
      · cases h
      · cases h
        exact ⟨_, _, ‹_›, ‹_›, rfl⟩
  · rintro ⟨current, previous, hcurrent, hprevious, rfl⟩
    simp only [hcurrent, hprevious]

/-- What every recorded state is: no release twice, ten at most, all of them commits,
and the current one first. -/
structure ReleaseState.Kept (state : ReleaseState) : Prop where
  nodup : state.history.Nodup
  bounded : state.history.length ≤ maxHistory
  shas : ∀ tag ∈ state.history, isImmutableTag tag = true
  current : state.current = state.history.head?

theorem emptyState_kept : emptyState.Kept := ⟨List.nodup_nil, Nat.zero_le _, nofun, rfl⟩

namespace ReleaseState.Kept

variable {s next : ReleaseState} {tag : Tag} {plan : ReleasePlan}

theorem recorded (h : s.Kept) : parseState (.json s.toJson) = .ok s := by
  apply parseState_toJson h.shas
  intro tag htag
  rw [h.current] at htag
  exact h.shas tag (List.mem_of_head? htag)

theorem afterDeploy (h : s.Kept) (hnext : nextStateAfterDeploy s tag = .ok next) : next.Kept := by
  obtain ⟨tag', htag, rfl⟩ := Refusal.map_eq_ok.mp hnext
  obtain ⟨himmutable, rfl⟩ := assertDeployableTag_eq_ok.mp htag
  split
  · rename_i hcurrent
    exact ⟨h.nodup, h.bounded, h.shas, hcurrent ▸ h.current⟩
  · refine ⟨?_, List.length_take_le _ _, ?_, rfl⟩
    · apply List.Nodup.sublist (List.take_sublist _ _)
      apply List.nodup_cons.mpr ⟨?_, h.nodup.filter _⟩
      simp
    · intro t ht
      obtain rfl | ht := List.mem_cons.mp (List.mem_of_mem_take ht)
      · exact himmutable
      · exact h.shas t (List.mem_of_mem_filter ht)

theorem afterRollback (h : s.Kept) (hnext : nextStateAfterRollback s = .ok next) : next.Kept := by
  obtain ⟨plan, hplan, rfl⟩ := Refusal.map_eq_ok.mp hnext
  obtain ⟨_, _, _, hprevious, rfl⟩ := planRollback_eq_ok.mp hplan
  refine ⟨h.nodup.sublist (List.drop_sublist 1 _), ?_, ?_, ?_⟩
  · rw [List.length_drop]
    exact Nat.le_trans (Nat.sub_le _ _) h.bounded
  · intro t ht
    exact h.shas t (List.mem_of_mem_drop ht)
  · rw [List.head?_drop, hprevious]

end ReleaseState.Kept

variable {file : StateFile} {a : Attempt} {s : ReleaseState}

theorem nextStateAfterRollback_eq {plan : ReleasePlan} (h : planRollback s = .ok plan) :
    nextStateAfterRollback s = .ok ⟨some plan.target, s.history.drop 1⟩ := by
  rw [nextStateAfterRollback, h]
  rfl

theorem applyRelease_ready {plan : ReleasePlan} {revertOnFailure : Bool} {outcome : Outcome}
    (hmigrated : outcome.migrated = true) (hready : outcome.ready = true) :
    applyRelease file plan revertOnFailure outcome = recording file ((parseState file).bind (fun state =>
      match plan.action with
      | .rollback => nextStateAfterRollback state
      | .deploy => nextStateAfterDeploy state plan.target)) .serving := by
  rw [applyRelease, hmigrated, hready]
  rfl

theorem recording_ne_serving {ending : ReleaseState → Ending} (h : ∀ s t, ending s ≠ .serving t)
    (next : Except ReleaseError ReleaseState) (t : ReleaseState) :
    (recording file next ending).ending ≠ .serving t := by
  cases next with
  | error error => exact nofun
  | ok s => exact h s t

theorem ready_of_serving {plan : ReleasePlan} {revertOnFailure : Bool} {outcome : Outcome} {next : ReleaseState}
    (h : (applyRelease file plan revertOnFailure outcome).ending = .serving next) :
    outcome.migrated = true ∧ outcome.ready = true := by
  cases hmigrated : outcome.migrated with
  | false =>
    rw [applyRelease, hmigrated] at h
    cases h
  | true =>
    refine ⟨rfl, ?_⟩
    cases hready : outcome.ready with
    | true => rfl
    | false =>
      rw [applyRelease, hmigrated, hready] at h
      cases revertOnFailure with
      | false => cases h
      | true =>
        cases hresponse : planFailureResponse plan with
        | stranded =>
          simp only [hresponse] at h
          exact absurd h (recording_ne_serving (fun _ _ h => by cases h) _ next)
        | stuck =>
          simp only [hresponse] at h
          cases h
        | revert target =>
          simp only [hresponse] at h
          cases hrecovered : outcome.recovered <;> rw [hrecovered] at h <;> cases h

theorem planFor_rollback (hs : parseState file = .ok s) : planFor file .rollback = planRollback s := by
  rw [planFor, hs]
  rfl

theorem planFor_tag (hs : parseState file = .ok s) (tag : Tag) : planFor file (.tag tag) = planDeploy s tag := by
  rw [planFor, hs]
  rfl

theorem deploy_refused {error : ReleaseError} (h : planFor file a.mode = .error error) :
    (deploy file a).file = file := by
  rw [deploy, h]

/-- A rollback moves the record when the release comes up, and also when it does not
and nothing forbids to go further back. -/
theorem deploy_rollback {plan : ReleasePlan} (hs : parseState file = .ok s) (hmode : a.mode = .rollback)
    (hplan : planRollback s = .ok plan) :
    (deploy file a).file =
      if a.outcome.migrated && (a.outcome.ready || a.revertOnFailure) then
        .json (ReleaseState.toJson ⟨some plan.target, s.history.drop 1⟩)
      else file := by
  have hnext := nextStateAfterRollback_eq hplan
  have haction : plan.action = .rollback := by
    obtain ⟨_, _, _, _, rfl⟩ := planRollback_eq_ok.mp hplan
    rfl
  rw [deploy, hmode, planFor_rollback hs, hplan]
  simp only [applyRelease, planFailureResponse, haction, hs, Except.bind, hnext, recording]
  cases a.outcome.migrated <;> cases a.outcome.ready <;> cases a.revertOnFailure <;> rfl

theorem deploy_tag {tag : Tag} {next : ReleaseState} (hs : parseState file = .ok s) (hmode : a.mode = .tag tag)
    (hnext : nextStateAfterDeploy s tag = .ok next) :
    (deploy file a).file = if a.outcome.migrated && a.outcome.ready then .json next.toJson else file := by
  obtain ⟨tag', htag, _⟩ := Refusal.map_eq_ok.mp hnext
  obtain ⟨_, rfl⟩ := assertDeployableTag_eq_ok.mp htag
  rw [deploy, hmode, planFor_tag hs, planDeploy, htag]
  simp only [Except.map, applyRelease, planFailureResponse, hs, Except.bind, hnext, recording]
  cases a.outcome.migrated <;> cases a.outcome.ready <;> cases a.revertOnFailure <;>
    cases s.current <;> rfl

end RentalMarket.Release
