import RentalMarket.Release.Rollback

namespace RentalMarket.Release

open Runs

inductive Environment where
  | staging
  | production
  deriving DecidableEq, Repr

/-- The one box, with a state file for each environment. -/
abbrev Box := Environment → StateFile

def undeployed : Box := fun _ => .blank

/-- `image.slice(image.lastIndexOf(':') + 1)` -/
def imageTag (image : String) : Tag :=
  String.ofList (image.toList.reverse.takeWhile (fun c => c ≠ ':')).reverse

def isTagged (image : String) : Bool := decide (imageTag image ≠ "" ∧ imageTag image ≠ image)

def releaseImagesToRemove (present : List String) (state : ReleaseState) : List String :=
  present.filter (fun image =>
    isTagged image && !decide (some (imageTag image) = state.current ∨ imageTag image ∈ state.history))

def presentImages (repository stdout : String) : List String :=
  ((stdout.toList.splitOn '\n').map (fun line => Script.trim (String.ofList line))).filter
    (fun line => (repository ++ "/").toList.isPrefixOf line.toList)

/-- What one run finds on the box beside the state files: which repository is configured,
and what `docker images` prints unless it fails. -/
structure Images where
  repository : Option String
  listed : Option String
  deriving DecidableEq, Repr

def Images.present : Images → List String
  | ⟨some repository, some stdout⟩ => if repository = "" then [] else presentImages repository stdout
  | _ => []

/-- The images handed to `docker rmi`. When there are none it is not called. -/
def pruneReleaseImages (images : Images) (state : ReleaseState) : List String :=
  match images.repository, images.listed with
  | some repository, some stdout =>
    if repository = "" then [] else releaseImagesToRemove (presentImages repository stdout) state
  | _, _ => []

structure Visit where
  environment : Environment
  attempt : Attempt
  images : Images
  deriving DecidableEq, Repr

/-- What the run hands to `docker rmi`, which only a successful one does. -/
def pruned (box : Box) (v : Visit) : List String :=
  match (deploy (box v.environment) v.attempt).ending with
  | .serving next => pruneReleaseImages v.images next
  | _ => []

def visited (box : Box) (v : Visit) : Box :=
  Function.update box v.environment (deploy (box v.environment) v.attempt).file

def visit (box : Box) (v : Visit) : Option Box := some (visited box v)

/-- A rollback target, or what a rollback would leave. -/
def Names (file : StateFile) (tag : Tag) : Prop :=
  ∃ s, parseState file = .ok s ∧ (some tag = s.current ∨ tag ∈ s.history)

/-- The run goes through, given what it is asked and what the box answers. -/
def Succeeds (box : Box) (v : Visit) : Prop :=
  (∃ plan, planFor (box v.environment) v.attempt.mode = .ok plan) ∧
    v.attempt.outcome.migrated = true ∧ v.attempt.outcome.ready = true

/-- No image that an environment's record names goes, and every other one does. -/
def Prunes (box : Box) (v : Visit) : Prop :=
  (∀ image ∈ pruned box v, ∀ e, ¬ Names (visited box v e) (imageTag image)) ∧
    (Succeeds box v → ∀ image ∈ v.images.present, isTagged image = true →
      (∀ e, ¬ Names (visited box v e) (imageTag image)) → image ∈ pruned box v)

/-- What is left on record when a run in the state `s` succeeds. -/
def staysOn (s : ReleaseState) : Mode → List Tag
  | .rollback => s.history.drop 1
  | .tag tag =>
    if s.current = some tag then s.history
    else (tag :: s.history.filter (fun t => t ≠ tag)).take maxHistory

/-- No image is on the box that only the other environment's record names. -/
def Shared (box : Box) (v : Visit) : Prop :=
  Succeeds box v → ∀ s, parseState (box v.environment) = .ok s →
    ∀ image ∈ v.images.present, isTagged image = true →
      ∀ e, e ≠ v.environment → Names (box e) (imageTag image) → imageTag image ∈ staysOn s v.attempt.mode

example : presentImages "r" "r/api:aa\n redis:7 \n r/web:bb\n" = ["r/api:aa", "r/web:bb"] := by decide +kernel

variable {box : Box} {v : Visit} {s next : ReleaseState} {file : StateFile} {a : Attempt}

theorem mem_releaseImagesToRemove {present : List String} {image : String} :
    image ∈ releaseImagesToRemove present s ↔
      image ∈ present ∧ isTagged image = true ∧
        ¬ (some (imageTag image) = s.current ∨ imageTag image ∈ s.history) := by
  simp [releaseImagesToRemove]

theorem pruneReleaseImages_eq (images : Images) (state : ReleaseState) :
    pruneReleaseImages images state = releaseImagesToRemove images.present state := by
  obtain ⟨repository, listed⟩ := images
  cases repository with
  | none => rfl
  | some repository =>
    cases listed with
    | none => rfl
    | some stdout =>
      by_cases h : repository = ""
      · simp only [pruneReleaseImages, Images.present, h, if_true]
        rfl
      · simp only [pruneReleaseImages, Images.present, h, if_false]

theorem deploy_of_plan {plan : ReleasePlan} (hs : parseState file = .ok s) (hkept : s.Kept)
    (hplan : planFor file a.mode = .ok plan) (hmigrated : a.outcome.migrated = true)
    (hready : a.outcome.ready = true) :
    ∃ next, deploy file a = ⟨.json next.toJson, .serving next⟩ ∧ next.Kept ∧
      next.history = staysOn s a.mode := by
  rw [deploy, hplan]
  simp only [applyRelease_ready hmigrated hready, hs, Except.bind]
  cases hmode : a.mode with
  | rollback =>
    rw [hmode, planFor_rollback hs] at hplan
    have hnext := nextStateAfterRollback_eq hplan
    obtain ⟨_, _, _, _, rfl⟩ := planRollback_eq_ok.mp hplan
    refine ⟨_, ?_, hkept.afterRollback hnext, rfl⟩
    simp only [hnext, recording]
  | tag tag =>
    rw [hmode, planFor_tag hs] at hplan
    obtain ⟨tag', htag, rfl⟩ := Refusal.map_eq_ok.mp hplan
    obtain ⟨_, rfl⟩ := assertDeployableTag_eq_ok.mp htag
    have hnext : nextStateAfterDeploy s tag' = .ok (if s.current = some tag' then ⟨some tag', s.history⟩
        else ⟨some tag', (tag' :: s.history.filter (fun t => t ≠ tag')).take maxHistory⟩) := by
      rw [nextStateAfterDeploy, htag]
      rfl
    refine ⟨_, ?_, hkept.afterDeploy hnext, ?_⟩
    · simp only [hnext, recording]
    · rw [staysOn]
      split <;> rfl

theorem succeeds_of_serving (h : (deploy (box v.environment) v.attempt).ending = .serving next) :
    Succeeds box v := by
  rw [deploy] at h
  cases hplan : planFor (box v.environment) v.attempt.mode with
  | error error =>
    rw [hplan] at h
    cases h
  | ok plan =>
    rw [hplan] at h
    exact ⟨⟨plan, hplan⟩, ready_of_serving h⟩

theorem pruned_of_not_succeeds (h : ¬ Succeeds box v) : pruned box v = [] := by
  rw [pruned]
  split
  · exact absurd (succeeds_of_serving ‹_›) h
  · rfl

theorem names_json (h : next.Kept) (tag : Tag) : Names (.json next.toJson) tag ↔ tag ∈ next.history := by
  constructor
  · rintro ⟨s, hs, hnamed⟩
    cases h.recorded.symm.trans hs
    obtain hcurrent | hhistory := hnamed
    · rw [h.current] at hcurrent
      exact List.mem_of_head? hcurrent.symm
    · exact hhistory
  · intro hmem
    exact ⟨next, h.recorded, .inr hmem⟩

def Readable (box : Box) : Prop := ∀ e, ∃ s, parseState (box e) = .ok s ∧ s.Kept

theorem undeployed_readable : Readable undeployed := fun _ => ⟨emptyState, rfl, emptyState_kept⟩

theorem Readable.visited (h : Readable box) (v : Visit) : Readable (visited box v) := by
  intro e
  by_cases he : e = v.environment
  · subst he
    rw [Release.visited, Function.update_self]
    obtain ⟨s, hs, hkept⟩ := h v.environment
    exact kept_after v.attempt hs hkept
  · rw [Release.visited, Function.update_of_ne he]
    exact h e

/-- One run prunes as it should exactly if no image stands on the other environment's
record alone. -/
theorem shared_iff_prunes (h : Readable box) : Shared box v ↔ Prunes box v := by
  by_cases hsucceeds : Succeeds box v
  · obtain ⟨s, hs, hkept⟩ := h v.environment
    obtain ⟨⟨plan, hplan⟩, hmigrated, hready⟩ := id hsucceeds
    obtain ⟨next, hdeploy, hnext, hstays⟩ := deploy_of_plan hs hkept hplan hmigrated hready
    have hpruned : pruned box v = releaseImagesToRemove v.images.present next := by
      rw [pruned, hdeploy]
      exact pruneReleaseImages_eq _ _
    have hown (tag : Tag) : Names (visited box v v.environment) tag ↔ tag ∈ next.history := by
      rw [visited, Function.update_self, hdeploy]
      exact names_json hnext tag
    have hother {e : Environment} (he : e ≠ v.environment) : visited box v e = box e :=
      Function.update_of_ne he _ _
    have hremoved {image : String} : image ∈ pruned box v ↔
        image ∈ v.images.present ∧ isTagged image = true ∧ imageTag image ∉ next.history := by
      have hcurrent : some (imageTag image) = next.current → imageTag image ∈ next.history := by
        intro hcurrent
        rw [hnext.current] at hcurrent
        exact List.mem_of_head? hcurrent.symm
      rw [hpruned, mem_releaseImagesToRemove, or_iff_right_of_imp hcurrent]
    constructor
    · intro hshared
      constructor
      · intro image hmem e hnames
        obtain ⟨hpresent, htagged, hgone⟩ := hremoved.mp hmem
        by_cases he : e = v.environment
        · subst he
          exact hgone ((hown _).mp hnames)
        · rw [hother he] at hnames
          rw [hstays] at hgone
          exact hgone (hshared hsucceeds s hs image hpresent htagged e he hnames)
      · intro _ image hpresent htagged hunnamed
        apply hremoved.mpr ⟨hpresent, htagged, _⟩
        exact fun hmem => hunnamed v.environment ((hown _).mpr hmem)
    · intro hprunes _ s' hs' image hpresent htagged e he hnames
      cases hs.symm.trans hs'
      by_contra hgone
      rw [← hstays] at hgone
      apply hprunes.1 image (hremoved.mpr ⟨hpresent, htagged, hgone⟩) e
      rw [hother he]
      exact hnames
  · constructor
    · intro _
      refine ⟨?_, fun h => absurd h hsucceeds⟩
      rw [pruned_of_not_succeeds hsucceeds]
      exact nofun
    · intro _ h
      exact absurd h hsucceeds

/-- A sequence of runs spares what a rollback can name, and nothing else, exactly if none of
them meets an image that only the other environment's record names. -/
theorem pruning_spares_rollback_targets_iff (vs : List Visit) :
    Meets visit Shared undeployed vs ↔ Meets visit Prunes undeployed vs := by
  have hreadable {pre : List Visit} {box : Box} (hr : run visit undeployed pre = some box) : Readable box := by
    apply run_preserves _ hr undeployed_readable
    intro box v box' h hstep
    cases hstep
    exact h.visited v
  rw [meets_iff, meets_iff]
  constructor
  · intro hshared pre v post box hcut hr
    exact (shared_iff_prunes (hreadable hr)).mp (hshared pre v post box hcut hr)
  · intro hprunes pre v post box hcut hr
    exact (shared_iff_prunes (hreadable hr)).mpr (hprunes pre v post box hcut hr)

def deploys (e : Environment) (digit present : Char) : Visit :=
  ⟨e, ⟨.tag (commit digit), true, healthy⟩, ⟨some "rental", some ("rental/api:" ++ commit present ++ "\n")⟩⟩

/-- What staging is serving is handed to `docker rmi` by the next deploy to production. -/
theorem a_staging_release_is_removed :
    ∃ box image, run visit undeployed [deploys .staging 'a' 'a'] = some box ∧
      image ∈ pruned box (deploys .production 'b' 'a') ∧
      Names (visited box (deploys .production 'b' 'a') .staging) (imageTag image) := by
  have hbox : visited undeployed (deploys .staging 'a' 'a') .staging =
      .json (ReleaseState.toJson ⟨some (commit 'a'), [commit 'a']⟩) := rfl
  refine ⟨visited undeployed (deploys .staging 'a' 'a'), "rental/api:" ++ commit 'a', rfl, ?_, ?_⟩
  · decide +kernel
  · have hkept : ReleaseState.Kept ⟨some (commit 'a'), [commit 'a']⟩ :=
      ⟨List.nodup_singleton _, by decide, by decide +kernel, rfl⟩
    have hother : visited (visited undeployed (deploys .staging 'a' 'a')) (deploys .production 'b' 'a') .staging =
        visited undeployed (deploys .staging 'a' 'a') .staging := rfl
    rw [hother, hbox]
    apply (names_json hkept _).mpr
    decide +kernel

end RentalMarket.Release
