import RentalMarket.Lib.Json
import RentalMarket.Lib.Refusal
import Mathlib.Data.List.Nodup

namespace RentalMarket.Release

abbrev Tag := String

def maxHistory : Nat := 10

def isHexDigit (c : Char) : Bool := decide ('0' ≤ c ∧ c ≤ '9' ∨ 'a' ≤ c ∧ c ≤ 'f')

/-- A full commit SHA, lowercase. -/
def isImmutableTag (tag : Tag) : Bool := decide (tag.toList.length = 40) && tag.toList.all isHexDigit

inductive ReleaseError where
  | abbreviatedSha (tag : Tag)
  | notASha (tag : Tag)
  | notJson
  | notTheShape
  | nothingDeployed
  | onlyRelease (current : Tag)
  deriving DecidableEq, Repr

def ReleaseError.message : ReleaseError → String
  | abbreviatedSha tag => "Tag \"" ++ tag ++ "\" is an abbreviated SHA. Deploys pin the full 40 characters " ++
      "so the running image is unambiguous.\n  git rev-parse " ++ tag
  | notASha tag => "Tag \"" ++ tag ++ "\" is not a commit SHA.\n" ++
      "Only images published by the Release workflow can be deployed, and it tags them with the full commit " ++
      "SHA — there is no \"latest\" to fall back on, deliberately (ADR 0012).\n  git rev-parse origin/main"
  | notJson => "Release state is not valid JSON, so the rollback target cannot be trusted.\n" ++
      "Inspect the state file, then deploy an explicit --tag to re-establish it."
  | notTheShape => "Release state is readable but not the expected shape, so the rollback target cannot be " ++
      "trusted.\nInspect the state file, then deploy an explicit --tag to re-establish it."
  | nothingDeployed => "Nothing is recorded as deployed here, so there is nothing to roll back from. " ++
      "Deploy an explicit --tag instead."
  | onlyRelease current => current ++ " is the only release recorded here, so there is no earlier one to " ++
      "return to.\nPick a tag from the git history and deploy it explicitly:\n  git log --oneline origin/main"

def assertDeployableTag (tag : Tag) : Except ReleaseError Tag :=
  if isImmutableTag tag then .ok tag
  else if 7 ≤ tag.toList.length ∧ tag.toList.length ≤ 39 ∧ tag.toList.all isHexDigit then
    .error (.abbreviatedSha tag)
  else .error (.notASha tag)

structure ReleaseState where
  current : Option Tag
  history : List Tag
  deriving DecidableEq, Repr

def emptyState : ReleaseState := ⟨none, []⟩

/-- A state file: none or a blank one, one that is not JSON, or a JSON value. -/
inductive StateFile where
  | blank
  | garbled
  | json (value : Json)

def tagOf : Json → Option Tag
  | .string tag => if isImmutableTag tag then some tag else none
  | _ => none

def tagsOf : List Json → Option (List Tag)
  | [] => some []
  | item :: items => (tagOf item).bind (fun tag => (tagsOf items).map (tag :: ·))

def readShape (parsed : Json) : Option ReleaseState :=
  match parsed.member "history" with
  | some (.array items) =>
    (tagsOf items).bind (fun history =>
      match parsed.member "current" with
      | some .null => some ⟨none, history⟩
      | some current => (tagOf current).map (fun tag => ⟨some tag, history⟩)
      | none => none)
  | _ => none

def parseState : StateFile → Except ReleaseError ReleaseState
  | .blank => .ok emptyState
  | .garbled => .error .notJson
  | .json parsed =>
    match readShape parsed with
    | none => .error .notTheShape
    | some state => .ok state

def ReleaseState.toJson (state : ReleaseState) : Json :=
  .object [("version", .number 1), ("current", state.current.elim .null .string),
    ("history", .array (state.history.map .string))]

inductive ReleaseAction where
  | deploy
  | rollback
  deriving DecidableEq, Repr

structure ReleasePlan where
  action : ReleaseAction
  target : Tag
  leaving : Option Tag
  fallback : Option Tag
  isRedeploy : Bool
  deriving DecidableEq, Repr

def planDeploy (state : ReleaseState) (tag : Tag) : Except ReleaseError ReleasePlan :=
  (assertDeployableTag tag).map (fun tag => ⟨.deploy, tag, none, state.current, state.current = some tag⟩)

/-- Rollback walks backwards, to the release before the current one. -/
def planRollback (state : ReleaseState) : Except ReleaseError ReleasePlan :=
  match state.current with
  | none => .error .nothingDeployed
  | some current =>
    match state.history[1]? with
    | none => .error (.onlyRelease current)
    | some previous => .ok ⟨.rollback, previous, some current, none, false⟩

inductive FailureResponse where
  | stranded
  | stuck
  | revert (target : Tag)
  deriving DecidableEq, Repr

def planFailureResponse (plan : ReleasePlan) : FailureResponse :=
  match plan.action with
  | .rollback => .stranded
  | .deploy =>
    match plan.fallback with
    | none => .stuck
    | some target => .revert target

def nextStateAfterDeploy (state : ReleaseState) (tag : Tag) : Except ReleaseError ReleaseState :=
  (assertDeployableTag tag).map (fun tag =>
    if state.current = some tag then ⟨some tag, state.history⟩
    else ⟨some tag, (tag :: state.history.filter (fun t => t ≠ tag)).take maxHistory⟩)

/-- Drops the abandoned release rather than reordering. -/
def nextStateAfterRollback (state : ReleaseState) : Except ReleaseError ReleaseState :=
  (planRollback state).map (fun plan => ⟨some plan.target, state.history.drop 1⟩)

end RentalMarket.Release
