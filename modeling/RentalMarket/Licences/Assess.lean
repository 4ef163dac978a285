import RentalMarket.Licences.Evaluate
import RentalMarket.Lib.JsonText
import RentalMarket.Lib.SortedBy

namespace RentalMarket.Licences

open JsonText (utf16)

structure ReviewedEntry where
  packages : String → Bool
  licence : String
  why : String

def reviewed : List ReviewedEntry :=
  [⟨fun name => "@img/sharp-".toList.isPrefixOf name.toList || "@img/sharp-libvips-".toList.isPrefixOf name.toList, "LGPL-3.0",
      "libvips, dynamically linked, unmodified, and never distributed — we run a hosted service. AUDIT-EXCEPTIONS.md"⟩,
    ⟨fun name => decide (name = "elkjs"), "EPL-2.0",
      "Prisma Studio only, unmodified, never distributed, never loaded by a deployed process. AUDIT-EXCEPTIONS.md"⟩]

def findException (packageName identifier : String) : Option ReviewedEntry :=
  reviewed.find? (fun entry => entry.packages packageName &&
    decide (normaliseLicenceId entry.licence = normaliseLicenceId identifier))

structure Named where
  name : String
  expression : String
  identifiers : List String

structure Explained where
  name : String
  expression : String
  why : String

structure Assessment where
  blocked : List Named
  needsReview : List Named
  noGrant : List Explained
  excused : List Explained
  unrecognised : List String

def isCovered (result : Evaluation) (name : String) : Bool :=
  result.identifiers.all (fun id => (findException name id).isSome)

/-- One package with a verdict that is not `allowed`. -/
def assessPackage (expression : String) (result : Evaluation) (a : Assessment) (name : String) : Assessment :=
  if result.verdict = .denied then { a with blocked := a.blocked ++ [⟨name, expression, result.identifiers⟩] }
  else
    let why := ((result.identifiers.head?.bind (findException name)).map ReviewedEntry.why).getD ""
    if result.verdict = .noGrant then
      if isCovered result name then { a with excused := a.excused ++ [⟨name, expression, why⟩] }
      else
        { a with noGrant := a.noGrant ++ [⟨name, expression, (noGrantReason expression).getD "grants no licence"⟩] }
    else if isCovered result name then { a with excused := a.excused ++ [⟨name, expression, why⟩] }
    else { a with needsReview := a.needsReview ++ [⟨name, expression, result.identifiers⟩] }

def assessEntry (a : Assessment) (entry : String × List String) : Option Assessment :=
  (evaluateExpression entry.1).map (fun result =>
    let a := { a with unrecognised := a.unrecognised ++ result.unrecognised }
    if result.verdict = .allowed then a else entry.2.foldl (assessPackage entry.1 result) a)

def assess (licences : List (String × List String)) : Option Assessment :=
  (licences.foldlM assessEntry ⟨[], [], [], [], []⟩).map (fun a =>
    { a with unrecognised := sortedBy utf16 a.unrecognised.eraseDups })

def Assessment.passes (a : Assessment) : Bool := a.noGrant.isEmpty && a.blocked.isEmpty && a.needsReview.isEmpty

/-- A package may be used: its licence is allowed, or is not denied and every identifier has a decision. -/
def Usable (result : Evaluation) (name : String) : Prop :=
  result.verdict = .allowed ∨ result.verdict ≠ .denied ∧ isCovered result name = true

variable {a a' : Assessment} {result : Evaluation} {expression name : String}

theorem passes_unrecognised (a : Assessment) (names : List String) :
    ({ a with unrecognised := names } : Assessment).passes = a.passes := rfl

theorem passes_assessPackage (h : result.verdict ≠ .allowed) :
    (assessPackage expression result a name).passes = true ↔ a.passes = true ∧ Usable result name := by
  have hempty : ∀ {α : Type} (l : List α) (x : α), (l ++ [x]).isEmpty = false := fun l x => by simp
  rw [assessPackage, Usable]
  by_cases hdenied : result.verdict = .denied
  · simp [hdenied, Assessment.passes, hempty]
  · by_cases hgrant : result.verdict = .noGrant
    · cases hcovered : isCovered result name <;> simp [hgrant, Assessment.passes, hempty]
    · cases hcovered : isCovered result name <;> simp [h, hdenied, hgrant, Assessment.passes, hempty]

theorem passes_packages (h : result.verdict ≠ .allowed) (names : List String) (a : Assessment) :
    (names.foldl (assessPackage expression result) a).passes = true ↔
      a.passes = true ∧ ∀ name ∈ names, Usable result name := by
  induction names generalizing a with
  | nil => simp
  | cons name names ih => rw [List.foldl_cons, ih, passes_assessPackage h, List.forall_mem_cons, and_assoc]

theorem passes_assessEntry {entry : String × List String} (h : assessEntry a entry = some a') :
    a'.passes = true ↔ a.passes = true ∧
      ∀ name ∈ entry.2, ∃ result, evaluateExpression entry.1 = some result ∧ Usable result name := by
  rw [assessEntry] at h
  obtain ⟨result, hresult, rfl⟩ := Option.map_eq_some_iff.mp h
  have husable : (∀ name ∈ entry.2, ∃ r, evaluateExpression entry.1 = some r ∧ Usable r name) ↔
      ∀ name ∈ entry.2, Usable result name := by
    simp [hresult]
  rw [husable]
  dsimp only
  by_cases hallowed : result.verdict = .allowed
  · rw [if_pos hallowed, passes_unrecognised]
    exact ⟨fun hpasses => ⟨hpasses, fun _ _ => .inl hallowed⟩, And.left⟩
  · rw [if_neg hallowed, passes_packages hallowed, passes_unrecognised]

theorem passes_run {licences : List (String × List String)} (h : licences.foldlM assessEntry a = some a') :
    a'.passes = true ↔ a.passes = true ∧ ∀ entry ∈ licences, ∀ name ∈ entry.2,
      ∃ result, evaluateExpression entry.1 = some result ∧ Usable result name := by
  induction licences generalizing a with
  | nil =>
    obtain rfl := Option.some.inj h
    simp
  | cons entry licences ih =>
    rw [List.foldlM_cons] at h
    obtain ⟨b, hentry, hrest⟩ := Option.bind_eq_some_iff.mp h
    rw [ih hrest, passes_assessEntry hentry, List.forall_mem_cons, and_assoc]

theorem passes_iff {licences : List (String × List String)} (h : assess licences = some a) :
    a.passes = true ↔ ∀ entry ∈ licences, ∀ name ∈ entry.2,
      ∃ result, evaluateExpression entry.1 = some result ∧ Usable result name := by
  rw [assess] at h
  obtain ⟨a', hfold, rfl⟩ := Option.map_eq_some_iff.mp h
  rw [passes_unrecognised, passes_run hfold]
  exact and_iff_right rfl

theorem exists_evaluateExpression (expression : String) : ∃ result, evaluateExpression expression = some result := by
  obtain ⟨-, hverdict⟩ | ⟨-, fuel, evaluation, rest, -, hverdict⟩ := verdictOf_eq expression
  all_goals
    obtain ⟨result, hresult, -⟩ := Option.map_eq_some_iff.mp hverdict
    exact ⟨result, hresult⟩

theorem exists_run (licences : List (String × List String)) (a : Assessment) :
    ∃ a', licences.foldlM assessEntry a = some a' := by
  induction licences generalizing a with
  | nil => exact ⟨a, rfl⟩
  | cons entry licences ih =>
    obtain ⟨result, hresult⟩ := exists_evaluateExpression entry.1
    have hentry : ∃ b, assessEntry a entry = some b := by
      rw [assessEntry, hresult, Option.map_some]
      exact ⟨_, rfl⟩
    obtain ⟨b, hb⟩ := hentry
    obtain ⟨a', ha'⟩ := ih b
    rw [List.foldlM_cons]
    exact ⟨a', Option.bind_eq_some_iff.mpr ⟨b, hb, ha'⟩⟩

theorem exists_assess (licences : List (String × List String)) : ∃ a, assess licences = some a := by
  obtain ⟨a, ha⟩ := exists_run licences ⟨[], [], [], [], []⟩
  exact ⟨_, Option.map_eq_some_iff.mpr ⟨a, ha, rfl⟩⟩

section

variable {left right : Evaluation}

/-- A verdict that is not `allowed` names what drove it. -/
def IsDriven (e : Evaluation) : Prop := e.verdict ≠ .allowed → e.identifiers ≠ []

theorem isDriven_judged (token : String) : IsDriven (judged token) := by
  intro h
  rw [judged_verdict] at h
  simp [judged, h]

theorem IsDriven.both (hleft : IsDriven left) (hright : IsDriven right) : IsDriven (both left right) := by
  intro h hnil
  obtain ⟨hnone, hnone'⟩ := List.append_eq_nil_iff.mp hnil
  have hallowed : left.verdict = .allowed := by
    by_contra hne
    exact hleft hne hnone
  have hallowed' : right.verdict = .allowed := by
    by_contra hne
    exact hright hne hnone'
  rw [both_verdict, hallowed, hallowed', max_self] at h
  exact h rfl

theorem IsDriven.either (hleft : IsDriven left) (hright : IsDriven right) : IsDriven (either left right) := by
  rw [Licences.either]
  split
  · exact hright
  · exact hleft

/-- Whatever is read, each part of the grammar names what drove its verdict. -/
theorem isDriven (fuel : ℕ) :
    (∀ tokens m, parseFactor fuel tokens = some m → IsDriven m.1) ∧
    (∀ tokens m, parseTerm fuel tokens = some m → IsDriven m.1) ∧
    (∀ left tokens m, IsDriven left → parseFactors fuel left tokens = some m → IsDriven m.1) ∧
    (∀ tokens m, parseExpression fuel tokens = some m → IsDriven m.1) ∧
    ∀ left tokens m, IsDriven left → parseTerms fuel left tokens = some m → IsDriven m.1 := by
  induction fuel with
  | zero => refine ⟨?_, ?_, ?_, ?_, ?_⟩ <;> intros <;> contradiction
  | succ fuel ih =>
    obtain ⟨hfactor, hterm, hfactors, hexpression, hterms⟩ := ih
    refine ⟨?_, ?_, ?_, ?_, ?_⟩
    · intro tokens m h
      rw [parseFactor] at h
      split at h
      · obtain ⟨m', hm', rfl⟩ := Option.map_eq_some_iff.mp h
        exact hexpression tokens.tail m' hm'
      · obtain rfl := Option.some.inj h
        exact isDriven_judged _
    · intro tokens m h
      rw [parseTerm] at h
      obtain ⟨m', hm', hrest⟩ := Option.bind_eq_some_iff.mp h
      exact hfactors m'.1 m'.2 m (hfactor tokens m' hm') hrest
    · intro left tokens m hleft h
      rw [parseFactors] at h
      split at h
      · obtain ⟨m', hm', hrest⟩ := Option.bind_eq_some_iff.mp h
        exact hfactors (both left m'.1) m'.2 m (hleft.both (hfactor tokens.tail m' hm')) hrest
      · obtain rfl := Option.some.inj h
        exact hleft
    · intro tokens m h
      rw [parseExpression] at h
      obtain ⟨m', hm', hrest⟩ := Option.bind_eq_some_iff.mp h
      exact hterms m'.1 m'.2 m (hterm tokens m' hm') hrest
    · intro left tokens m hleft h
      rw [parseTerms] at h
      split at h
      · obtain ⟨m', hm', hrest⟩ := Option.bind_eq_some_iff.mp h
        exact hterms (either left m'.1) m'.2 m (hleft.either (hterm tokens.tail m' hm')) hrest
      · obtain rfl := Option.some.inj h
        exact hleft

theorem isDriven_evaluateExpression (h : evaluateExpression expression = some result) : IsDriven result := by
  rw [evaluateExpression] at h
  split at h
  · obtain rfl := Option.some.inj h
    exact fun _ => List.cons_ne_nil _ _
  · obtain ⟨m, hm, rfl⟩ := Option.map_eq_some_iff.mp h
    intro hverdict
    obtain ⟨id, hid⟩ := List.exists_mem_of_ne_nil _ ((isDriven _).2.2.2.1 _ m hm hverdict)
    exact List.ne_nil_of_mem (List.mem_eraseDups.mpr hid)

end

/-- Nothing is covered for want of an identifier: a package in use whose licence is not allowed has a
recorded decision. -/
theorem exists_findException (h : evaluateExpression expression = some result) (husable : Usable result name)
    (hverdict : result.verdict ≠ .allowed) :
    result.verdict ≠ .denied ∧ ∃ id ∈ result.identifiers, (findException name id).isSome = true := by
  obtain hallowed | ⟨hdenied, hcovered⟩ := husable
  · exact absurd hallowed hverdict
  · obtain ⟨id, hid⟩ := List.exists_mem_of_ne_nil _ (isDriven_evaluateExpression h hverdict)
    exact ⟨hdenied, id, hid, List.all_eq_true.mp hcovered id hid⟩

end RentalMarket.Licences
