import RentalMarket.Catalogue.Attributes
import RentalMarket.Lib.SortedBy

namespace RentalMarket.Catalogue

def minTransportSuggestionKg : Nat := 1

def maxTransportSuggestionKg : Nat := 2000

def transportRequirements : List TransportRequirement :=
  [.handCarryable, .carBoot, .estateOrHatchback, .vanRequired, .trailerRequired]

def rankOf (requirement : TransportRequirement) : Nat := transportRequirements.idxOf requirement

theorem rankOf_injective : Function.Injective rankOf := by
  intro a b h
  cases a <;> cases b <;> first | rfl | exact absurd h (by decide)

/-- What `transportOptionSchema` says of the option at an index. -/
def optionIssues (index : Nat) (option : CategoryTransportOption) : List String :=
  match option.suggestedUpToKg with
  | none => []
  | some kg =>
    (if kg < minTransportSuggestionKg then [toString index ++ ".suggestedUpToKg: must be at least 1 kg"] else []) ++
      if maxTransportSuggestionKg < kg then [toString index ++ ".suggestedUpToKg: must be at most 2000 kg"] else []

def duplicateIssues (seen : List TransportRequirement) : List CategoryTransportOption → List String
  | [] => []
  | option :: options =>
    (if option.requirement ∈ seen then ["\"" ++ option.requirement.label ++ "\" is offered twice"] else []) ++
      duplicateIssues (option.requirement :: seen) options

def thresholdIssues : Option (String × Nat) → List CategoryTransportOption → List String
  | _, [] => []
  | previous, option :: options =>
    match option.suggestedUpToKg with
    | none => thresholdIssues previous options
    | some kg =>
      (match previous with
        | some (label, above) =>
          if kg ≤ above then
            ["\"" ++ option.requirement.label ++ "\" suggests up to " ++ toString kg ++
              " kg, which is not more than \"" ++ label ++ "\" at " ++ toString above ++
              " kg — each option must cover heavier items than the one above it, or one of them can never be suggested"]
          else []
        | none => []) ++ thresholdIssues (some (option.requirement.label, kg)) options

def ordered (options : List CategoryTransportOption) : List CategoryTransportOption :=
  sortedBy (fun option => rankOf option.requirement) options

def transportIssues (options : List CategoryTransportOption) : List String :=
  (options.zipIdx.flatMap (fun e => optionIssues e.2 e.1)) ++
    (if transportRequirements.length < options.length then ["must be at most 5 options"] else []) ++
    duplicateIssues [] options ++ thresholdIssues none (ordered options)

def parseCategoryTransportOptions (options : List CategoryTransportOption) :
    Except (List String) (List CategoryTransportOption) :=
  if transportIssues options = [] then .ok (ordered options) else .error (transportIssues options)

structure ItemWeight where
  scaled : Int
  decimalPlaces : Nat
  deriving DecidableEq, Repr

def suggestFrom (weight : ItemWeight) :
    Option TransportRequirement → Bool → List CategoryTransportOption → Option TransportRequirement
  | heaviestOffered, anyThreshold, [] => if anyThreshold then heaviestOffered else none
  | _, anyThreshold, option :: options =>
    match option.suggestedUpToKg with
    | none => suggestFrom weight (some option.requirement) anyThreshold options
    | some kg =>
      if weight.scaled ≤ kg * 10 ^ weight.decimalPlaces then some option.requirement
      else suggestFrom weight (some option.requirement) true options

def suggestTransportRequirement (options : List CategoryTransportOption) (weight : Option ItemWeight) :
    Option TransportRequirement :=
  match weight with
  | none => none
  | some weight => if options = [] then none else suggestFrom weight none false options

section Parsing

variable {options options' : List CategoryTransportOption}

theorem duplicateIssues_eq_nil {seen : List TransportRequirement} : duplicateIssues seen options = [] ↔
    (options.map (·.requirement)).Nodup ∧ ∀ option ∈ options, option.requirement ∉ seen := by
  induction options generalizing seen with
  | nil => simp [duplicateIssues]
  | cons option options ih =>
    have hfirst : (if option.requirement ∈ seen then ["\"" ++ option.requirement.label ++ "\" is offered twice"] else []) =
        [] ↔ option.requirement ∉ seen := by
      split <;> simp [*]
    rw [duplicateIssues, List.append_eq_nil_iff, hfirst, ih, List.map_cons, List.nodup_cons, List.forall_mem_cons]
    constructor
    · rintro ⟨hnot, hnodup, hrest⟩
      refine ⟨⟨?_, hnodup⟩, hnot, fun o ho hseen => hrest o ho (List.mem_cons_of_mem _ hseen)⟩
      intro hmem
      obtain ⟨o, ho, heq⟩ := List.mem_map.mp hmem
      exact hrest o ho (heq ▸ List.mem_cons_self)
    · rintro ⟨⟨hfresh, hnodup⟩, hnot, hrest⟩
      refine ⟨hnot, hnodup, fun o ho hseen => ?_⟩
      obtain heq | hseen := List.mem_cons.mp hseen
      · exact hfresh (heq ▸ List.mem_map_of_mem ho)
      · exact hrest o ho hseen

/-- The thresholds there are increase along the options. -/
def Increasing (options : List CategoryTransportOption) : Prop :=
  options.Pairwise (fun a b => ∀ kg ∈ a.suggestedUpToKg, ∀ kg' ∈ b.suggestedUpToKg, kg < kg')

theorem increasing_of_thresholdIssues {previous : Option (String × Nat)} (h : thresholdIssues previous options = []) :
    Increasing options ∧ ∀ p ∈ previous, ∀ option ∈ options, ∀ kg ∈ option.suggestedUpToKg, p.2 < kg := by
  induction options generalizing previous with
  | nil => exact ⟨.nil, by simp⟩
  | cons option options ih =>
    rw [thresholdIssues] at h
    cases hkg : option.suggestedUpToKg with
    | none =>
      rw [hkg] at h
      obtain ⟨hrest, habove⟩ := ih h
      refine ⟨List.pairwise_cons.mpr ⟨?_, hrest⟩, ?_⟩
      · intro b _ kg hmem
        rw [hkg] at hmem
        cases hmem
      · intro p hp o ho kg hmem
        obtain rfl | ho := List.mem_cons.mp ho
        · rw [hkg] at hmem
          cases hmem
        · exact habove p hp o ho kg hmem
    | some kg =>
      rw [hkg] at h
      obtain ⟨hfirst, hissues⟩ := List.append_eq_nil_iff.mp h
      obtain ⟨hrest, habove⟩ := ih hissues
      have hnext : ∀ o ∈ options, ∀ kg' ∈ o.suggestedUpToKg, kg < kg' := habove _ rfl
      refine ⟨List.pairwise_cons.mpr ⟨?_, hrest⟩, ?_⟩
      · intro b hb k hk
        rw [hkg] at hk
        cases hk
        exact hnext b hb
      · rintro ⟨label, above⟩ hp o ho k hk
        cases hp
        have hmore : above < kg := by
          by_contra hle
          dsimp only at hfirst
          rw [if_pos (Nat.le_of_not_lt hle)] at hfirst
          cases hfirst
        obtain rfl | ho := List.mem_cons.mp ho
        · rw [hkg] at hk
          cases hk
          exact hmore
        · exact hmore.trans (hnext o ho k hk)

theorem optionIssues_eq_nil {index : Nat} {option : CategoryTransportOption} : optionIssues index option = [] ↔
    ∀ kg ∈ option.suggestedUpToKg, minTransportSuggestionKg ≤ kg ∧ kg ≤ maxTransportSuggestionKg := by
  rw [optionIssues]
  cases option.suggestedUpToKg with
  | none => simp
  | some kg => simp [List.append_eq_nil_iff]

theorem transportIssues_eq_nil : transportIssues options = [] ↔
    (∀ option ∈ options, ∀ kg ∈ option.suggestedUpToKg,
      minTransportSuggestionKg ≤ kg ∧ kg ≤ maxTransportSuggestionKg) ∧
    options.length ≤ transportRequirements.length ∧ (options.map (·.requirement)).Nodup ∧
    thresholdIssues none (ordered options) = [] := by
  have heach : (options.zipIdx.flatMap (fun e => optionIssues e.2 e.1)) = [] ↔
      ∀ option ∈ options, ∀ kg ∈ option.suggestedUpToKg,
        minTransportSuggestionKg ≤ kg ∧ kg ≤ maxTransportSuggestionKg := by
    rw [List.flatMap_eq_nil_iff]
    constructor
    · intro h option hoption
      obtain ⟨i, hi, rfl⟩ := List.getElem_of_mem hoption
      have hmem : (options[i], i) ∈ options.zipIdx := List.mem_zipIdx_iff_getElem?.mpr (List.getElem?_eq_getElem hi)
      exact optionIssues_eq_nil.mp (h _ hmem)
    · intro h e he
      exact optionIssues_eq_nil.mpr (h e.1 (List.mem_of_getElem? (List.mem_zipIdx_iff_getElem?.mp he)))
  have hcount : (if transportRequirements.length < options.length then ["must be at most 5 options"] else []) = [] ↔
      options.length ≤ transportRequirements.length := by
    split <;> simp_all
  have hdistinct : duplicateIssues [] options = [] ↔ (options.map (·.requirement)).Nodup := by
    rw [duplicateIssues_eq_nil]
    exact ⟨fun h => h.1, fun h => ⟨h, fun _ _ => List.not_mem_nil⟩⟩
  rw [transportIssues, List.append_eq_nil_iff, List.append_eq_nil_iff, List.append_eq_nil_iff, heach, hcount, hdistinct,
    and_assoc, and_assoc]

theorem ordered_perm : (ordered options).Perm options := sortedBy_perm

theorem ordered_eq (hnodup : (options.map (·.requirement)).Nodup) (hperm : options'.Perm options) :
    ordered options' = ordered options := by
  refine sortedBy_eq (ordered_perm.trans hperm.symm) sortedBy_pairwise ?_
  intro a ha b hb hkey
  exact List.inj_on_of_nodup_map hnodup (hperm.mem_iff.mp ha) (hperm.mem_iff.mp hb) (rankOf_injective hkey)

theorem parse_eq_ok {parsed : List CategoryTransportOption} :
    parseCategoryTransportOptions options = .ok parsed ↔ transportIssues options = [] ∧ parsed = ordered options := by
  rw [parseCategoryTransportOptions]
  split
  · rename_i hnone
    rw [Except.ok.injEq, eq_comm]
    exact ⟨fun h => ⟨hnone, h⟩, fun h => h.2⟩
  · rename_i hsome
    constructor
    · intro h
      cases h
    · rintro ⟨hnone, -⟩
      exact absurd hnone hsome

theorem parse_perm {parsed : List CategoryTransportOption} (hperm : options'.Perm options)
    (h : parseCategoryTransportOptions options = .ok parsed) : parseCategoryTransportOptions options' = .ok parsed := by
  obtain ⟨hissues, rfl⟩ := parse_eq_ok.mp h
  obtain ⟨hbounds, hcount, hnodup, hincreasing⟩ := transportIssues_eq_nil.mp hissues
  have hordered := ordered_eq hnodup hperm
  refine parse_eq_ok.mpr ⟨transportIssues_eq_nil.mpr ⟨?_, ?_, ?_, ?_⟩, hordered.symm⟩
  · exact fun option hoption => hbounds option (hperm.mem_iff.mp hoption)
  · exact hperm.length_eq.trans_le hcount
  · exact (hperm.map _).nodup_iff.mpr hnodup
  · rw [hordered]
    exact hincreasing

end Parsing

/-- What is stored: the options in display order, with thresholds that increase. -/
structure Canonical (options : List CategoryTransportOption) : Prop where
  ranked : options.Pairwise (fun a b => rankOf a.requirement < rankOf b.requirement)
  increasing : Increasing options

theorem canonical_of_parse {options parsed : List CategoryTransportOption}
    (h : parseCategoryTransportOptions options = .ok parsed) : Canonical parsed := by
  obtain ⟨hissues, rfl⟩ := parse_eq_ok.mp h
  obtain ⟨-, -, hnodup, hincreasing⟩ := transportIssues_eq_nil.mp hissues
  refine ⟨?_, (increasing_of_thresholdIssues hincreasing).1⟩
  have hle : (ordered options).Pairwise (fun a b => rankOf a.requirement ≤ rankOf b.requirement) := sortedBy_pairwise
  have hdistinct : ((ordered options).map (·.requirement)).Nodup := (ordered_perm.map _).nodup_iff.mpr hnodup
  have hne : (ordered options).Pairwise (fun a b => a.requirement ≠ b.requirement) := List.pairwise_map.mp hdistinct
  exact (hle.and hne).imp fun h => lt_of_le_of_ne h.1 (fun heq => h.2 (rankOf_injective heq))

section Suggesting

variable {options : List CategoryTransportOption} {weight weight' : ItemWeight} {requirement : TransportRequirement}
  {heaviestOffered : Option TransportRequirement} {anyThreshold : Bool}

def ItemWeight.kilograms (weight : ItemWeight) : ℚ := weight.scaled / 10 ^ weight.decimalPlaces

theorem scaled_le_iff (kg : Nat) : weight.scaled ≤ kg * 10 ^ weight.decimalPlaces ↔ weight.kilograms ≤ kg := by
  rw [ItemWeight.kilograms, div_le_iff₀ (by positivity)]
  exact_mod_cast Iff.rfl

theorem suggestFrom_cons (option : CategoryTransportOption) :
    suggestFrom weight heaviestOffered anyThreshold (option :: options) =
      if ∃ kg ∈ option.suggestedUpToKg, weight.kilograms ≤ kg then some option.requirement
      else suggestFrom weight (some option.requirement) (anyThreshold || option.suggestedUpToKg.isSome) options := by
  rw [suggestFrom]
  cases option.suggestedUpToKg with
  | none => simp
  | some kg => simp [scaled_le_iff]

theorem suggestFrom_mem (h : suggestFrom weight heaviestOffered anyThreshold options = some requirement) :
    (∃ option ∈ options, option.requirement = requirement) ∨ heaviestOffered = some requirement := by
  induction options generalizing heaviestOffered anyThreshold with
  | nil =>
    rw [suggestFrom] at h
    split at h
    · exact .inr h
    · cases h
  | cons option options ih =>
    rw [suggestFrom_cons] at h
    split at h
    · exact .inl ⟨option, List.mem_cons_self, Option.some.inj h⟩
    · obtain ⟨o, ho, heq⟩ | heq := ih h
      · exact .inl ⟨o, List.mem_cons_of_mem _ ho, heq⟩
      · exact .inl ⟨option, List.mem_cons_self, Option.some.inj heq⟩

theorem suggestFrom_eq_none (hoffered : anyThreshold = true → heaviestOffered.isSome = true) :
    suggestFrom weight heaviestOffered anyThreshold options = none ↔
      anyThreshold = false ∧ ∀ option ∈ options, option.suggestedUpToKg = none := by
  induction options generalizing heaviestOffered anyThreshold with
  | nil =>
    rw [suggestFrom]
    cases anyThreshold with
    | false => simp
    | true => simpa [Option.isSome_iff_ne_none] using hoffered rfl
  | cons option options ih =>
    rw [suggestFrom_cons]
    cases hkg : option.suggestedUpToKg with
    | none =>
      rw [if_neg (by simp), Option.isSome_none, Bool.or_false, ih (fun _ => rfl), List.forall_mem_cons]
      simp [hkg]
    | some kg =>
      split
      · simp [hkg]
      · rw [Option.isSome_some, Bool.or_true, ih (fun _ => rfl)]
        simp [hkg]

theorem rank_le_suggestFrom {first : TransportRequirement} (hlater : ∀ o ∈ options, rankOf first < rankOf o.requirement)
    (h : suggestFrom weight (some first) anyThreshold options = some requirement) :
    rankOf first ≤ rankOf requirement := by
  obtain ⟨o, ho, rfl⟩ | heq := suggestFrom_mem h
  · exact (hlater o ho).le
  · rw [Option.some.inj heq]

theorem suggestFrom_mono (hranked : options.Pairwise (fun a b => rankOf a.requirement < rankOf b.requirement))
    (hle : weight.kilograms ≤ weight'.kilograms) {requirement' : TransportRequirement}
    (h : suggestFrom weight heaviestOffered anyThreshold options = some requirement)
    (h' : suggestFrom weight' heaviestOffered anyThreshold options = some requirement') :
    rankOf requirement ≤ rankOf requirement' := by
  induction options generalizing heaviestOffered anyThreshold with
  | nil =>
    rw [suggestFrom] at h h'
    rw [Option.some.inj (h.symm.trans h')]
  | cons option options ih =>
    obtain ⟨hfirst, hrest⟩ := List.pairwise_cons.mp hranked
    rw [suggestFrom_cons] at h h'
    by_cases hfits' : ∃ kg ∈ option.suggestedUpToKg, weight'.kilograms ≤ kg
    · obtain ⟨kg, hkg, hup⟩ := hfits'
      rw [if_pos ⟨kg, hkg, hle.trans hup⟩] at h
      rw [if_pos ⟨kg, hkg, hup⟩] at h'
      rw [Option.some.inj (h.symm.trans h')]
    · rw [if_neg hfits'] at h'
      by_cases hfits : ∃ kg ∈ option.suggestedUpToKg, weight.kilograms ≤ kg
      · rw [if_pos hfits] at h
        rw [← Option.some.inj h]
        exact rank_le_suggestFrom hfirst h'
      · rw [if_neg hfits] at h
        exact ih hrest h h'

theorem suggestFrom_threshold (hincreasing : Increasing options) {option : CategoryTransportOption}
    (hoption : option ∈ options) {kg : Nat} (hkg : kg ∈ option.suggestedUpToKg) :
    suggestFrom ⟨kg, 0⟩ heaviestOffered anyThreshold options = some option.requirement := by
  have hweight : (⟨kg, 0⟩ : ItemWeight).kilograms = kg := by simp [ItemWeight.kilograms]
  induction options generalizing heaviestOffered anyThreshold with
  | nil => cases hoption
  | cons first options ih =>
    obtain ⟨hfirst, hrest⟩ := List.pairwise_cons.mp hincreasing
    rw [suggestFrom_cons, hweight]
    obtain rfl | hlater := List.mem_cons.mp hoption
    · rw [if_pos ⟨kg, hkg, le_rfl⟩]
    · have hbelow : ¬∃ kg' ∈ first.suggestedUpToKg, (kg : ℚ) ≤ (kg' : ℕ) := by
        rintro ⟨kg', hkg', hup⟩
        have hless := hfirst option hlater kg' hkg' kg hkg
        exact absurd (Nat.cast_le.mp hup) (Nat.not_le.mpr hless)
      rw [if_neg hbelow]
      exact ih hrest hlater

end Suggesting

/-- Parsed options do not depend on the order sent, and are parsed to themselves. What is
suggested of them is offered, no earlier for a heavier item, and each option with a threshold is
suggested for some weight. Options without a threshold suggest nothing. -/
theorem transport_is_canonical {options parsed : List CategoryTransportOption}
    (h : parseCategoryTransportOptions options = .ok parsed) :
    (∀ options', options'.Perm options → parseCategoryTransportOptions options' = .ok parsed) ∧
    parseCategoryTransportOptions parsed = .ok parsed ∧
    (∀ weight requirement, suggestTransportRequirement parsed (some weight) = some requirement →
      offersTransportRequirement parsed requirement = true) ∧
    (∀ weight, suggestTransportRequirement parsed (some weight) = none ↔
      ∀ option ∈ parsed, option.suggestedUpToKg = none) ∧
    (∀ weight weight' requirement requirement', weight.kilograms ≤ weight'.kilograms →
      suggestTransportRequirement parsed (some weight) = some requirement →
      suggestTransportRequirement parsed (some weight') = some requirement' →
      rankOf requirement ≤ rankOf requirement') ∧
    ∀ option ∈ parsed, option.suggestedUpToKg.isSome = true →
      ∃ weight, suggestTransportRequirement parsed (some weight) = some option.requirement := by
  have hcanonical := canonical_of_parse h
  have hsuggest (weight : ItemWeight) :
      suggestTransportRequirement parsed (some weight) = suggestFrom weight none false parsed := by
    rw [suggestTransportRequirement]
    split
    · rename_i hnil
      rw [hnil]
      rfl
    · rfl
  refine ⟨fun options' hperm => parse_perm hperm h, parse_perm ?_ h, ?_, ?_, ?_, ?_⟩
  · rw [(parse_eq_ok.mp h).2]
    exact ordered_perm
  · intro weight requirement hsome
    rw [hsuggest] at hsome
    obtain ⟨option, hoption, heq⟩ | hnone := suggestFrom_mem hsome
    · exact List.any_eq_true.mpr ⟨option, hoption, decide_eq_true heq⟩
    · cases hnone
  · intro weight
    rw [hsuggest, suggestFrom_eq_none (fun h => absurd h Bool.false_ne_true)]
    exact ⟨fun h => h.2, fun h => ⟨rfl, h⟩⟩
  · intro weight weight' requirement requirement' hle hsome hsome'
    rw [hsuggest] at hsome hsome'
    exact suggestFrom_mono hcanonical.ranked hle hsome hsome'
  · intro option hoption hthreshold
    obtain ⟨kg, hkg⟩ := Option.isSome_iff_exists.mp hthreshold
    exact ⟨⟨kg, 0⟩, (hsuggest _).trans (suggestFrom_threshold hcanonical.increasing hoption hkg)⟩

def bootAndVan : List CategoryTransportOption := [⟨.vanRequired, some 60⟩, ⟨.carBoot, some 25⟩]

theorem bootAndVan_canonical : parseCategoryTransportOptions [⟨.carBoot, some 25⟩, ⟨.vanRequired, some 60⟩] =
    .ok [⟨.carBoot, some 25⟩, ⟨.vanRequired, some 60⟩] :=
  (transport_is_canonical (show parseCategoryTransportOptions bootAndVan = _ by decide +kernel)).2.1

/-- A category that has not opted into suggestions is given none. -/
theorem nothing_is_suggested : parseCategoryTransportOptions [⟨.carBoot, none⟩] = .ok [⟨.carBoot, none⟩] ∧
    suggestTransportRequirement [⟨.carBoot, none⟩] (some ⟨25, 1⟩) = none := by decide +kernel

end RentalMarket.Catalogue
