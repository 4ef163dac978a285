import RentalMarket.Licences.Expression

namespace RentalMarket.Licences

open Script (isSpace trim)
open Core.Postcode (upperCase)
open Words

variable {level : Level} {e : Expression} {tokens : List String} {d text : List Char} {c : Char} {expression : String}

def isBespoke (expression : String) : Bool := startsWith "LicenseRef-" (trim expression).toList

theorem noGrantReason_ne_none_iff (expression : String) : noGrantReason expression ≠ none ↔
    isWhole "UNLICENSED" (trim expression).toList = true ∨ isWhole "UNKNOWN" (trim expression).toList = true ∨
      isWhole "NOASSERTION" (trim expression).toList = true ∨ isWhole "" (trim expression).toList = true ∨
      pointsAtFile (trim expression).toList = true ∨ isBespoke expression = true := by
  rw [noGrantReason, ne_eq, Option.map_eq_none_iff, List.find?_eq_none, isBespoke]
  simp only [noGrant, not_forall, not_not, exists_prop, List.mem_cons, List.not_mem_nil, or_false, exists_eq_or_imp,
    exists_eq_left]

theorem noGrantReason_of_isBespoke (h : isBespoke expression = true) : noGrantReason expression ≠ none :=
  (noGrantReason_ne_none_iff expression).mpr (.inr (.inr (.inr (.inr (.inr h)))))

theorem isAlpha_of_toLower (h : c.toLower.isLower = true) : c.isAlpha = true := by
  rw [Char.isAlpha, Bool.or_eq_true]
  by_cases hupper : c.isUpper = true
  · exact .inl hupper
  · refine .inr ?_
    rwa [Ascii.toLower_of_not_isUpper hupper] at h

theorem folded_eq_nil : folded d = [] ↔ d = [] := List.map_eq_nil_iff

theorem isLower_of_isAlpha (h : c.isAlpha = true) : c.toLower.isLower = true := by
  by_cases hupper : c.isUpper = true
  · exact Ascii.isLower_toLower hupper
  · rw [Ascii.toLower_of_not_isUpper hupper]
    exact (Bool.or_eq_true_iff.mp h).resolve_left hupper

theorem isAlpha_of_folded {letters : List Char} (hletters : letters.all Char.isLower = true) (h : folded d = letters) :
    ∀ c ∈ d, c.isAlpha = true := by
  intro c hc
  refine isAlpha_of_toLower (List.all_eq_true.mp hletters _ ?_)
  rw [← h]
  exact List.mem_map_of_mem hc

theorem plain_of_isAlpha (h : c.isAlpha = true) : isSpace c = false ∧ isParenthesis c = false := by
  refine ⟨Ascii.isSpace_of_isAlpha h, ?_⟩
  rw [isParenthesis, decide_eq_false_iff_not]
  rintro (rfl | rfl) <;> cases h

theorem eq_space_of_toLower (h : c.toLower = ' ') : c = ' ' := by
  by_cases hupper : c.isUpper = true
  · have hlower := Ascii.isLower_toLower hupper
    rw [h] at hlower
    cases hlower
  · rwa [Ascii.toLower_of_not_isUpper hupper] at h

theorem words_separated_blank (h : ∀ c ∈ text, isSpace c = true) : words isSpace (separated text) = [] := by
  have hblank := words_separated_gap h []
  rw [List.append_nil] at hblank
  rw [hblank]
  rfl

theorem tokenise_trim (expression : String) :
    ∃ back, (∀ c ∈ back, isSpace c = true) ∧ tokenise expression =
      (words isSpace (separated ((trim expression).toList ++ back))).map String.ofList := by
  obtain ⟨front, back, hsplit, hfront, hback⟩ := Ascii.exists_trim expression
  exact ⟨back, hback, by rw [tokenise, hsplit, words_separated_gap hfront]⟩

theorem Spells.ne_nil (h : Spells level e tokens) : tokens ≠ [] := by
  induction h with
  | identifier id => exact List.cons_ne_nil _ _
  | exception id operator word hoperator => exact List.cons_ne_nil _ _
  | parentheses h ih => exact List.cons_ne_nil _ _
  | factor h ih => exact ih
  | and operator hoperator hl hr ihl ihr => simp
  | term h ih => exact ih
  | or operator hoperator hl hr ihl ihr => simp

theorem Spells.of_singleton {token : String} (h : Spells level e [token]) :
    ∃ id : Identifier, e = .licence id none ∧ id.text = token := by
  generalize htokens : [token] = tokens at h
  induction h with
  | identifier id => exact ⟨id, rfl, (List.cons.inj htokens).1.symm⟩
  | exception id operator word hoperator => cases htokens
  | parentheses h ih => simp at htokens
  | factor h ih => exact ih htokens
  | and operator hoperator hl hr ihl ihr =>
    have hlength := congrArg List.length htokens
    have hpos := List.length_pos_iff.mpr hl.ne_nil
    have hpos' := List.length_pos_iff.mpr hr.ne_nil
    simp at hlength
    omega
  | term h ih => exact ih htokens
  | or operator hoperator hl hr ihl ihr =>
    have hlength := congrArg List.length htokens
    have hpos := List.length_pos_iff.mpr hl.ne_nil
    have hpos' := List.length_pos_iff.mpr hr.ne_nil
    simp at hlength
    omega

def Opens (tokens : List String) : Prop :=
  ∀ a b more, tokens = a :: b :: more → a ≠ "(" → ∃ word ∈ ["AND", "OR", "WITH"], isOperator b word = true

theorem Opens.append {tokens' : List String} {operator word : String} (h : Opens tokens) (hne : tokens ≠ [])
    (hword : word ∈ ["AND", "OR", "WITH"]) (hoperator : isOperator operator word = true) :
    Opens (tokens ++ operator :: tokens') := by
  intro a b more heq ha
  match tokens with
  | [] => exact absurd rfl hne
  | [a'] =>
    obtain ⟨-, htail⟩ := List.cons.inj heq
    rw [← (List.cons.inj htail).1]
    exact ⟨word, hword, hoperator⟩
  | a' :: b' :: rest =>
    obtain ⟨rfl, htail⟩ := List.cons.inj heq
    obtain ⟨rfl, -⟩ := List.cons.inj htail
    exact h a' b' rest rfl ha

theorem Spells.opens (h : Spells level e tokens) : Opens tokens := by
  induction h with
  | identifier id =>
    intro a b more heq
    cases heq
  | exception id operator word hoperator =>
    intro a b more heq ha
    rw [← (List.cons.inj (List.cons.inj heq).2).1]
    exact ⟨"WITH", by decide, hoperator⟩
  | parentheses h ih => exact fun a b more heq ha => absurd (List.cons.inj heq).1.symm ha
  | factor h ih => exact ih
  | and operator hoperator hl hr ihl ihr => exact ihl.append hl.ne_nil (by decide) hoperator
  | term h ih => exact ih
  | or operator hoperator hl hr ihl ihr => exact ihl.append hl.ne_nil (by decide) hoperator

theorem not_endsWith_of_isAlpha {pattern : String} (hmark : '-' ∈ folded pattern.toList) (h : ∀ c ∈ d, c.isAlpha = true) :
    endsWith pattern d = false := by
  by_contra hends
  rw [Bool.not_eq_false, endsWith, List.isSuffixOf_iff_suffix] at hends
  obtain ⟨c, hc, heq⟩ := List.mem_map.mp (hends.mem hmark)
  have hlower := isLower_of_isAlpha (h c hc)
  rw [heq] at hlower
  cases hlower

theorem normaliseLicenceId_of_isAlpha (h : ∀ c ∈ d, c.isAlpha = true) : trim (String.ofList d) = String.ofList d ∧
    normaliseLicenceId (String.ofList d) = String.ofList d := by
  have hplain : ∀ c ∈ d, isSpace c = false := fun c hc => (plain_of_isAlpha (h c hc)).1
  have htrim : trim (String.ofList d) = String.ofList d := by
    refine Script.trim_eq_self ?_ ?_
    · intro c hc
      rw [String.toList_ofList] at hc
      exact hplain c (List.mem_of_mem_head? hc)
    · intro c hc
      rw [String.toList_ofList] at hc
      exact hplain c (List.mem_of_mem_getLast? hc)
  have hplus : ¬d.getLast? = some '+' := by
    intro hlast
    cases h '+' (List.mem_of_getLast? hlast)
  refine ⟨htrim, ?_⟩
  rw [normaliseLicenceId, htrim, String.toList_ofList, if_neg hplus, not_endsWith_of_isAlpha (by decide) h,
    not_endsWith_of_isAlpha (by decide) h]
  rfl

theorem classifyIdentifier_of_noGrantReason {identifier : String}
    (h : noGrantReason (normaliseLicenceId identifier) ≠ none) : (classifyIdentifier identifier).verdict = .noGrant := by
  rw [classifyIdentifier, if_pos h]

theorem noGrantReason_of_isWhole {word : String} (hword : word ∈ ["UNLICENSED", "UNKNOWN", "NOASSERTION"])
    (h : isWhole word (trim expression).toList = true) : noGrantReason expression ≠ none := by
  rw [noGrantReason_ne_none_iff]
  simp only [List.mem_cons, List.not_mem_nil, or_false] at hword
  obtain rfl | rfl | rfl := hword
  · exact .inl h
  · exact .inr (.inl h)
  · exact .inr (.inr (.inl h))

theorem refused_of_isWhole {word : String} (hword : word ∈ ["UNLICENSED", "UNKNOWN", "NOASSERTION"])
    (h : Spells level e (tokenise expression)) (hwhole : isWhole word (trim expression).toList = true) : e.Refused := by
  have hletters : (folded word.toList).all Char.isLower = true ∧ folded word.toList ≠ [] := by
    simp only [List.mem_cons, List.not_mem_nil, or_false] at hword
    obtain rfl | rfl | rfl := hword <;> decide
  have hfolded : folded (trim expression).toList = folded word.toList := of_decide_eq_true hwhole
  have halpha := isAlpha_of_folded hletters.1 hfolded
  have hne : (trim expression).toList ≠ [] := by
    intro hnil
    rw [hnil] at hfolded
    exact hletters.2 hfolded.symm
  obtain ⟨back, hback, htokens⟩ := tokenise_trim expression
  rw [words_separated_word (fun c hc => plain_of_isAlpha (halpha c hc)) hne
    (fun c hc => .inl (hback c (List.mem_of_mem_head? hc))), words_separated_blank hback, List.map_singleton,
    String.ofList_toList] at htokens
  rw [htokens] at h
  obtain ⟨id, rfl, hid⟩ := h.of_singleton
  obtain ⟨htrim, hnormal⟩ := normaliseLicenceId_of_isAlpha halpha
  rw [String.ofList_toList] at htrim hnormal
  have hreason : noGrantReason (trim expression) ≠ none := by
    refine noGrantReason_of_isWhole hword ?_
    rw [htrim]
    exact hwhole
  rw [Expression.Refused, hid]
  exact classifyIdentifier_of_noGrantReason (by rwa [hnormal])

theorem words_of_startsWith {pattern : String} {first second third : List Char}
    (hpattern : folded pattern.toList = first ++ ' ' :: (second ++ ' ' :: third)) (h : startsWith pattern d = true) :
    ∃ a b rest, d = a ++ ' ' :: (b ++ ' ' :: rest) ∧ folded a = first ∧ folded b = second := by
  obtain ⟨tail, htail⟩ := List.isPrefixOf_iff_prefix.mp h
  have hsplit : folded d = first ++ ' ' :: (second ++ ' ' :: (third ++ tail)) := by
    rw [← htail, hpattern]
    simp
  obtain ⟨a, d₁, rfl, ha, h₁⟩ := List.map_eq_append_iff.mp hsplit
  obtain ⟨s₁, d₂, rfl, hs₁, h₂⟩ := List.map_eq_cons_iff.mp h₁
  obtain ⟨b, d₃, rfl, hb, h₃⟩ := List.map_eq_append_iff.mp h₂
  obtain ⟨s₂, d₄, rfl, hs₂, -⟩ := List.map_eq_cons_iff.mp h₃
  exact ⟨a, b, d₄, by rw [eq_space_of_toLower hs₁, eq_space_of_toLower hs₂], ha, hb⟩

theorem length_le_length_toUpperCase (text : List Char) : text.length ≤ (text.flatMap upperCase).length := by
  induction text with
  | nil => exact le_rfl
  | cons c text ih =>
    have hc : upperCase c ≠ [] := by
      rw [upperCase]
      split
      · simp
      · split <;> simp
    have hpos := List.length_pos_iff.mpr hc
    rw [List.flatMap_cons, List.length_append, List.length_cons]
    omega

theorem not_isOperator_of_length {text : List Char} (h : 5 ≤ text.length) {word : String}
    (hword : word ∈ ["AND", "OR", "WITH"]) : isOperator (String.ofList text) word = false := by
  rw [isOperator, decide_eq_false_iff_not, toUpperCase, String.toList_ofList]
  intro heq
  have hle := length_le_length_toUpperCase text
  rw [heq] at hle
  have hshort : word.toList.length ≤ 4 := by
    simp only [List.mem_cons, List.not_mem_nil, or_false] at hword
    obtain rfl | rfl | rfl := hword <;> decide
  omega

/-- Two words stand beside each other in no expression. -/
theorem not_pointsAtFile (h : Spells level e (tokenise expression)) : pointsAtFile (trim expression).toList = false := by
  by_contra hpoints
  rw [Bool.not_eq_false, pointsAtFile, Bool.and_eq_true, Bool.or_eq_true] at hpoints
  obtain ⟨first, second, rest, hsplit, hfirst, hsecond⟩ : ∃ first second rest,
      (trim expression).toList = first ++ ' ' :: (second ++ ' ' :: rest) ∧ folded first = folded "SEE".toList ∧
        (folded second = folded "LICENCE".toList ∨ folded second = folded "LICENSE".toList) := by
    obtain hstarts | hstarts := hpoints.1
    · have hpattern : folded "SEE LICENCE IN".toList =
          folded "SEE".toList ++ ' ' :: (folded "LICENCE".toList ++ ' ' :: folded "IN".toList) := by decide
      obtain ⟨a, b, rest, hsplit, ha, hb⟩ := words_of_startsWith hpattern hstarts
      exact ⟨a, b, rest, hsplit, ha, .inl hb⟩
    · have hpattern : folded "SEE LICENSE IN".toList =
          folded "SEE".toList ++ ' ' :: (folded "LICENSE".toList ++ ' ' :: folded "IN".toList) := by decide
      obtain ⟨a, b, rest, hsplit, ha, hb⟩ := words_of_startsWith hpattern hstarts
      exact ⟨a, b, rest, hsplit, ha, .inr hb⟩
  have halpha : ∀ c ∈ first, c.isAlpha = true := isAlpha_of_folded (by decide) hfirst
  have halpha' : ∀ c ∈ second, c.isAlpha = true := by
    obtain hsecond | hsecond := hsecond
    · exact isAlpha_of_folded (by decide) hsecond
    · exact isAlpha_of_folded (by decide) hsecond
  have hlength : second.length = 7 := by
    rw [← List.length_map Char.toLower]
    obtain hsecond | hsecond := hsecond
    · exact congrArg List.length hsecond
    · exact congrArg List.length hsecond
  have hne : first ≠ [] := by
    rintro rfl
    cases hfirst
  have hne' : second ≠ [] := by
    rintro rfl
    cases hlength
  have hspace : ∀ c ∈ [' '], isSpace c = true := List.forall_mem_singleton.mpr (by decide)
  obtain ⟨back, -, htokens⟩ := tokenise_trim expression
  have htext : (trim expression).toList ++ back = first ++ ([' '] ++ (second ++ ([' '] ++ (rest ++ back)))) := by
    rw [hsplit]
    simp
  have hsplit' : ∀ rest : List Char, ∀ c ∈ ([' '] ++ rest).head?, isSpace c = true ∨ isParenthesis c = true := by
    rintro rest c ⟨⟩
    exact .inl (by decide)
  rw [htext, words_separated_word (fun c hc => plain_of_isAlpha (halpha c hc)) hne (hsplit' _),
    words_separated_gap hspace, words_separated_word (fun c hc => plain_of_isAlpha (halpha' c hc)) hne' (hsplit' _),
    List.map_cons, List.map_cons] at htokens
  have hopen : String.ofList first ≠ "(" := by
    intro heq
    have hlist := congrArg String.toList heq
    rw [String.toList_ofList] at hlist
    cases halpha '(' (by rw [hlist]; decide)
  obtain ⟨word, hword, hoperator⟩ := h.opens _ _ _ htokens hopen
  rw [not_isOperator_of_length (by omega) hword] at hoperator
  cases hoperator

theorem isBespoke_or_refused (h : Spells level e (tokenise expression)) (hreason : noGrantReason expression ≠ none) :
    isBespoke expression = true ∨ e.Refused := by
  obtain hwhole | hwhole | hwhole | hempty | hpoints | hbespoke := (noGrantReason_ne_none_iff expression).mp hreason
  · exact .inr (refused_of_isWhole (by decide) h hwhole)
  · exact .inr (refused_of_isWhole (by decide) h hwhole)
  · exact .inr (refused_of_isWhole (by decide) h hwhole)
  · have hfolded : folded (trim expression).toList = folded "".toList := of_decide_eq_true hempty
    have hblank : folded "".toList = [] := by decide
    have hnil : (trim expression).toList = [] := folded_eq_nil.mp (hfolded.trans hblank)
    have hspaces := Ascii.isSpace_of_trim_eq_empty (String.toList_inj.mp hnil)
    rw [tokenise, words_separated_blank hspaces] at h
    exact absurd rfl h.ne_nil
  · rw [not_pointsAtFile h] at hpoints
    cases hpoints
  · exact .inl hbespoke

theorem verdictOf_printed (h : Spells .expression e tokens) (hprinted : Printed tokens expression.toList) :
    verdictOf expression = some (if isBespoke expression then .noGrant else e.meaning) := by
  have htokens := tokenise_printed hprinted
  rw [← htokens] at h
  by_cases hbespoke : isBespoke expression = true
  · rw [if_pos hbespoke]
    obtain ⟨-, hverdict⟩ | ⟨hnone, -⟩ := verdictOf_eq expression
    · exact hverdict
    · exact absurd hnone (noGrantReason_of_isBespoke hbespoke)
  · rw [if_neg hbespoke]
    obtain ⟨hreason, hverdict⟩ | ⟨-, fuel, evaluation, rest, hparse, hverdict⟩ := verdictOf_eq expression
    · rw [hverdict, (Expression.refused_iff e).mp ((isBespoke_or_refused h hreason).resolve_left hbespoke)]
    · rw [← List.append_nil (tokenise expression)] at hparse
      rw [hverdict, (read_expression (read_spelled h) rfl rfl rfl hparse).1]

/-- The verdict is the meaning of the expression, where no reference comes first or no choice escapes a licence
that grants nothing, and it changes with the writing just where that does. -/
theorem verdictOf_eq_meaning_iff (h : Spells .expression e tokens) (hprinted : Printed tokens expression.toList) :
    (verdictOf expression = some e.meaning ↔ isBespoke expression = false ∨ e.Refused) ∧
    ∀ (e' : Expression) (tokens' : List String) (expression' : String), e.Rearranged e' →
      Spells .expression e' tokens' → Printed tokens' expression'.toList →
      (verdictOf expression' = verdictOf expression ↔ isBespoke expression' = isBespoke expression ∨ e.Refused) := by
  constructor
  · rw [verdictOf_printed h hprinted, Expression.refused_iff, Option.some.injEq]
    cases isBespoke expression
    · simp
    · simp [eq_comm]
  · intro e' tokens' expression' hrearranged h' hprinted'
    rw [verdictOf_printed h hprinted, verdictOf_printed h' hprinted', Expression.refused_iff, Option.some.injEq,
      ← hrearranged.meaning_eq]
    cases isBespoke expression <;> cases isBespoke expression' <;> simp [eq_comm]

def wordOf (text : String) (h : text ≠ "" ∧ text.toList.all (fun c => !isSpace c && !isParenthesis c) = true) : Word where
  text := text
  nonempty := h.1
  plain := fun c hc => by simpa using List.all_eq_true.mp h.2 c hc

def mit : Identifier := ⟨wordOf "MIT" (by decide), by decide +kernel⟩

def gpl : Identifier := ⟨wordOf "GPL-3.0" (by decide), by decide +kernel⟩

def bespoke : Identifier := ⟨wordOf "LicenseRef-X" (by decide), by decide +kernel⟩

theorem spelled_or (id id' : Identifier) :
    Spells .expression (.or (.licence id none) (.licence id' none)) [id.text, "OR", id'.text] ∧
      Printed [id.text, "OR", id'.text] (id.text ++ " OR " ++ id'.text).toList := by
  have hor : isOperator (wordOf "OR" (by decide)).text "OR" = true := by decide +kernel
  have hspace : ∀ c ∈ [' '], isSpace c = true := List.forall_mem_singleton.mpr (by decide)
  have hnext : ∀ text : List Char, ∀ c ∈ ([' '] ++ text).head?, isSpace c = true ∨ isParenthesis c = true := by
    rintro text c ⟨⟩
    exact .inl (by decide)
  have htext : (id.text ++ " OR " ++ id'.text).toList =
      [] ++ (id.text.toList ++ ([' '] ++ ("OR".toList ++ ([' '] ++ (id'.text.toList ++ []))))) := by simp
  refine ⟨.or (wordOf "OR" (by decide)) hor (.term (.factor (.identifier id))) (.term (.factor (.identifier id'))), ?_⟩
  rw [htext]
  have hlast : Printed [id'.text] ([' '] ++ (id'.text.toList ++ [])) :=
    .word hspace id'.toWord (.blank (List.forall_mem_nil _)) (by simp)
  exact .word (List.forall_mem_nil _) id.toWord (.word hspace (wordOf "OR" (by decide)) hlast (hnext _)) (hnext _)

theorem verdictOf_mit_or_gpl : verdictOf (mit.text ++ " OR " ++ gpl.text) =
    some (Expression.or (.licence mit none) (.licence gpl none)).meaning :=
  (verdictOf_eq_meaning_iff (spelled_or mit gpl).1 (spelled_or mit gpl).2).1.mpr (.inl (by decide +kernel))

/-- We may choose the other one, unless the reference comes first. -/
theorem bespoke_or_mit_is_refused :
    (Spells .expression (.or (.licence bespoke none) (.licence mit none)) [bespoke.text, "OR", mit.text] ∧
      Printed [bespoke.text, "OR", mit.text] (bespoke.text ++ " OR " ++ mit.text).toList) ∧
    (Expression.or (.licence bespoke none) (.licence mit none)).meaning = .allowed ∧
    verdictOf (bespoke.text ++ " OR " ++ mit.text) = some .noGrant ∧
    verdictOf (mit.text ++ " OR " ++ bespoke.text) = some .allowed :=
  ⟨spelled_or bespoke mit, by decide +kernel, by decide +kernel, by decide +kernel⟩

end RentalMarket.Licences
