import RentalMarket.Licences.Evaluate

namespace RentalMarket.Licences

open Script (isSpace trim)
open Words

structure Word where
  text : String
  nonempty : text ≠ ""
  plain : ∀ c ∈ text.toList, isSpace c = false ∧ isParenthesis c = false

structure Identifier extends Word where
  notOperator : ∀ word ∈ ["AND", "OR", "WITH"], isOperator text word = false

inductive Expression where
  | licence (id : Identifier) (exception : Option Word)
  | and (left right : Expression)
  | or (left right : Expression)

namespace Expression

/-- Under both licences we are obliged by both, of two we may choose. -/
def meaning : Expression → Verdict
  | licence id _ => (classifyIdentifier id.text).verdict
  | and left right => max left.meaning right.meaning
  | or left right => min left.meaning right.meaning

/-- No choice escapes a licence that grants nothing. -/
def Refused : Expression → Prop
  | licence id _ => (classifyIdentifier id.text).verdict = .noGrant
  | and left right => left.Refused ∨ right.Refused
  | or left right => left.Refused ∧ right.Refused

theorem refused_iff (e : Expression) : e.Refused ↔ e.meaning = .noGrant := by
  have htop : ∀ a b : Verdict, (max a b = .noGrant ↔ a = .noGrant ∨ b = .noGrant) ∧
      (min a b = .noGrant ↔ a = .noGrant ∧ b = .noGrant) := by
    intro a b
    cases a <;> cases b <;> decide
  induction e with
  | licence id exception => exact Iff.rfl
  | and left right ihl ihr => exact (or_congr ihl ihr).trans (htop _ _).1.symm
  | or left right ihl ihr => exact (and_congr ihl ihr).trans (htop _ _).2.symm

/-- Operands are swapped and brought together otherwise. -/
inductive Rearranged : Expression → Expression → Prop where
  | refl (e) : Rearranged e e
  | symm {e e'} : Rearranged e e' → Rearranged e' e
  | trans {e e' e''} : Rearranged e e' → Rearranged e' e'' → Rearranged e e''
  | and {l l' r r'} : Rearranged l l' → Rearranged r r' → Rearranged (and l r) (and l' r')
  | or {l l' r r'} : Rearranged l l' → Rearranged r r' → Rearranged (or l r) (or l' r')
  | and_comm (l r) : Rearranged (and l r) (and r l)
  | or_comm (l r) : Rearranged (or l r) (or r l)
  | and_assoc (a b c) : Rearranged (and (and a b) c) (and a (and b c))
  | or_assoc (a b c) : Rearranged (or (or a b) c) (or a (or b c))

theorem Rearranged.meaning_eq {e e' : Expression} (h : Rearranged e e') : e.meaning = e'.meaning := by
  induction h with
  | refl e => rfl
  | symm _ ih => exact ih.symm
  | trans _ _ ih ih' => exact ih.trans ih'
  | and _ _ ihl ihr => rw [meaning, meaning, ihl, ihr]
  | or _ _ ihl ihr => rw [meaning, meaning, ihl, ihr]
  | and_comm l r => exact max_comm _ _
  | or_comm l r => exact min_comm _ _
  | and_assoc a b c => exact max_assoc _ _ _
  | or_assoc a b c => exact min_assoc _ _ _

end Expression

/-- What may stand where: an operand, a chain of `AND`, a chain of `OR`. -/
inductive Level where
  | factor
  | term
  | expression

/-- The tokens an expression may be written in. Parentheses may be put around any part, and operators
in any case. -/
inductive Spells : Level → Expression → List String → Prop where
  | identifier (id : Identifier) : Spells .factor (.licence id none) [id.text]
  | exception (id : Identifier) (operator word : Word) (h : isOperator operator.text "WITH" = true) :
    Spells .factor (.licence id (some word)) [id.text, operator.text, word.text]
  | parentheses {e tokens} : Spells .expression e tokens → Spells .factor e ("(" :: (tokens ++ [")"]))
  | factor {e tokens} : Spells .factor e tokens → Spells .term e tokens
  | and {l r tokens tokens'} (operator : Word) (h : isOperator operator.text "AND" = true) :
    Spells .term l tokens → Spells .term r tokens' → Spells .term (.and l r) (tokens ++ operator.text :: tokens')
  | term {e tokens} : Spells .term e tokens → Spells .expression e tokens
  | or {l r tokens tokens'} (operator : Word) (h : isOperator operator.text "OR" = true) :
    Spells .expression l tokens → Spells .expression r tokens' →
      Spells .expression (.or l r) (tokens ++ operator.text :: tokens')

/-- The texts that tokens may be printed as. Only words need something between them. -/
inductive Printed : List String → List Char → Prop where
  | blank {gap} (hgap : ∀ c ∈ gap, isSpace c = true) : Printed [] gap
  | parenthesis {gap token tokens text} (hgap : ∀ c ∈ gap, isSpace c = true) (htoken : token = "(" ∨ token = ")")
    (h : Printed tokens text) : Printed (token :: tokens) (gap ++ (token.toList ++ text))
  | word {gap tokens text} (hgap : ∀ c ∈ gap, isSpace c = true) (word : Word) (h : Printed tokens text)
    (hnext : ∀ c ∈ text.head?, isSpace c = true ∨ isParenthesis c = true) :
    Printed (word.text :: tokens) (gap ++ (word.text.toList ++ text))

variable {level : Level} {e : Expression} {tokens rest : List String} {text gap word : List Char} {token : String}

section

theorem separated_append (text text' : List Char) : separated (text ++ text') = separated text ++ separated text' :=
  List.flatMap_append

theorem separated_of_plain (h : ∀ c ∈ text, isParenthesis c = false) : separated text = text := by
  induction text with
  | nil => rfl
  | cons c text ih =>
    rw [separated, List.flatMap_cons, h c List.mem_cons_self]
    exact congrArg (c :: ·) (ih (fun d hd => h d (List.mem_cons_of_mem c hd)))

theorem isParenthesis_of_isSpace {c : Char} (h : isSpace c = true) : isParenthesis c = false := by
  rw [isParenthesis, decide_eq_false_iff_not]
  rintro (rfl | rfl) <;> cases h

theorem head_separated (h : ∀ c ∈ text.head?, isSpace c = true ∨ isParenthesis c = true) :
    ∀ c ∈ (separated text).head?, isSpace c = true := by
  intro c hc
  cases text with
  | nil => cases hc
  | cons d text =>
    rw [separated, List.flatMap_cons] at hc
    split at hc
    · cases hc
      decide
    · rename_i hd
      cases hc
      exact (h _ rfl).resolve_right hd

theorem words_separated_gap (hgap : ∀ c ∈ gap, isSpace c = true) (text : List Char) :
    words isSpace (separated (gap ++ text)) = words isSpace (separated text) := by
  rw [separated_append, separated_of_plain (fun c hc => isParenthesis_of_isSpace (hgap c hc)), words_gap_append hgap]

theorem words_separated_word (hword : ∀ c ∈ word, isSpace c = false ∧ isParenthesis c = false) (hne : word ≠ [])
    (htext : ∀ c ∈ text.head?, isSpace c = true ∨ isParenthesis c = true) :
    words isSpace (separated (word ++ text)) = word :: words isSpace (separated text) := by
  rw [separated_append, separated_of_plain (fun c hc => (hword c hc).2),
    words_word_append (fun c hc => (hword c hc).1) hne (head_separated htext)]

theorem words_separated_parenthesis {c : Char} (hc : isParenthesis c = true) (text : List Char) :
    words isSpace (separated (c :: text)) = [c] :: words isSpace (separated text) := by
  have hspace : isSpace ' ' = true := by decide
  have hplain : isSpace c = false := by
    by_contra h
    rw [isParenthesis_of_isSpace (by simpa using h)] at hc
    cases hc
  have hsplit : separated (c :: text) = ' ' :: ([c] ++ ' ' :: separated text) := by
    rw [separated, List.flatMap_cons, if_pos hc]
    rfl
  rw [hsplit, words_cons hspace, words_append_cons [c] hspace, words_eq_singleton (by simpa using hplain) (by simp)]
  rfl

end

theorem words_printed (h : Printed tokens text) : (words isSpace (separated text)).map String.ofList = tokens := by
  induction h with
  | blank hgap =>
    have hnone := words_separated_gap hgap []
    rw [List.append_nil] at hnone
    rw [hnone]
    rfl
  | @parenthesis gap token tokens text hgap htoken h ih =>
    rw [words_separated_gap hgap]
    obtain rfl | rfl := htoken
    · exact (congrArg _ (words_separated_parenthesis (by decide) text)).trans (congrArg _ ih)
    · exact (congrArg _ (words_separated_parenthesis (by decide) text)).trans (congrArg _ ih)
  | word hgap word h hnext ih =>
    rw [words_separated_gap hgap, words_separated_word word.plain (by simpa using word.nonempty) hnext, List.map_cons, ih,
      String.ofList_toList]

theorem tokenise_printed {expression : String} (h : Printed tokens expression.toList) : tokenise expression = tokens :=
  words_printed h

theorem isNext_cons (token : String) (tokens : List String) (word : String) :
    isNext (token :: tokens) word = isOperator token word := rfl

theorem isNext_of_operator {word other : String} (h : isOperator token word = true) (hne : word ≠ other)
    (tokens : List String) : isNext (token :: tokens) other = false := by
  rw [isNext_cons, isOperator, decide_eq_false_iff_not]
  intro hother
  exact hne (String.toList_inj.mp ((of_decide_eq_true h).symm.trans hother))

theorem Word.text_ne (word : Word) : word.text ≠ "(" := by
  intro h
  have hopen : isParenthesis '(' = false := (word.plain '(' (by rw [h]; decide)).2
  cases hopen

theorem parseFactor_word (fuel : ℕ) (word : Word) (rest : List String) : parseFactor (fuel + 1) (word.text :: rest) =
    some (judged word.text, if isNext rest "WITH" then rest.drop 2 else rest) := by
  rw [parseFactor, if_neg (by rw [List.head?_cons, Option.some.injEq]; exact word.text_ne)]
  rfl

def Read (verdict : Verdict) (tokens : List String) : Level → Prop
  | .factor => ∀ fuel rest m, isNext rest "WITH" = false → parseFactor fuel (tokens ++ rest) = some m →
      m.1.verdict = verdict ∧ m.2 = rest
  | .term => ∀ fuel rest m (f : Evaluation → Evaluation) before, isNext rest "WITH" = false →
      (∀ right, (f right).verdict = max before right.verdict) →
      (parseFactor fuel (tokens ++ rest)).bind (fun m => parseFactors fuel (f m.1) m.2) = some m →
      ∃ fuel left, left.verdict = max before verdict ∧ parseFactors fuel left rest = some m
  | .expression => ∀ fuel rest m (f : Evaluation → Evaluation) before, isNext rest "WITH" = false →
      isNext rest "AND" = false → (∀ right, (f right).verdict = min before right.verdict) →
      (parseTerm fuel (tokens ++ rest)).bind (fun m => parseTerms fuel (f m.1) m.2) = some m →
      ∃ fuel left, left.verdict = min before verdict ∧ parseTerms fuel left rest = some m

theorem parseTerm_eq_some {fuel : ℕ} {m : Evaluation × List String} (h : parseTerm fuel tokens = some m) :
    ∃ fuel, (parseFactor fuel tokens).bind (fun m => parseFactors fuel m.1 m.2) = some m := by
  cases fuel with
  | zero => cases h
  | succ fuel => exact ⟨fuel, by rw [← h, parseTerm]⟩

theorem parseExpression_eq_some {fuel : ℕ} {m : Evaluation × List String} (h : parseExpression fuel tokens = some m) :
    ∃ fuel, (parseTerm fuel tokens).bind (fun m => parseTerms fuel m.1 m.2) = some m := by
  cases fuel with
  | zero => cases h
  | succ fuel => exact ⟨fuel, by rw [← h, parseExpression]⟩

theorem parseFactors_stop {fuel : ℕ} {left : Evaluation} {m : Evaluation × List String} (hand : isNext rest "AND" = false)
    (h : parseFactors fuel left rest = some m) : m = (left, rest) := by
  cases fuel with
  | zero => cases h
  | succ fuel =>
    rw [parseFactors, if_neg (by rw [hand]; decide)] at h
    exact (Option.some.inj h).symm

theorem parseTerms_stop {fuel : ℕ} {left : Evaluation} {m : Evaluation × List String} (hor : isNext rest "OR" = false)
    (h : parseTerms fuel left rest = some m) : m = (left, rest) := by
  cases fuel with
  | zero => cases h
  | succ fuel =>
    rw [parseTerms, if_neg (by rw [hor]; decide)] at h
    exact (Option.some.inj h).symm

theorem read_expression {verdict : Verdict} (hread : Read verdict tokens .expression) {fuel : ℕ}
    {m : Evaluation × List String} (hwith : isNext rest "WITH" = false) (hand : isNext rest "AND" = false)
    (hor : isNext rest "OR" = false) (h : parseExpression fuel (tokens ++ rest) = some m) :
    m.1.verdict = verdict ∧ m.2 = rest := by
  obtain ⟨fuel, hterm⟩ := parseExpression_eq_some h
  obtain ⟨fuel, left, hleft, hterms⟩ := hread fuel rest m id .noGrant hwith hand
    (fun right => (min_eq_right (le_noGrant _)).symm) hterm
  rw [parseTerms_stop hor hterms]
  exact ⟨hleft.trans (min_eq_right (le_noGrant _)), rfl⟩

/-- What is spelled is read, one case for each way to write it. -/
theorem read_spelled (h : Spells level e tokens) : Read e.meaning tokens level := by
  induction h with
  | identifier id =>
    intro fuel rest m hwith hm
    cases fuel with
    | zero => cases hm
    | succ fuel =>
      rw [List.singleton_append, parseFactor_word, hwith] at hm
      obtain rfl := Option.some.inj hm
      exact ⟨judged_verdict id.text, rfl⟩
  | exception id operator word hoperator =>
    intro fuel rest m hwith hm
    cases fuel with
    | zero => cases hm
    | succ fuel =>
      have hnext : isNext ([operator.text, word.text] ++ rest) "WITH" = true := hoperator
      rw [List.cons_append, parseFactor_word, hnext] at hm
      obtain rfl := Option.some.inj hm
      exact ⟨judged_verdict id.text, rfl⟩
  | @parentheses e tokens h ih =>
    intro fuel rest m hwith hm
    cases fuel with
    | zero => cases hm
    | succ fuel =>
      rw [parseFactor, if_pos (by rfl)] at hm
      have htail : ("(" :: (tokens ++ [")"]) ++ rest).tail = tokens ++ ")" :: rest := by simp
      rw [htail] at hm
      obtain ⟨m', hm', rfl⟩ := Option.map_eq_some_iff.mp hm
      have hclose : ∀ word ∈ ["WITH", "AND", "OR"], isNext (")" :: rest) word = false := by
        simp only [isNext_cons]
        decide
      obtain ⟨hverdict, hrest⟩ := read_expression ih (hclose _ (by decide)) (hclose _ (by decide)) (hclose _ (by decide)) hm'
      rw [hrest]
      exact ⟨hverdict, rfl⟩
  | factor h ih =>
    intro fuel rest m f before hwith hf hm
    obtain ⟨m', hm', hfactors⟩ := Option.bind_eq_some_iff.mp hm
    obtain ⟨hverdict, hrest⟩ := ih fuel rest m' hwith hm'
    rw [hrest] at hfactors
    exact ⟨fuel, f m'.1, by rw [hf, hverdict], hfactors⟩
  | @and l r tokens tokens' operator hoperator hl hr ihl ihr =>
    intro fuel rest m f before hwith hf hm
    rw [List.append_assoc] at hm
    obtain ⟨fuel, left, hleft, hfactors⟩ := ihl fuel (operator.text :: tokens' ++ rest) m f before
      (isNext_of_operator hoperator (by decide) _) hf hm
    cases fuel with
    | zero => cases hfactors
    | succ fuel =>
      rw [List.cons_append, parseFactors, isNext_cons, if_pos hoperator] at hfactors
      obtain ⟨fuel, left', hleft', hfactors'⟩ := ihr fuel rest m (both left) left.verdict hwith (both_verdict left) hfactors
      exact ⟨fuel, left', by rw [hleft', hleft, Expression.meaning, max_assoc], hfactors'⟩
  | term h ih =>
    intro fuel rest m f before hwith hand hf hm
    obtain ⟨m', hm', hterms⟩ := Option.bind_eq_some_iff.mp hm
    obtain ⟨fuel', hfactor⟩ := parseTerm_eq_some hm'
    obtain ⟨fuel', left, hleft, hfactors⟩ := ih fuel' rest m' id .allowed hwith
      (fun right => (max_eq_right (allowed_le _)).symm) hfactor
    rw [parseFactors_stop hand hfactors] at hterms
    exact ⟨fuel, f left, by rw [hf, hleft, max_eq_right (allowed_le _)], hterms⟩
  | @or l r tokens tokens' operator hoperator hl hr ihl ihr =>
    intro fuel rest m f before hwith hand hf hm
    rw [List.append_assoc] at hm
    obtain ⟨fuel, left, hleft, hterms⟩ := ihl fuel (operator.text :: tokens' ++ rest) m f before
      (isNext_of_operator hoperator (by decide) _) (isNext_of_operator hoperator (by decide) _) hf hm
    cases fuel with
    | zero => cases hterms
    | succ fuel =>
      rw [List.cons_append, parseTerms, isNext_cons, if_pos hoperator] at hterms
      obtain ⟨fuel, left', hleft', hterms'⟩ :=
        ihr fuel rest m (either left) left.verdict hwith hand (either_verdict left) hterms
      exact ⟨fuel, left', by rw [hleft', hleft, Expression.meaning, min_assoc], hterms'⟩

end RentalMarket.Licences
