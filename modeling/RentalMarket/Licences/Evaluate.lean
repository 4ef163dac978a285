import RentalMarket.Licences.Classify
import RentalMarket.Lib.Words

namespace RentalMarket.Licences

open Script (isSpace)
open Words

def isParenthesis (c : Char) : Bool := decide (c = '(' ∨ c = ')')

def separated (text : List Char) : List Char := text.flatMap (fun c => if isParenthesis c then [' ', c, ' '] else [c])

def tokenise (expression : String) : List String := (words isSpace (separated expression.toList)).map String.ofList

example : tokenise "(MIT OR GPL-3.0)" = ["(", "MIT", "OR", "GPL-3.0", ")"] := by decide +kernel

def isOperator (token word : String) : Bool := decide (toUpperCase token = word.toList)

structure Evaluation where
  verdict : Verdict
  identifiers : List String
  unrecognised : List String
  deriving DecidableEq, Repr

def judged (token : String) : Evaluation :=
  let c := classifyIdentifier token
  ⟨c.verdict, if c.verdict = .allowed then [] else [c.id], if c.known then [] else [c.id]⟩

theorem judged_verdict (token : String) : (judged token).verdict = (classifyIdentifier token).verdict := by
  simp only [judged]

/-- `AND` takes the stricter operand. -/
def both (left right : Evaluation) : Evaluation :=
  ⟨if severity right.verdict > severity left.verdict then right.verdict else left.verdict,
    left.identifiers ++ right.identifiers, left.unrecognised ++ right.unrecognised⟩

/-- `OR` takes the more permissive one. -/
def either (left right : Evaluation) : Evaluation :=
  if severity right.verdict < severity left.verdict then right else left

theorem both_verdict (left right : Evaluation) : (both left right).verdict = max left.verdict right.verdict := by
  rw [both, max_def_lt]
  rfl

theorem either_verdict (left right : Evaluation) : (either left right).verdict = min left.verdict right.verdict := by
  rw [either, min_comm, min_def_lt]
  by_cases h : severity right.verdict < severity left.verdict
  · rw [if_pos h]
    exact (if_pos h).symm
  · rw [if_neg h]
    exact (if_neg h).symm

def isNext (tokens : List String) (word : String) : Bool := tokens.head?.any (fun token => isOperator token word)

mutual

/-- What is left of the tokens comes with the evaluation. -/
def parseFactor : ℕ → List String → Option (Evaluation × List String)
  | 0, _ => none
  | fuel + 1, tokens =>
    if tokens.head? = some "(" then
      (parseExpression fuel tokens.tail).map (fun m => (m.1, if m.2.head? = some ")" then m.2.tail else m.2))
    else some (judged (tokens.head?.getD ""), if isNext tokens.tail "WITH" then tokens.tail.drop 2 else tokens.tail)

def parseTerm : ℕ → List String → Option (Evaluation × List String)
  | 0, _ => none
  | fuel + 1, tokens => (parseFactor fuel tokens).bind (fun m => parseFactors fuel m.1 m.2)

def parseFactors : ℕ → Evaluation → List String → Option (Evaluation × List String)
  | 0, _, _ => none
  | fuel + 1, left, tokens =>
    if isNext tokens "AND" then (parseFactor fuel tokens.tail).bind (fun m => parseFactors fuel (both left m.1) m.2)
    else some (left, tokens)

def parseExpression : ℕ → List String → Option (Evaluation × List String)
  | 0, _ => none
  | fuel + 1, tokens => (parseTerm fuel tokens).bind (fun m => parseTerms fuel m.1 m.2)

def parseTerms : ℕ → Evaluation → List String → Option (Evaluation × List String)
  | 0, _, _ => none
  | fuel + 1, left, tokens =>
    if isNext tokens "OR" then (parseTerm fuel tokens.tail).bind (fun m => parseTerms fuel (either left m.1) m.2)
    else some (left, tokens)

end

/-- What the tokens left after the expression are is not asked. -/
def evaluateExpression (expression : String) : Option Evaluation :=
  if noGrantReason expression ≠ none then
    let declaration := Script.trim expression
    some ⟨.noGrant, [if declaration = "" then "(none)" else declaration], []⟩
  else
    let tokens := tokenise expression
    (parseExpression (3 * tokens.length + 3) tokens).map
      (fun m => ⟨m.1.verdict, m.1.identifiers.eraseDups, m.1.unrecognised.eraseDups⟩)

example : evaluateExpression "(MIT OR GPL-3.0) AND LGPL-3.0-only" = some ⟨.review, ["LGPL-3.0"], []⟩ := by decide +kernel

def verdictOf (expression : String) : Option Verdict := (evaluateExpression expression).map Evaluation.verdict

/-- A part of the grammar has been read, and no more is left than there was. -/
def Reads (tokens : List String) (m : Option (Evaluation × List String)) : Prop :=
  ∃ evaluation rest, m = some (evaluation, rest) ∧ rest.length ≤ tokens.length

variable {tokens rest : List String} {m : Option (Evaluation × List String)} {word : String}

theorem Reads.bind {f : Evaluation × List String → Option (Evaluation × List String)} (h : Reads tokens m)
    (hf : ∀ evaluation rest, rest.length ≤ tokens.length → Reads rest (f (evaluation, rest))) : Reads tokens (m.bind f) := by
  obtain ⟨evaluation, rest, rfl, hle⟩ := h
  obtain ⟨evaluation', rest', hsome, hle'⟩ := hf evaluation rest hle
  exact ⟨evaluation', rest', hsome, hle'.trans hle⟩

theorem Reads.mono (h : Reads rest m) (hle : rest.length ≤ tokens.length) : Reads tokens m := by
  obtain ⟨evaluation, rest', hsome, hle'⟩ := h
  exact ⟨evaluation, rest', hsome, hle'.trans hle⟩

theorem length_of_isNext (h : isNext tokens word = true) : tokens.length = tokens.tail.length + 1 := by
  cases tokens with
  | nil => cases h
  | cons token tokens => rfl

/-- Enough fuel reads whatever there is. -/
theorem reads (fuel : ℕ) :
    (∀ tokens, 3 * tokens.length + 1 ≤ fuel → Reads tokens (parseFactor fuel tokens)) ∧
    (∀ tokens, 3 * tokens.length + 2 ≤ fuel → Reads tokens (parseTerm fuel tokens)) ∧
    (∀ left tokens, 3 * tokens.length + 1 ≤ fuel → Reads tokens (parseFactors fuel left tokens)) ∧
    (∀ tokens, 3 * tokens.length + 3 ≤ fuel → Reads tokens (parseExpression fuel tokens)) ∧
    ∀ left tokens, 3 * tokens.length + 2 ≤ fuel → Reads tokens (parseTerms fuel left tokens) := by
  induction fuel with
  | zero => refine ⟨?_, ?_, ?_, ?_, ?_⟩ <;> intros <;> omega
  | succ fuel ih =>
    obtain ⟨hfactor, hterm, hfactors, hexpression, hterms⟩ := ih
    refine ⟨?_, ?_, ?_, ?_, ?_⟩
    · intro tokens hfuel
      rw [parseFactor]
      split
      · rename_i hopen
        have hlength : tokens.length = tokens.tail.length + 1 := by
          cases tokens with
          | nil => cases hopen
          | cons token tokens => rfl
        obtain ⟨evaluation, rest, hsome, hle⟩ := hexpression tokens.tail (by omega)
        rw [hsome]
        refine ⟨evaluation, _, rfl, ?_⟩
        dsimp only
        split
        · rw [List.length_tail]
          omega
        · omega
      · refine ⟨_, _, rfl, ?_⟩
        split
        · rw [List.length_drop, List.length_tail]
          omega
        · rw [List.length_tail]
          omega
    · intro tokens hfuel
      rw [parseTerm]
      exact (hfactor tokens (by omega)).bind (fun left rest hle => hfactors left rest (by omega))
    · intro left tokens hfuel
      rw [parseFactors]
      split
      · rename_i hand
        have hlength := length_of_isNext hand
        refine Reads.mono ((hfactor tokens.tail (by omega)).bind ?_) (by omega)
        exact fun right rest hle => hfactors (both left right) rest (by omega)
      · exact ⟨left, tokens, rfl, le_rfl⟩
    · intro tokens hfuel
      rw [parseExpression]
      exact (hterm tokens (by omega)).bind (fun left rest hle => hterms left rest (by omega))
    · intro left tokens hfuel
      rw [parseTerms]
      split
      · rename_i hor
        have hlength := length_of_isNext hor
        refine Reads.mono ((hterm tokens.tail (by omega)).bind ?_) (by omega)
        exact fun right rest hle => hterms (either left right) rest (by omega)
      · exact ⟨left, tokens, rfl, le_rfl⟩

theorem verdictOf_eq (expression : String) :
    noGrantReason expression ≠ none ∧ verdictOf expression = some .noGrant ∨
    noGrantReason expression = none ∧ ∃ fuel evaluation rest,
      parseExpression fuel (tokenise expression) = some (evaluation, rest) ∧
        verdictOf expression = some evaluation.verdict := by
  rw [verdictOf, evaluateExpression]
  by_cases hreason : noGrantReason expression ≠ none
  · refine .inl ⟨hreason, ?_⟩
    rw [if_pos hreason]
    rfl
  · obtain ⟨evaluation, rest, hsome, -⟩ := (reads _).2.2.2.1 (tokenise expression) le_rfl
    refine .inr ⟨not_not.mp hreason, _, evaluation, rest, hsome, ?_⟩
    rw [if_neg hreason]
    dsimp only
    rw [hsome]
    rfl

end RentalMarket.Licences
