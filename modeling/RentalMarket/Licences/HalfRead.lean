import RentalMarket.Licences.Expression

namespace RentalMarket.Licences

def isParenthesisToken (token : String) : Bool := decide (token = "(" ∨ token = ")")

/-- The tokens that name a licence: no parenthesis, no `AND`, no `WITH` and not what comes directly
after one. -/
def licenceTokens : Bool → List String → List String
  | _, [] => []
  | afterWith, token :: tokens =>
    if afterWith || isParenthesisToken token || isOperator token "AND" || isOperator token "WITH" then
      licenceTokens (isOperator token "WITH") tokens
    else token :: licenceTokens (isOperator token "WITH") tokens

/-- Where the reading of a text without `OR` is. Only an identifier takes an exception. -/
inductive Place where
  | operand
  | exception
  | after (identifier : Bool)

structure Reading where
  operands : List String
  unread : List String

def Reading.prepend (operands : List String) (r : Reading) : Reading := ⟨operands ++ r.operands, r.unread⟩

/-- What is read as an operand, and what names a licence after the token at which the reading stops.
A missing operand is an empty one. -/
def walk : Place → ℕ → Bool → List String → Reading
  | .operand, _, _, [] => ⟨[""], []⟩
  | _, _, _, [] => ⟨[], []⟩
  | .operand, depth, _, token :: tokens =>
    if token = "(" then walk .operand (depth + 1) false tokens
    else (walk (.after true) depth (isOperator token "WITH") tokens).prepend [token]
  | .exception, depth, _, token :: tokens => walk (.after false) depth (isOperator token "WITH") tokens
  | .after identifier, depth, afterWith, token :: tokens =>
    if identifier && isOperator token "WITH" then walk .exception depth true tokens
    else if isOperator token "AND" then walk .operand depth false tokens
    else if token = ")" ∧ 0 < depth then walk (.after false) (depth - 1) false tokens
    else ⟨[], licenceTokens afterWith (token :: tokens)⟩

def readingOf (expression : String) : Reading := walk .operand 0 false (tokenise expression)

def strictest (tokens : List String) : Verdict :=
  tokens.foldr (fun token verdict => max (classifyIdentifier token).verdict verdict) .allowed

variable {tokens rest operands : List String} {token : String} {depth : ℕ} {afterWith : Bool} {verdict : Verdict}

theorem strictest_append (tokens tokens' : List String) :
    strictest (tokens ++ tokens') = max (strictest tokens) (strictest tokens') := by
  induction tokens with
  | nil => exact (max_eq_right (allowed_le _)).symm
  | cons token tokens ih =>
    calc strictest (token :: tokens ++ tokens')
        = max (classifyIdentifier token).verdict (max (strictest tokens) (strictest tokens')) := congrArg (max (classifyIdentifier token).verdict) ih
      _ = max (strictest (token :: tokens)) (strictest tokens') := (max_assoc _ _ _).symm

theorem strictest_singleton (token : String) : strictest [token] = (classifyIdentifier token).verdict :=
  max_eq_left (allowed_le _)

theorem le_strictest_iff (hne : tokens ≠ []) :
    verdict ≤ strictest tokens ↔ ∃ token ∈ tokens, verdict ≤ (classifyIdentifier token).verdict := by
  induction tokens with
  | nil => exact absurd rfl hne
  | cons token tokens ih =>
    have hcons : strictest (token :: tokens) = max (classifyIdentifier token).verdict (strictest tokens) := rfl
    rw [hcons, le_max_iff, List.exists_mem_cons_iff]
    by_cases hnil : tokens = []
    · subst hnil
      have hallowed : verdict ≤ strictest [] → verdict ≤ (classifyIdentifier token).verdict :=
        fun h => h.trans (allowed_le _)
      simp only [List.not_mem_nil, false_and, exists_false, or_false, or_iff_left_iff_imp]
      exact hallowed
    · rw [ih hnil]

/-- Every token that names a licence is an operand, or is not read. -/
structure Accounts (tokens : List String) (r : Reading) : Prop where
  covered : ∀ token ∈ tokens, token ∈ r.operands ∨ token ∈ r.unread
  named : ∀ token ∈ r.unread, token ∈ tokens

theorem Accounts.prepend {r : Reading} (h : Accounts tokens r) (operands : List String) :
    Accounts tokens (r.prepend operands) :=
  ⟨fun token htoken => (h.covered token htoken).imp_left (List.mem_append_right operands), h.named⟩

theorem Accounts.cons {r : Reading} (h : Accounts tokens r) (token : String) :
    Accounts (token :: tokens) (r.prepend [token]) := by
  constructor
  · intro t ht
    obtain rfl | ht := List.mem_cons.mp ht
    · exact .inl List.mem_cons_self
    · exact (h.covered t ht).imp_left (List.mem_append_right [token])
  · exact fun t ht => List.mem_cons_of_mem token (h.named t ht)

theorem isOperator_of_eq {word other : String} (h : isOperator token word = true) (hne : word ≠ other) :
    isOperator token other = false := isNext_of_operator h hne []

/-- The reading accounts for the tokens, wherever it is. -/
theorem accounts_walk (place : Place) (hoperand : place = .operand → afterWith = false)
    (hexception : place = .exception → afterWith = true) (depth : ℕ) :
    Accounts (licenceTokens afterWith tokens) (walk place depth afterWith tokens) := by
  induction tokens generalizing place depth afterWith with
  | nil =>
    constructor
    · intro token htoken
      cases htoken
    · intro token htoken
      cases place <;> cases htoken
  | cons token tokens ih =>
    cases place with
    | operand =>
      obtain rfl := hoperand rfl
      rw [walk, licenceTokens]
      by_cases hopen : token = "("
      · subst hopen
        exact ih .operand (fun _ => rfl) (fun h => by cases h) (depth + 1)
      · rw [if_neg hopen]
        have hrest : Accounts (licenceTokens (isOperator token "WITH") tokens)
            (walk (.after true) depth (isOperator token "WITH") tokens) :=
          ih (.after true) (fun h => by cases h) (fun h => by cases h) depth
        split
        · exact hrest.prepend [token]
        · exact hrest.cons token
    | exception =>
      obtain rfl := hexception rfl
      rw [walk, licenceTokens]
      exact ih (.after false) (fun h => by cases h) (fun h => by cases h) depth
    | after identifier =>
      rw [walk]
      split
      · rename_i hwith
        have hoperator := (Bool.and_eq_true_iff.mp hwith).2
        rw [licenceTokens, if_pos (by simp [hoperator]), hoperator]
        exact ih .exception (fun h => by cases h) (fun _ => rfl) depth
      · split
        · rename_i hand
          rw [licenceTokens, if_pos (by simp [hand]), isOperator_of_eq hand (by decide)]
          exact ih .operand (fun _ => rfl) (fun h => by cases h) depth
        · split
          · rename_i hclose
            obtain ⟨rfl, -⟩ := hclose
            have hnot : isOperator ")" "WITH" = false := by decide
            rw [licenceTokens, if_pos (by simp [isParenthesisToken]), hnot]
            exact ih (.after false) (fun h => by cases h) (fun h => by cases h) (depth - 1)
          · exact ⟨fun t ht => .inr ht, fun t ht => ht⟩

/-- No token is `OR`. -/
def NoChoice (tokens : List String) : Prop := ∀ token ∈ tokens, isOperator token "OR" = false

theorem NoChoice.tail (h : NoChoice tokens) : NoChoice tokens.tail := fun token htoken => h token (List.mem_of_mem_tail htoken)

theorem NoChoice.not_isNext (h : NoChoice tokens) : isNext tokens "OR" = false := by
  cases tokens with
  | nil => rfl
  | cons token tokens => exact h token List.mem_cons_self

theorem Reading.prepend_prepend (operands operands' : List String) (r : Reading) :
    (r.prepend operands').prepend operands = r.prepend (operands ++ operands') := by
  rw [prepend, prepend, prepend, List.append_assoc]

theorem walk_stop (hand : isNext rest "AND" = false) (hclose : rest.head? = some ")" → depth = 0) :
    walk (.after false) depth afterWith rest = ⟨[], licenceTokens afterWith rest⟩ := by
  cases rest with
  | nil => rfl
  | cons token rest =>
    rw [walk, Bool.false_and, if_neg Bool.false_ne_true, if_neg (by rw [← isNext_cons, hand]; decide), if_neg]
    rintro ⟨rfl, hpos⟩
    exact absurd (hclose rfl) (by omega)

theorem walk_with (h : isOperator token "WITH" = true) (depth : ℕ) (afterWith : Bool) (tokens : List String) :
    walk (.after true) depth afterWith (token :: tokens) = walk .exception depth true tokens := by
  rw [walk, h]
  rfl

theorem walk_not_with (h : ¬isOperator token "WITH" = true) (depth : ℕ) (afterWith : Bool) (tokens : List String) :
    walk (.after true) depth afterWith (token :: tokens) = walk (.after false) depth afterWith (token :: tokens) := by
  simp only [walk, h, Bool.and_false]

theorem walk_after_identifier (depth : ℕ) (afterWith : Bool) (tokens : List String) : ∃ afterWith',
    walk (.after true) depth afterWith tokens =
      walk (.after false) depth afterWith' (if isNext tokens "WITH" then tokens.drop 2 else tokens) := by
  match tokens with
  | [] => exact ⟨afterWith, rfl⟩
  | [token] =>
    rw [isNext_cons]
    by_cases hwith : isOperator token "WITH" = true
    · exact ⟨afterWith, by rw [if_pos hwith, walk_with hwith]; rfl⟩
    · exact ⟨afterWith, by rw [if_neg hwith, walk_not_with hwith]⟩
  | token :: exception :: tokens =>
    rw [isNext_cons]
    by_cases hwith : isOperator token "WITH" = true
    · exact ⟨isOperator exception "WITH", by rw [if_pos hwith, walk_with hwith]; rfl⟩
    · exact ⟨afterWith, by rw [if_neg hwith, walk_not_with hwith]⟩

/-- The parser goes from one place to the other where the walk does, with the strictest verdict on the operands. -/
def Follows (before : Verdict) (place : Place) (tokens : List String) (m : Evaluation × List String) : Prop :=
  NoChoice m.2 ∧ ∀ depth afterWith, (place = .operand → afterWith = false) → ∃ operands afterWith',
    walk place depth afterWith tokens = (walk (.after false) depth afterWith' m.2).prepend operands ∧
      m.1.verdict = max before (strictest operands)

variable {left right : Evaluation} {m : Evaluation × List String} {place : Place} {before : Verdict}

theorem Follows.trans (h : Follows before place tokens (left, rest)) (h' : Follows left.verdict (.after false) rest m) :
    Follows before place tokens m := by
  refine ⟨h'.1, ?_⟩
  intro depth afterWith hplace
  obtain ⟨operands, afterWith', hwalk, hverdict⟩ := h.2 depth afterWith hplace
  obtain ⟨operands', afterWith'', hwalk', hverdict'⟩ := h'.2 depth afterWith' (fun hoperand => by cases hoperand)
  refine ⟨operands ++ operands', afterWith'', ?_, ?_⟩
  · rw [hwalk, hwalk', Reading.prepend_prepend]
  · rw [hverdict', hverdict, strictest_append, max_assoc]

theorem Follows.and (hand : isNext tokens "AND" = true) (h : Follows .allowed .operand tokens.tail (right, rest)) :
    Follows left.verdict (.after false) tokens (both left right, rest) := by
  refine ⟨h.1, ?_⟩
  intro depth afterWith _
  obtain ⟨operands, afterWith', hwalk, hverdict⟩ := h.2 depth false (fun _ => rfl)
  cases tokens with
  | nil => cases hand
  | cons token tokens =>
    rw [isNext_cons] at hand
    refine ⟨operands, afterWith', ?_, ?_⟩
    · rw [walk, Bool.false_and, if_neg Bool.false_ne_true, if_pos hand]
      exact hwalk
    · rw [both_verdict, hverdict, max_eq_right (allowed_le _)]

theorem Follows.refl (h : NoChoice rest) (left : Evaluation) : Follows left.verdict (.after false) rest (left, rest) :=
  ⟨h, fun _ afterWith _ => ⟨[], afterWith, rfl, (max_eq_left (allowed_le _)).symm⟩⟩

theorem walk_close (hand : isNext rest "AND" = false) (depth : ℕ) (afterWith : Bool) : ∃ afterWith',
    walk (.after false) (depth + 1) afterWith rest =
      walk (.after false) depth afterWith' (if rest.head? = some ")" then rest.tail else rest) := by
  by_cases hclose : rest.head? = some ")"
  · obtain ⟨tail, rfl⟩ := List.head?_eq_some_iff.mp hclose
    refine ⟨false, ?_⟩
    rw [if_pos hclose, walk, Bool.false_and, if_neg Bool.false_ne_true, if_neg (by decide), if_pos ⟨rfl, by omega⟩]
    rfl
  · refine ⟨afterWith, ?_⟩
    rw [if_neg hclose, walk_stop hand (fun h => absurd h hclose), walk_stop hand (fun h => absurd h hclose)]

theorem Follows.parentheses (hopen : tokens.head? = some "(") (h : Follows .allowed .operand tokens.tail m)
    (hand : isNext m.2 "AND" = false) :
    Follows .allowed .operand tokens (m.1, if m.2.head? = some ")" then m.2.tail else m.2) := by
  constructor
  · dsimp only
    split
    · exact h.1.tail
    · exact h.1
  · intro depth afterWith _
    obtain ⟨operands, afterWith', hwalk, hverdict⟩ := h.2 (depth + 1) false (fun _ => rfl)
    obtain ⟨afterWith'', hclose⟩ := walk_close hand depth afterWith'
    obtain ⟨tail, rfl⟩ := List.head?_eq_some_iff.mp hopen
    refine ⟨operands, afterWith'', ?_, hverdict⟩
    rw [walk, if_pos rfl, ← hclose]
    exact hwalk

theorem Follows.identifier (h : NoChoice tokens) (hopen : ¬tokens.head? = some "(") : Follows .allowed .operand tokens
    (judged (tokens.head?.getD ""), if isNext tokens.tail "WITH" then tokens.tail.drop 2 else tokens.tail) := by
  constructor
  · dsimp only
    split
    · exact fun token htoken => h.tail token (List.mem_of_mem_drop htoken)
    · exact h.tail
  · intro depth afterWith _
    cases tokens with
    | nil => exact ⟨[""], afterWith, rfl, (judged_verdict "").trans (max_eq_right (allowed_le _)).symm⟩
    | cons token tokens =>
      obtain ⟨afterWith', hwalk⟩ := walk_after_identifier depth (isOperator token "WITH") tokens
      refine ⟨[token], afterWith', ?_, ?_⟩
      · rw [walk, if_neg (fun heq => hopen (congrArg some heq)), hwalk]
        rfl
      · rw [strictest_singleton, max_eq_right (allowed_le _)]
        exact judged_verdict token

/-- What each part of the grammar reads of tokens without `OR`. -/
theorem follows (fuel : ℕ) :
    (∀ tokens m, NoChoice tokens → parseFactor fuel tokens = some m → Follows .allowed .operand tokens m) ∧
    (∀ tokens m, NoChoice tokens → parseTerm fuel tokens = some m →
      Follows .allowed .operand tokens m ∧ isNext m.2 "AND" = false) ∧
    (∀ left tokens m, NoChoice tokens → parseFactors fuel left tokens = some m →
      Follows left.verdict (.after false) tokens m ∧ isNext m.2 "AND" = false) ∧
    ∀ tokens m, NoChoice tokens → parseExpression fuel tokens = some m →
      Follows .allowed .operand tokens m ∧ isNext m.2 "AND" = false := by
  induction fuel with
  | zero =>
    refine ⟨?_, ?_, ?_, ?_⟩
    · intro tokens m _ h
      cases h
    · intro tokens m _ h
      cases h
    · intro left tokens m _ h
      cases h
    · intro tokens m _ h
      cases h
  | succ fuel ih =>
    obtain ⟨hfactor, hterm, hfactors, hexpression⟩ := ih
    refine ⟨?_, ?_, ?_, ?_⟩
    · intro tokens m hchoice hm
      rw [parseFactor] at hm
      split at hm
      · rename_i hopen
        obtain ⟨m', hm', rfl⟩ := Option.map_eq_some_iff.mp hm
        obtain ⟨hfollows, hand⟩ := hexpression tokens.tail m' hchoice.tail hm'
        exact hfollows.parentheses hopen hand
      · rename_i hopen
        obtain rfl := Option.some.inj hm
        exact Follows.identifier hchoice hopen
    · intro tokens m hchoice hm
      rw [parseTerm] at hm
      obtain ⟨m', hm', hloop⟩ := Option.bind_eq_some_iff.mp hm
      have hfirst := hfactor tokens m' hchoice hm'
      obtain ⟨hrest, hand⟩ := hfactors m'.1 m'.2 m hfirst.1 hloop
      exact ⟨hfirst.trans hrest, hand⟩
    · intro left tokens m hchoice hm
      rw [parseFactors] at hm
      split at hm
      · rename_i hand
        obtain ⟨m', hm', hloop⟩ := Option.bind_eq_some_iff.mp hm
        have hfirst := hfactor tokens.tail m' hchoice.tail hm'
        obtain ⟨hrest, hand'⟩ := hfactors (both left m'.1) m'.2 m hfirst.1 hloop
        exact ⟨(Follows.and hand hfirst).trans hrest, hand'⟩
      · rename_i hand
        obtain rfl := Option.some.inj hm
        exact ⟨Follows.refl hchoice left, by simpa using hand⟩
    · intro tokens m hchoice hm
      rw [parseExpression] at hm
      obtain ⟨m', hm', hloop⟩ := Option.bind_eq_some_iff.mp hm
      obtain ⟨hfirst, hand⟩ := hterm tokens m' hchoice hm'
      rw [parseTerms_stop hfirst.1.not_isNext hloop]
      exact ⟨hfirst, hand⟩

/-- The verdict on a text without `OR` is the strictest on what is read of it. -/
theorem verdictOf_eq_strictest {expression : String} (hreason : noGrantReason expression = none)
    (hchoice : NoChoice (tokenise expression)) : verdictOf expression = some (strictest (readingOf expression).operands) := by
  obtain ⟨hne, -⟩ | ⟨-, fuel, evaluation, rest, hparse, hverdict⟩ := verdictOf_eq expression
  · exact absurd hreason hne
  · obtain ⟨hfollows, hand⟩ := (follows fuel).2.2.2 _ _ hchoice hparse
    obtain ⟨operands, afterWith, hwalk, hstrictest⟩ := hfollows.2 0 false (fun _ => rfl)
    rw [walk_stop hand (fun _ => rfl)] at hwalk
    have hoperands : (readingOf expression).operands = operands := by
      rw [readingOf, hwalk]
      exact List.append_nil operands
    rw [hverdict, hoperands, hstrictest, max_eq_right (allowed_le _)]

theorem operands_ne_nil (depth : ℕ) (afterWith : Bool) (tokens : List String) :
    (walk .operand depth afterWith tokens).operands ≠ [] := by
  induction tokens generalizing depth afterWith with
  | nil => exact List.cons_ne_nil _ _
  | cons token tokens ih =>
    rw [walk]
    split
    · exact ih (depth + 1) false
    · exact List.cons_ne_nil _ _

/-- No token passes unjudged where the text as a whole is refused, or what is not read is no stricter than
what is. -/
theorem covers_iff {expression : String} (hchoice : NoChoice (tokenise expression)) :
    (∃ verdict, verdictOf expression = some verdict ∧
      ∀ token ∈ licenceTokens false (tokenise expression), (classifyIdentifier token).verdict ≤ verdict) ↔
    noGrantReason expression ≠ none ∨ ∀ token ∈ (readingOf expression).unread,
      ∃ operand ∈ (readingOf expression).operands,
        (classifyIdentifier token).verdict ≤ (classifyIdentifier operand).verdict := by
  have haccounts : Accounts (licenceTokens false (tokenise expression)) (readingOf expression) :=
    accounts_walk .operand (fun _ => rfl) (fun h => by cases h) 0
  have hne : (readingOf expression).operands ≠ [] := operands_ne_nil 0 false _
  by_cases hreason : noGrantReason expression = none
  · rw [verdictOf_eq_strictest hreason hchoice]
    constructor
    · rintro ⟨verdict, hverdict, hall⟩
      obtain rfl := Option.some.inj hverdict
      exact .inr (fun token htoken => (le_strictest_iff hne).mp (hall token (haccounts.named token htoken)))
    · rintro (hrefused | hunread)
      · exact absurd hreason hrefused
      · refine ⟨_, rfl, ?_⟩
        intro token htoken
        obtain hread | hleft := haccounts.covered token htoken
        · exact (le_strictest_iff hne).mpr ⟨token, hread, le_rfl⟩
        · exact (le_strictest_iff hne).mpr (hunread token hleft)
  · refine iff_of_true ⟨.noGrant, ?_, fun token _ => le_noGrant _⟩ (.inl hreason)
    obtain ⟨-, hverdict⟩ | ⟨hnone, -⟩ := verdictOf_eq expression
    · exact hverdict
    · exact absurd hnone hreason

theorem covered_unclosed : ∃ verdict, verdictOf "(MIT AND LGPL-3.0 ISC" = some verdict ∧
    ∀ token ∈ licenceTokens false (tokenise "(MIT AND LGPL-3.0 ISC"), (classifyIdentifier token).verdict ≤ verdict :=
  (covers_iff (by unfold NoChoice; decide +kernel)).mpr (.inr (by decide +kernel))

/-- A licence that would be denied stands beside one that is read. -/
theorem mit_gpl_is_allowed : NoChoice (tokenise "MIT GPL-3.0") ∧
    "GPL-3.0" ∈ licenceTokens false (tokenise "MIT GPL-3.0") ∧ (classifyIdentifier "GPL-3.0").verdict = .denied ∧
    verdictOf "MIT GPL-3.0" = some .allowed :=
  ⟨by unfold NoChoice; decide +kernel, by decide +kernel, by decide +kernel, by decide +kernel⟩

end RentalMarket.Licences
