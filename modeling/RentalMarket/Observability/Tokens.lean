import RentalMarket.Observability.Credentials

namespace RentalMarket.Observability

open Pieces
open Script (isSpace)

def isTokenChar (c : Char) : Bool := isWord c || c = '-' || c = '.' || c = '_' || c = '~' || c = '+' || c = '/'

def schemes : List (List Char) := ["bearer".toList, "basic".toList]

/-- What the pattern takes. It takes as much of the token and its padding as there is. -/
structure IsToken (before : Option Char) (word spaces token padding rest : List Char) : Prop where
  boundary : before.any isWord = false
  word : word.map Char.toLower ∈ schemes
  spaced : spaces ≠ []
  spaces : ∀ c ∈ spaces, isSpace c = true
  named : token ≠ []
  token : ∀ c ∈ token, isTokenChar c = true
  longest : ∀ c ∈ (padding ++ rest).head?, isTokenChar c = false
  padding : ∀ c ∈ padding, decide (c = '=') = true
  padded : ∀ c ∈ rest.head?, decide (c = '=') = false

def wordPattern (before : Option Char) (text word : List Char) : Option (List Char × Nat) :=
  let scheme := text.take word.length
  let spaces := (text.drop word.length).takeWhile isSpace
  let token := (text.drop (word.length + spaces.length)).takeWhile isTokenChar
  let padding := (text.drop (word.length + spaces.length + token.length)).takeWhile (· = '=')
  if !before.any isWord && scheme.map Char.toLower = word && spaces ≠ [] && token ≠ [] then
    some (scheme ++ ' ' :: redacted.toList, word.length + spaces.length + token.length + padding.length)
  else none

theorem bearerPattern_eq (before : Option Char) (text : List Char) :
    bearerPattern before text = schemes.findSome? (wordPattern before text) := rfl

section

variable {before : Option Char} {text target word spaces token padding rest replacement : List Char} {length : Nat}

theorem isSpace_of_isTokenChar {c : Char} (h : isTokenChar c = true) : isSpace c = false := by
  simp only [isTokenChar, isWord, Bool.or_eq_true, decide_eq_true_eq] at h
  rcases h with ((((((hletter | rfl) | rfl) | rfl) | rfl) | rfl) | rfl) | rfl
  · exact Ascii.isSpace_of_isAlphanum hletter
  all_goals decide

theorem IsToken.mem_token_of_head? {c : Char} (h : IsToken before word spaces token padding rest)
    (hc : c ∈ (token ++ (padding ++ rest)).head?) : c ∈ token := by
  cases token with
  | nil => exact absurd rfl h.named
  | cons d token =>
    cases hc
    exact List.mem_cons_self

theorem wordPattern_eq_some (h : wordPattern before text target = some (replacement, length))
    (htarget : target ∈ schemes) : ∃ word spaces token padding rest, word.map Char.toLower = target ∧
      IsToken before word spaces token padding rest ∧ text = word ++ (spaces ++ (token ++ (padding ++ rest))) ∧
      replacement = word ++ ' ' :: redacted.toList ∧ length = (word ++ spaces ++ token ++ padding).length := by
  unfold wordPattern at h
  extract_lets word spaces token padding at h
  split at h
  · rename_i hmatch
    simp only [Bool.and_eq_true, decide_eq_true_eq, Bool.not_eq_true'] at hmatch
    obtain ⟨⟨⟨hboundary, hword⟩, hspaced⟩, hnamed⟩ := hmatch
    have hlength : word.length = target.length := by
      rw [← hword, List.length_map]
    have htext : text = word ++ text.drop target.length := (List.take_append_drop _ _).symm
    obtain ⟨afterSpaces, hspaces, hafterSpaces, -⟩ := exists_takeWhile isSpace (text.drop target.length)
    have htoken : text.drop (target.length + spaces.length) = afterSpaces := by
      rw [← List.drop_drop]
      exact hafterSpaces
    obtain ⟨afterToken, htokenEq, hafterToken, hlongest⟩ :=
      exists_takeWhile isTokenChar (text.drop (target.length + spaces.length))
    have hpadding : text.drop (target.length + spaces.length + token.length) = afterToken := by
      rw [← List.drop_drop]
      exact hafterToken
    obtain ⟨rest, hrest, -, hpadded⟩ :=
      exists_takeWhile (· = '=') (text.drop (target.length + spaces.length + token.length))
    have hafter : afterToken = padding ++ rest := hpadding ▸ hrest
    obtain ⟨hreplacement, hlengthEq⟩ := Prod.mk.inj (Option.some.inj h)
    have hequals : ∀ c ∈ padding, decide (c = '=') = true := by
      intro c hc
      exact List.mem_takeWhile_imp (p := fun c => decide (c = '=')) hc
    refine ⟨word, spaces, token, padding, rest, hword, ?_, ?_, hreplacement.symm, ?_⟩
    · exact ⟨hboundary, hword ▸ htarget, hspaced, fun c hc => List.mem_takeWhile_imp hc, hnamed,
        fun c hc => List.mem_takeWhile_imp hc, hafter ▸ hlongest, hequals, hpadded⟩
    · have hspacesEq : text.drop target.length = spaces ++ afterSpaces := hspaces
      have htokenEq' : afterSpaces = token ++ afterToken := htoken ▸ htokenEq
      rw [← hafter, ← htokenEq', ← hspacesEq]
      exact htext
    · rw [← hlengthEq, ← hlength]
      simp
      omega
  · cases h

theorem wordPattern_of_isToken (h : IsToken before word spaces token padding rest) :
    wordPattern before (word ++ (spaces ++ (token ++ (padding ++ rest)))) (word.map Char.toLower) =
      some (word ++ ' ' :: redacted.toList, (word ++ spaces ++ token ++ padding).length) := by
  unfold wordPattern
  extract_lets word' spaces' token' padding'
  have hword : word' = word := by
    simp only [word', List.length_map, List.take_left]
  have hspaces : spaces' = spaces := by
    simp only [spaces', List.length_map, List.drop_left]
    refine takeWhile_append h.spaces ?_
    intro c hc
    exact isSpace_of_isTokenChar (h.token c (h.mem_token_of_head? hc))
  have htoken : token' = token := by
    simp only [token', List.length_map, hspaces, ← List.drop_drop, List.drop_left]
    exact takeWhile_append h.token h.longest
  have hpadding : padding' = padding := by
    simp only [padding', List.length_map, hspaces, htoken, ← List.drop_drop, List.drop_left]
    exact takeWhile_append h.padding h.padded
  rw [if_pos]
  · simp [hword, hspaces, htoken, hpadding]
    omega
  · simp [hword, hspaces, htoken, h.boundary, h.spaced, h.named]

theorem bearer_ne_basic {word' rest' : List Char} (hword : word.map Char.toLower = "bearer".toList)
    (hword' : word'.map Char.toLower = "basic".toList) : word ++ rest ≠ word' ++ rest' := by
  intro heq
  have hlower : "bearer".toList ++ rest.map Char.toLower = "basic".toList ++ rest'.map Char.toLower := by
    rw [← hword, ← hword', ← List.map_append, ← List.map_append, heq]
  simp at hlower

theorem bearerPattern_eq_some : bearerPattern before text = some (replacement, length) ↔
    ∃ word spaces token padding rest, IsToken before word spaces token padding rest ∧
      text = word ++ (spaces ++ (token ++ (padding ++ rest))) ∧
      replacement = word ++ ' ' :: redacted.toList ∧ length = (word ++ spaces ++ token ++ padding).length := by
  rw [bearerPattern_eq]
  constructor
  · intro h
    obtain ⟨target, htarget, hsome⟩ := List.exists_of_findSome?_eq_some h
    obtain ⟨word, spaces, token, padding, rest, -, htoken⟩ := wordPattern_eq_some hsome htarget
    exact ⟨word, spaces, token, padding, rest, htoken⟩
  · rintro ⟨word, spaces, token, padding, rest, h, rfl, rfl, rfl⟩
    have hsome := wordPattern_of_isToken h
    rcases List.mem_cons.mp h.word with hbearer | hbasic
    · rw [hbearer] at hsome
      rw [schemes, List.findSome?_cons, hsome]
    · rw [List.mem_singleton] at hbasic
      have hnone : wordPattern before (word ++ (spaces ++ (token ++ (padding ++ rest)))) "bearer".toList = none := by
        rw [← Option.not_isSome_iff_eq_none, Option.isSome_iff_exists]
        rintro ⟨⟨replacement, length⟩, hm⟩
        obtain ⟨word', _, _, _, _, hword', -, heq, -⟩ := wordPattern_eq_some hm (by decide)
        exact bearer_ne_basic hword' hbasic heq.symm
      rw [hbasic] at hsome
      rw [schemes, List.findSome?_cons, hnone, List.findSome?_cons, hsome]

theorem bounded_bearerPattern : Bounded bearerPattern := by
  intro before text replacement length h
  obtain ⟨word, spaces, token, padding, rest, htoken, rfl, -, rfl⟩ := bearerPattern_eq_some.mp h
  have hpos : 0 < spaces.length := List.length_pos_iff.mpr htoken.spaced
  simp only [List.length_append]
  omega

def Begins (before : Option Char) (text : List Char) : Prop :=
  ∃ word spaces c rest, before.any isWord = false ∧ word.map Char.toLower ∈ schemes ∧ spaces ≠ [] ∧
    (∀ d ∈ spaces, isSpace d = true) ∧ isTokenChar c = true ∧ text = word ++ (spaces ++ c :: rest)

theorem bearerPattern_eq_none : bearerPattern before text = none ↔ ¬Begins before text := by
  rw [← Option.not_isSome_iff_eq_none, not_iff_not, Option.isSome_iff_exists]
  constructor
  · rintro ⟨⟨replacement, length⟩, hm⟩
    obtain ⟨word, spaces, token, padding, rest, h, rfl, -⟩ := bearerPattern_eq_some.mp hm
    cases token with
    | nil => exact absurd rfl h.named
    | cons c token => exact ⟨word, spaces, c, _, h.boundary, h.word, h.spaced, h.spaces, h.token c List.mem_cons_self, rfl⟩
  · rintro ⟨word, spaces, c, rest, hboundary, hword, hspaced, hspaces, hc, rfl⟩
    obtain ⟨afterToken, htoken, -, hlongest⟩ := exists_takeWhile isTokenChar (c :: rest)
    obtain ⟨afterPadding, hpadding, -, hpadded⟩ := exists_takeWhile (· = '=') afterToken
    refine ⟨_, bearerPattern_eq_some.mpr ⟨word, spaces, (c :: rest).takeWhile isTokenChar,
      afterToken.takeWhile (· = '='), afterPadding, ?_, ?_, rfl, rfl⟩⟩
    · refine ⟨hboundary, hword, hspaced, hspaces, ?_, fun d hd => List.mem_takeWhile_imp hd, hpadding ▸ hlongest, ?_,
        hpadded⟩
      · rw [List.takeWhile_cons_of_pos hc]
        exact List.cons_ne_nil _ _
      · intro d hd
        exact List.mem_takeWhile_imp (p := fun e => decide (e = '=')) hd
    · rw [← hpadding, ← htoken]

theorem isAlpha_of_toLower {c : Char} (h : c.toLower.isAlpha = true) : c.isAlpha = true := by
  by_cases hupper : c.isUpper = true
  · rw [Char.isAlpha, hupper, Bool.true_or]
  · have hsame : c.toLower = c := by
      unfold Char.toLower
      rw [dif_neg (by simpa [Char.isUpper] using hupper)]
    rwa [hsame] at h

theorem isAlpha_of_mem_word {c : Char} (hword : word.map Char.toLower ∈ schemes) (hc : c ∈ word) : c.isAlpha = true := by
  have hall : ∀ l ∈ schemes, ∀ d ∈ l, d.isAlpha = true := by simp [schemes]
  exact isAlpha_of_toLower (hall _ hword _ (List.mem_map_of_mem hc))

theorem Begins.exists_letter (h : Begins before text) : ∃ c rest, text = c :: rest ∧ c.toLower = 'b' := by
  obtain ⟨word, spaces, c, rest, -, hword, -, -, -, rfl⟩ := h
  have hall : ∀ l ∈ schemes, l.head? = some 'b' := by decide
  cases word with
  | nil => cases hall _ hword
  | cons d word =>
    refine ⟨d, _, rfl, ?_⟩
    have hhead := hall _ hword
    simpa using hhead

theorem isWord_of_isAlpha {c : Char} (h : c.isAlpha = true) : isWord c = true := by
  rw [isWord, Char.isAlphanum, h]
  rfl

theorem isTokenChar_of_isAlpha {c : Char} (h : c.isAlpha = true) : isTokenChar c = true := by
  simp [isTokenChar, isWord_of_isAlpha h]

theorem isAlpha_of_toLower_b {c : Char} (h : c.toLower = 'b') : c.isAlpha = true := by
  refine isAlpha_of_toLower ?_
  rw [h]
  decide

def Quiet : Option Char → List Char → Prop
  | _, [] => True
  | before, c :: text => (before.any isWord = true ∨ c.toLower ≠ 'b') ∧ Quiet (some c) text

variable {front out : List Char} {c : Char}

theorem not_begins (h : before.any isWord = true ∨ c.toLower ≠ 'b') : ¬Begins before (c :: text) := by
  intro hbegins
  rcases h with hword | hletter
  · obtain ⟨_, _, _, _, hboundary, -⟩ := hbegins
    rw [hword] at hboundary
    cases hboundary
  · obtain ⟨d, rest, heq, hd⟩ := hbegins.exists_letter
    cases heq
    exact hletter hd

theorem quiet_of_letters (hbefore : before.any isWord = true) (h : ∀ c ∈ text, c.isAlpha = true) : Quiet before text := by
  induction text generalizing before with
  | nil => trivial
  | cons c text ih =>
    refine ⟨.inl hbefore, ih ?_ (fun d hd => h d (List.mem_cons_of_mem _ hd))⟩
    exact isWord_of_isAlpha (h c List.mem_cons_self)

theorem quiet_of_forall (h : ∀ c ∈ text, c.toLower ≠ 'b') : Quiet before text := by
  induction text generalizing before with
  | nil => trivial
  | cons c text ih => exact ⟨.inr (h c List.mem_cons_self), ih (fun d hd => h d (List.mem_cons_of_mem _ hd))⟩

theorem Quiet.append (hfront : Quiet before front) (hrest : Quiet (front.getLast?.or before) rest) :
    Quiet before (front ++ rest) := by
  induction front generalizing before with
  | nil => exact hrest
  | cons c front ih =>
    rw [getLast?_cons_or] at hrest
    exact ⟨hfront.1, ih hfront.2 hrest⟩

theorem Quiet.still (hfront : Quiet before front) (hrest : Still bearerPattern (front.getLast?.or before) rest) :
    Still bearerPattern before (front ++ rest) := by
  induction front generalizing before with
  | nil => exact hrest
  | cons c front ih =>
    rw [getLast?_cons_or] at hrest
    exact ⟨bearerPattern_eq_none.mpr (not_begins hfront.1), ih hfront.2 hrest⟩

theorem isToken_of_taken {found : List Char} (h : bearerPattern before (found ++ text) = some (replacement, found.length)) :
    ∃ word spaces token padding, IsToken before word spaces token padding text ∧
      found = word ++ spaces ++ token ++ padding ∧ replacement = word ++ ' ' :: redacted.toList := by
  obtain ⟨word, spaces, token, padding, rest, htoken, heq, hreplacement, hlength⟩ := bearerPattern_eq_some.mp h
  have hassoc : found ++ text = (word ++ spaces ++ token ++ padding) ++ rest := by
    rw [heq]
    simp
  obtain ⟨hfound, htext⟩ := List.append_inj hassoc hlength
  exact ⟨word, spaces, token, padding, htext ▸ htoken, hfound, hreplacement⟩

theorem Scans.head? (h : Scans bearerPattern before text out) : out.head? = text.head? := by
  cases h with
  | done => rfl
  | kept => rfl
  | taken hsome =>
    obtain ⟨word, spaces, token, padding, htoken, rfl, rfl⟩ := isToken_of_taken hsome
    cases word with
    | nil => exact absurd htoken.word (by simp [schemes])
    | cons c word => rfl

theorem Scans.of_quiet (h : Scans bearerPattern before text (front ++ out)) (hquiet : Quiet before front) :
    ∃ rest, text = front ++ rest ∧ Scans bearerPattern (front.getLast?.or before) rest out := by
  induction front generalizing before text with
  | nil => exact ⟨text, rfl, h⟩
  | cons c front ih =>
    rw [getLast?_cons_or]
    have hhead := h.head?
    generalize hwritten : c :: front ++ out = written at h
    cases h with
    | done => cases hwritten
    | kept hnone hrest =>
      cases hwritten
      obtain ⟨rest, rfl, hscan⟩ := ih hrest hquiet.2
      exact ⟨rest, rfl, hscan⟩
    | @taken _ found replacement text out' hsome hne hrest =>
      cases found with
      | nil => exact absurd rfl hne
      | cons d found =>
        have hd : d = c := by simpa using hhead.symm
        subst hd
        rw [List.cons_append, bearerPattern_eq_none.mpr (not_begins hquiet.1)] at hsome
        cases hsome

theorem IsToken.stops (h : IsToken before word spaces token padding rest)
    (hword : (word ++ spaces ++ token ++ padding).getLast?.any isWord = true) (hc : c ∈ rest.head?) :
    isTokenChar c = false := by
  obtain rfl | ⟨equals, e, rfl⟩ := padding.eq_nil_or_concat
  · exact h.longest c hc
  · have he : e = '=' := by simpa using h.padding e (by simp)
    subst he
    rw [List.concat_eq_append, ← List.append_assoc, List.getLast?_concat] at hword
    cases hword

theorem toLower_of_isSpace (h : isSpace c = true) : c.toLower ≠ 'b' := by
  intro hletter
  rw [Ascii.isSpace_of_isAlpha (isAlpha_of_toLower_b hletter)] at h
  cases h

theorem word_eq_of_append {word' rest' : List Char} (hword : ∀ d ∈ word, d.isAlpha = true)
    (hword' : ∀ d ∈ word', d.isAlpha = true) (hrest : ∀ d ∈ rest.head?, isSpace d = true)
    (hrest' : ∀ d ∈ rest'.head?, isSpace d = true) (heq : word ++ rest = word' ++ rest') :
    word = word' ∧ rest = rest' := by
  have hstop : ∀ r : List Char, (∀ d ∈ r.head?, isSpace d = true) → ∀ d ∈ r.head?, d.isAlpha = false := by
    intro r hr d hd
    by_contra halpha
    have hspace := Ascii.isSpace_of_isAlpha (Bool.not_eq_false _ ▸ halpha)
    rw [hr d hd] at hspace
    cases hspace
  have htaken : word = word' := by
    rw [← takeWhile_append hword (hstop rest hrest), heq, takeWhile_append hword' (hstop rest' hrest')]
  exact ⟨htaken, List.append_cancel_left (htaken ▸ heq)⟩

theorem redacted_eq : redacted.toList = '[' :: "redacted]".toList := by decide +kernel

theorem not_begins_replaced (hword : word.map Char.toLower ∈ schemes) :
    ¬Begins before (word ++ (' ' :: redacted.toList ++ rest)) := by
  rintro ⟨word', spaces, d, rest', -, hword', hspaced, hspaces, hd, heq⟩
  rw [redacted_eq] at heq
  have hhead : ∀ e ∈ (spaces ++ d :: rest').head?, isSpace e = true := by
    cases spaces with
    | nil => exact absurd rfl hspaced
    | cons e spaces =>
      rintro f ⟨⟩
      exact hspaces _ List.mem_cons_self
  obtain ⟨-, hafter⟩ := word_eq_of_append (fun d => isAlpha_of_mem_word hword) (fun d => isAlpha_of_mem_word hword')
    (by rintro e ⟨⟩; decide) hhead heq
  cases spaces with
  | nil => exact absurd rfl hspaced
  | cons e spaces =>
    obtain ⟨rfl, hbracket⟩ := List.cons.inj hafter
    cases spaces with
    | nil =>
      obtain ⟨rfl, -⟩ := List.cons.inj hbracket
      exact absurd hd (by decide)
    | cons f spaces =>
      obtain ⟨rfl, -⟩ := List.cons.inj hbracket
      exact absurd (hspaces '[' (by simp)) (by decide)

theorem quiet_replaced (hword : (c :: word).map Char.toLower ∈ schemes) :
    Quiet (some c) (word ++ ' ' :: redacted.toList) := by
  have hletters := fun d => isAlpha_of_mem_word hword (c := d)
  refine (quiet_of_letters ?_ (fun d hd => hletters d (List.mem_cons_of_mem _ hd))).append (quiet_of_forall ?_)
  · exact isWord_of_isAlpha (hletters c List.mem_cons_self)
  · exact fun d hd => of_decide_eq_true (List.all_eq_true.mp
      (by decide +kernel : (' ' :: redacted.toList).all (fun e => decide (e.toLower ≠ 'b')) = true) d hd)

/-- Where the pattern has been replaced, it matches nowhere. -/
theorem Scans.still (h : Scans bearerPattern before text out) : Still bearerPattern before out := by
  induction h with
  | done => trivial
  | @kept before c text out hnone hrest ih =>
    refine ⟨bearerPattern_eq_none.mpr ?_, ih⟩
    rintro ⟨word, spaces, d, rest, hboundary, hword, hspaced, hspaces, hd, heq⟩
    cases word with
    | nil => exact absurd hword (by simp [schemes])
    | cons e word =>
      obtain ⟨rfl, hout⟩ := List.cons.inj heq
      have hletters := fun f => isAlpha_of_mem_word hword (c := f)
      have hquiet : Quiet (some c) (word ++ spaces) := by
        refine (quiet_of_letters ?_ (fun f hf => hletters f (List.mem_cons_of_mem _ hf))).append (quiet_of_forall ?_)
        · exact isWord_of_isAlpha (hletters c List.mem_cons_self)
        · exact fun f hf => toLower_of_isSpace (hspaces f hf)
      have hassoc : out = (word ++ spaces) ++ d :: rest := hout.trans (List.append_assoc _ _ _).symm
      rw [hassoc] at hrest
      obtain ⟨rest', rfl, hscan⟩ := hrest.of_quiet hquiet
      cases rest' with
      | nil => cases hscan.head?
      | cons f rest' =>
        cases hscan.head?
        refine bearerPattern_eq_none.mp hnone ?_
        exact ⟨c :: word, spaces, d, rest', hboundary, hword, hspaced, hspaces, hd, by simp⟩
  | @taken before found replacement text out hsome hne hrest ih =>
    obtain ⟨word, spaces, token, padding, htoken, rfl, rfl⟩ := isToken_of_taken hsome
    have hrestStill : Still bearerPattern (some ']') out := by
      cases out with
      | nil => trivial
      | cons d out =>
        refine ⟨bearerPattern_eq_none.mpr ?_, ih.2⟩
        intro hbegins
        by_cases hlast : (word ++ spaces ++ token ++ padding).getLast?.any isWord = true
        · obtain ⟨e, rest, heq, hletter⟩ := hbegins.exists_letter
          cases heq
          have hstop := htoken.stops hlast (hrest.head? ▸ rfl : d ∈ text.head?)
          rw [isTokenChar_of_isAlpha (isAlpha_of_toLower_b hletter)] at hstop
          cases hstop
        · obtain ⟨w, s, e, r, -, hbegins⟩ := hbegins
          exact bearerPattern_eq_none.mp ih.1 ⟨w, s, e, r, Bool.not_eq_true _ ▸ hlast, hbegins⟩
    have hfirst : ¬Begins before (word ++ (' ' :: redacted.toList ++ out)) := not_begins_replaced htoken.word
    cases word with
    | nil => exact absurd htoken.word (by simp [schemes])
    | cons c word =>
      have hafter : Still bearerPattern (some c) ((word ++ ' ' :: redacted.toList) ++ out) := by
        refine (quiet_replaced htoken.word).still ?_
        have hlast : (word ++ ' ' :: redacted.toList).getLast? = some ']' := by
          rw [List.getLast?_append, (by decide +kernel : (' ' :: redacted.toList).getLast? = some ']')]
          rfl
        rwa [hlast]
      refine ⟨bearerPattern_eq_none.mpr ?_, hafter⟩
      rwa [← List.append_assoc] at hfirst

theorem IsToken.not_mem_colon (h : IsToken before word spaces token padding rest) :
    ':' ∉ word ++ spaces ++ token ++ padding := by
  simp only [List.mem_append, not_or]
  refine ⟨⟨⟨?_, ?_⟩, ?_⟩, ?_⟩
  · exact fun hm => absurd (isAlpha_of_mem_word h.word hm) (by decide)
  · exact fun hm => absurd (h.spaces _ hm) (by decide)
  · exact fun hm => absurd (h.token _ hm) (by decide)
  · exact fun hm => absurd (h.padding _ hm) (by decide)

theorem bearerPattern_colon {tail tail' : List Char} {found : List Char × Nat}
    (h : bearerPattern before (text ++ ':' :: tail) = some found) : bearerPattern before (text ++ ':' :: tail') = some found := by
  obtain ⟨replacement, length⟩ := found
  obtain ⟨word, spaces, token, padding, rest, htoken, heq, rfl, rfl⟩ := bearerPattern_eq_some.mp h
  have hassoc : text ++ ':' :: tail = (word ++ spaces ++ token ++ padding) ++ rest := by
    rw [heq]
    simp
  have hsplit : ∃ s, text = (word ++ spaces ++ token ++ padding) ++ s ∧ rest = s ++ ':' :: tail := by
    rcases List.append_eq_append_iff.mp hassoc with ⟨s, hfound, htail⟩ | ⟨s, htext, hrest⟩
    · cases s with
      | nil => exact ⟨[], by rw [hfound, List.append_nil, List.append_nil], htail.symm⟩
      | cons c s =>
        obtain ⟨rfl, -⟩ := List.cons.inj htail
        exact absurd (by rw [hfound]; simp) htoken.not_mem_colon
    · exact ⟨s, htext, hrest⟩
  obtain ⟨s, rfl, rfl⟩ := hsplit
  refine bearerPattern_eq_some.mpr ⟨word, spaces, token, padding, s ++ ':' :: tail', ?_, by simp, rfl, rfl⟩
  refine ⟨htoken.boundary, htoken.word, htoken.spaced, htoken.spaces, htoken.named, htoken.token, ?_, htoken.padding, ?_⟩
  · rw [← List.append_assoc, head?_append_cons _ tail' tail, List.append_assoc]
    exact htoken.longest
  · rw [head?_append_cons _ tail' tail]
    exact htoken.padded

theorem bearerPattern_append (before : Option Char) (tail : List Char) (h : text.getLast? = some ':') :
    bearerPattern before (text ++ tail) = bearerPattern before text := by
  obtain ⟨front, rfl⟩ := List.getLast?_eq_some_iff.mp h
  rw [List.append_assoc]
  ext found
  exact ⟨bearerPattern_colon, bearerPattern_colon⟩

theorem getLast?_eq_colon (hne : text ≠ []) (hcolon : ∀ c ∈ text.getLast?, c = ':') : text.getLast? = some ':' := by
  cases hlast : text.getLast? with
  | none => exact absurd (List.getLast?_eq_none_iff.mp hlast) hne
  | some c => rw [hcolon c hlast]

theorem getLast?_append_colon {tail : List Char} (hcolon : ∀ c ∈ (front ++ tail).getLast?, c = ':') :
    ∀ c ∈ tail.getLast?, c = ':' := by
  intro c hc
  refine hcolon c ?_
  rw [List.getLast?_append, Option.mem_def.mp hc]
  rfl

theorem Scans.append {tail written : List Char} (h : Scans bearerPattern before text out)
    (hcolon : ∀ c ∈ text.getLast?, c = ':') (htail : Scans bearerPattern (text.getLast?.or before) tail written) :
    Scans bearerPattern before (text ++ tail) (out ++ written) := by
  induction h with
  | done => exact htail
  | @kept before c text out hnone hrest ih =>
    rw [getLast?_cons_or] at htail
    have hsame := bearerPattern_append before tail (getLast?_eq_colon (List.cons_ne_nil c text) hcolon)
    have hcolon' : ∀ d ∈ ([c] ++ text).getLast?, d = ':' := hcolon
    exact .kept (hsame.trans hnone) (ih (getLast?_append_colon hcolon') htail)
  | @taken before found replacement text out hsome hne hrest ih =>
    have hsame := bearerPattern_append before tail
      (getLast?_eq_colon (List.append_ne_nil_of_left_ne_nil hne text) hcolon)
    rw [List.append_assoc, List.append_assoc]
    refine .taken ?_ hne (ih (getLast?_append_colon hcolon) ?_)
    · rw [← List.append_assoc, hsame, hsome]
    · rwa [List.getLast?_append, Option.or_assoc, getLast?_or_of_ne_nil hne] at htail

end

end RentalMarket.Observability
