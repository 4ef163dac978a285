import RentalMarket.Observability.Scans
import RentalMarket.Lib.Ascii
import RentalMarket.Lib.Text

namespace RentalMarket.Observability

open Pieces
open Script (isSpace)

def isSchemeChar (c : Char) : Bool := c.isAlphanum || c = '+' || c = '.' || c = '-'

def isUserChar (c : Char) : Bool := !(c = ':' || c = '/' || isSpace c || c = '@')

def opening (scheme user : List Char) : List Char := scheme ++ ':' :: '/' :: '/' :: (user ++ [':'])

/-- The pattern takes it for such: it begins at a word boundary, and somebody is named. -/
structure IsOpening (before : Option Char) (scheme user : List Char) : Prop where
  boundary : before.any isWord = false
  letter : scheme.head?.any Char.isAlpha = true
  scheme : ∀ c ∈ scheme, isSchemeChar c = true
  named : user ≠ []
  user : ∀ c ∈ user, isUserChar c = true

def Opens (before : Option Char) (o : List Char) : Prop := ∃ scheme user, o = opening scheme user ∧ IsOpening before scheme user

def Unbroken (text : List Char) : Prop := ∀ c ∈ text, c ≠ '@' ∧ isSpace c = false

structure IsSecret (password : List Char) : Prop where
  nonempty : password ≠ []
  unbroken : Unbroken password

def isPasswordChar (c : Char) : Bool := !(c = '@' || isSpace c)

theorem exists_rest {text scheme user password : List Char} (hscheme : text.takeWhile isSchemeChar = scheme)
    (hslashes : (text.drop scheme.length).take 3 = "://".toList)
    (huser : (text.drop (scheme.length + 3)).takeWhile isUserChar = user)
    (hcolon : (text.drop (scheme.length + 3 + user.length)).head? = some ':')
    (hpassword : ((text.drop (scheme.length + 3 + user.length)).drop 1).takeWhile isPasswordChar = password)
    (hsign : ((text.drop (scheme.length + 3 + user.length)).drop (1 + password.length)).head? = some '@') :
    ∃ rest, text = opening scheme user ++ password ++ '@' :: rest := by
  obtain ⟨afterScheme, htext, hafterScheme, -⟩ := exists_takeWhile isSchemeChar text
  rw [hscheme] at htext hafterScheme
  rw [hafterScheme] at hslashes
  have hslashes' : afterScheme = "://".toList ++ afterScheme.drop 3 := by
    rw [← hslashes, List.take_append_drop]
  have hafterSlashes : text.drop (scheme.length + 3) = afterScheme.drop 3 := by
    rw [← List.drop_drop, hafterScheme]
  rw [hafterSlashes] at huser
  obtain ⟨afterUser, huserEq, hafterUser, -⟩ := exists_takeWhile isUserChar (afterScheme.drop 3)
  rw [huser] at huserEq hafterUser
  have hcolonAt : text.drop (scheme.length + 3 + user.length) = afterUser := by
    rw [← List.drop_drop, hafterSlashes, hafterUser]
  rw [hcolonAt] at hcolon hpassword hsign
  have hcolonEq := cons_of_head? hcolon
  obtain ⟨afterPassword, hpasswordEq, hafterPassword, -⟩ := exists_takeWhile isPasswordChar (afterUser.drop 1)
  rw [hpassword] at hpasswordEq hafterPassword
  rw [← List.drop_drop, hafterPassword] at hsign
  refine ⟨afterPassword.drop 1, ?_⟩
  rw [htext, hslashes', huserEq, hcolonEq, hpasswordEq]
  conv => lhs; rw [cons_of_head? hsign]
  simp [opening]

theorem isSecret_takeWhile {text : List Char} (hne : text.takeWhile isPasswordChar ≠ []) :
    IsSecret (text.takeWhile isPasswordChar) := by
  refine ⟨hne, ?_⟩
  intro c hc
  simpa [isPasswordChar] using List.mem_takeWhile_imp hc

theorem IsSecret.isPasswordChar {password : List Char} (h : IsSecret password) :
    ∀ c ∈ password, isPasswordChar c = true := by
  intro c hc
  simpa [Observability.isPasswordChar] using h.unbroken c hc

/-- What the pattern finds, and what it leaves of it. -/
theorem urlCredentialPattern_eq_some {before : Option Char} {text replacement : List Char} {length : Nat} :
    urlCredentialPattern before text = some (replacement, length) ↔
      ∃ o password rest, Opens before o ∧ IsSecret password ∧ text = o ++ password ++ '@' :: rest ∧
        replacement = o ++ redacted.toList ++ ['@'] ∧ length = (o ++ password ++ ['@']).length := by
  constructor
  · intro h
    unfold urlCredentialPattern at h
    extract_lets scheme slashes user colon password sign at h
    split at h
    · rename_i hmatch
      simp only [Bool.and_eq_true, decide_eq_true_eq, Bool.not_eq_true'] at hmatch
      obtain ⟨⟨⟨⟨⟨⟨hboundary, hletter⟩, hslashes⟩, hnamed⟩, hcolon⟩, hpassword⟩, hsign⟩ := hmatch
      have hscheme : text.takeWhile isSchemeChar = scheme := rfl
      have huser : (text.drop (scheme.length + 3)).takeWhile isUserChar = user := rfl
      have hsecret : (colon.drop 1).takeWhile isPasswordChar = password := rfl
      obtain ⟨rest, htext⟩ := exists_rest hscheme hslashes huser hcolon hsecret hsign
      have hopening : IsOpening before scheme user := by
        refine ⟨hboundary, hletter, ?_, hnamed, ?_⟩
        · intro c hc
          exact List.mem_takeWhile_imp (hscheme ▸ hc)
        · intro c hc
          exact List.mem_takeWhile_imp (huser ▸ hc)
      obtain ⟨hreplacement, hlength⟩ := Prod.mk.inj (Option.some.inj h)
      refine ⟨_, password, rest, ⟨scheme, user, rfl, hopening⟩, isSecret_takeWhile hpassword, htext, ?_, ?_⟩
      · rw [← hreplacement, hslashes]
        simp [opening]
      · rw [← hlength]
        simp [opening]
        omega
    · cases h
  · rintro ⟨o, password, rest, ⟨scheme, user, rfl, hopening⟩, hsecret, rfl, rfl, rfl⟩
    have htext : opening scheme user ++ password ++ '@' :: rest =
        scheme ++ ':' :: '/' :: '/' :: (user ++ ':' :: (password ++ '@' :: rest)) := by
      simp [opening]
    rw [htext]
    unfold urlCredentialPattern
    extract_lets scheme' slashes user' colon password' sign
    have hscheme : scheme' = scheme := takeWhile_stop hopening.scheme (by decide) _
    have hslashes : slashes = "://".toList := by
      simp only [slashes, hscheme, List.drop_left]
      rfl
    have hafterSlashes : (scheme ++ ':' :: '/' :: '/' :: (user ++ ':' :: (password ++ '@' :: rest))).drop
        (scheme.length + 3) = user ++ ':' :: (password ++ '@' :: rest) := by
      rw [← List.drop_drop, List.drop_left]
      rfl
    have huser : user' = user := by
      simp only [user', hscheme, hafterSlashes]
      exact takeWhile_stop hopening.user (by decide) _
    have hcolon : colon = ':' :: (password ++ '@' :: rest) := by
      simp only [colon, hscheme, huser]
      rw [← List.drop_drop, hafterSlashes, List.drop_left]
    have hpassword : password' = password := by
      simp only [password', hcolon]
      exact takeWhile_stop hsecret.isPasswordChar (by decide) _
    have hsign : sign = '@' :: rest := by
      simp only [sign, hcolon, hpassword]
      rw [← List.drop_drop]
      exact List.drop_left
    rw [if_pos]
    · simp only [hscheme, hslashes, huser, hpassword, opening]
      simp
      omega
    · simp [hscheme, hslashes, huser, hcolon, hpassword, hsign, hopening.boundary, hopening.letter, hopening.named,
        hsecret.nonempty]

theorem bounded_urlCredentialPattern : Bounded urlCredentialPattern := by
  intro before text replacement length h
  obtain ⟨o, password, rest, -, -, rfl, -, rfl⟩ := urlCredentialPattern_eq_some.mp h
  simp

theorem isSpace_of_isSchemeChar {c : Char} (h : isSchemeChar c = true) : isSpace c = false := by
  simp only [isSchemeChar, Bool.or_eq_true, decide_eq_true_eq] at h
  rcases h with ((hletter | rfl) | rfl) | rfl
  · exact Ascii.isSpace_of_isAlphanum hletter
  all_goals decide

namespace Opens

variable {before : Option Char} {o : List Char}

theorem exists_letter (h : Opens before o) : ∃ c rest, o = c :: rest ∧ c.isAlpha = true := by
  obtain ⟨scheme, user, rfl, hopening⟩ := h
  cases scheme with
  | nil => cases hopening.letter
  | cons c scheme => exact ⟨c, _, rfl, hopening.letter⟩

theorem ne_nil (h : Opens before o) : o ≠ [] := by
  obtain ⟨c, rest, rfl, -⟩ := h.exists_letter
  exact List.cons_ne_nil c rest

theorem unbroken (h : Opens before o) : Unbroken o := by
  obtain ⟨scheme, user, rfl, hopening⟩ := h
  intro c hc
  simp only [opening, List.mem_append, List.mem_cons, List.not_mem_nil, or_false] at hc
  rcases hc with hscheme | rfl | rfl | rfl | huser | rfl
  · refine ⟨?_, isSpace_of_isSchemeChar (hopening.scheme c hscheme)⟩
    rintro rfl
    exact absurd (hopening.scheme _ hscheme) (by decide)
  · decide
  · decide
  · decide
  · have huserChar := hopening.user c huser
    simp only [isUserChar, Bool.not_eq_true', Bool.or_eq_false_iff, decide_eq_false_iff_not] at huserChar
    exact ⟨huserChar.2, huserChar.1.2⟩
  · decide

theorem count_colon (h : Opens before o) : o.count ':' = 2 := by
  obtain ⟨scheme, user, rfl, hopening⟩ := h
  have hscheme : scheme.count ':' = 0 := by
    refine List.count_eq_zero.mpr ?_
    intro hmem
    exact absurd (hopening.scheme _ hmem) (by decide)
  have huser : user.count ':' = 0 := by
    refine List.count_eq_zero.mpr ?_
    intro hmem
    exact absurd (hopening.user _ hmem) (by decide)
  simp [opening, hscheme, huser]

theorem getLast? (h : Opens before o) : o.getLast? = some ':' := by
  obtain ⟨scheme, user, rfl, -⟩ := h
  have hassoc : opening scheme user = (scheme ++ ':' :: '/' :: '/' :: user) ++ [':'] := by simp [opening]
  rw [hassoc, List.getLast?_concat]

theorem prefix_of_colon_free {front tail rest : List Char} (h : Opens before o) (htail : ':' ∉ tail)
    (heq : o ++ rest = front ++ tail) : ∃ s, front = o ++ s ∧ rest = s ++ tail := by
  rcases List.append_eq_append_iff.mp heq with ⟨s, hfront, hrest⟩ | ⟨s, ho, htail'⟩
  · exact ⟨s, hfront, hrest⟩
  · cases s.eq_nil_or_concat with
    | inl hnil =>
      subst hnil
      exact ⟨[], by simpa using ho.symm, by simpa using htail'.symm⟩
    | inr hconcat =>
      obtain ⟨t, c, rfl⟩ := hconcat
      have hlast := h.getLast?
      rw [ho, List.concat_eq_append, ← List.append_assoc, List.getLast?_concat] at hlast
      cases hlast
      exact absurd (by simp [htail']) htail

theorem prefix_of_two_colons {front tail rest : List Char} (h : Opens before o) (hfront : 2 ≤ front.count ':')
    (heq : o ++ rest = front ++ tail) : ∃ s, front = o ++ s ∧ rest = s ++ tail := by
  rcases List.append_eq_append_iff.mp heq with ⟨s, hs, hrest⟩ | ⟨s, ho, htail⟩
  · exact ⟨s, hs, hrest⟩
  · have hcount := h.count_colon
    rw [ho, List.count_append] at hcount
    have hfree : ':' ∉ s := List.count_eq_zero.mp (by omega)
    obtain ⟨t, hfront', hnil⟩ := h.prefix_of_colon_free hfree ((List.append_nil o).trans ho)
    obtain ⟨rfl, rfl⟩ := List.append_eq_nil_iff.mp hnil.symm
    exact ⟨[], hfront', by simpa using htail.symm⟩

end Opens

end RentalMarket.Observability
