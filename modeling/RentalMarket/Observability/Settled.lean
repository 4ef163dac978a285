import RentalMarket.Observability.Coverage
import RentalMarket.Observability.Tokens

namespace RentalMarket.Observability

open Pieces
open Script (isSpace)

/-- Where the pattern matches, the password has been replaced before. -/
def Settled (before : Option Char) (text : List Char) : Prop :=
  ∀ front o password rest, text = front ++ (o ++ password ++ '@' :: rest) → Opens (front.getLast?.or before) o →
    IsSecret password → password = redacted.toList

variable {before : Option Char} {text out front tail rest found replacement o password : List Char} {c : Char}

theorem Settled.of_append (h : Settled before (front ++ text)) : Settled (front.getLast?.or before) text := by
  rintro front' o password rest rfl ho hsecret
  refine h (front ++ front') o password rest (by simp) ?_ hsecret
  rw [List.getLast?_append, Option.or_assoc]
  exact ho

theorem Settled.scans (h : Settled before text) : Scans urlCredentialPattern before text text := by
  induction hn : text.length using Nat.strongRecOn generalizing before text with
  | ind n ih =>
    by_cases hfound : Found before text
    · obtain ⟨o, password, rest, ho, hsecret, rfl⟩ := hfound
      have hpassword : password = redacted.toList := h [] o password rest rfl ho hsecret
      have hrest : Settled (some '@') rest := by
        have hbehind : Settled before ((o ++ password ++ ['@']) ++ rest) := by simpa using h
        have hafter := hbehind.of_append
        rwa [List.getLast?_concat] at hafter
      have hscan := scans_taken ho hsecret (ih rest.length (by simp at hn; omega) hrest rfl)
      rwa [← hpassword] at hscan
    · cases text with
      | nil => exact .done
      | cons c text =>
        have hafter : Settled before ([c] ++ text) := h
        exact .kept (urlCredentialPattern_eq_none.mpr hfound) (ih text.length (by simp [← hn]) hafter.of_append rfl)

theorem credential_of_taken (h : urlCredentialPattern before (found ++ text) = some (replacement, found.length)) :
    ∃ o password, Opens before o ∧ IsSecret password ∧ found = o ++ password ++ ['@'] ∧
      replacement = o ++ redacted.toList ++ ['@'] := by
  obtain ⟨o, password, rest, ho, hsecret, heq, hreplacement, hlength⟩ := urlCredentialPattern_eq_some.mp h
  have hassoc : found ++ text = (o ++ password ++ ['@']) ++ rest := by
    rw [heq]
    simp
  exact ⟨o, password, ho, hsecret, (List.append_inj hassoc hlength).1, hreplacement⟩

theorem colon_not_mem_redacted : ':' ∉ redacted.toList := by decide +kernel

theorem at_not_mem_redacted : '@' ∉ redacted.toList := by decide +kernel

theorem Scans.exists_sign (h : Scans urlCredentialPattern before text out) (hout : out = front ++ '@' :: rest)
    (hfront : '@' ∉ front) : ∃ source rest', text = source ++ '@' :: rest' ∧
      (source = front ∨ ∃ middle o password, Opens (middle.getLast?.or before) o ∧ IsSecret password ∧
        front = middle ++ o ++ redacted.toList ∧ source = middle ++ o ++ password) := by
  induction h generalizing front with
  | done => simp at hout
  | @kept before c text out hnone hrest ih =>
    cases front with
    | nil =>
      obtain ⟨rfl, -⟩ := List.cons.inj hout
      exact ⟨[], text, rfl, .inl rfl⟩
    | cons d front =>
      obtain ⟨rfl, hout'⟩ := List.cons.inj hout
      obtain ⟨source, rest', rfl, hsource⟩ := ih hout' (fun hm => hfront (List.mem_cons_of_mem _ hm))
      refine ⟨c :: source, rest', rfl, ?_⟩
      rcases hsource with rfl | ⟨middle, o, password, ho, hsecret, rfl, rfl⟩
      · exact .inl rfl
      · refine .inr ⟨c :: middle, o, password, ?_, hsecret, rfl, rfl⟩
        rwa [getLast?_cons_or]
  | @taken before found replacement text out hsome hne hrest ih =>
    obtain ⟨o, password, ho, hsecret, rfl, rfl⟩ := credential_of_taken hsome
    have hfree : '@' ∉ o ++ redacted.toList := by
      rw [List.mem_append, not_or]
      exact ⟨ho.not_mem_at, at_not_mem_redacted⟩
    have hcut : (o ++ redacted.toList) ++ '@' :: out = front ++ '@' :: rest := by
      rw [← hout]
      simp
    exact ⟨o ++ password, text, by simp, .inr ⟨[], o, password, ho, hsecret, (Text.cut_injective hfree hfront hcut).1.symm, rfl⟩⟩

/-- Where the pattern has been replaced, nothing but replaced passwords is left. -/
theorem Scans.settled (h : Scans urlCredentialPattern before text out) : Settled before out := by
  induction h with
  | done =>
    intro front o password rest heq
    simp at heq
  | @kept before c text out hnone hrest ih =>
    intro front o password rest heq ho hsecret
    cases front with
    | nil =>
      refine absurd hnone (fun hnone => urlCredentialPattern_eq_none.mp hnone ?_)
      obtain ⟨source, rest', htext, hsource⟩ :=
        (Scans.kept hnone hrest).exists_sign heq (not_mem_at ho hsecret)
      rw [htext]
      rcases hsource with rfl | ⟨middle, o', password', -, hsecret', hwritten, rfl⟩
      · exact ⟨o, password, rest', ho, hsecret, rfl⟩
      · obtain ⟨s, hmiddle, rfl⟩ := ho.prefix_of_colon_free colon_not_mem_redacted hwritten
        refine ⟨o, s ++ password', rest', ho, ⟨by simp [hsecret'.nonempty], ?_⟩, by rw [hmiddle]; simp⟩
        exact hsecret.unbroken.of_append.1.append hsecret'.unbroken
    | cons d front =>
      obtain ⟨rfl, hout⟩ := List.cons.inj heq
      rw [getLast?_cons_or] at ho
      exact ih front o password rest hout ho hsecret
  | @taken before found replacement text out hsome hne hrest ih =>
    intro front o password rest heq ho hsecret
    obtain ⟨o', password', ho', hsecret', rfl, rfl⟩ := credential_of_taken hsome
    have hfree : '@' ∉ o' ++ redacted.toList := by
      rw [List.mem_append, not_or]
      exact ⟨ho'.not_mem_at, at_not_mem_redacted⟩
    by_cases hat : '@' ∈ front
    · obtain ⟨front, middle, rfl, hfront⟩ := List.eq_append_cons_of_mem hat
      have hcut : (o' ++ redacted.toList) ++ '@' :: out =
          front ++ '@' :: (middle ++ (o ++ password ++ '@' :: rest)) := by simpa using heq
      refine ih middle o password rest (Text.cut_injective hfree hfront hcut).2 ?_ hsecret
      rw [getLast?_append_cons, Option.or_assoc] at ho
      rwa [List.getLast?_concat]
    · have hfree' : '@' ∉ front ++ o ++ password := by
        rw [List.append_assoc, List.mem_append, not_or]
        exact ⟨hat, not_mem_at ho hsecret⟩
      have hcut : (o' ++ redacted.toList) ++ '@' :: out = (front ++ o ++ password) ++ '@' :: rest := by
        simpa using heq
      have hwritten := (Text.cut_injective hfree hfree' hcut).1
      have hcolons : 2 ≤ (front ++ o).count ':' := by
        rw [List.count_append, ho.count_colon]
        omega
      obtain ⟨s, hs, hredacted⟩ := ho'.prefix_of_two_colons hcolons hwritten
      obtain rfl | ⟨t, e, rfl⟩ := s.eq_nil_or_concat
      · exact hredacted.symm
      · have hlast : (front ++ o).getLast? = some ':' := by
          rw [List.getLast?_append, ho.getLast?]
          rfl
        rw [hs, List.concat_eq_append, ← List.append_assoc, List.getLast?_concat] at hlast
        cases hlast
        exact absurd (by rw [hredacted]; simp) colon_not_mem_redacted

theorem not_mem_word {word : List Char} (hword : word.map Char.toLower ∈ schemes) (hc : c.isAlpha = false) : c ∉ word := by
  intro hm
  rw [isAlpha_of_mem_word hword hm] at hc
  cases hc

theorem Scans.exists_unbroken (h : Scans bearerPattern before text out) (hout : out = front ++ '@' :: rest)
    (hfront : Unbroken front) : ∃ rest', text = front ++ '@' :: rest' := by
  induction h generalizing front with
  | done => simp at hout
  | @kept before c text out hnone hrest ih =>
    cases front with
    | nil =>
      obtain ⟨rfl, -⟩ := List.cons.inj hout
      exact ⟨text, rfl⟩
    | cons d front =>
      obtain ⟨rfl, hout'⟩ := List.cons.inj hout
      obtain ⟨rest', rfl⟩ := ih hout' (fun e he => hfront e (List.mem_cons_of_mem _ he))
      exact ⟨rest', rfl⟩
  | @taken before found replacement text out hsome hne hrest ih =>
    obtain ⟨word, spaces, token, padding, htoken, rfl, rfl⟩ := isToken_of_taken hsome
    have hspace : ' ' ∉ front := fun hm => absurd (hfront _ hm).2 (by decide)
    have hwritten : word ++ ' ' :: (redacted.toList ++ out) = front ++ '@' :: rest := by
      rw [← hout]
      simp
    exact absurd hwritten (append_cons_ne (by decide) hspace (not_mem_word htoken.word (by decide)))

theorem Opens.congr {before' : Option Char} (h : Opens before o) (hbefore : before'.any isWord = false) :
    Opens before' o := by
  obtain ⟨scheme, user, rfl, hopening⟩ := h
  exact ⟨scheme, user, rfl, { hopening with boundary := hbefore }⟩

theorem Opens.boundary (h : Opens before o) : before.any isWord = false := by
  obtain ⟨scheme, user, rfl, hopening⟩ := h
  exact hopening.boundary

theorem not_opens_of_bracket {s : List Char} (ho : Opens before o) (hs : ':' ∉ s) : s ++ ']' :: rest ≠ o ++ tail := by
  obtain ⟨scheme, user, rfl, hopening⟩ := ho
  have hbracket : ']' ∉ scheme := fun hm => absurd (hopening.scheme _ hm) (by decide)
  rw [opening, List.append_assoc]
  exact append_cons_ne (by decide) hbracket hs

theorem getLast?_replaced (word : List Char) : (word ++ ' ' :: redacted.toList).getLast? = some ']' := by
  rw [List.getLast?_append, (by decide +kernel : (' ' :: redacted.toList).getLast? = some ']')]
  rfl

theorem behind_replaced {word : List Char} (hword : word.map Char.toLower ∈ schemes) (ho : Opens before o)
    (heq : (word ++ ' ' :: redacted.toList) ++ out = front ++ (o ++ tail)) :
    ∃ s, front = (word ++ ' ' :: redacted.toList) ++ s ∧ out = s ++ (o ++ tail) := by
  have hcolon : ':' ∉ word ++ ' ' :: redacted.toList := by
    rw [List.mem_append, not_or]
    exact ⟨not_mem_word hword (by decide), by decide +kernel⟩
  have hlast := getLast?_replaced word
  rcases List.append_eq_append_iff.mp heq with ⟨s, hfront, hout⟩ | ⟨s, hwritten, hrest⟩
  · exact ⟨s, hfront, hout⟩
  · obtain rfl | ⟨t, e, rfl⟩ := s.eq_nil_or_concat
    · exact ⟨[], by simpa using hwritten.symm, by simpa using hrest.symm⟩
    · rw [hwritten, List.concat_eq_append, ← List.append_assoc, List.getLast?_concat] at hlast
      cases hlast
      have ht : ':' ∉ t := by
        intro hm
        rw [hwritten] at hcolon
        exact hcolon (by simp [hm])
      have hbracket : t ++ ']' :: out = o ++ tail := by
        rw [hrest]
        simp
      exact absurd hbracket (not_opens_of_bracket ho ht)

theorem Opens.after_token {word spaces token padding s : List Char}
    (ho : Opens (((word ++ ' ' :: redacted.toList) ++ s).getLast?.or before) o)
    (htoken : IsToken before word spaces token padding text) (hhead : s = [] → text.head? = o.head?) :
    Opens (s.getLast?.or (word ++ spaces ++ token ++ padding).getLast?) o := by
  obtain rfl | ⟨t, e, rfl⟩ := s.eq_nil_or_concat
  · refine ho.congr (Bool.not_eq_true _ ▸ ?_)
    intro hlast
    obtain ⟨c, rest, rfl, hletter⟩ := ho.exists_letter
    have hstop := htoken.stops hlast (hhead rfl)
    rw [isTokenChar_of_isAlpha hletter] at hstop
    cases hstop
  · rw [List.concat_eq_append, ← List.append_assoc, List.getLast?_concat] at ho
    rw [List.concat_eq_append, List.getLast?_concat]
    exact ho

theorem Scans.keeps_settled (h : Scans bearerPattern before text out) (hsettled : Settled before text) :
    Settled before out := by
  induction h with
  | done => exact hsettled
  | @kept before c text out hnone hrest ih =>
    intro front o password rest heq ho hsecret
    cases front with
    | nil =>
      obtain ⟨rest', htext⟩ :=
        (Scans.kept hnone hrest).exists_unbroken heq (ho.unbroken.append hsecret.unbroken)
      exact hsettled [] o password rest' htext ho hsecret
    | cons d front =>
      obtain ⟨rfl, hout⟩ := List.cons.inj heq
      rw [getLast?_cons_or] at ho
      have hafter : Settled before ([c] ++ text) := hsettled
      exact ih hafter.of_append front o password rest hout ho hsecret
  | @taken before found replacement text out hsome hne hrest ih =>
    intro front o password rest heq ho hsecret
    obtain ⟨word, spaces, token, padding, htoken, rfl, rfl⟩ := isToken_of_taken hsome
    have hafter := hsettled.of_append
    rw [getLast?_or_of_ne_nil hne] at hafter
    rw [List.append_assoc o] at heq
    obtain ⟨s, rfl, hout⟩ := behind_replaced htoken.word ho heq
    rw [← List.append_assoc o] at hout
    refine ih hafter s o password rest hout (ho.after_token htoken ?_) hsecret
    rintro rfl
    rw [← hrest.head?, hout]
    obtain ⟨c, o, rfl, -⟩ := ho.exists_letter
    rfl

theorem replaced_again (text : List Char) :
    let hidden := replaceAll bearerPattern none 0 (replaceAll urlCredentialPattern none 0 text)
    replaceAll bearerPattern none 0 (replaceAll urlCredentialPattern none 0 hidden) = hidden := by
  intro hidden
  have hcredentials := scans_replaceAll bounded_urlCredentialPattern none text
  have htokens := scans_replaceAll bounded_bearerPattern none (replaceAll urlCredentialPattern none 0 text)
  have hsettled : Settled none hidden := htokens.keeps_settled hcredentials.settled
  have hstill : Still bearerPattern none hidden := htokens.still
  rw [← hsettled.scans.eq_replaceAll, ← hstill.scans.eq_replaceAll]

theorem redactString_redactString (value : String) : redactString (redactString value) = redactString value := by
  simp only [redactString, String.toList_ofList, replaced_again value.toList]

end RentalMarket.Observability
