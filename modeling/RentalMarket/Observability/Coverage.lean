import RentalMarket.Observability.Credentials

namespace RentalMarket.Observability

open Pieces

def Covered (before : Option Char) (text : List Char) : Prop :=
  ∃ front o tail, text = front ++ (o ++ tail) ∧ Opens (front.getLast?.or before) o ∧ Unbroken tail

def Found (before : Option Char) (text : List Char) : Prop :=
  ∃ o password rest, Opens before o ∧ IsSecret password ∧ text = o ++ password ++ '@' :: rest

variable {before : Option Char} {text password post out o v : List Char}

theorem urlCredentialPattern_eq_none : urlCredentialPattern before text = none ↔ ¬Found before text := by
  rw [← Option.not_isSome_iff_eq_none, not_iff_not, Option.isSome_iff_exists]
  constructor
  · rintro ⟨⟨replacement, length⟩, hm⟩
    obtain ⟨o, password, rest, ho, hsecret, htext, -⟩ := urlCredentialPattern_eq_some.mp hm
    exact ⟨o, password, rest, ho, hsecret, htext⟩
  · rintro ⟨o, password, rest, ho, hsecret, htext⟩
    exact ⟨_, urlCredentialPattern_eq_some.mpr ⟨o, password, rest, ho, hsecret, htext, rfl, rfl⟩⟩

theorem scans_taken (ho : Opens before o) (hsecret : IsSecret password)
    (hrest : Scans urlCredentialPattern (some '@') post out) :
    Scans urlCredentialPattern before (o ++ password ++ '@' :: post) (o ++ redacted.toList ++ '@' :: out) := by
  have hscan : Scans urlCredentialPattern before ((o ++ password ++ ['@']) ++ post)
      ((o ++ redacted.toList ++ ['@']) ++ out) := by
    refine .taken ?_ (by simp) (by rwa [List.getLast?_concat])
    exact urlCredentialPattern_eq_some.mpr ⟨o, password, post, ho, hsecret, by simp, rfl, rfl⟩
  simpa using hscan

theorem IsSecret.not_mem_at (h : IsSecret password) : '@' ∉ password := fun hm => (h.unbroken _ hm).1 rfl

theorem Opens.not_mem_at (h : Opens before o) : '@' ∉ o := fun hm => (h.unbroken _ hm).1 rfl

theorem not_mem_at (ho : Opens before o) (hsecret : IsSecret password) : '@' ∉ o ++ password := by
  rw [List.mem_append, not_or]
  exact ⟨ho.not_mem_at, hsecret.not_mem_at⟩

theorem found_append (h : Found before (text ++ v ++ '@' :: post)) (hv : '@' ∉ v) :
    Found before text ∨ ∃ o password, Opens before o ∧ IsSecret password ∧ text ++ v = o ++ password := by
  obtain ⟨o, password, rest, ho, hsecret, heq⟩ := h
  by_cases hat : '@' ∈ text
  · obtain ⟨front, tail, rfl, hfront⟩ := List.eq_append_cons_of_mem hat
    left
    refine ⟨o, password, tail, ho, hsecret, ?_⟩
    have hcut : front ++ '@' :: (tail ++ v ++ '@' :: post) = (o ++ password) ++ '@' :: rest := by
      rw [← heq]
      simp
    rw [(Text.cut_injective hfront (not_mem_at ho hsecret) hcut).1]
  · right
    have hfree : '@' ∉ text ++ v := by
      rw [List.mem_append, not_or]
      exact ⟨hat, hv⟩
    exact ⟨o, password, ho, hsecret, (Text.cut_injective hfree (not_mem_at ho hsecret) heq).1⟩

theorem Unbroken.append {front tail : List Char} (hfront : Unbroken front) (htail : Unbroken tail) :
    Unbroken (front ++ tail) := by
  intro c hc
  rcases List.mem_append.mp hc with hc | hc
  · exact hfront c hc
  · exact htail c hc

theorem Unbroken.of_append {front tail : List Char} (h : Unbroken (front ++ tail)) : Unbroken front ∧ Unbroken tail :=
  ⟨fun c hc => h c (List.mem_append_left _ hc), fun c hc => h c (List.mem_append_right _ hc)⟩

namespace Covered

variable {c : Char} {front : List Char}

theorem here (ho : Opens before o) (hv : Unbroken v) : Covered before (o ++ v) := ⟨[], o, v, rfl, ho, hv⟩

theorem append (h : Covered (front.getLast?.or before) text) : Covered before (front ++ text) := by
  obtain ⟨middle, o, tail, rfl, ho, htail⟩ := h
  refine ⟨front ++ middle, o, tail, by simp, ?_, htail⟩
  rw [List.getLast?_append, Option.or_assoc]
  exact ho

theorem cons (h : Covered (some c) text) : Covered before (c :: text) := by
  have happend : Covered before ([c] ++ text) := append h
  exact happend

theorem two_le_count (h : Covered before text) : 2 ≤ text.count ':' := by
  obtain ⟨front, o, tail, rfl, ho, -⟩ := h
  simp only [List.count_append, ho.count_colon]
  omega

theorem of_match (h : Covered before (v ++ '@' :: text)) : Covered (some '@') text := by
  obtain ⟨front, o, tail, heq, ho, htail⟩ := h
  have hunbroken : Unbroken (o ++ tail) := ho.unbroken.append htail
  rcases List.append_eq_append_iff.mp heq with ⟨s, rfl, hs⟩ | ⟨s, -, hs⟩
  · cases s with
    | nil => exact absurd rfl (hunbroken '@' (by rw [← List.nil_append (o ++ tail), ← hs]; simp)).1
    | cons d s =>
      obtain ⟨rfl, rfl⟩ := List.cons.inj hs
      refine ⟨s, o, tail, rfl, ?_, htail⟩
      simpa [List.getLast?_append, List.getLast?_cons] using ho
  · exact absurd rfl (hunbroken '@' (by rw [hs]; simp)).1

end Covered

/-- What is written for a text is the same for every password that comes after it. -/
theorem Covered.scans (h : Covered before text) : ∃ written, ∀ password post out, IsSecret password →
    Scans urlCredentialPattern (some '@') post out →
    Scans urlCredentialPattern before (text ++ password ++ '@' :: post) (written ++ out) := by
  induction hn : text.length using Nat.strongRecOn generalizing before text with
  | ind n ih =>
    by_cases hhere : ∃ o tail, text = o ++ tail ∧ Opens before o ∧ Unbroken tail
    · obtain ⟨o, tail, rfl, ho, htail⟩ := hhere
      refine ⟨o ++ redacted.toList ++ ['@'], ?_⟩
      intro password post out hsecret hrest
      have hlonger : IsSecret (tail ++ password) :=
        ⟨by simp [hsecret.nonempty], htail.append hsecret.unbroken⟩
      simpa using scans_taken ho hlonger hrest
    by_cases hfound : Found before text
    · obtain ⟨o, closed, rest, ho, hclosed, rfl⟩ := hfound
      obtain ⟨written, hwritten⟩ := ih rest.length (by simp at hn; omega) h.of_match rfl
      refine ⟨o ++ redacted.toList ++ '@' :: written, ?_⟩
      intro password post out hsecret hrest
      simpa using scans_taken ho hclosed (hwritten password post out hsecret hrest)
    · cases text with
      | nil => exact absurd h.two_le_count (by decide)
      | cons c text =>
        have hcolons := h.two_le_count
        have hafter : Covered (some c) text := by
          obtain ⟨front, o, tail, heq, ho, htail⟩ := h
          cases front with
          | nil => exact absurd ⟨o, tail, heq, ho, htail⟩ hhere
          | cons d front =>
            obtain ⟨rfl, rfl⟩ := List.cons.inj heq
            refine ⟨front, o, tail, rfl, ?_, htail⟩
            rwa [getLast?_cons_or] at ho
        obtain ⟨written, hwritten⟩ := ih text.length (by simp [← hn]) hafter rfl
        refine ⟨c :: written, ?_⟩
        intro password post out hsecret hrest
        refine .kept ?_ (hwritten password post out hsecret hrest)
        refine urlCredentialPattern_eq_none.mpr ?_
        intro hm
        have hm' : Found before ((c :: text) ++ password ++ '@' :: post) := hm
        rcases found_append hm' hsecret.not_mem_at with hm' | ⟨o, secret, ho, hsecret', heq⟩
        · exact hfound hm'
        · obtain ⟨s, htext, hs⟩ := ho.prefix_of_two_colons hcolons heq.symm
          refine hhere ⟨o, s, htext, ho, ?_⟩
          rw [hs] at hsecret'
          exact hsecret'.unbroken.of_append.1

theorem not_found_at : ¬Found before ('@' :: post) := by
  rintro ⟨o, password, rest, ho, -, heq⟩
  obtain ⟨c, tail, rfl, hletter⟩ := ho.exists_letter
  obtain ⟨rfl, -⟩ := List.cons.inj heq
  exact absurd hletter (by decide)

theorem IsSecret.concat {d : Char} (h : IsSecret password) (heq : text ++ [d] = o ++ password) :
    ∃ tail, text = o ++ tail ∧ Unbroken tail := by
  obtain hnil | ⟨tail, e, rfl⟩ := password.eq_nil_or_concat
  · exact absurd hnil h.nonempty
  · rw [List.concat_eq_append, ← List.append_assoc] at heq
    have hunbroken := h.unbroken
    rw [List.concat_eq_append] at hunbroken
    exact ⟨tail, (List.append_inj' heq rfl).1, hunbroken.of_append.1⟩

theorem not_found_of_not_covered {d : Char} (h : ¬Covered before text) (hfound : ¬Found before text)
    (hsecret : IsSecret [d]) : ¬Found before (text ++ d :: '@' :: post) := by
  intro hm
  have hm' : Found before (text ++ [d] ++ '@' :: post) := by simpa using hm
  rcases found_append hm' hsecret.not_mem_at with hm' | ⟨o, secret, ho, hsecret', heq⟩
  · exact hfound hm'
  · obtain ⟨tail, rfl, htail⟩ := hsecret'.concat heq
    exact h (.here ho htail)

/-- What is not covered is written with a password of one character after it. -/
theorem scans_of_not_covered (h : ¬Covered before text) : ∃ written, written.getLast? = text.getLast? ∧
    ∀ d post out, IsSecret [d] → Scans urlCredentialPattern (some '@') post out →
      Scans urlCredentialPattern before (text ++ d :: '@' :: post) (written ++ d :: '@' :: out) := by
  induction hn : text.length using Nat.strongRecOn generalizing before text with
  | ind n ih =>
    by_cases hfound : Found before text
    · obtain ⟨o, closed, rest, ho, hclosed, rfl⟩ := hfound
      have hrest : ¬Covered (some '@') rest := by
        intro hcovered
        refine h ?_
        have hbehind : Covered before ((o ++ closed ++ ['@']) ++ rest) := by
          refine .append ?_
          rwa [List.getLast?_concat]
        simpa using hbehind
      obtain ⟨written, hlast, hscan⟩ := ih rest.length (by simp at hn; omega) hrest rfl
      refine ⟨o ++ redacted.toList ++ '@' :: written, ?_, ?_⟩
      · rw [getLast?_append_cons, getLast?_append_cons, hlast]
      · intro d post out hsecret hrest
        simpa using scans_taken ho hclosed (hscan d post out hsecret hrest)
    · have hkept : ∀ d post, IsSecret [d] → urlCredentialPattern before (text ++ d :: '@' :: post) = none := by
        intro d post hsecret
        exact urlCredentialPattern_eq_none.mpr (not_found_of_not_covered h hfound hsecret)
      cases text with
      | nil =>
        refine ⟨[], rfl, ?_⟩
        intro d post out hsecret hrest
        exact .kept (hkept d post hsecret) (.kept (urlCredentialPattern_eq_none.mpr not_found_at) hrest)
      | cons c text =>
        obtain ⟨written, hlast, hscan⟩ := ih text.length (by simp [← hn]) (fun hc => h hc.cons) rfl
        refine ⟨c :: written, ?_, ?_⟩
        · rw [List.getLast?_cons, List.getLast?_cons, hlast]
        · intro d post out hsecret hrest
          exact .kept (hkept d post hsecret) (hscan d post out hsecret hrest)

end RentalMarket.Observability
