import RentalMarket.Observability.Redaction
import RentalMarket.Lib.Pieces

namespace RentalMarket.Observability

open Pieces

def Bounded (pattern : Option Char → List Char → Option (List Char × Nat)) : Prop :=
  ∀ before text replacement length, pattern before text = some (replacement, length) →
    0 < length ∧ length ≤ text.length

/-- A text and what becomes of it, where each character is kept or each match taken. -/
inductive Scans (pattern : Option Char → List Char → Option (List Char × Nat)) :
    Option Char → List Char → List Char → Prop
  | done {before : Option Char} : Scans pattern before [] []
  | kept {before : Option Char} {c : Char} {text out : List Char} (hnone : pattern before (c :: text) = none)
      (hrest : Scans pattern (some c) text out) : Scans pattern before (c :: text) (c :: out)
  | taken {before : Option Char} {found replacement text out : List Char}
      (hsome : pattern before (found ++ text) = some (replacement, found.length)) (hne : found ≠ [])
      (hrest : Scans pattern found.getLast? text out) : Scans pattern before (found ++ text) (replacement ++ out)

variable {pattern : Option Char → List Char → Option (List Char × Nat)} {before : Option Char} {text out : List Char}

theorem replaceAll_skipped (found text : List Char) :
    replaceAll pattern before found.length (found ++ text) = replaceAll pattern (found.getLast?.or before) 0 text := by
  induction found generalizing before with
  | nil => rfl
  | cons c found ih =>
    rw [List.length_cons, List.cons_append, replaceAll, ih, getLast?_cons_or]

theorem Scans.eq_replaceAll (h : Scans pattern before text out) : out = replaceAll pattern before 0 text := by
  induction h with
  | done => rfl
  | kept hnone _ ih => rw [replaceAll, hnone, ih]
  | @taken before found replacement text out hsome hne _ ih =>
    cases found with
    | nil => exact absurd rfl hne
    | cons c found =>
      rw [List.cons_append] at hsome ⊢
      rw [replaceAll, hsome]
      dsimp only
      rw [List.length_cons, Nat.add_sub_cancel, replaceAll_skipped, ih, ← getLast?_cons_or none c found, Option.or_none]

/-- Every text is scanned. -/
theorem scans_replaceAll (hbounded : Bounded pattern) (before : Option Char) (text : List Char) :
    Scans pattern before text (replaceAll pattern before 0 text) := by
  induction hn : text.length using Nat.strongRecOn generalizing before text with
  | ind n ih =>
    cases text with
    | nil => exact .done
    | cons c text =>
      cases hmatch : pattern before (c :: text) with
      | none =>
        rw [replaceAll, hmatch]
        exact .kept hmatch (ih text.length (by rw [← hn, List.length_cons]; omega) _ _ rfl)
      | some m =>
        obtain ⟨replacement, length⟩ := m
        obtain ⟨hpos, hle⟩ := hbounded _ _ _ _ hmatch
        have hsplit : (c :: text).take length ++ (c :: text).drop length = c :: text := List.take_append_drop _ _
        have hlength : ((c :: text).take length).length = length := List.length_take_of_le hle
        have hne : (c :: text).take length ≠ [] := by
          intro hnil
          rw [hnil] at hlength
          exact absurd hlength (Nat.ne_of_lt hpos)
        have hrest := ih ((c :: text).drop length).length (by rw [← hn, List.length_drop, List.length_cons]; omega)
          ((c :: text).take length).getLast? _ rfl
        have hscan : Scans pattern before ((c :: text).take length ++ (c :: text).drop length)
            (replacement ++ replaceAll pattern ((c :: text).take length).getLast? 0 ((c :: text).drop length)) := by
          refine .taken ?_ hne hrest
          rw [hsplit, hlength]
          exact hmatch
        rw [hsplit] at hscan
        rw [← hscan.eq_replaceAll]
        exact hscan

def Still (pattern : Option Char → List Char → Option (List Char × Nat)) : Option Char → List Char → Prop
  | _, [] => True
  | before, c :: text => pattern before (c :: text) = none ∧ Still pattern (some c) text

theorem Still.scans (h : Still pattern before text) : Scans pattern before text text := by
  induction text generalizing before with
  | nil => exact .done
  | cons c text ih => exact .kept h.1 (ih h.2)

end RentalMarket.Observability
