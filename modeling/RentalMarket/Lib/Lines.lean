import Mathlib

namespace RentalMarket.Lines

variable {α : Type*} {sign : α} {text front rest line : List α}

def Ended (sign : α) (text : List α) : Prop := ∀ c ∈ text.getLast?, c = sign

theorem ended_cons {c : α} (hne : text ≠ []) : Ended sign (c :: text) ↔ Ended sign text := by
  obtain ⟨front, d, rfl⟩ := text.eq_nil_or_concat.resolve_left hne
  simp only [Ended, List.concat_eq_append]
  rw [← List.cons_append, List.getLast?_concat, List.getLast?_concat]

theorem ended_append {ahead : List α} (hahead : Ended sign ahead) (h : Ended sign text) : Ended sign (ahead ++ text) := by
  intro c hc
  rw [Option.mem_def, List.getLast?_append] at hc
  cases hlast : text.getLast? with
  | none =>
    rw [hlast] at hc
    exact hahead c hc
  | some d =>
    rw [hlast] at hc
    exact h c (hlast ▸ hc)

theorem ended_concat (text : List α) (sign : α) : Ended sign (text ++ [sign]) := by
  intro c hc
  rw [List.getLast?_concat] at hc
  exact (Option.some.inj hc).symm

variable [DecidableEq α]

instance decidableEnded (sign : α) (text : List α) : Decidable (Ended sign text) :=
  inferInstanceAs (Decidable (∀ c ∈ text.getLast?, c = sign))

/-- The lines of a text. The sign ends one, and need not end the last. -/
def lines (sign : α) : List α → List (List α)
  | [] => []
  | c :: text =>
    if c = sign then [] :: lines sign text
    else
      match lines sign text with
      | [] => [[c]]
      | line :: rest => (c :: line) :: rest

theorem lines_line (h : sign ∉ line) (rest : List α) : lines sign (line ++ sign :: rest) = line :: lines sign rest := by
  induction line with
  | nil => simp only [List.nil_append, lines, if_true]
  | cons c line ih =>
    have hc : c ≠ sign := fun heq => h (heq ▸ List.mem_cons_self)
    rw [List.cons_append, lines, if_neg hc, ih (fun hm => h (List.mem_cons_of_mem _ hm))]

theorem lines_last (h : sign ∉ line) (hne : line ≠ []) : lines sign line = [line] := by
  induction line with
  | nil => exact absurd rfl hne
  | cons c line ih =>
    have hc : c ≠ sign := fun heq => h (heq ▸ List.mem_cons_self)
    rw [lines, if_neg hc]
    cases line with
    | nil => rfl
    | cons d line => rw [ih (fun hm => h (List.mem_cons_of_mem _ hm)) (List.cons_ne_nil d line)]

theorem lines_append (h : Ended sign front) (rest : List α) :
    lines sign (front ++ rest) = lines sign front ++ lines sign rest := by
  induction front with
  | nil => rfl
  | cons c front ih =>
    rw [List.cons_append, lines, lines]
    cases front with
    | nil =>
      have hc : c = sign := h c rfl
      rw [if_pos hc, if_pos hc]
      rfl
    | cons d front =>
      rw [ih ((ended_cons (List.cons_ne_nil d front)).mp h)]
      by_cases hc : c = sign
      · rw [if_pos hc, if_pos hc]
        rfl
      · rw [if_neg hc, if_neg hc]
        cases hlines : lines sign (d :: front) with
        | nil =>
          rw [lines] at hlines
          split at hlines
          · cases hlines
          · split at hlines <;> cases hlines
        | cons line lines => rfl

theorem exists_ended (sign : α) (text : List α) : ∃ front line, text = front ++ line ∧ Ended sign front ∧ sign ∉ line := by
  by_cases hm : sign ∈ text
  · obtain ⟨last, before, hreverse, hlast⟩ := List.eq_append_cons_of_mem (List.mem_reverse.mpr hm)
    refine ⟨before.reverse ++ [sign], last.reverse, ?_, ended_concat _ _, by simpa using hlast⟩
    have htext := congrArg List.reverse hreverse
    simpa using htext
  · exact ⟨[], text, rfl, by simp [Ended], hm⟩

theorem exists_of_mem (h : line ∈ lines sign text) :
    ∃ front rest, text = front ++ (line ++ rest) ∧ Ended sign front ∧ sign ∉ line := by
  induction hn : text.length using Nat.strongRecOn generalizing text with
  | ind n ih =>
    by_cases hm : sign ∈ text
    · obtain ⟨first, rest, rfl, hfirst⟩ := List.eq_append_cons_of_mem hm
      rw [lines_line hfirst] at h
      obtain rfl | h := List.mem_cons.mp h
      · exact ⟨[], sign :: rest, rfl, by simp [Ended], hfirst⟩
      · obtain ⟨front, after, rfl, hfront, hline⟩ := ih rest.length (by simp at hn; omega) h rfl
        refine ⟨(first ++ [sign]) ++ front, after, by simp, ended_append (ended_concat _ _) hfront, hline⟩
    · by_cases hne : text = []
      · rw [hne] at h
        cases h
      · rw [lines_last hm hne, List.mem_singleton] at h
        rw [h]
        exact ⟨[], [], by simp, by simp [Ended], hm⟩

end RentalMarket.Lines
