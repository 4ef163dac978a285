import Mathlib

namespace RentalMarket.Words

variable {α : Type*} {p : α → Bool} {gap word text : List α} {c : α}

def words (p : α → Bool) (text : List α) : List (List α) := (text.splitOnP p).filter (fun word => !word.isEmpty)

theorem words_append_cons (text : List α) (hc : p c = true) (rest : List α) :
    words p (text ++ c :: rest) = words p text ++ words p rest := by
  rw [words, List.splitOnP_append_cons text rest hc, List.filter_append, words, words]

theorem words_cons (hc : p c = true) (text : List α) : words p (c :: text) = words p text :=
  words_append_cons [] hc text

theorem words_gap_append (hgap : ∀ c ∈ gap, p c = true) (text : List α) : words p (gap ++ text) = words p text := by
  induction gap with
  | nil => rfl
  | cons c gap ih =>
    rw [List.cons_append, words_cons (hgap c List.mem_cons_self), ih (fun d hd => hgap d (List.mem_cons_of_mem c hd))]

theorem words_eq_singleton (hword : ∀ c ∈ word, p c = false) (hne : word ≠ []) : words p word = [word] := by
  rw [words, List.splitOnP_eq_singleton hword, List.filter_cons_of_pos (by simpa using hne)]
  rfl

theorem words_word_append (hword : ∀ c ∈ word, p c = false) (hne : word ≠ []) (htext : ∀ c ∈ text.head?, p c = true) :
    words p (word ++ text) = word :: words p text := by
  cases text with
  | nil => rw [List.append_nil, words_eq_singleton hword hne]; rfl
  | cons c text =>
    have hc : p c = true := htext c rfl
    rw [words_append_cons word hc, words_eq_singleton hword hne, words_cons hc]
    rfl

end RentalMarket.Words
