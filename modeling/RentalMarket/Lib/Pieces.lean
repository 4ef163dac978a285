import Mathlib

namespace RentalMarket.Pieces

variable {α : Type*} {p : α → Bool} {front rest text : List α} {c : α}

theorem takeWhile_append (hfront : ∀ c ∈ front, p c = true) (hrest : ∀ c ∈ rest.head?, p c = false) :
    (front ++ rest).takeWhile p = front := by
  rw [List.takeWhile_append_of_pos hfront]
  cases rest with
  | nil => rw [List.takeWhile_nil, List.append_nil]
  | cons c rest => rw [List.takeWhile_cons_of_neg (by simp [hrest c rfl]), List.append_nil]

theorem takeWhile_stop (hfront : ∀ d ∈ front, p d = true) (hc : p c = false) (rest : List α) :
    (front ++ c :: rest).takeWhile p = front := by
  refine takeWhile_append hfront ?_
  rintro d ⟨⟩
  exact hc

theorem exists_takeWhile (p : α → Bool) (text : List α) :
    ∃ rest, text = text.takeWhile p ++ rest ∧ text.drop (text.takeWhile p).length = rest ∧
      ∀ c ∈ rest.head?, p c = false := by
  have hsplit : text.takeWhile p ++ text.dropWhile p = text := List.takeWhile_append_dropWhile
  refine ⟨text.dropWhile p, hsplit.symm, ?_, ?_⟩
  · calc text.drop (text.takeWhile p).length
        = (text.takeWhile p ++ text.dropWhile p).drop (text.takeWhile p).length := by rw [hsplit]
      _ = text.dropWhile p := List.drop_left
  · intro c hc
    have hstop := List.head?_dropWhile_not p text
    rwa [Option.mem_def.mp hc] at hstop

theorem exists_first_not (hc : c ∈ text) (hp : p c = false) :
    ∃ front d rest, text = front ++ d :: rest ∧ (∀ e ∈ front, p e = true) ∧ p d = false := by
  obtain ⟨rest, htext, -, hstop⟩ := exists_takeWhile p text
  cases rest with
  | nil =>
    rw [htext, List.append_nil] at hc
    rw [List.mem_takeWhile_imp hc] at hp
    cases hp
  | cons d rest => exact ⟨_, d, rest, htext, fun e he => List.mem_takeWhile_imp he, hstop d rfl⟩

theorem cons_of_head? (h : text.head? = some c) : text = c :: text.drop 1 := by
  cases text with
  | nil => cases h
  | cons d text =>
    cases h
    rfl

theorem head?_append_cons (front tail tail' : List α) (c : α) :
    (front ++ c :: tail).head? = (front ++ c :: tail').head? := by
  cases front <;> rfl

theorem getLast?_cons_or (before : Option α) (c : α) (text : List α) :
    (c :: text).getLast?.or before = text.getLast?.or (some c) := by
  rw [List.getLast?_cons]
  cases text.getLast? <;> rfl

theorem getLast?_or_of_ne_nil (hne : text ≠ []) (before : Option α) : text.getLast?.or before = text.getLast? := by
  obtain ⟨front, c, rfl⟩ := text.eq_nil_or_concat.resolve_left hne
  rw [List.concat_eq_append, List.getLast?_concat]
  rfl

theorem getLast?_append_cons (front rest : List α) (c : α) : (front ++ c :: rest).getLast? = rest.getLast?.or (some c) := by
  rw [List.getLast?_append, ← Option.or_none (o := (c :: rest).getLast?), getLast?_cons_or]
  cases rest.getLast? <;> rfl

theorem append_cons_ne {u v r s : List α} {x y : α} (hxy : x ≠ y) (hx : x ∉ v) (hy : y ∉ u) :
    u ++ x :: r ≠ v ++ y :: s := by
  intro heq
  induction u generalizing v with
  | nil =>
    cases v with
    | nil => exact hxy (List.cons.inj heq).1
    | cons c v => exact hx ((List.cons.inj heq).1 ▸ List.mem_cons_self)
  | cons c u ih =>
    cases v with
    | nil => exact hy ((List.cons.inj heq).1 ▸ List.mem_cons_self)
    | cons d v =>
      exact ih (fun hm => hx (List.mem_cons_of_mem _ hm)) (fun hm => hy (List.mem_cons_of_mem _ hm))
        (List.cons.inj heq).2

end RentalMarket.Pieces
