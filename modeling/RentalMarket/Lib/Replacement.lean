import Mathlib

namespace RentalMarket.Replacement

/-- A replacement text is made of characters and of special signs after a dollar. -/
inductive Piece where
  | plain (c : Char)
  | special (s : Char)
  deriving DecidableEq

/-- Of a pattern without groups these are all. -/
def specialSigns : List Char := ['$', '&', '`', '\'']

def pieces : List Char → List Piece
  | [] => []
  | c :: template =>
    if c = '$' then
      match template with
      | [] => [.plain c]
      | s :: rest => if s ∈ specialSigns then .special s :: pieces rest else .plain c :: pieces (s :: rest)
    else .plain c :: pieces template

def Piece.text : Piece → List Char
  | plain c => [c]
  | special s => ['$', s]

section

variable (matched before after : List Char)

def Piece.render : Piece → List Char
  | plain c => [c]
  | special '$' => ['$']
  | special '&' => matched
  | special '`' => before
  | special _ => after

/-- What `replace` puts in the place of a match. -/
def substituted (template : List Char) : List Char := (pieces template).flatMap (Piece.render matched before after)

end

def specials (template : List Char) : List Char :=
  (pieces template).filterMap (fun piece => match piece with
    | .plain _ => none
    | .special s => some s)

variable {matched before after matched' before' after' template front : List Char} {c s : Char}

theorem mem_specials : s ∈ specials template ↔ .special s ∈ pieces template := by
  rw [specials, List.mem_filterMap]
  constructor
  · rintro ⟨piece, hpiece, hs⟩
    cases piece with
    | plain c => cases hs
    | special s' =>
      cases hs
      exact hpiece
  · intro h
    exact ⟨_, h, rfl⟩

theorem pieces_special (hs : s ∈ specialSigns) (rest : List Char) : pieces ('$' :: s :: rest) = .special s :: pieces rest := by
  rw [pieces.eq_def]
  simp only [if_true, if_pos hs]

theorem pieces_dollar (hs : s ∉ specialSigns) (rest : List Char) :
    pieces ('$' :: s :: rest) = .plain '$' :: pieces (s :: rest) := by
  rw [pieces.eq_def]
  simp only [if_true, if_neg hs]

theorem pieces_plain (hc : c ≠ '$') (rest : List Char) : pieces (c :: rest) = .plain c :: pieces rest := by
  rw [pieces.eq_def]
  simp only [if_neg hc]

theorem pieces_text (template : List Char) : (pieces template).flatMap Piece.text = template := by
  induction template using pieces.induct with
  | case1 => rfl
  | case2 => rfl
  | case3 s rest hs ih =>
    rw [pieces_special hs, List.flatMap_cons, ih]
    rfl
  | case4 s rest hs ih =>
    rw [pieces_dollar hs, List.flatMap_cons, ih]
    rfl
  | case5 c template hc ih =>
    rw [pieces_plain hc, List.flatMap_cons, ih]
    rfl

theorem mem_specialSigns (h : .special s ∈ pieces template) : s ∈ specialSigns := by
  induction template using pieces.induct with
  | case1 => cases h
  | case2 => simp [pieces] at h
  | case3 s' rest hs ih =>
    rw [pieces_special hs] at h
    obtain h | h := List.mem_cons.mp h
    · cases h
      exact hs
    · exact ih h
  | case4 s' rest hs ih =>
    rw [pieces_dollar hs] at h
    obtain h | h := List.mem_cons.mp h
    · cases h
    · exact ih h
  | case5 c template hc ih =>
    rw [pieces_plain hc] at h
    obtain h | h := List.mem_cons.mp h
    · cases h
    · exact ih h

theorem plain_mem_pieces (h : c ∈ template) (hc : c ∉ specialSigns) : .plain c ∈ pieces template := by
  rw [← pieces_text template] at h
  obtain ⟨piece, hpiece, hmem⟩ := List.mem_flatMap.mp h
  cases piece with
  | plain d =>
    rw [List.mem_singleton.mp hmem]
    exact hpiece
  | special s =>
    have hs := mem_specialSigns hpiece
    have hdollar : '$' ∈ specialSigns := by decide
    simp only [Piece.text, List.mem_cons, List.not_mem_nil, or_false] at hmem
    obtain rfl | rfl := hmem
    · exact absurd hdollar hc
    · exact absurd hs hc

theorem mem_substituted {piece : Piece} (h : piece ∈ pieces template) (hc : c ∈ piece.render matched before after) :
    c ∈ substituted matched before after template := List.mem_flatMap.mpr ⟨piece, h, hc⟩

theorem length_render_le {piece : Piece} (h : piece ∈ pieces template) :
    (piece.render matched before after).length ≤ (substituted matched before after template).length := by
  rw [substituted, List.flatMap_def]
  exact (List.sublist_flatten_of_mem (List.mem_map_of_mem h)).length_le

theorem substituted_congr
    (h : ∀ piece ∈ pieces template, piece.render matched before after = piece.render matched' before' after') :
    substituted matched before after template = substituted matched' before' after' template :=
  List.flatMap_congr h

theorem substituted_of_plain (h : specials template = []) : substituted matched before after template = template := by
  have hplain : ∀ piece ∈ pieces template, piece.render matched before after = piece.text := by
    intro piece hpiece
    cases piece with
    | plain c => rfl
    | special s =>
      rw [← mem_specials, h] at hpiece
      cases hpiece
  calc substituted matched before after template = (pieces template).flatMap Piece.text := List.flatMap_congr hplain
    _ = template := pieces_text template

theorem length_substituted_lt (hrender : ∀ s ∈ specials template, (Piece.render matched before after (.special s)).length < 2)
    (h : specials template ≠ []) : (substituted matched before after template).length < template.length := by
  have hle : ∀ piece ∈ pieces template, (piece.render matched before after).length ≤ piece.text.length := by
    intro piece hpiece
    cases piece with
    | plain c => exact le_rfl
    | special s => exact (hrender s (mem_specials.mpr hpiece)).le
  obtain ⟨s, hs⟩ := List.exists_mem_of_ne_nil _ h
  have htext : template.length = ((pieces template).map (fun piece => piece.text.length)).sum := by
    conv => lhs; rw [← pieces_text template]
    rw [List.length_flatMap]
  rw [htext, substituted, List.length_flatMap]
  exact List.sum_lt_sum _ _ hle ⟨_, mem_specials.mp hs, hrender s hs⟩

theorem pieces_append (h : '$' ∉ front) (template : List Char) :
    pieces (front ++ template) = front.map Piece.plain ++ pieces template := by
  induction front with
  | nil => rfl
  | cons c front ih =>
    have hc : c ≠ '$' := fun heq => h (heq ▸ List.mem_cons_self)
    rw [List.cons_append, pieces_plain hc, ih (fun hm => h (List.mem_cons_of_mem _ hm))]
    rfl

theorem specials_of_not_mem (h : '$' ∉ template) : specials template = [] := by
  have hpieces := pieces_append h []
  rw [List.append_nil] at hpieces
  refine List.eq_nil_iff_forall_not_mem.mpr ?_
  intro s hs
  rw [mem_specials, hpieces] at hs
  simp [pieces] at hs

theorem substituted_append (h : '$' ∉ front) (template : List Char) :
    substituted matched before after (front ++ template) = front ++ substituted matched before after template := by
  have hfront : (front.map Piece.plain).flatMap (Piece.render matched before after) = front := by
    rw [List.flatMap_map]
    exact List.flatMap_singleton' front
  rw [substituted, pieces_append h, List.flatMap_append, hfront, substituted]

end RentalMarket.Replacement
