import RentalMarket.Release.EnvLines

namespace RentalMarket.Release

open Lines
open Pieces
open Replacement

variable {key text front rest value old before after line : List Char} {c : Char}

def update (key value contents : List Char) : List Char :=
  match findLine key true contents with
  | some (before, old, after) =>
    before ++ assignment key (substituted (assignment key old) before after value ++ after)
  | none =>
    (contents ++ if contents = [] ∨ contents.getLast? = some '\n' then [] else ['\n']) ++ assignment key (value ++ ['\n'])

theorem dollar_not_mem_name (hname : isEnvName key = true) : '$' ∉ key ++ ['='] := by
  intro hm
  obtain hm | hm := List.mem_append.mp hm
  · have hrange := toNat_of_mem_name hname hm
    exact absurd hrange.1 (by decide)
  · exact absurd (List.mem_singleton.mp hm) (by decide)

theorem ok_ofList_eq {text : List Char} {updated : String} :
    (Except.ok (String.ofList text) : Except String String) = .ok updated ↔ updated.toList = text := by
  rw [Except.ok.injEq]
  constructor
  · rintro rfl
    exact String.toList_ofList
  · rintro rfl
    exact String.ofList_toList

theorem setEnvValue_eq_ok {contents key value updated : String} : setEnvValue contents key value = .ok updated ↔
    isEnvName key.toList = true ∧ isUnwritable value.toList = false ∧
      updated.toList = update key.toList value.toList contents.toList := by
  rw [setEnvValue, update]
  by_cases hname : isEnvName key.toList = true
  · by_cases hwritable : isUnwritable value.toList = true
    · simp [hname, hwritable]
    · rw [Bool.not_eq_true] at hwritable
      have hassoc : ∀ v, assignment key.toList v = (key.toList ++ ['=']) ++ v := fun v => by simp [assignment]
      rw [if_neg (by simp [hname]), if_neg (by simp [hwritable])]
      dsimp only
      cases hfind : findLine key.toList true contents.toList with
      | none =>
        dsimp only
        rw [ok_ofList_eq]
        simp [hname, hwritable, hassoc]
      | some m =>
        obtain ⟨before, old, after⟩ := m
        dsimp only
        rw [ok_ofList_eq, hassoc value.toList, substituted_append (dollar_not_mem_name hname)]
        simp [hname, hwritable, hassoc]
  · simp [hname]

theorem update_at (hname : isEnvName key = true) (hfree : Free key true front) (hstart : StartsLine true front)
    (hold : ∀ c ∈ old, isTerminator c = false) (hafter : ∀ c ∈ after.head?, isTerminator c = true) :
    update key value (front ++ assignment key (old ++ after)) =
      front ++ assignment key (substituted (assignment key old) front after value ++ after) := by
  have hold' : ∀ c ∈ old, (!isTerminator c) = true := fun c hc => by simp [hold c hc]
  have hafter' : ∀ c ∈ after.head?, (!isTerminator c) = false := fun c hc => by simp [hafter c hc]
  have htake : (old ++ after).takeWhile (fun c => !isTerminator c) = old := takeWhile_append hold' hafter'
  have hdrop : (old ++ after).dropWhile (fun c => !isTerminator c) = after := by
    have hsplit := List.takeWhile_append_dropWhile (p := fun c => !isTerminator c) (l := old ++ after)
    rw [htake] at hsplit
    exact List.append_cancel_left hsplit
  rw [update, findLine_append hname hfree hstart, findLine_assignment hname, htake, hdrop]
  simp

/-- What is put in does not put in anything else the next time. -/
structure Repeatable (value front after : List Char) : Prop where
  unbroken : ∀ c ∈ value, isTerminator c = false
  harmless : ∀ s ∈ specials value, s = '$' ∨ s = '`' ∧ front = [] ∨ s = '\'' ∧ after = []

theorem not_special_of_isTerminator (h : isTerminator c = true) : c ∉ specialSigns := by
  intro hm
  have hall : specialSigns.all (fun s => !isTerminator s) = true := by decide +kernel
  have hc := List.all_eq_true.mp hall c hm
  rw [h] at hc
  cases hc

theorem eq_nil_of_startsLine (hstart : StartsLine true front) (h : ∀ c ∈ front, isTerminator c = false) : front = [] := by
  obtain rfl | ⟨init, c, rfl⟩ := front.eq_nil_or_concat
  · rfl
  · rw [List.concat_eq_append] at hstart h
    rw [StartsLine, List.getLast?_concat] at hstart
    have hterminator : isTerminator c = true := hstart
    rw [h c (List.mem_append_right init List.mem_cons_self)] at hterminator
    cases hterminator

theorem eq_nil_of_head (hhead : ∀ c ∈ after.head?, isTerminator c = true) (h : ∀ c ∈ after, isTerminator c = false) :
    after = [] := by
  cases after with
  | nil => rfl
  | cons c after =>
    have hc := h c List.mem_cons_self
    rw [hhead c rfl] at hc
    cases hc

theorem repeatable_of_substituted (hstart : StartsLine true front) (hold : ∀ c ∈ old, isTerminator c = false)
    (hafter : ∀ c ∈ after.head?, isTerminator c = true)
    (h : substituted (assignment key old) front after value = old) : Repeatable value front after := by
  have hrender : ∀ piece ∈ pieces value, ∀ c ∈ piece.render (assignment key old) front after, isTerminator c = false := by
    intro piece hpiece c hc
    exact hold c (h ▸ mem_substituted hpiece hc)
  constructor
  · intro c hc
    by_contra hterminator
    rw [Bool.not_eq_false] at hterminator
    have hplain := hrender _ (plain_mem_pieces hc (not_special_of_isTerminator hterminator)) c List.mem_cons_self
    rw [hterminator] at hplain
    cases hplain
  · intro s hs
    have hpiece := mem_specials.mp hs
    have hsign := mem_specialSigns hpiece
    simp only [specialSigns, List.mem_cons, List.not_mem_nil, or_false] at hsign
    obtain rfl | rfl | rfl | rfl := hsign
    · exact .inl rfl
    · have hlength : (assignment key old).length ≤ (substituted (assignment key old) front after value).length :=
        length_render_le hpiece
      rw [h, assignment, List.length_append, List.length_cons] at hlength
      omega
    · exact .inr (.inl ⟨rfl, eq_nil_of_startsLine hstart (hrender _ hpiece)⟩)
    · exact .inr (.inr ⟨rfl, eq_nil_of_head hafter (hrender _ hpiece)⟩)

namespace Repeatable

variable {matched matched' : List Char}

theorem unbroken_substituted (h : Repeatable value front after) :
    ∀ c ∈ substituted matched front after value, isTerminator c = false := by
  intro c hc
  obtain ⟨piece, hpiece, hc⟩ := List.mem_flatMap.mp hc
  cases piece with
  | plain d =>
    rw [List.mem_singleton.mp hc]
    refine h.unbroken d ?_
    rw [← pieces_text value]
    exact List.mem_flatMap.mpr ⟨_, hpiece, List.mem_cons_self⟩
  | special s =>
    obtain rfl | ⟨rfl, rfl⟩ | ⟨rfl, rfl⟩ := h.harmless s (mem_specials.mpr hpiece)
    · rw [List.mem_singleton.mp hc]
      decide
    · cases hc
    · cases hc

theorem substituted_eq (h : Repeatable value front after) :
    substituted matched front after value = substituted matched' front after value := by
  refine substituted_congr ?_
  intro piece hpiece
  cases piece with
  | plain c => rfl
  | special s => obtain rfl | ⟨rfl, rfl⟩ | ⟨rfl, rfl⟩ := h.harmless s (mem_specials.mpr hpiece) <;> rfl

theorem specials_eq_nil (h : Repeatable value front after) (heq : substituted matched front after value = value) :
    specials value = [] := by
  by_contra hne
  have hlt : (substituted matched front after value).length < value.length := by
    refine length_substituted_lt ?_ hne
    intro s hs
    obtain rfl | ⟨rfl, rfl⟩ | ⟨rfl, rfl⟩ := h.harmless s hs
    · exact Nat.one_lt_two
    · exact Nat.two_pos
    · exact Nat.two_pos
  rw [heq] at hlt
  exact lt_irrefl _ hlt

end Repeatable

section

variable {matched : List Char} (hname : isEnvName key = true) (hfree : Free key true front)
  (hstart : StartsLine true front) (hafter : ∀ c ∈ after.head?, isTerminator c = true)

include hname hfree hstart hafter

theorem repeatable_of_twice
    (h : update key value (front ++ assignment key (text ++ after)) = front ++ assignment key (text ++ after)) :
    Repeatable value front after := by
  obtain ⟨rest, hsplit, -, hrest⟩ := exists_takeWhile (fun c => !isTerminator c) (text ++ after)
  have htaken : ∀ c ∈ (text ++ after).takeWhile (fun c => !isTerminator c), isTerminator c = false := by
    intro c hc
    simpa using List.mem_takeWhile_imp hc
  have hrest' : ∀ c ∈ rest.head?, isTerminator c = true := fun c hc => by simpa using hrest c hc
  generalize (text ++ after).takeWhile (fun c => !isTerminator c) = taken at hsplit htaken
  rw [hsplit, update_at hname hfree hstart htaken hrest'] at h
  have hsame : substituted (assignment key taken) front rest value = taken := by simpa [assignment] using h
  have hrepeatable := repeatable_of_substituted hstart htaken hrest' hsame
  refine ⟨hrepeatable.unbroken, ?_⟩
  intro s hs
  obtain hs | hs | ⟨rfl, rfl⟩ := hrepeatable.harmless s hs
  · exact .inl hs
  · exact .inr (.inl hs)
  · refine .inr (.inr ⟨rfl, eq_nil_of_head hafter ?_⟩)
    intro c hc
    exact htaken c (by rw [← List.append_nil taken, ← hsplit]; exact List.mem_append_right text hc)

theorem update_twice_iff (heq : substituted matched front after value = text) :
    update key value (front ++ assignment key (text ++ after)) = front ++ assignment key (text ++ after) ↔
      Repeatable value front after := by
  refine ⟨repeatable_of_twice hname hfree hstart hafter, ?_⟩
  intro h
  have htext : ∀ c ∈ text, isTerminator c = false := heq ▸ h.unbroken_substituted
  rw [update_at hname hfree hstart htext hafter, h.substituted_eq, heq]

theorem update_value_iff : update key value (front ++ assignment key (value ++ after)) = front ++ assignment key (value ++ after) ↔
    (∀ c ∈ value, isTerminator c = false) ∧ specials value = [] := by
  constructor
  · intro h
    have hrepeatable := repeatable_of_twice hname hfree hstart hafter h
    rw [update_at hname hfree hstart hrepeatable.unbroken hafter] at h
    have hsame : substituted (assignment key value) front after value = value := by simpa [assignment] using h
    exact ⟨hrepeatable.unbroken, hrepeatable.specials_eq_nil hsame⟩
  · rintro ⟨hunbroken, hplain⟩
    rw [update_at hname hfree hstart hunbroken hafter, substituted_of_plain hplain]

end

/-- `Records`, of the characters. -/
structure Kept (key value contents updated : List Char) : Prop where
  recorded : readEnv key updated = some value
  others : ∀ other, '=' ∉ other → other ≠ key → readEnv other updated = readEnv other contents
  inPlace : ∀ (i : ℕ) (line : List Char), (lines '\n' contents)[i]? = some line → ¬Assigns key line →
    (lines '\n' updated)[i]? = some line
  twice : update key value updated = updated

theorem records_iff_kept {contents key value updated : String} (h : setEnvValue contents key value = .ok updated) :
    Records contents key value updated ↔ Kept key.toList value.toList contents.toList updated.toList := by
  obtain ⟨hname, hwritable, -⟩ := setEnvValue_eq_ok.mp h
  constructor
  · rintro ⟨hrecorded, hothers, hinPlace, htwice⟩
    exact ⟨hrecorded, hothers, hinPlace, (setEnvValue_eq_ok.mp htwice).2.2.symm⟩
  · rintro ⟨hrecorded, hothers, hinPlace, htwice⟩
    exact ⟨hrecorded, hothers, hinPlace, setEnvValue_eq_ok.mpr ⟨hname, hwritable, htwice.symm⟩⟩

theorem withoutReturn_of_unbroken (h : ∀ c ∈ value, isTerminator c = false) : withoutReturn value = value := by
  rw [withoutReturn, if_neg]
  intro hlast
  have hc := h '\r' (List.mem_of_mem_getLast? hlast)
  cases hc

theorem newline_not_mem (h : ∀ c ∈ value, isTerminator c = false) : '\n' ∉ value := fun hm => by cases h '\n' hm

section

variable {other x y : List Char} {ls ls' : List (List Char)}

theorem lastAssigned_other (hname : isEnvName key = true) (hother : '=' ∉ other) (hne : other ≠ key)
    (hx : Assigns key x) : lastAssigned other (ls ++ x :: ls') = (lastAssigned other ls').or (lastAssigned other ls) := by
  have hnone : assigned other x = none := assigned_eq_none (fun hassigns => hne (eq_of_assigns hname hother hx hassigns))
  rw [lastAssigned_append, lastAssigned_cons, hnone, Option.or_none]

theorem getElem?_of_replaced {i : ℕ} (h : (ls ++ x :: ls')[i]? = some line) (hne : line ≠ x) :
    (ls ++ y :: ls')[i]? = some line := by
  obtain hlt | rfl | hgt := lt_trichotomy i ls.length
  · rw [List.getElem?_append_left hlt] at h ⊢
    exact h
  · rw [List.getElem?_append_right le_rfl, Nat.sub_self] at h
    exact absurd (Option.some.inj h).symm hne
  · rw [List.getElem?_append_right hgt.le] at h ⊢
    obtain ⟨d, hd⟩ := Nat.exists_eq_add_of_lt hgt
    have hsub : i - ls.length = d + 1 := by omega
    rw [hsub] at h ⊢
    exact h

theorem Free.left (h : Free key start (front ++ rest)) : Free key start front := by
  induction front generalizing start with
  | nil => trivial
  | cons c front ih =>
    refine ⟨?_, ih h.2⟩
    rintro ⟨hstart, hassigns⟩
    exact h.1 ⟨hstart, hassigns.trans (List.prefix_append (c :: front) rest)⟩

theorem not_assigns_nil : ¬Assigns key [] := by
  intro h
  have hnil := List.prefix_nil.mp h
  simp at hnil

theorem Free.concat (hname : isEnvName key = true) (h : Free key start front) (hc : isTerminator c = true) :
    Free key start (front ++ [c]) := by
  induction front generalizing start with
  | nil => exact ⟨fun hassigns => not_assigns_nil (assigns_of_append hname hc hassigns.2), trivial⟩
  | cons d front ih =>
    refine ⟨?_, ih h.2⟩
    rintro ⟨hstart, hassigns⟩
    have hfront : Assigns key ((d :: front) ++ c :: []) := hassigns
    exact h.1 ⟨hstart, assigns_of_append hname hc hfront⟩

theorem newline_not_mem_assignment (hname : isEnvName key = true) (h : '\n' ∉ value) : '\n' ∉ assignment key value := by
  intro hm
  have hsplit : assignment key value = (key ++ ['=']) ++ value := by simp [assignment]
  rw [hsplit] at hm
  obtain hm | hm := List.mem_append.mp hm
  · cases isTerminator_of_mem hname hm
  · exact h hm

theorem lines_at (hname : isEnvName key = true) (hended : Ended '\n' front) (hline : '\n' ∉ line) (hx : '\n' ∉ x)
    (after : List Char) : lines '\n' ((front ++ line) ++ assignment key (x ++ after)) =
      lines '\n' front ++ (line ++ assignment key (x ++ onLine after)) :: lines '\n' (below after) := by
  have hon : '\n' ∉ line ++ assignment key x := by
    rw [List.mem_append, not_or]
    exact ⟨hline, newline_not_mem_assignment hname hx⟩
  have hne : line ++ assignment key x ≠ [] := by simp [assignment]
  have hsplit : ∀ rest, assignment key (x ++ rest) = assignment key x ++ rest := fun rest => by simp [assignment]
  rw [List.append_assoc, lines_append hended, hsplit, ← List.append_assoc, lines_onLine hon hne, hsplit, ← List.append_assoc]

theorem withoutReturn_append_iff (hx : ∀ c ∈ x, isTerminator c = false) (hvalue : ∀ c ∈ value, isTerminator c = false)
    (hafter : ∀ c ∈ after.head?, isTerminator c = true) :
    withoutReturn (x ++ after) = value ↔ x = value ∧ (after = [] ∨ after = ['\r']) := by
  have hempty : withoutReturn (x ++ []) = x := by rw [List.append_nil, withoutReturn_of_unbroken hx]
  have hreturn : withoutReturn (x ++ ['\r']) = x := by
    rw [withoutReturn, if_pos List.getLast?_concat, List.dropLast_concat]
  constructor
  · intro h
    cases after with
    | nil => exact ⟨hempty.symm.trans h, .inl rfl⟩
    | cons c after =>
      have hc := hafter c rfl
      have hout : c ∉ withoutReturn (x ++ c :: after) := by
        intro hm
        rw [hvalue c (h ▸ hm)] at hc
        cases hc
      have hkept : ((x ++ c :: after).getLast? = some '\r') ∧ after = [] := by
        rw [withoutReturn] at hout
        split at hout
        · rename_i hlast
          refine ⟨hlast, ?_⟩
          by_contra hne
          rw [List.dropLast_append_of_ne_nil (List.cons_ne_nil c after), List.dropLast_cons_of_ne_nil hne] at hout
          exact hout (List.mem_append_right x List.mem_cons_self)
        · exact absurd (List.mem_append_right x List.mem_cons_self) hout
      obtain ⟨hlast, rfl⟩ := hkept
      rw [List.getLast?_concat] at hlast
      obtain rfl := Option.some.inj hlast
      exact ⟨hreturn.symm.trans h, .inr rfl⟩
  · rintro ⟨rfl, rfl | rfl⟩
    · exact hempty
    · exact hreturn

end

theorem not_mem_of_writable (h : isUnwritable value = false) : '\r' ∉ value ∧ '\n' ∉ value := by
  have hnot : ∀ c ∈ value, c ≠ '\r' ∧ c ≠ '\n' := by
    intro c hc
    have hc' := List.any_eq_false.mp h c hc
    simp only [Bool.or_eq_true, decide_eq_true_eq, not_or] at hc'
    exact hc'.1
  exact ⟨fun hm => (hnot _ hm).1 rfl, fun hm => (hnot _ hm).2 rfl⟩

theorem finished (hname : isEnvName key = true) {contents : List Char} (hfree : Free key true contents) : ∃ front,
    (contents ++ if contents = [] ∨ contents.getLast? = some '\n' then [] else ['\n']) = front ∧ Ended '\n' front ∧
      lines '\n' front = lines '\n' contents ∧ Free key true front := by
  by_cases hlast : contents = [] ∨ contents.getLast? = some '\n'
  · refine ⟨contents, by rw [if_pos hlast, List.append_nil], ?_, rfl, hfree⟩
    intro c hc
    obtain rfl | hlast := hlast
    · cases hc
    · exact Option.some.inj (hc.symm.trans hlast)
  · refine ⟨contents ++ ['\n'], by rw [if_neg hlast], ended_concat _ _, ?_, hfree.concat hname (by decide)⟩
    rw [not_or] at hlast
    obtain ⟨front, line, rfl, hended, hline⟩ := exists_ended '\n' contents
    have hne : line ≠ [] := by
      rintro rfl
      rw [List.append_nil] at hlast
      obtain ⟨init, c, rfl⟩ := front.eq_nil_or_concat.resolve_left hlast.1
      rw [List.concat_eq_append] at hlast hended
      exact hlast.2 (List.getLast?_concat.trans (congrArg some (hended c List.getLast?_concat)))
    rw [List.append_assoc, lines_append hended, lines_append hended, lines_last hline hne, lines_line hline]
    rfl

theorem kept_none_iff (hname : isEnvName key = true) (hwritable : isUnwritable value = false) {contents : List Char}
    (hnone : findLine key true contents = none) : Kept key value contents (update key value contents) ↔
      (∀ c ∈ value, isTerminator c = false) ∧ specials value = [] := by
  obtain ⟨front, hfront, hended, hlines, hfree⟩ := finished hname (free_of_findLine hnone)
  obtain ⟨hreturn, hnewline⟩ := not_mem_of_writable hwritable
  have hupdate : update key value contents = front ++ assignment key (value ++ ['\n']) := by
    rw [update, hnone]
    dsimp only
    rw [hfront]
  have hafter : lines '\n' (front ++ assignment key (value ++ ['\n'])) = lines '\n' contents ++ [assignment key value] := by
    have hline := lines_line (newline_not_mem_assignment hname hnewline) []
    have hassignment : assignment key (value ++ ['\n']) = assignment key value ++ ['\n'] := by simp [assignment]
    rw [lines_append hended, hlines, hassignment, hline]
    rfl
  have hkept : withoutReturn value = value := by
    rw [withoutReturn, if_neg]
    exact fun hlast => hreturn (List.mem_of_getLast? hlast)
  have hend : ∀ c ∈ ['\n'].head?, isTerminator c = true := by simp [isTerminator]
  rw [hupdate, ← update_value_iff hname hfree (startsLine_of_ended hended) hend]
  refine ⟨Kept.twice, fun htwice => ⟨?_, ?_, ?_, htwice⟩⟩
  · rw [readEnv_eq, hafter, lastAssigned_append, lastAssigned_cons, assigned_assignment, hkept]
    rfl
  · intro other hother hne
    rw [readEnv_eq, hafter, lastAssigned_other hname hother hne (assigns_assignment key value)]
    rfl
  · intro i line hline _
    rw [hafter, List.getElem?_append_left (List.getElem?_eq_some_iff.mp hline).1]
    exact hline

section

variable {matched : List Char}

theorem Repeatable.substituted_nil (h : Repeatable value before after) (hbefore : before ≠ []) (hafter : after ≠ []) :
    substituted matched before after value = substituted [] [] [] value := by
  refine substituted_congr ?_
  intro piece hpiece
  cases piece with
  | plain c => rfl
  | special s =>
    obtain rfl | ⟨-, hnil⟩ | ⟨-, hnil⟩ := h.harmless s (mem_specials.mpr hpiece)
    · rfl
    · exact absurd hnil hbefore
    · exact absurd hnil hafter

theorem below_nil : below [] = [] := rfl

theorem readEnv_nil (key : List Char) : readEnv key [] = none := rfl

theorem repeatable_iff (hafter : after ≠ []) : Repeatable value before after ↔
    (∀ c ∈ value, isTerminator c = false) ∧ ∀ s ∈ specials value, s = '$' ∨ s = '`' ∧ before = [] := by
  constructor
  · intro h
    refine ⟨h.unbroken, ?_⟩
    intro s hs
    obtain hs | hs | ⟨-, hnil⟩ := h.harmless s hs
    · exact .inl hs
    · exact .inr hs
    · exact absurd hnil hafter
  · rintro ⟨hunbroken, hharmless⟩
    exact ⟨hunbroken, fun s hs => (hharmless s hs).imp_right .inl⟩

theorem head_onLine (h : ∀ c ∈ after.head?, isTerminator c = true) : ∀ c ∈ (onLine after).head?, isTerminator c = true := by
  intro c hc
  refine h c ?_
  cases after with
  | nil => cases hc
  | cons d after =>
    rw [onLine, List.takeWhile_cons] at hc
    split at hc
    · exact hc
    · cases hc

section

variable (hname : isEnvName key = true) (hfree : Free key true before) (hended : Ended '\n' before)
  (hold : ∀ c ∈ old, isTerminator c = false) (hafter : ∀ c ∈ after.head?, isTerminator c = true)
  (htext : substituted matched before after value = text)

include hended hafter htext

theorem recordable_line_iff : (∀ c ∈ value, isTerminator c = false) ∧ RecordableAt key value before old after ↔
    Repeatable value before after ∧
      (readEnv key (below after)).or (some (withoutReturn (text ++ onLine after))) = some value := by
  rw [RecordableAt]
  cases hbelow : readEnv key (below after) with
  | none =>
    dsimp only
    rw [Option.none_or, Option.some.injEq]
    constructor
    · rintro ⟨hunbroken, hplain, -, hreturn⟩
      rw [substituted_of_plain hplain] at htext
      refine ⟨⟨hunbroken, fun s hs => by rw [hplain] at hs; cases hs⟩, ?_⟩
      exact (withoutReturn_append_iff (htext ▸ hunbroken) hunbroken (head_onLine hafter)).mpr ⟨htext.symm, hreturn⟩
    · rintro ⟨hrepeatable, hread⟩
      have hunbroken : ∀ c ∈ text, isTerminator c = false := htext ▸ hrepeatable.unbroken_substituted
      obtain ⟨heq, hreturn⟩ := (withoutReturn_append_iff hunbroken hrepeatable.unbroken (head_onLine hafter)).mp hread
      exact ⟨hrepeatable.unbroken, hrepeatable.specials_eq_nil (htext.trans heq), hended, hreturn⟩
  | some last =>
    have hne : after ≠ [] := by
      rintro rfl
      rw [below_nil, readEnv_nil] at hbelow
      cases hbelow
    dsimp only
    rw [Option.some_or, Option.some.injEq, repeatable_iff hne]
    exact ⟨fun h => ⟨⟨h.1, h.2.2.1⟩, h.2.1⟩, fun h => ⟨h.1.1, h.2, h.1.2, .inl hended⟩⟩

include hname hfree hold

/-- The match is a line of the text: it is replaced. -/
theorem kept_line_iff :
    Kept key value (before ++ assignment key (old ++ after)) (before ++ assignment key (text ++ after)) ↔
      (∀ c ∈ value, isTerminator c = false) ∧ RecordableAt key value before old after := by
  have hlines : ∀ x, (∀ c ∈ x, isTerminator c = false) → lines '\n' (before ++ assignment key (x ++ after)) =
      lines '\n' before ++ assignment key (x ++ onLine after) :: lines '\n' (below after) := by
    intro x hx
    have hline := lines_at hname hended List.not_mem_nil (newline_not_mem hx) after
    rwa [List.append_nil, List.nil_append] at hline
  have hbefore : lastAssigned key (lines '\n' before) = none := lastAssigned_eq_none hfree.not_assigns_line
  have htwice := update_twice_iff hname hfree (startsLine_of_ended hended) hafter htext
  have hread : (∀ c ∈ text, isTerminator c = false) → readEnv key (before ++ assignment key (text ++ after)) =
      (readEnv key (below after)).or (some (withoutReturn (text ++ onLine after))) := by
    intro hunbroken
    rw [readEnv_eq, hlines text hunbroken, lastAssigned_append, lastAssigned_cons, hbefore, Option.or_none,
      assigned_assignment, readEnv_eq]
  rw [recordable_line_iff hended hafter htext]
  constructor
  · intro h
    have hrepeatable := htwice.mp h.twice
    refine ⟨hrepeatable, ?_⟩
    rw [← hread (htext ▸ hrepeatable.unbroken_substituted)]
    exact h.recorded
  · rintro ⟨hrepeatable, hrecorded⟩
    have hunbroken : ∀ c ∈ text, isTerminator c = false := htext ▸ hrepeatable.unbroken_substituted
    refine ⟨(hread hunbroken).trans hrecorded, ?_, ?_, htwice.mpr hrepeatable⟩
    · intro other hother hne
      rw [readEnv_eq, readEnv_eq, hlines text hunbroken, hlines old hold,
        lastAssigned_other hname hother hne (assigns_assignment key _),
        lastAssigned_other hname hother hne (assigns_assignment key _)]
    · intro i line hline hassigns
      rw [hlines old hold] at hline
      rw [hlines text hunbroken]
      refine getElem?_of_replaced hline ?_
      rintro rfl
      exact hassigns (assigns_assignment key _)

end

section

variable (hname : isEnvName key = true) (hfree : Free key true before) (hstart : StartsLine true before)
  (hended : ¬Ended '\n' before) (hold : ∀ c ∈ old, isTerminator c = false)
  (hafter : ∀ c ∈ after.head?, isTerminator c = true) (htext : substituted matched before after value = text)

include hended htext

theorem recordable_within_iff : (∀ c ∈ value, isTerminator c = false) ∧ RecordableAt key value before old after ↔
    Repeatable value before after ∧ text = old ∧ readEnv key (below after) = some value := by
  rw [RecordableAt]
  cases hbelow : readEnv key (below after) with
  | none =>
    dsimp only
    constructor
    · rintro ⟨-, -, hended', -⟩
      exact absurd hended' hended
    · rintro ⟨-, -, hread⟩
      cases hread
  | some last =>
    have hne : after ≠ [] := by
      rintro rfl
      rw [below_nil, readEnv_nil] at hbelow
      cases hbelow
    have hbefore : before ≠ [] := by
      rintro rfl
      exact hended (by simp [Ended])
    dsimp only
    rw [Option.some.injEq]
    constructor
    · rintro ⟨hunbroken, hlast, hharmless, hsame⟩
      have hrepeatable := (repeatable_iff hne).mpr ⟨hunbroken, hharmless⟩
      refine ⟨hrepeatable, ?_, hlast⟩
      rw [← htext, hrepeatable.substituted_nil hbefore hne]
      exact hsame.resolve_left hended
    · rintro ⟨hrepeatable, hsame, hlast⟩
      obtain ⟨hunbroken, hharmless⟩ := (repeatable_iff hne).mp hrepeatable
      refine ⟨hunbroken, hlast, hharmless, .inr ?_⟩
      exact (hrepeatable.substituted_nil hbefore hne).symm.trans (htext.trans hsame)

include hname hfree hstart hold hafter

/-- The match is not a line of the text: its line assigns nothing to the key. -/
theorem kept_within_iff :
    Kept key value (before ++ assignment key (old ++ after)) (before ++ assignment key (text ++ after)) ↔
      (∀ c ∈ value, isTerminator c = false) ∧ RecordableAt key value before old after := by
  obtain ⟨front, line, rfl, hfront, hline⟩ := exists_ended '\n' before
  have hne : line ≠ [] := by
    rintro rfl
    exact hended (by simpa using hfront)
  have hlines : ∀ x, (∀ c ∈ x, isTerminator c = false) → lines '\n' ((front ++ line) ++ assignment key (x ++ after)) =
      lines '\n' front ++ (line ++ assignment key (x ++ onLine after)) :: lines '\n' (below after) :=
    fun x hx => lines_at hname hfront hline (newline_not_mem hx) after
  have hbefore : lastAssigned key (lines '\n' front) = none := lastAssigned_eq_none hfree.left.not_assigns_line
  have hnot : ∀ x, ¬Assigns key (line ++ x) := by
    intro x hassigns
    have hstarts : StartsLine true line := by
      obtain ⟨init, c, rfl⟩ := line.eq_nil_or_concat.resolve_left hne
      rw [List.concat_eq_append, StartsLine, ← List.append_assoc, List.getLast?_concat] at hstart
      rwa [List.concat_eq_append, StartsLine, List.getLast?_concat]
    exact hfree.not_assigns (startsLine_of_ended hfront) (assigns_front hname hstarts hne hassigns)
  have htwice := update_twice_iff hname hfree hstart hafter htext
  have hread : ∀ x, (∀ c ∈ x, isTerminator c = false) →
      readEnv key ((front ++ line) ++ assignment key (x ++ after)) = readEnv key (below after) := by
    intro x hx
    rw [readEnv_eq, hlines x hx, lastAssigned_append, lastAssigned_cons, hbefore, Option.or_none,
      assigned_eq_none (hnot _), Option.or_none, readEnv_eq]
  rw [recordable_within_iff hended htext]
  constructor
  · intro h
    have hrepeatable := htwice.mp h.twice
    have hunbroken : ∀ c ∈ text, isTerminator c = false := htext ▸ hrepeatable.unbroken_substituted
    refine ⟨hrepeatable, ?_, (hread text hunbroken).symm.trans h.recorded⟩
    have hplace := h.inPlace (lines '\n' front).length (line ++ assignment key (old ++ onLine after))
      (by rw [hlines old hold]; simp) (hnot _)
    rw [hlines text hunbroken] at hplace
    simpa [assignment] using hplace
  · rintro ⟨hrepeatable, rfl, hrecorded⟩
    exact ⟨(hread text hold).trans hrecorded, fun _ _ _ => rfl, fun _ _ hline _ => hline, htwice.mpr hrepeatable⟩

end

end

/-- The four hold just where the value can be recorded. -/
theorem records_iff_recordable {contents key value updated : String} (h : setEnvValue contents key value = .ok updated) :
    Records contents key value updated ↔ Recordable contents.toList key.toList value.toList := by
  obtain ⟨hname, hwritable, hupdated⟩ := setEnvValue_eq_ok.mp h
  rw [records_iff_kept h, Recordable, hupdated]
  cases hfind : findLine key.toList true contents.toList with
  | none => exact kept_none_iff hname hwritable hfind
  | some m =>
    obtain ⟨before, old, after⟩ := m
    obtain ⟨hcontents, hfree, hstart, hold, hafter⟩ := findLine_eq_some hfind
    rw [update, hfind, hcontents]
    by_cases hended : Ended '\n' before
    · exact kept_line_iff hname hfree hended hold hafter rfl
    · exact kept_within_iff hname hfree hstart hended hold hafter rfl

theorem staging_is_recorded : Records "APP_ENV=staging\nIMAGE_TAG=a\n" "IMAGE_TAG" "b" "APP_ENV=staging\nIMAGE_TAG=b\n" :=
  (records_iff_recordable (by decide +kernel)).mpr (by decide +kernel)

/-- The first line is rewritten, and the last one counts. -/
theorem repeated_key_is_not_recorded :
    setEnvValue "IMAGE_TAG=a\nPOSTGRES_DB=rental\nIMAGE_TAG=b\n" "IMAGE_TAG" "c" =
      .ok "IMAGE_TAG=c\nPOSTGRES_DB=rental\nIMAGE_TAG=b\n" ∧
    ¬Records "IMAGE_TAG=a\nPOSTGRES_DB=rental\nIMAGE_TAG=b\n" "IMAGE_TAG" "c"
      "IMAGE_TAG=c\nPOSTGRES_DB=rental\nIMAGE_TAG=b\n" := by
  refine ⟨by decide +kernel, ?_⟩
  intro h
  have hlast : readEnv "IMAGE_TAG".toList "IMAGE_TAG=c\nPOSTGRES_DB=rental\nIMAGE_TAG=b\n".toList = some "b".toList := by
    decide +kernel
  have hrecorded := h.recorded
  rw [hlast] at hrecorded
  exact absurd hrecorded (by decide)

theorem toNat_of_isHexDigit (h : isHexDigit c = true) : 48 ≤ c.toNat ∧ c.toNat ≤ 102 := by
  have hrange : ('0'.toNat ≤ c.toNat ∧ c.toNat ≤ '9'.toNat) ∨ ('a'.toNat ≤ c.toNat ∧ c.toNat ≤ 'f'.toNat) :=
    of_decide_eq_true h
  have hcodes : '0'.toNat = 48 ∧ '9'.toNat = 57 ∧ 'a'.toNat = 97 ∧ 'f'.toNat = 102 := by decide
  omega

theorem plain_of_isImmutableTag {tag : Tag} (h : isImmutableTag tag = true) :
    isUnwritable tag.toList = false ∧ (∀ c ∈ tag.toList, isTerminator c = false) ∧ specials tag.toList = [] := by
  have hhex : ∀ c ∈ tag.toList, isHexDigit c = true := List.all_eq_true.mp (Bool.and_eq_true_iff.mp h).2
  have hrange : ∀ c ∈ tag.toList, 48 ≤ c.toNat ∧ c.toNat ≤ 102 := fun c hc => toNat_of_isHexDigit (hhex c hc)
  refine ⟨?_, fun c hc => isTerminator_of_toNat (by linarith [(hrange c hc).1]) (by linarith [(hrange c hc).2]), ?_⟩
  · rw [isUnwritable, List.any_eq_false]
    intro c hc hrefused
    obtain (rfl | rfl) | rfl := by simpa using hrefused
    all_goals exact absurd (hrange _ hc).1 (by decide)
  · refine specials_of_not_mem (fun hm => ?_)
    exact absurd (hrange _ hm).1 (by decide)

theorem recordTagInEnvFile_eq_ok {tag : Tag} (h : isImmutableTag tag = true) (contents : String) :
    ∃ updated, recordTagInEnvFile contents tag = .ok updated := by
  refine ⟨String.ofList (update "IMAGE_TAG".toList tag.toList contents.toList), ?_⟩
  exact setEnvValue_eq_ok.mpr ⟨by decide, (plain_of_isImmutableTag h).1, String.toList_ofList⟩

theorem recordable_of_isImmutableTag {tag : Tag} (h : isImmutableTag tag = true) {contents : List Char}
    (hline : ∀ before old after, findLine key true contents = some (before, old, after) →
      Ended '\n' before ∧ (onLine after = [] ∨ onLine after = ['\r']) ∧ readEnv key (below after) = none) :
    Recordable contents key tag.toList := by
  obtain ⟨-, hunbroken, hplain⟩ := plain_of_isImmutableTag h
  refine ⟨hunbroken, ?_⟩
  cases hfind : findLine key true contents with
  | none => exact hplain
  | some m =>
    obtain ⟨before, old, after⟩ := m
    obtain ⟨hended, hreturn, hbelow⟩ := hline before old after hfind
    dsimp only
    rw [RecordableAt, hbelow]
    exact ⟨hplain, hended, hreturn⟩

end RentalMarket.Release
