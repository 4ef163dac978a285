import RentalMarket.Release.EnvFile
import RentalMarket.Lib.Ascii
import RentalMarket.Lib.Text

namespace RentalMarket.Release

open Lines
open Pieces
open Replacement

variable {key text front rest value old before after line : List Char} {start : Bool} {c : Char}

theorem mem_name (h : isEnvName key = true) (hc : c ∈ key) : c.isUpper = true ∨ c.isDigit = true ∨ c = '_' := by
  cases key with
  | nil => cases h
  | cons d key =>
    simp only [isEnvName, Bool.and_eq_true, List.all_eq_true, Bool.or_eq_true, decide_eq_true_eq] at h
    obtain rfl | hc := List.mem_cons.mp hc
    · exact .inl h.1
    · exact or_assoc.mp (h.2 c hc)

theorem toNat_of_mem_name (h : isEnvName key = true) (hc : c ∈ key) : 48 ≤ c.toNat ∧ c.toNat ≤ 95 := by
  obtain hupper | hdigit | rfl := mem_name h hc
  · have hrange := Ascii.toNat_of_isUpper hupper
    omega
  · have hrange := Ascii.toNat_of_isDigit hdigit
    omega
  · decide

theorem equals_not_mem_name (h : isEnvName key = true) : '=' ∉ key := by
  intro hm
  obtain hupper | hdigit | heq := mem_name h hm
  · cases hupper
  · cases hdigit
  · cases heq

theorem isTerminator_of_toNat (h : 14 ≤ c.toNat) (h' : c.toNat < 0x2028) : isTerminator c = false := by
  simp only [isTerminator, decide_eq_false_iff_not, not_or]
  refine ⟨?_, ?_, by omega, by omega⟩
  · rintro rfl
    exact absurd h (by decide)
  · rintro rfl
    exact absurd h (by decide)

theorem isTerminator_of_mem (h : isEnvName key = true) (hc : c ∈ key ++ ['=']) : isTerminator c = false := by
  obtain hc | hc := List.mem_append.mp hc
  · have hrange := toNat_of_mem_name h hc
    exact isTerminator_of_toNat (by omega) (by omega)
  · rw [List.mem_singleton.mp hc]
    decide

def StartsLine (start : Bool) (front : List Char) : Prop := front.getLast?.elim start isTerminator = true

theorem startsLine_cons : StartsLine start (c :: front) ↔ StartsLine (isTerminator c) front := by
  rw [StartsLine, StartsLine, List.getLast?_cons]
  cases front.getLast? <;> rfl

/-- No line that begins in the text assigns the key. -/
def Free (key : List Char) : Bool → List Char → Prop
  | _, [] => True
  | start, c :: text => ¬(start = true ∧ Assigns key (c :: text)) ∧ Free key (isTerminator c) text

theorem Free.not_assigns (h : Free key start (front ++ rest)) (hstart : StartsLine start front) : ¬Assigns key rest := by
  induction front generalizing start with
  | nil =>
    intro hassigns
    cases rest with
    | nil =>
      have hnil := List.prefix_nil.mp hassigns
      simp at hnil
    | cons c rest => exact h.1 ⟨hstart, hassigns⟩
  | cons c front ih => exact ih h.2 (startsLine_cons.mp hstart)

theorem assigns_of_append (hname : isEnvName key = true) (hc : isTerminator c = true)
    (h : Assigns key (front ++ c :: rest)) : Assigns key front := by
  rw [Assigns] at h ⊢
  obtain hshort | hlong := List.prefix_or_prefix_of_prefix h (List.prefix_append front (c :: rest))
  · exact hshort
  · obtain ⟨tail, htail⟩ := hlong
    rw [← htail, List.prefix_append_right_inj] at h
    cases tail with
    | nil => rw [← htail, List.append_nil]
    | cons d tail =>
      obtain ⟨more, hmore⟩ := h
      obtain ⟨rfl, -⟩ := List.cons.inj hmore
      have hd := isTerminator_of_mem hname (htail ▸ List.mem_append_right front List.mem_cons_self)
      rw [hc] at hd
      cases hd

theorem isPrefixOf_iff : (key ++ ['=']).isPrefixOf line = true ↔ Assigns key line := List.isPrefixOf_iff_prefix

theorem assigns_front (hname : isEnvName key = true) (hstart : StartsLine start front) (hne : front ≠ [])
    (h : Assigns key (front ++ rest)) : Assigns key front := by
  obtain ⟨init, c, rfl⟩ := front.eq_nil_or_concat.resolve_left hne
  rw [List.concat_eq_append] at h hstart ⊢
  rw [StartsLine, List.getLast?_concat] at hstart
  rw [List.append_assoc] at h
  exact (assigns_of_append hname hstart h).trans (List.prefix_append init [c])

theorem findLine_append (hname : isEnvName key = true) (hfree : Free key start front) (hstart : StartsLine start front)
    (text : List Char) : findLine key start (front ++ text) =
      (findLine key true text).map (fun m => (front ++ m.1, m.2)) := by
  induction front generalizing start with
  | nil =>
    have htrue : start = true := hstart
    rw [htrue]
    simp
  | cons c front ih =>
    have hnot : ¬(start && (key ++ ['=']).isPrefixOf (c :: (front ++ text))) = true := by
      intro hmatch
      rw [Bool.and_eq_true, isPrefixOf_iff] at hmatch
      exact hfree.1 ⟨hmatch.1, assigns_front hname hstart (List.cons_ne_nil c front) hmatch.2⟩
    rw [List.cons_append, findLine, if_neg hnot, ih hfree.2 (startsLine_cons.mp hstart), Option.map_map]
    rfl

theorem findLine_assignment (hname : isEnvName key = true) (text : List Char) : findLine key true (assignment key text) =
    some ([], text.takeWhile (fun c => !isTerminator c), text.dropWhile (fun c => !isTerminator c)) := by
  cases key with
  | nil => cases hname
  | cons c key =>
    have hassigns : Assigns (c :: key) (assignment (c :: key) text) := ⟨text, by simp [assignment]⟩
    have hrest : (assignment (c :: key) text).drop ((c :: key).length + 1) = text := by
      rw [assignment, ← List.drop_drop, List.drop_left]
      rfl
    have hcons : assignment (c :: key) text = c :: (key ++ '=' :: text) := rfl
    rw [hcons] at hassigns hrest ⊢
    rw [findLine, if_pos (by rw [Bool.true_and, isPrefixOf_iff]; exact hassigns)]
    dsimp only
    rw [hrest]

/-- What is passed over before a match, and what the match is. -/
theorem findLine_eq_some (h : findLine key start text = some (before, old, after)) :
    text = before ++ assignment key (old ++ after) ∧ Free key start before ∧ StartsLine start before ∧
      (∀ c ∈ old, isTerminator c = false) ∧ ∀ c ∈ after.head?, isTerminator c = true := by
  induction text generalizing start before with
  | nil => cases h
  | cons c text ih =>
    rw [findLine] at h
    split at h
    · rename_i hmatch
      rw [Bool.and_eq_true, isPrefixOf_iff] at hmatch
      obtain ⟨hstart, tail, htail⟩ := hmatch
      have hassignment : c :: text = assignment key tail := by
        rw [← htail]
        simp [assignment]
      have hrest : (c :: text).drop (key.length + 1) = tail := by
        rw [hassignment, assignment, ← List.drop_drop, List.drop_left]
        rfl
      dsimp only at h
      rw [hrest] at h
      cases h
      refine ⟨?_, trivial, hstart, ?_, ?_⟩
      · rw [List.takeWhile_append_dropWhile]
        exact hassignment
      · intro d hd
        simpa using List.mem_takeWhile_imp hd
      · intro d hd
        have hstop := List.head?_dropWhile_not (fun c => !isTerminator c) tail
        rw [Option.mem_def.mp hd] at hstop
        simpa using hstop
    · rename_i hnot
      obtain ⟨⟨before', m⟩, hfind, heq⟩ := Option.map_eq_some_iff.mp h
      cases heq
      obtain ⟨htext, hfree, hstarts, hold, hafter⟩ := ih hfind
      refine ⟨by rw [htext, List.cons_append], ⟨?_, hfree⟩, startsLine_cons.mpr hstarts, hold, hafter⟩
      rintro ⟨hstart, hassigns⟩
      refine hnot ?_
      rw [Bool.and_eq_true, isPrefixOf_iff, htext]
      exact ⟨hstart, hassigns.trans (List.prefix_append (c :: before') _)⟩

theorem free_of_findLine (h : findLine key start text = none) : Free key start text := by
  induction text generalizing start with
  | nil => trivial
  | cons c text ih =>
    rw [findLine] at h
    split at h
    · cases h
    · rename_i hnot
      refine ⟨?_, ih (Option.map_eq_none_iff.mp h)⟩
      rintro ⟨hstart, hassigns⟩
      exact hnot (by rw [hstart, Bool.true_and, isPrefixOf_iff]; exact hassigns)

section

variable {other l l' : List Char} {ls ls' : List (List Char)}

theorem assigned_eq_none (h : ¬Assigns key line) : assigned key line = none := by
  rw [assigned, if_neg (by rwa [isPrefixOf_iff])]

theorem assigns_assignment (key value : List Char) : Assigns key (assignment key value) := ⟨value, by simp [assignment]⟩

theorem assigned_assignment (key value : List Char) : assigned key (assignment key value) = some (withoutReturn value) := by
  have hvalue : (assignment key value).drop (key.length + 1) = value := by
    rw [assignment, ← List.drop_drop, List.drop_left]
    rfl
  rw [assigned, if_pos (isPrefixOf_iff.mpr (assigns_assignment key value)), hvalue]

theorem exists_of_assigns (h : Assigns key line) : ∃ value, line = assignment key value := by
  obtain ⟨value, rfl⟩ := h
  exact ⟨value, by simp [assignment]⟩

theorem eq_of_assigns (hname : isEnvName key = true) (hother : '=' ∉ other) (h : Assigns key line)
    (h' : Assigns other line) : other = key := by
  obtain ⟨value, rfl⟩ := exists_of_assigns h
  obtain ⟨value', heq⟩ := exists_of_assigns h'
  exact (Text.cut_injective (equals_not_mem_name hname) hother heq).1.symm

def lastAssigned (key : List Char) (ls : List (List Char)) : Option (List Char) := (ls.filterMap (assigned key)).getLast?

theorem readEnv_eq (key text : List Char) : readEnv key text = lastAssigned key (lines '\n' text) := rfl

theorem lastAssigned_append (key : List Char) (ls ls' : List (List Char)) :
    lastAssigned key (ls ++ ls') = (lastAssigned key ls').or (lastAssigned key ls) := by
  rw [lastAssigned, List.filterMap_append, List.getLast?_append, lastAssigned, lastAssigned]

theorem lastAssigned_cons (key line : List Char) (ls : List (List Char)) :
    lastAssigned key (line :: ls) = (lastAssigned key ls).or (assigned key line) := by
  have hone : lastAssigned key [line] = assigned key line := by
    rw [lastAssigned, List.filterMap_cons]
    cases assigned key line <;> rfl
  rw [← List.singleton_append, lastAssigned_append, hone]

theorem lastAssigned_eq_none (h : ∀ line ∈ ls, ¬Assigns key line) : lastAssigned key ls = none := by
  have hnil : ls.filterMap (assigned key) = [] := List.filterMap_eq_nil_iff.mpr (fun line hline => assigned_eq_none (h line hline))
  rw [lastAssigned, hnil]
  rfl

theorem startsLine_of_ended (h : Ended '\n' front) : StartsLine true front := by
  rw [StartsLine]
  cases hlast : front.getLast? with
  | none => rfl
  | some c =>
    rw [h c hlast]
    decide

theorem Free.not_assigns_line (h : Free key true text) : ∀ line ∈ lines '\n' text, ¬Assigns key line := by
  intro line hline hassigns
  obtain ⟨front, rest, rfl, hended, -⟩ := exists_of_mem hline
  exact h.not_assigns (startsLine_of_ended hended) (hassigns.trans (List.prefix_append line rest))

theorem lines_onLine (hline : '\n' ∉ line) (hne : line ≠ []) (after : List Char) :
    lines '\n' (line ++ after) = (line ++ onLine after) :: lines '\n' (below after) := by
  have hon : '\n' ∉ line ++ onLine after := by
    rw [List.mem_append, not_or]
    refine ⟨hline, ?_⟩
    intro hm
    have hnewline := List.mem_takeWhile_imp hm
    simp at hnewline
  have hsplit : after = onLine after ++ after.dropWhile (fun c => decide (c ≠ '\n')) := List.takeWhile_append_dropWhile.symm
  cases hrest : after.dropWhile (fun c => decide (c ≠ '\n')) with
  | nil =>
    rw [hrest, List.append_nil] at hsplit
    rw [below, hrest, ← hsplit, lines_last (hsplit ▸ hon) (by simp [hne])]
    rfl
  | cons c rest =>
    have hc : c = '\n' := by
      have hstop := List.head?_dropWhile_not (fun c => decide (c ≠ '\n')) after
      rw [hrest] at hstop
      simpa using hstop
    rw [below, hrest, hc]
    conv => lhs; rw [hsplit, hrest, hc, ← List.append_assoc, lines_line hon]
    rfl

end

end RentalMarket.Release
