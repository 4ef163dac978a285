import RentalMarket.Lib.SortedBy
import Mathlib.Data.Prod.Lex

namespace RentalMarket

variable {α κ : Type*} [LinearOrder κ]

/-- What a query with `ORDER BY key` and a limit may return of the rows that match
it: rows of one key come in any order. -/
def Reads (key : α → κ) (matching : List α) (limit : Nat) (rows : List α) : Prop :=
  ∃ ordered : List α, ordered.Perm matching ∧ ordered.Pairwise (fun a b => key a ≤ key b) ∧ rows = ordered.take limit

/-- The rows in an order that puts `last` behind all others of its key. -/
def readLast [DecidableEq α] (key : α → κ) (last : α) (matching : List α) (limit : Nat) : List α :=
  (sortedBy (fun a => toLex (key a, if a = last then 1 else 0)) matching).take limit

variable {key : α → κ} {matching rows : List α} {limit : Nat} {a : α}

namespace Reads

theorem length (h : Reads key matching limit rows) : rows.length = min limit matching.length := by
  obtain ⟨ordered, hperm, -, rfl⟩ := h
  rw [List.length_take, hperm.length_eq]

theorem subset (h : Reads key matching limit rows) (ha : a ∈ rows) : a ∈ matching := by
  obtain ⟨ordered, hperm, -, rfl⟩ := h
  exact hperm.mem_iff.mp (List.mem_of_mem_take ha)

theorem nodup (h : Reads key matching limit rows) (hn : matching.Nodup) : rows.Nodup := by
  obtain ⟨ordered, hperm, -, rfl⟩ := h
  exact (hperm.nodup_iff.mpr hn).sublist (List.take_sublist _ _)

theorem mem (h : Reads key matching limit rows) (ha : a ∈ matching)
    (hcount : matching.countP (fun b => key b ≤ key a) ≤ limit) : a ∈ rows := by
  obtain ⟨ordered, hperm, hsorted, rfl⟩ := h
  rw [← hperm.countP_eq] at hcount
  rw [← hperm.mem_iff, ← List.take_append_drop limit ordered, List.mem_append] at ha
  refine ha.resolve_right (fun hdrop => ?_)
  -- all that is read is as early as `a`, and `a` is one more
  rw [← List.take_append_drop limit ordered, List.pairwise_append] at hsorted
  have hread : (ordered.take limit).countP (fun b => key b ≤ key a) = limit := by
    rw [List.countP_eq_length.mpr (fun b hb => decide_eq_true (hsorted.2.2 b hb a hdrop)), List.length_take]
    apply Nat.min_eq_left
    have hpos := List.length_pos_of_mem hdrop
    rw [List.length_drop] at hpos
    omega
  have hleft : 0 < (ordered.drop limit).countP (fun b => key b ≤ key a) :=
    List.countP_pos_iff.mpr ⟨a, hdrop, decide_eq_true le_rfl⟩
  rw [← List.take_append_drop limit ordered, List.countP_append, hread] at hcount
  omega

end Reads

variable [DecidableEq α] {last : α}

theorem readLast_reads : Reads key matching limit (readLast key last matching limit) := by
  refine ⟨_, sortedBy_perm, ?_, rfl⟩
  apply List.Pairwise.imp ?_ sortedBy_pairwise
  intro a b h
  exact Prod.Lex.monotone_fst _ _ h

theorem not_mem_readLast (hn : matching.Nodup) (hcount : limit < matching.countP (fun b => key b ≤ key last)) :
    last ∉ readLast key last matching limit := by
  intro hread
  let rank : α → κ ×ₗ ℕ := fun b => toLex (key b, if b = last then 1 else 0)
  have hperm : (sortedBy rank matching).Perm matching := sortedBy_perm
  have hsorted : (sortedBy rank matching).Pairwise (fun a b => rank a ≤ rank b) := sortedBy_pairwise
  have hdistinct := hperm.nodup_iff.mpr hn
  rw [← hperm.countP_eq, ← List.take_append_drop limit (sortedBy rank matching), List.countP_append] at hcount
  rw [← List.take_append_drop limit (sortedBy rank matching), List.pairwise_append] at hsorted
  rw [← List.take_append_drop limit (sortedBy rank matching), List.nodup_append] at hdistinct
  -- what is left unread comes after `last`, and so is later
  have hlate : ((sortedBy rank matching).drop limit).countP (fun b => key b ≤ key last) = 0 := by
    apply List.countP_eq_zero.mpr
    intro b hb hle
    have hrank : rank last ≤ rank b := hsorted.2.2 last hread b hb
    have hne : b ≠ last := fun h => hdistinct.2.2 last hread b hb h.symm
    rw [Prod.Lex.le_iff] at hrank
    obtain hlt | ⟨-, hle'⟩ := hrank
    · exact absurd (of_decide_eq_true hle) hlt.not_ge
    · simp [rank, hne] at hle'
  have hread := List.countP_le_length (p := fun b => decide (key b ≤ key last)) (l := (sortedBy rank matching).take limit)
  rw [List.length_take] at hread
  omega

end RentalMarket
