import Mathlib.Data.List.Basic
import Mathlib.Data.List.TakeDrop
import Mathlib.Data.Rat.Floor

namespace RentalMarket.Core.Paging

variable {α β : Type}

/-- How large a page may be, and what is served where the request says nothing
usable. -/
structure LimitBounds where
  fallback : Nat
  max : Nat
  deriving DecidableEq, Repr

/-- `Math.trunc` -/
def trunc (q : ℚ) : Int := if 0 ≤ q then ⌊q⌋ else ⌈q⌉

/-- A number that is not finite is no request. -/
def boundedLimit (requested : Option ℚ) (bounds : LimitBounds) : Nat :=
  match requested with
  | none => bounds.fallback
  | some requested => (min (max (trunc requested) 1) (bounds.max : Int)).toNat

theorem boundedLimit_le (requested : Option ℚ) {bounds : LimitBounds} (h : bounds.fallback ≤ bounds.max) :
    boundedLimit requested bounds ≤ bounds.max := by
  cases requested with
  | none => exact h
  | some requested =>
    rw [boundedLimit, Int.toNat_le]
    exact min_le_right _ _

def probe (limit : Nat) : Nat := limit + 1

structure Page (α : Type) where
  items : List α
  truncated : Bool
  deriving DecidableEq, Repr

def fitTo (rows : List α) (limit : Nat) : Page α := ⟨rows.take limit, decide (rows.length > limit)⟩

/-- `LIMIT` and `OFFSET` -/
def window (rows : List α) (limit offset : Nat) : List α := (rows.drop offset).take limit

theorem fitTo_probe (rows : List α) (limit offset : Nat) :
    fitTo (window rows (probe limit) offset) limit =
      ⟨window rows limit offset, decide (offset + limit < rows.length)⟩ := by
  rw [fitTo, window, window, List.take_take, probe, Nat.min_eq_left (Nat.le_succ limit), List.length_take,
    List.length_drop]
  congr 1
  apply decide_eq_decide.mpr
  omega

theorem flatMap_window (rows : List α) (limit count : Nat) :
    (List.range count).flatMap (fun page => window rows limit (page * limit)) = rows.take (count * limit) := by
  induction count with
  | zero => rw [Nat.zero_mul, List.take_zero, List.range_zero, List.flatMap_nil]
  | succ count ih =>
    rw [List.range_succ, List.flatMap_append, ih, Nat.succ_mul, List.take_add, List.flatMap_cons,
      List.flatMap_nil, List.append_nil, window]

end RentalMarket.Core.Paging
