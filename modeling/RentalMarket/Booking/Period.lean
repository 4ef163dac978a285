import Mathlib.Order.MinMax
import Mathlib.Data.Int.Order.Basic

namespace RentalMarket.Booking

/-- An instant, in milliseconds since the epoch. -/
abbrev Instant := Int

abbrev Id := String

/-- The half-open pair of instants a booking or a block stands for. -/
structure Period where
  startAt : Instant
  endAt : Instant
  deriving DecidableEq, Repr

namespace Period

def Nonempty (p : Period) : Prop := p.startAt < p.endAt

/-- The instants of `tstzrange(startAt, endAt, '[)')`. -/
def Covers (p : Period) (t : Instant) : Prop := p.startAt ≤ t ∧ t < p.endAt

/-- The `&&` operator on two such ranges, bound against bound. -/
def rangeOverlaps (p q : Period) : Bool := decide (max p.startAt q.startAt < min p.endAt q.endAt)

/-- The Prisma filter `overlaps(startAt, endAt)`, applied to a row. -/
def overlaps (startAt endAt : Instant) (row : Period) : Bool :=
  decide (row.startAt < endAt) && decide (row.endAt > startAt)

/-- The comparison `findPendingRequests` makes between two rows in memory. -/
def inMemoryOverlap (other row : Period) : Bool :=
  decide (other.startAt < row.endAt) && decide (other.endAt > row.startAt)

/-- `&&` means what the range type documents: some instant lies in both. -/
theorem rangeOverlaps_iff (p q : Period) :
    rangeOverlaps p q = true ↔ ∃ t, p.Covers t ∧ q.Covers t := by
  rw [rangeOverlaps, decide_eq_true_iff]
  constructor
  · intro h
    rw [max_lt_iff, lt_min_iff, lt_min_iff] at h
    obtain ⟨⟨hpp, hpq⟩, hqp, hqq⟩ := h
    refine ⟨max p.startAt q.startAt, ⟨le_max_left _ _, ?_⟩, le_max_right _ _, ?_⟩
    · exact max_lt hpp hqp
    · exact max_lt hpq hqq
  · rintro ⟨t, ⟨hp, hp'⟩, hq, hq'⟩
    exact (max_le hp hq).trans_lt (lt_min hp' hq')

theorem overlaps_eq_rangeOverlaps {p q : Period} (hp : p.Nonempty) (hq : q.Nonempty) :
    overlaps p.startAt p.endAt q = rangeOverlaps p q := by
  unfold Nonempty at hp hq
  rw [overlaps, rangeOverlaps, Bool.eq_iff_iff, Bool.and_eq_true, decide_eq_true_iff,
    decide_eq_true_iff, decide_eq_true_iff, max_lt_iff, lt_min_iff, lt_min_iff]
  constructor
  · rintro ⟨h, h'⟩
    exact ⟨⟨hp, h'⟩, h, hq⟩
  · rintro ⟨⟨_, h'⟩, h, _⟩
    exact ⟨h, h'⟩

theorem overlaps_of_rangeOverlaps {p q : Period} (h : rangeOverlaps p q = true) :
    overlaps p.startAt p.endAt q = true := by
  rw [rangeOverlaps, decide_eq_true_iff, max_lt_iff, lt_min_iff, lt_min_iff] at h
  rw [overlaps, Bool.and_eq_true, decide_eq_true_iff, decide_eq_true_iff]
  exact ⟨h.2.1, h.1.2⟩

theorem overlaps_eq_inMemoryOverlap (p q : Period) :
    overlaps p.startAt p.endAt q = inMemoryOverlap q p := rfl

theorem rangeOverlaps_comm (p q : Period) : rangeOverlaps p q = rangeOverlaps q p := by
  rw [rangeOverlaps, rangeOverlaps, max_comm, min_comm]

end Period

end RentalMarket.Booking
