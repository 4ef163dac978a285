import Mathlib

namespace RentalMarket.Binary

/-- The nearest integer, and of two the even one. -/
def halfEven (y : ℚ) : ℤ :=
  if Int.fract y < 1 / 2 ∨ Int.fract y = 1 / 2 ∧ Even ⌊y⌋ then ⌊y⌋ else ⌊y⌋ + 1

/-- An integer is reached from half below it on, and from just half if it is even. -/
theorem le_halfEven_iff {n : ℤ} {y : ℚ} : n ≤ halfEven y ↔ n < y + 1 / 2 ∨ n = y + 1 / 2 ∧ Even n := by
  have hfloor : (⌊y⌋ : ℚ) = y - Int.fract y := (Int.self_sub_fract y).symm
  have hfract := Int.fract_nonneg y
  have hfract' := Int.fract_lt_one y
  rw [halfEven]
  split
  · rename_i hdown
    constructor
    · intro hle
      have hcast : (n : ℚ) ≤ ⌊y⌋ := Int.cast_le.mpr hle
      exact .inl (by linarith)
    · rintro (hless | ⟨hmiddle, heven⟩)
      · have hnext : (n : ℚ) < (⌊y⌋ + 1 : ℤ) := by
          have hhalf : Int.fract y ≤ 1 / 2 := hdown.elim le_of_lt (fun h => h.1.le)
          push_cast
          linarith
        have := Int.cast_lt.mp hnext
        omega
      · exfalso
        -- half above an odd integer is rounded up
        have hbelow : ⌊y⌋ = n - 1 := by
          rw [Int.floor_eq_iff]
          push_cast
          constructor <;> linarith
        have hhalf : Int.fract y = 1 / 2 := by
          rw [← Int.self_sub_floor, hbelow]
          push_cast
          linarith
        obtain hless | ⟨-, hodd⟩ := hdown
        · exact hless.ne hhalf
        · rw [hbelow] at hodd
          have := heven.sub hodd
          rw [sub_sub_cancel] at this
          exact Int.not_even_one this
  · rename_i hup
    have hhalf : 1 / 2 ≤ Int.fract y := not_lt.mp (fun h => hup (.inl h))
    constructor
    · intro hle
      have hcast : (n : ℚ) ≤ (⌊y⌋ + 1 : ℤ) := Int.cast_le.mpr hle
      push_cast at hcast
      by_cases hless : (n : ℚ) < y + 1 / 2
      · exact .inl hless
      · have hexact : Int.fract y = 1 / 2 := by linarith
        have hnext : n = ⌊y⌋ + 1 := by
          have : (n : ℚ) = (⌊y⌋ + 1 : ℤ) := by
            push_cast
            linarith
          exact Int.cast_injective this
        refine .inr ⟨by linarith, ?_⟩
        rw [hnext, Int.even_add_one]
        exact fun heven => hup (.inr ⟨hexact, heven⟩)
    · intro hreach
      have hle : (n : ℚ) ≤ y + 1 / 2 := hreach.elim le_of_lt (fun h => h.1.le)
      have hnext : (n : ℚ) < (⌊y⌋ + 2 : ℤ) := by
        push_cast
        linarith
      have := Int.cast_lt.mp hnext
      omega

theorem halfEven_error (y : ℚ) : |halfEven y - y| ≤ 1 / 2 := by
  rw [abs_le]
  constructor
  · by_contra hfar
    have hreach : halfEven y + 1 ≤ halfEven y := le_halfEven_iff.mpr (.inl (by push_cast; linarith))
    omega
  · have hreach := le_halfEven_iff.mp (le_refl (halfEven y))
    obtain hless | ⟨heq, -⟩ := hreach <;> linarith

theorem halfEven_of_close {n : ℤ} {y : ℚ} (hclose : |y - n| < 1 / 2) : halfEven y = n := by
  have herror := abs_le.mp (halfEven_error y)
  rw [abs_lt] at hclose
  have hbelow : (n : ℚ) < (halfEven y + 1 : ℤ) := by
    push_cast
    linarith
  have habove : (halfEven y : ℚ) < (n + 1 : ℤ) := by
    push_cast
    linarith
  rw [Int.cast_lt] at hbelow habove
  omega

theorem log_eq_of_bounds {k : ℤ} {x : ℚ} (hlow : 2 ^ k ≤ x) (hhigh : x < 2 ^ (k + 1)) : Int.log 2 x = k := by
  have hpos : 0 < x := (zpow_pos (by norm_num) k).trans_le hlow
  have hle := (Int.zpow_le_iff_le_log one_lt_two hpos).mp hlow
  have hlt := (Int.lt_zpow_iff_log_lt one_lt_two hpos).mp hhigh
  omega

section Precision

variable (p : ℕ)

/-- The gap between numbers of `p` digits about a number. -/
def spacing (x : ℚ) : ℚ := 2 ^ (Int.log 2 |x| + 1 - p)

/-- The nearest number of `p` binary digits, and of two the one with an even significand. -/
def nearest (x : ℚ) : ℚ :=
  (if x < 0 then -1 else 1) * (halfEven (|x| / spacing p x) * spacing p x)

def OnGrid (x h : ℚ) : Prop := ∃ n : ℤ, h = n * spacing p x

/-- A number is rounded up to another that lies less than half a gap above it, or just half
a gap and has an even significand. -/
def Reaches (x h : ℚ) : Prop :=
  h < x + spacing p x / 2 ∨ h = x + spacing p x / 2 ∧ ∃ n : ℤ, Even n ∧ h = n * spacing p x

/-- The gap between numbers of `p` digits below a number. -/
def gapBelow (h : ℚ) : ℚ := 2 ^ (Int.clog 2 h - p)

variable {p} {x h : ℚ}

theorem spacing_pos : 0 < spacing p x := zpow_pos (by norm_num) _

theorem spacing_abs : spacing p |x| = spacing p x := by rw [spacing, spacing, abs_abs]

theorem nearest_zero : nearest p 0 = 0 := by simp [nearest, halfEven]

theorem nearest_of_nonneg (hx : 0 ≤ x) : nearest p x = halfEven (x / spacing p x) * spacing p x := by
  rw [nearest, if_neg (not_lt.mpr hx), one_mul, abs_of_nonneg hx]

theorem spacing_le (hx : 0 < x) : spacing p x ≤ x * 2 ^ (1 - (p : ℤ)) := by
  rw [spacing, abs_of_pos hx, add_sub_assoc, zpow_add₀ (by norm_num)]
  gcongr
  exact Int.zpow_log_le_self one_lt_two hx

/-- A number is rounded by at most a `p`-th power of a half of it. -/
theorem nearest_error_le (hx : 0 ≤ x) : |nearest p x - x| ≤ x * 2 ^ (-(p : ℤ)) := by
  obtain rfl | hpos := hx.eq_or_lt
  · simp [nearest_zero]
  have hspacing : 0 < spacing p x := spacing_pos
  have hscaled : nearest p x - x = (halfEven (x / spacing p x) - x / spacing p x) * spacing p x := by
    rw [nearest_of_nonneg hx, sub_mul, div_mul_cancel₀ _ hspacing.ne']
  calc |nearest p x - x| = |halfEven (x / spacing p x) - x / spacing p x| * spacing p x := by
        rw [hscaled, abs_mul, abs_of_pos hspacing]
    _ ≤ 1 / 2 * (x * 2 ^ (1 - (p : ℤ))) := by
        gcongr
        · exact halfEven_error _
        · exact spacing_le hpos
    _ = x * 2 ^ (-(p : ℤ)) := by
        rw [sub_eq_add_neg, zpow_add₀ (by norm_num), zpow_one]
        ring

theorem nearest_eq_abs (x : ℚ) : nearest p x = (if x < 0 then -1 else 1) * nearest p |x| := by
  rw [nearest_of_nonneg (abs_nonneg x), spacing_abs, nearest]

theorem le_nearest_iff (hx : 0 ≤ x) (hgrid : OnGrid p x h) : h ≤ nearest p x ↔ Reaches p x h := by
  obtain ⟨n, rfl⟩ := hgrid
  have hpos : 0 < spacing p x := spacing_pos
  have hreach : (n : ℚ) < x / spacing p x + 1 / 2 ↔ n * spacing p x < x + spacing p x / 2 := by
    rw [← mul_lt_mul_iff_left₀ hpos, add_mul, div_mul_cancel₀ _ hpos.ne', one_div_mul_eq_div]
  have hmiddle : (n : ℚ) = x / spacing p x + 1 / 2 ↔ n * spacing p x = x + spacing p x / 2 := by
    rw [← mul_left_inj' hpos.ne', add_mul, div_mul_cancel₀ _ hpos.ne', one_div_mul_eq_div]
  rw [nearest_of_nonneg hx, mul_le_mul_iff_left₀ hpos, Int.cast_le, le_halfEven_iff, Reaches, hreach, hmiddle]
  constructor
  · rintro (hless | ⟨heq, heven⟩)
    · exact .inl hless
    · exact .inr ⟨heq, n, heven, rfl⟩
  · rintro (hless | ⟨heq, m, heven, hm⟩)
    · exact .inl hless
    · obtain rfl : n = m := Int.cast_injective (mul_right_cancel₀ hpos.ne' hm)
      exact .inr ⟨heq, heven⟩

theorem nearest_nonneg (hx : 0 ≤ x) : 0 ≤ nearest p x := by
  rw [le_nearest_iff hx ⟨0, by simp⟩]
  have hpos : 0 < spacing p x := spacing_pos
  exact .inl (by linarith)

theorem nearest_le (hx : 0 ≤ x) (hgrid : OnGrid p x h) (hle : x ≤ h) : nearest p x ≤ h := by
  obtain ⟨n, rfl⟩ := hgrid
  have hpos : 0 < spacing p x := spacing_pos
  rw [nearest_of_nonneg hx]
  apply mul_le_mul_of_nonneg_right _ hpos.le
  by_contra hfar
  have hnext : n + 1 ≤ halfEven (x / spacing p x) := by
    have := Int.cast_lt.mp (not_le.mp hfar)
    omega
  have hscaled : x / spacing p x ≤ n := by rwa [div_le_iff₀ hpos]
  obtain hless | ⟨heq, -⟩ := le_halfEven_iff.mp hnext
  · push_cast at hless
    linarith
  · push_cast at heq
    linarith

theorem onGrid_of_lt {k j : ℤ} (hx : 0 ≤ x) (hlt : x < 2 ^ k) (hk : 0 < k) (hj : k ≤ j + p) (n : ℤ) :
    OnGrid p x (n * 2 ^ j) := by
  have hlog : Int.log 2 x < k := by
    obtain rfl | hpos := hx.eq_or_lt
    · rwa [Int.log_zero_right]
    · apply (Int.lt_zpow_iff_log_lt one_lt_two hpos).mp
      exact hlt
  obtain ⟨d, hd⟩ := Int.eq_ofNat_of_zero_le (show 0 ≤ j - (Int.log 2 x + 1 - p) by omega)
  refine ⟨n * 2 ^ d, ?_⟩
  rw [spacing, abs_of_nonneg hx]
  push_cast
  rw [mul_assoc, ← zpow_natCast, ← zpow_add₀ two_ne_zero, ← hd]
  congr 2
  ring

theorem nearest_of_close {e n : ℤ} (hlow : 2 ^ (p - 1 : ℤ) ≤ x * 2 ^ e) (hhigh : x * 2 ^ e < 2 ^ (p : ℤ))
    (hclose : |x * 2 ^ e - n| < 1 / 2) : nearest p x = n / 2 ^ e := by
  have hscale : (0 : ℚ) < 2 ^ e := zpow_pos (by norm_num) e
  have hlog : Int.log 2 x = p - 1 - e := by
    apply log_eq_of_bounds
    · rwa [zpow_sub₀ two_ne_zero, div_le_iff₀ hscale]
    · rwa [sub_right_comm, sub_add_cancel, zpow_sub₀ two_ne_zero, lt_div_iff₀ hscale]
  have hpos : 0 < x := pos_of_mul_pos_left ((zpow_pos (by norm_num) _).trans_le hlow) hscale.le
  have hgap : spacing p x = 2 ^ (-e) := by
    rw [spacing, abs_of_pos hpos, hlog]
    congr 1
    ring
  rw [nearest_of_nonneg hpos.le, hgap, zpow_neg, div_inv_eq_mul, halfEven_of_close hclose, div_eq_mul_inv]

/-- What is reached, told by the gap below it. -/
theorem reaches_iff {n : ℤ} (hp : 0 < p) (hx : 0 < x) (hh : 0 < h) (hn : h = n * gapBelow p h) :
    Reaches p x h ↔ h - gapBelow p h / 2 < x ∨ h - gapBelow p h / 2 = x ∧ Even n := by
  have hgap : 0 < gapBelow p h := zpow_pos (by norm_num) _
  have hspacing : 0 < spacing p x := spacing_pos
  obtain hle | hlt := le_or_gt h x
  · exact iff_of_true (.inl (by linarith)) (.inl (by linarith))
  have hbelow : (2 : ℚ) ^ (Int.clog 2 h - 1) < h := by exact_mod_cast Int.zpow_pred_clog_lt_self one_lt_two hh
  have hclog : h ≤ (2 : ℚ) ^ Int.clog 2 h := by exact_mod_cast Int.self_le_zpow_clog one_lt_two h
  obtain hlow | hfar := le_or_gt ((2 : ℚ) ^ (Int.clog 2 h - 1)) x
  · -- both numbers lie between the same powers of two
    have hlog : Int.log 2 x = Int.clog 2 h - 1 := by
      apply log_eq_of_bounds hlow
      rw [sub_add_cancel]
      linarith
    have heq : spacing p x = gapBelow p h := by rw [spacing, gapBelow, abs_of_pos hx, hlog, sub_add_cancel]
    rw [Reaches, heq, sub_lt_iff_lt_add, sub_eq_iff_eq_add]
    apply or_congr_right
    apply and_congr_right
    intro _
    constructor
    · rintro ⟨m, heven, hm⟩
      obtain rfl : n = m := Int.cast_injective (mul_right_cancel₀ hgap.ne' (hn.symm.trans hm))
      exact heven
    · exact fun heven => ⟨n, heven, hn⟩
  · -- a power of two lies between them, and is as near as the number can be
    obtain ⟨q, rfl⟩ : ∃ q, p = q + 1 := ⟨p - 1, by omega⟩
    have hpower : (2 : ℚ) ^ (Int.clog 2 h - 1) = ((2 ^ q : ℤ) : ℚ) * gapBelow (q + 1) h := by
      rw [gapBelow]
      push_cast
      rw [← zpow_natCast, ← zpow_add₀ two_ne_zero]
      congr 1
      ring
    have hnext : (2 : ℚ) ^ (Int.clog 2 h - 1) + gapBelow (q + 1) h ≤ h := by
      have hless : ((2 ^ q : ℤ) : ℚ) * gapBelow (q + 1) h < n * gapBelow (q + 1) h := by
        rw [← hpower, ← hn]
        exact hbelow
      have hwhole : 2 ^ q + 1 ≤ n := Int.cast_lt.mp (lt_of_mul_lt_mul_right hless hgap.le)
      have hcast : ((2 ^ q + 1 : ℤ) : ℚ) * gapBelow (q + 1) h ≤ n * gapBelow (q + 1) h :=
        mul_le_mul_of_nonneg_right (Int.cast_le.mpr hwhole) hgap.le
      rw [← hn, Int.cast_add, add_mul, ← hpower, Int.cast_one, one_mul] at hcast
      exact hcast
    have hsmall : spacing (q + 1) x ≤ gapBelow (q + 1) h := by
      have hlog : Int.log 2 x < Int.clog 2 h - 1 := (Int.lt_zpow_iff_log_lt one_lt_two hx).mp (by exact_mod_cast hfar)
      rw [spacing, gapBelow, abs_of_pos hx]
      exact zpow_le_zpow_right₀ one_le_two (by omega)
    apply iff_of_false
    · rintro (hreach | ⟨hreach, -⟩) <;> linarith
    · rintro (hreach | ⟨hreach, -⟩) <;> linarith

end Precision

end RentalMarket.Binary
