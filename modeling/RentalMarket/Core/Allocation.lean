import RentalMarket.Core.Doubles
import RentalMarket.Lib.Apportion
import RentalMarket.Lib.Refusal
import RentalMarket.Lib.SortedBy

namespace RentalMarket.Core.Doubles

open Binary Apportion

/-- `Math.trunc`: towards zero. -/
def trunc (x : ℚ) : Int := if x < 0 then ⌈x⌉ else ⌊x⌋

def totalOf (ratios : List ℚ) : ℚ := ratios.foldl (fun a b => double (a + b)) 0

def truncatedShares (amount : Int) (ratios : List ℚ) : List Int :=
  ratios.map (fun ratio => trunc (double (double (amount * ratio) / totalOf ratios)))

def largestFirst (ratios : List ℚ) : List (ℚ × ℕ) := sortedBy (fun e => -e.1) ratios.zipIdx

def distributed (amount : Int) (ratios : List ℚ) : List Int :=
  let shares := truncatedShares amount ratios
  let remainder := amount - shares.sum
  handOut remainder.sign ((inTurn (largestFirst ratios) remainder.natAbs).map (·.2)) shares

def allocate (m : Money) (ratios : List ℚ) : Except String (List Money) :=
  if ratios = [] then .error "allocate() requires at least one ratio"
  else if ratios.any (· < 0) then .error "allocate() ratios must be finite and non-negative"
  else if totalOf ratios ≤ 0 then .error "allocate() ratios must sum to more than zero"
  else (distributed m.amount ratios).mapM (Money.money · m.currency)

section Exactness

variable {x h : ℚ}

theorem whole_on_grid (hx : 0 ≤ x) (hlt : x < 2 ^ 53) (n : ℤ) : OnGrid 53 x n := by
  have hgrid := onGrid_of_lt (p := 53) (k := 53) (j := 0) hx (by exact_mod_cast hlt) (by decide) (by decide) n
  simpa using hgrid

theorem double_nonneg (hx : 0 ≤ x) : 0 ≤ double x := nearest_nonneg hx

theorem le_double (hx : 0 ≤ x) (hgrid : OnGrid 53 x h) (hle : h ≤ x) : h ≤ double x := by
  have hpos : 0 < spacing 53 x := spacing_pos
  exact (le_nearest_iff hx hgrid).mpr (.inl (by linarith))

theorem double_lt (hx : 0 ≤ x) (hgap : x + x * 2 ^ (-53 : ℤ) < h) : double x < h := by
  have herror := abs_le.mp (nearest_error_le (p := 53) hx)
  have hbound : nearest 53 x ≤ x + x * 2 ^ (-53 : ℤ) := by
    have := herror.2
    push_cast at this
    linarith
  exact hbound.trans_lt hgap

theorem double_natCast {n : ℕ} (hn : n ≤ 2 ^ 53) : double n = n := by
  have hnonneg : (0 : ℚ) ≤ n := Nat.cast_nonneg n
  have hgrid : OnGrid 53 (n : ℚ) n := by
    obtain hlt | rfl := Nat.lt_or_eq_of_le hn
    · exact_mod_cast whole_on_grid hnonneg (by exact_mod_cast hlt) n
    · refine ⟨2 ^ 52, ?_⟩
      have hpower : ((2 ^ 53 : ℕ) : ℚ) = ((2 : ℕ) : ℚ) ^ (53 : ℤ) := by norm_num
      have hlog : Int.log 2 |((2 ^ 53 : ℕ) : ℚ)| = 53 := by
        rw [abs_of_nonneg hnonneg, hpower, Int.log_zpow (by decide)]
      rw [spacing, hlog]
      norm_num
  exact le_antisymm (nearest_le hnonneg hgrid le_rfl) (le_double hnonneg hgrid le_rfl)

theorem double_neg (x : ℚ) : double (-x) = -double x := by
  rw [double, double, nearest_eq_abs (-x), nearest_eq_abs x, abs_neg]
  obtain hneg | rfl | hpos := lt_trichotomy x 0
  · rw [if_neg (by linarith), if_pos hneg]
    ring
  · simp [nearest, halfEven]
  · rw [if_pos (by linarith), if_neg (by linarith)]
    ring

theorem trunc_neg (x : ℚ) : trunc (-x) = -trunc x := by
  rw [trunc, trunc]
  obtain hneg | rfl | hpos := lt_trichotomy x 0
  · rw [if_neg (by linarith), if_pos hneg, Int.floor_neg]
  · rfl
  · rw [if_pos (by linarith), if_neg (by linarith), Int.ceil_neg]

theorem trunc_double_div {p q : ℕ} (hp : p < 2 ^ 53) (hq : 0 < q) : trunc (double (p / q)) = (p / q : ℕ) := by
  have hq' : (0 : ℚ) < q := by exact_mod_cast hq
  have hp' : (p : ℚ) < 2 ^ 53 := by exact_mod_cast hp
  have hx : (0 : ℚ) ≤ p / q := by positivity
  have hlt : (p / q : ℚ) < 2 ^ 53 := (div_le_self (by positivity) (by exact_mod_cast hq)).trans_lt hp'
  have hlow : ((p / q : ℕ) : ℚ) ≤ p / q := Nat.cast_div_le
  have hdown : ((p / q : ℕ) : ℚ) ≤ double (p / q) :=
    le_double hx (by exact_mod_cast whole_on_grid hx hlt ((p / q : ℕ) : ℤ)) hlow
  have hup : double (p / q) < ((p / q : ℕ) : ℚ) + 1 := by
    apply double_lt hx
    -- the next whole number is at least `1 / q` away, and the error is less than that
    have hnext : (p : ℚ) + 1 ≤ q * (((p / q : ℕ) : ℚ) + 1) := by exact_mod_cast Nat.lt_mul_div_succ p hq
    have herror : (p : ℚ) * 2 ^ (-53 : ℤ) < 1 := by
      rw [zpow_neg, ← div_eq_mul_inv, div_lt_one (by positivity)]
      exact_mod_cast hp
    rw [div_mul_eq_mul_div, ← add_div, div_lt_iff₀ hq']
    linarith
  have hfloor : ⌊double (p / q)⌋ = ((p / q : ℕ) : ℤ) := by
    rw [Int.floor_eq_iff]
    exact ⟨by exact_mod_cast hdown, by exact_mod_cast hup⟩
  rw [trunc, if_neg (not_lt.mpr (double_nonneg hx)), hfloor]

/-- What is below `2 ^ 53` has no whole part of what is above it. -/
theorem trunc_double_div_of_le {p : ℕ} {total : ℚ} (hp : p < 2 ^ 53) (htotal : 2 ^ 53 ≤ total) :
    trunc (double (p / total)) = 0 := by
  have htotal' : (0 : ℚ) < total := lt_of_lt_of_le (by positivity) htotal
  have hx : (0 : ℚ) ≤ p / total := by positivity
  have hp' : (p : ℚ) + 1 ≤ 2 ^ 53 := by exact_mod_cast hp
  have hsmall : (p / total : ℚ) ≤ 1 - 2 ^ (-53 : ℤ) := by
    rw [div_le_iff₀ htotal', sub_mul, one_mul, zpow_neg]
    have hratio : (1 : ℚ) ≤ total * ((2 : ℚ) ^ (53 : ℤ))⁻¹ := by
      rw [← div_eq_mul_inv, le_div_iff₀ (by positivity)]
      exact_mod_cast htotal
    have hscale : total - (2 ^ 53 : ℚ) ≥ (total - 2 ^ 53) * ((2 : ℚ) ^ (53 : ℤ))⁻¹ := by
      apply mul_le_of_le_one_right (by linarith)
      norm_num
    have hone : (2 ^ 53 : ℚ) * ((2 : ℚ) ^ (53 : ℤ))⁻¹ = 1 := by norm_num
    rw [sub_mul, hone] at hscale
    linarith
  have hlt : double (p / total) < 1 := by
    apply double_lt hx
    have hpos : (0 : ℚ) < 2 ^ (-53 : ℤ) := by positivity
    have hmul := mul_le_mul_of_nonneg_right hsmall hpos.le
    nlinarith
  have hfloor : ⌊double (p / total)⌋ = 0 := by
    rw [Int.floor_eq_zero_iff]
    exact ⟨double_nonneg hx, hlt⟩
  rw [trunc, if_neg (not_lt.mpr (double_nonneg hx)), hfloor]

theorem power_le_double {k : ℤ} (h : (2 : ℚ) ^ k ≤ x) : (2 : ℚ) ^ k ≤ double x := by
  have hpos : 0 < x := (zpow_pos (by norm_num) k).trans_le h
  have hlog : k ≤ Int.log 2 x := (Int.zpow_le_iff_le_log one_lt_two hpos).mp (by exact_mod_cast h)
  have hgrid : OnGrid 53 x (2 ^ Int.log 2 x) := by
    refine ⟨2 ^ 52, ?_⟩
    rw [spacing, abs_of_pos hpos, show ((2 ^ 52 : ℤ) : ℚ) = 2 ^ (52 : ℤ) by norm_num, ← zpow_add₀ two_ne_zero]
    congr 1
    push_cast
    ring
  have hlow : (2 : ℚ) ^ Int.log 2 x ≤ x := by exact_mod_cast Int.zpow_log_le_self (R := ℚ) one_lt_two hpos
  exact (zpow_le_zpow_right₀ (by norm_num) hlog).trans (le_double hpos.le hgrid hlow)

end Exactness

section Total

/-- A sum in doubles is exact as long as it is below `2 ^ 53`, and stays above when it is not. -/
theorem foldl_double (weights : List ℕ) {acc : ℚ} {n : ℕ} (hexact : n < 2 ^ 53 → acc = n)
    (hlarge : 2 ^ 53 ≤ n → 2 ^ 53 ≤ acc) :
    let total := (weights.map (fun w : ℕ => (w : ℚ))).foldl (fun a b => double (a + b)) acc
    (n + weights.sum < 2 ^ 53 → total = (n + weights.sum : ℕ)) ∧ (2 ^ 53 ≤ n + weights.sum → 2 ^ 53 ≤ total) := by
  induction weights generalizing acc n with
  | nil => exact ⟨hexact, hlarge⟩
  | cons w weights ih =>
    rw [List.sum_cons, ← Nat.add_assoc]
    apply ih
    · intro hlt
      have hsum : acc + w = (n + w : ℕ) := by
        rw [hexact (by omega)]
        push_cast
        rfl
      change double (acc + w) = _
      rw [hsum, double_natCast hlt.le]
    · intro hge
      have hsum : (2 : ℚ) ^ (53 : ℤ) ≤ acc + w := by
        by_cases hn : n < 2 ^ 53
        · rw [hexact hn]
          exact_mod_cast hge
        · have hacc := hlarge (not_lt.mp hn)
          have hw : (0 : ℚ) ≤ w := Nat.cast_nonneg w
          have hpower : (2 : ℚ) ^ (53 : ℤ) = 2 ^ 53 := by norm_num
          linarith
      exact_mod_cast power_le_double hsum

theorem totalOf_natCast (weights : List ℕ) :
    (weights.sum < 2 ^ 53 → totalOf (weights.map (↑)) = weights.sum) ∧
      (2 ^ 53 ≤ weights.sum → 2 ^ 53 ≤ totalOf (weights.map (↑))) := by
  have htotal := foldl_double weights (fun _ => Nat.cast_zero.symm) (fun h : 2 ^ 53 ≤ 0 => absurd h (by decide))
  dsimp only at htotal
  rw [Nat.zero_add] at htotal
  exact htotal

end Total

section Shares

variable {amount : ℕ} {ratios : List ℕ}

theorem distributed_neg (amount : Int) (ratios : List ℚ) :
    distributed (-amount) ratios = (distributed amount ratios).map (-·) := by
  have hshares : truncatedShares (-amount) ratios = (truncatedShares amount ratios).map (-·) := by
    rw [truncatedShares, truncatedShares, List.map_map]
    apply List.map_congr_left
    intro ratio _
    rw [Function.comp_apply, Int.cast_neg, neg_mul, double_neg, neg_div, double_neg, trunc_neg]
  have hremainder : -amount - ((truncatedShares amount ratios).map (-·)).sum =
      -(amount - (truncatedShares amount ratios).sum) := by
    have hsum := map_list_sum (negAddMonoidHom : ℤ →+ ℤ) (truncatedShares amount ratios)
    change -(truncatedShares amount ratios).sum = ((truncatedShares amount ratios).map (-·)).sum at hsum
    omega
  rw [distributed, distributed, hshares, hremainder, Int.sign_neg, Int.natAbs_neg, handOut_neg]

theorem truncatedShares_natCast (hpos : 0 < ratios.sum) (hsafe : ∀ r ∈ ratios, amount * r < 2 ^ 53) :
    truncatedShares amount (ratios.map (↑)) = (ratios.map (whole amount ratios.sum)).map (↑) := by
  obtain ⟨hexact, hlarge⟩ := totalOf_natCast ratios
  rw [truncatedShares, List.map_map, List.map_map]
  apply List.map_congr_left
  intro r hr
  have hproduct : double (((amount : ℤ) : ℚ) * (r : ℚ)) = (amount * r : ℕ) := by
    rw [Int.cast_natCast, ← Nat.cast_mul, double_natCast (hsafe r hr).le]
  rw [Function.comp_apply, Function.comp_apply, hproduct]
  by_cases htotal : ratios.sum < 2 ^ 53
  · rw [hexact htotal, trunc_double_div (hsafe r hr) hpos, whole]
  · have hge := not_lt.mp htotal
    rw [trunc_double_div_of_le (hsafe r hr) (hlarge hge), whole, Nat.div_eq_of_lt ((hsafe r hr).trans_le hge)]
    rfl

theorem largestFirst_perm (ratios : List ℚ) : (largestFirst ratios).Perm ratios.zipIdx := sortedBy_perm

theorem largestFirst_pairwise (ratios : List ℚ) : (largestFirst ratios).Pairwise (fun a b => b.1 ≤ a.1) := by
  have hsorted : (largestFirst ratios).Pairwise (fun a b => -a.1 ≤ -b.1) := sortedBy_pairwise
  refine hsorted.imp ?_
  intro a b hab
  exact neg_le_neg_iff.mp hab

theorem countP_largestFirst (ratios : List ℕ) :
    (largestFirst (ratios.map (↑))).countP (fun e => 0 < e.1) = ratios.countP (0 < ·) := by
  have hfirst : (fun e : ℚ × ℕ => decide (0 < e.1)) = (fun r : ℚ => decide (0 < r)) ∘ Prod.fst := rfl
  rw [(largestFirst_perm _).countP_eq, hfirst, ← List.countP_map, List.zipIdx_map_fst, List.countP_map]
  apply List.countP_congr
  intro r _
  simp

theorem places_perm (ratios : List ℚ) : ((largestFirst ratios).map (·.2)).Perm (List.range ratios.length) := by
  rw [List.range_eq_range', ← List.zipIdx_map_snd 0 ratios]
  exact (largestFirst_perm ratios).map _

/-- What an index gets: the whole units of its share, and perhaps another if its ratio is not zero. -/
theorem distributed_natCast (hpos : 0 < ratios.sum) (hsafe : ∀ r ∈ ratios, amount * r < 2 ^ 53) :
    (distributed amount (ratios.map (↑))).length = ratios.length ∧
    (distributed amount (ratios.map (↑))).sum = amount ∧
    ∀ j r : ℕ, ratios[j]? = some r → ∃ extra : ℕ,
      (distributed amount (ratios.map (↑)))[j]? = some ((whole amount ratios.sum r + extra : ℕ) : ℤ) ∧
      extra ≤ 1 ∧ (extra = 1 → 0 < r ∧ 0 < amount) := by
  have hbounds : (ratios.map (whole amount ratios.sum)).sum ≤ amount ∧
      amount ≤ (ratios.map (whole amount ratios.sum)).sum + ratios.countP (0 < ·) := leftover_bounds hpos
  obtain ⟨hle, hge⟩ := hbounds
  obtain ⟨left, hleft⟩ := Nat.exists_eq_add_of_le hle
  have hcount : left ≤ ratios.countP (0 < ·) := by omega
  have hlength : (largestFirst (ratios.map (fun r : ℕ => (r : ℚ)))).length = ratios.length := by
    rw [(largestFirst_perm _).length_eq, List.length_zipIdx, List.length_map]
  have hshares : ((ratios.map (whole amount ratios.sum)).map (↑) : List ℤ).sum =
      ((ratios.map (whole amount ratios.sum)).sum : ℕ) := (Nat.cast_list_sum _).symm
  have hremainder : (amount : ℤ) - ((ratios.map (whole amount ratios.sum)).map (↑) : List ℤ).sum = left := by
    omega
  have hturns : inTurn (largestFirst (ratios.map (fun r : ℕ => (r : ℚ)))) left =
      (largestFirst (ratios.map (fun r : ℕ => (r : ℚ)))).take left :=
    inTurn_eq_take (by rw [hlength]; exact hcount.trans List.countP_le_length)
  have hplaces := places_perm (ratios.map (fun r : ℕ => (r : ℚ)))
  rw [List.length_map] at hplaces
  have hdistributed : distributed amount (ratios.map (↑)) =
      handOut 1 (((largestFirst (ratios.map (fun r : ℕ => (r : ℚ)))).take left).map (·.2))
        ((ratios.map (whole amount ratios.sum)).map (↑)) := by
    rw [distributed, truncatedShares_natCast hpos hsafe, hremainder, Int.natAbs_natCast, hturns]
    cases left with
    | zero => rfl
    | succ left => rw [Int.sign_natCast_of_ne_zero (Nat.succ_ne_zero left)]
  rw [hdistributed]
  refine ⟨by simp, ?_, ?_⟩
  · rw [sum_handOut, List.length_map, List.length_take, hlength,
      Nat.min_eq_left (hcount.trans List.countP_le_length)]
    · omega
    · intro i hi
      have hmem := hplaces.mem_iff.mp (((List.take_sublist _ _).map _).subset hi)
      simpa using hmem
  · intro j r hr
    refine ⟨(((largestFirst (ratios.map (fun r : ℕ => (r : ℚ)))).take left).map (·.2)).count j, ?_, ?_, ?_⟩
    · rw [getElem?_handOut, List.getElem?_map, List.getElem?_map, hr]
      push_cast
      simp
    · apply List.nodup_iff_count_le_one.mp
      exact ((List.take_sublist _ _).map _).nodup (hplaces.nodup_iff.mpr List.nodup_range)
    · intro hone
      have hmem := List.count_pos_iff.mp (hone.symm ▸ Nat.one_pos)
      obtain ⟨e, he, rfl⟩ := List.mem_map.mp hmem
      have hpositive : 0 < e.1 := pos_of_mem_take (largestFirst_pairwise _)
        (by rw [countP_largestFirst]; exact hcount) he
      have hentry := List.mem_zipIdx_iff_getElem?.mp ((largestFirst_perm _).mem_iff.mp (List.mem_of_mem_take he))
      rw [List.getElem?_map, hr] at hentry
      rw [← Option.some.inj hentry] at hpositive
      have hsome : left ≠ 0 := by
        rintro rfl
        cases he
      exact ⟨Nat.cast_pos.mp hpositive, by omega⟩

end Shares

structure FairShare (amount : Int) (total ratio : ℕ) (share : Int) : Prop where
  charge : 0 ≤ amount → 0 ≤ share
  refund : amount ≤ 0 → share ≤ 0
  near : |(share : ℚ) - amount * ratio / total| ≤ 1
  nothing : ratio = 0 → share = 0

theorem FairShare.neg {amount share : Int} {total ratio : ℕ} (h : FairShare amount total ratio share) :
    FairShare (-amount) total ratio (-share) where
  charge hamount := by
    have := h.refund (by omega)
    omega
  refund hamount := by
    have := h.charge (by omega)
    omega
  near := by
    have hnear := h.near
    rw [← abs_neg] at hnear
    convert hnear using 2
    push_cast
    ring
  nothing hratio := by rw [h.nothing hratio, neg_zero]

theorem FairShare.of_whole {amount total ratio extra : ℕ} (htotal : 0 < total) (hextra : extra ≤ 1)
    (hdue : extra = 1 → 0 < ratio ∧ 0 < amount) :
    FairShare amount total ratio ((whole amount total ratio + extra : ℕ) : ℤ) where
  charge _ := Int.natCast_nonneg _
  refund hamount := by
    obtain rfl : amount = 0 := by omega
    have hwhole : whole 0 total ratio = 0 := by rw [whole, Nat.zero_mul, Nat.zero_div]
    omega
  near := by
    have htotal' : (0 : ℚ) < total := by exact_mod_cast htotal
    have hlow : (whole amount total ratio : ℚ) ≤ amount * ratio / total := by
      rw [le_div_iff₀ htotal']
      exact_mod_cast Nat.div_mul_le_self (amount * ratio) total
    have hhigh : (amount * ratio / total : ℚ) ≤ whole amount total ratio + 1 := by
      have hnext := (Nat.lt_mul_div_succ (amount * ratio) htotal).le
      rw [Nat.mul_comm total] at hnext
      rw [div_le_iff₀ htotal']
      exact_mod_cast hnext
    have hextra' : (extra : ℚ) ≤ 1 := by exact_mod_cast hextra
    have hnonneg : (0 : ℚ) ≤ extra := Nat.cast_nonneg extra
    push_cast
    rw [abs_le]
    constructor <;> linarith
  nothing hzero := by
    subst hzero
    have hwhole : whole amount total 0 = 0 := by rw [whole, Nat.mul_zero, Nat.zero_div]
    omega

theorem distributed_fair {amount : ℕ} {ratios : List ℕ} (hpos : 0 < ratios.sum)
    (hsafe : ∀ r ∈ ratios, amount * r < 2 ^ 53) :
    List.Forall₂ (FairShare amount ratios.sum) ratios (distributed amount (ratios.map (↑))) := by
  obtain ⟨hlength, -, heach⟩ := distributed_natCast hpos hsafe
  apply List.forall₂_of_length_eq_of_get hlength.symm
  intro j hj hj'
  obtain ⟨extra, hshare, hextra, hdue⟩ := heach j ratios[j] (List.getElem?_eq_getElem hj)
  rw [List.getElem?_eq_getElem hj', Option.some_inj] at hshare
  rw [List.get_eq_getElem, List.get_eq_getElem, hshare]
  exact .of_whole hpos hextra hdue

theorem abs_distributed_le {amount : ℕ} {ratios : List ℕ} (hpos : 0 < ratios.sum)
    (hsafe : ∀ r ∈ ratios, amount * r < 2 ^ 53) {share : Int}
    (hshare : share ∈ distributed amount (ratios.map (↑))) : |share| ≤ amount := by
  have hnonneg : ∀ s ∈ distributed amount (ratios.map (fun r : ℕ => (r : ℚ))), 0 ≤ s := by
    intro s hs
    obtain ⟨j, hj, rfl⟩ := List.getElem_of_mem hs
    have hfair := (distributed_fair hpos hsafe).get (by rw [(distributed_fair hpos hsafe).length_eq]; exact hj) hj
    exact hfair.charge (Int.natCast_nonneg _)
  rw [abs_of_nonneg (hnonneg share hshare), ← (distributed_natCast hpos hsafe).2.1]
  exact List.single_le_sum hnonneg share hshare

/-- A charge and the refund of it are allocated alike. -/
theorem allocate_natCast {amount : ℕ} {ratios : List ℕ} (hpos : 0 < ratios.sum)
    (hsafe : ∀ r ∈ ratios, amount * r < 2 ^ 53) (c : Currency) :
    allocate ⟨amount, c⟩ (ratios.map (↑)) = .ok ((distributed amount (ratios.map (↑))).map (Money.mk · c)) ∧
    allocate ⟨-amount, c⟩ (ratios.map (↑)) = .ok ((distributed amount (ratios.map (↑))).map (fun s => ⟨-s, c⟩)) := by
  have hne : ratios ≠ [] := by
    rintro rfl
    exact absurd hpos (Nat.lt_irrefl 0)
  have hnonneg : (ratios.map (fun r : ℕ => (r : ℚ))).any (· < 0) = false := by
    rw [List.any_map, List.any_eq_false]
    intro r _
    simp
  have htotal : ¬ totalOf (ratios.map (fun r : ℕ => (r : ℚ))) ≤ 0 := by
    obtain ⟨hexact, hlarge⟩ := totalOf_natCast ratios
    rw [not_le]
    by_cases hlt : ratios.sum < 2 ^ 53
    · exact (hexact hlt).symm ▸ Nat.cast_pos.mpr hpos
    · exact lt_of_lt_of_le (by positivity) (hlarge (not_lt.mp hlt))
  have hallocate (a : ℤ) : allocate ⟨a, c⟩ (ratios.map (↑)) =
      (distributed a (ratios.map (↑))).mapM (Money.money · c) := by
    rw [allocate, if_neg (by simpa using hne), if_neg (by rw [hnonneg]; exact Bool.false_ne_true), if_neg htotal]
  obtain ⟨r, hr, hrpos⟩ : ∃ r ∈ ratios, 0 < r := by
    by_contra hnone
    have hzero : ratios.sum = 0 := List.sum_eq_zero_iff.mpr (by simpa using hnone)
    omega
  have hamount : amount < 2 ^ 53 := (Nat.le_mul_of_pos_right _ hrpos).trans_lt (hsafe r hr)
  have hmoney (s : ℤ) (hs : |s| ≤ amount) : Money.money s c = .ok ⟨s, c⟩ := by
    obtain ⟨hlow, hhigh⟩ := abs_le.mp hs
    rw [Money.money, if_pos]
    simp only [Money.maxSafeInteger]
    omega
  constructor
  · rw [hallocate]
    exact Refusal.mapM_ok fun s hs => hmoney s (abs_distributed_le hpos hsafe hs)
  · rw [hallocate, distributed_neg, List.mapM_map]
    exact Refusal.mapM_ok fun s hs => hmoney (-s) ((abs_neg s).trans_le (abs_distributed_le hpos hsafe hs))

/-- Allocation conserves money, gives nothing to a zero ratio, and treats a refund as a charge. -/
theorem allocate_conserves (m : Money) (ratios : List ℕ) (hpos : 0 < ratios.sum)
    (hsafe : ∀ r ∈ ratios, |m.amount * r| < 2 ^ 53) :
    ∃ shares : List Int, allocate m (ratios.map (↑)) = .ok (shares.map (Money.mk · m.currency)) ∧
      shares.sum = m.amount ∧
      List.Forall₂ (FairShare m.amount ratios.sum) ratios shares ∧
      allocate ⟨-m.amount, m.currency⟩ (ratios.map (↑)) = .ok (shares.map (fun s => ⟨-s, m.currency⟩)) := by
  obtain ⟨amount, c⟩ := m
  obtain ⟨n, hn⟩ := amount.eq_nat_or_neg
  have hsafe' : ∀ r ∈ ratios, n * r < 2 ^ 53 := by
    intro r hr
    have habs : |amount| = n := by
      obtain rfl | rfl := hn
      · exact Int.natAbs_natCast n ▸ Int.abs_eq_natAbs _
      · exact (abs_neg _).trans (Int.natAbs_natCast n ▸ Int.abs_eq_natAbs _)
    have := hsafe r hr
    rw [abs_mul, Nat.abs_cast, habs] at this
    exact_mod_cast this
  obtain ⟨hcharge, hrefund⟩ := allocate_natCast hpos hsafe' c
  have hfair := distributed_fair hpos hsafe'
  have hsum := (distributed_natCast hpos hsafe').2.1
  obtain rfl | rfl := hn
  · exact ⟨_, hcharge, hsum, hfair, hrefund⟩
  · refine ⟨(distributed n (ratios.map (↑))).map (-·), ?_, ?_, ?_, ?_⟩
    · rw [hrefund, List.map_map]
      rfl
    · have hneg := map_list_sum (negAddMonoidHom : ℤ →+ ℤ) (distributed n (ratios.map (↑)))
      rw [hsum] at hneg
      exact hneg.symm
    · rw [List.forall₂_map_right_iff]
      exact hfair.imp fun _ _ h => h.neg
    · dsimp only
      rw [neg_neg, hcharge, List.map_map]
      simp only [Function.comp_def, neg_neg]

theorem a_penny_of_ten_pounds_and_a_penny : ∃ shares : List Int,
    allocate ⟨1001, .gbp⟩ ([15, 85, 0].map (↑)) = .ok (shares.map (Money.mk · .gbp)) ∧ shares.sum = 1001 := by
  obtain ⟨shares, hshares, hsum, -⟩ := allocate_conserves ⟨1001, .gbp⟩ [15, 85, 0] (by decide) (by decide)
  exact ⟨shares, hshares, hsum⟩

example : allocate ⟨-7, .gbp⟩ [1, 1, 0, 1] = .ok [⟨-3, .gbp⟩, ⟨-2, .gbp⟩, ⟨0, .gbp⟩, ⟨-2, .gbp⟩] := by
  decide +kernel

end RentalMarket.Core.Doubles
