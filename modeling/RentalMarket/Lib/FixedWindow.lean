import Mathlib.Data.List.MinMax
import Mathlib.Data.List.Nodup
import Mathlib.Order.Interval.Finset.Nat

namespace RentalMarket.FixedWindow

/-- One use of an allowance that is counted by windows: in which window it fell, as the
how-manieth of it, and when. -/
structure Use where
  window : Nat
  count : Nat
  instant : Nat
  deriving DecidableEq, Repr

/-- Uses are counted from one up, and with a window in between they are its width apart. -/
structure Counted (width : Nat) (uses : List Use) : Prop where
  distinct : (uses.map (fun u => (u.window, u.count))).Nodup
  positive : ∀ u ∈ uses, 1 ≤ u.count
  apart : ∀ u ∈ uses, ∀ v ∈ uses, u.window + 2 ≤ v.window → u.instant + width ≤ v.instant

variable {width limit : Nat} {uses uses' : List Use}

theorem Counted.sublist (h : Counted width uses) (hs : uses'.Sublist uses) : Counted width uses' where
  distinct := h.distinct.sublist (hs.map _)
  positive u hu := h.positive u (hs.subset hu)
  apart u hu v hv := h.apart u (hs.subset hu) v (hs.subset hv)

theorem Counted.cons (h : Counted width uses) {u : Use} (hfresh : ∀ v ∈ uses, v.window = u.window → v.count < u.count)
    (hpos : 1 ≤ u.count) (hlast : ∀ v ∈ uses, v.window ≤ u.window)
    (hapart : ∀ v ∈ uses, v.window + 2 ≤ u.window → v.instant + width ≤ u.instant) :
    Counted width (u :: uses) where
  distinct := by
    rw [List.map_cons, List.nodup_cons]
    refine ⟨fun hmem => ?_, h.distinct⟩
    obtain ⟨v, hv, hsame⟩ := List.mem_map.mp hmem
    obtain ⟨hwindow, hcount⟩ := Prod.mk.inj hsame
    exact absurd hcount (hfresh v hv hwindow).ne
  positive := List.forall_mem_cons.mpr ⟨hpos, h.positive⟩
  apart v hv x hx hwindows := by
    cases hv with
    | head =>
      cases hx with
      | head => omega
      | tail _ hx =>
        have hle := hlast x hx
        omega
    | tail _ hv =>
      cases hx with
      | head => exact hapart v hv hwindows
      | tail _ hx => exact h.apart v hv x hx hwindows

theorem Counted.length_le (h : Counted width uses) {n : Nat} (hwindow : ∀ u ∈ uses, u.window = n)
    (hcount : ∀ u ∈ uses, u.count ≤ limit) : uses.length ≤ limit := by
  have hcounts : (uses.map (·.count)).Nodup := by
    apply List.Nodup.of_map (fun count => (n, count))
    rw [List.map_map]
    have hsame : uses.map ((fun count => (n, count)) ∘ (·.count)) = uses.map (fun u => (u.window, u.count)) := by
      apply List.map_congr_left
      intro u hu
      rw [Function.comp_apply, hwindow u hu]
    rw [hsame]
    exact h.distinct
  have hsub : ∀ count ∈ uses.map (·.count), count ∈ List.range' 1 limit := by
    intro count hmem
    obtain ⟨u, hu, rfl⟩ := List.mem_map.mp hmem
    have hpos := h.positive u hu
    have hle := hcount u hu
    rw [List.mem_range'_1]
    omega
  have hlen := (hcounts.subperm hsub).length_le
  rwa [List.length_map, List.length_range'] at hlen

/-- And in any interval as long as a window no more than twice the limit: it meets two
windows at most. -/
theorem Counted.length_interval_le (h : Counted width uses) {start : Nat}
    (hinterval : ∀ u ∈ uses, start ≤ u.instant ∧ u.instant < start + width) (hcount : ∀ u ∈ uses, u.count ≤ limit) :
    uses.length ≤ 2 * limit := by
  cases hfirst : uses.argmin (·.window) with
  | none =>
    rw [List.argmin_eq_none.mp hfirst]
    exact Nat.zero_le _
  | some first =>
    have hmem := List.argmin_mem hfirst
    have htwo : ∀ u ∈ uses, u.window ≠ first.window → u.window = first.window + 1 := by
      intro u hu hne
      have hle : first.window ≤ u.window := List.le_of_mem_argmin hu hfirst
      by_contra hlater
      have hapart := h.apart first hmem u hu (by omega)
      have hearly := (hinterval first hmem).1
      have hlate := (hinterval u hu).2
      omega
    have hsplit := List.length_eq_length_filter_add (l := uses) (fun u => decide (u.window = first.window))
    have hnow : (uses.filter (fun u => decide (u.window = first.window))).length ≤ limit := by
      apply (h.sublist List.filter_sublist).length_le (n := first.window)
      · exact fun u hu => by simpa using (List.mem_filter.mp hu).2
      · exact fun u hu => hcount u (List.mem_of_mem_filter hu)
    have hnext : (uses.filter (fun u => !decide (u.window = first.window))).length ≤ limit := by
      apply (h.sublist List.filter_sublist).length_le (n := first.window + 1)
      · exact fun u hu => htwo u (List.mem_of_mem_filter hu) (by simpa using (List.mem_filter.mp hu).2)
      · exact fun u hu => hcount u (List.mem_of_mem_filter hu)
    omega

end RentalMarket.FixedWindow
