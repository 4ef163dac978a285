import Mathlib.Data.Fintype.Card
import Mathlib.Data.List.Nodup
import Mathlib.Logic.Relation

namespace RentalMarket.Traversal

/-- How a value made of references is folded: a value is a leaf or refers to a node, a
node has parts, and a node met again has an output of its own. -/
structure Fold (R V O : Type*) where
  look : V → O ⊕ R
  parts : R → List V
  build : R → List O → O
  again : O

variable {R R' V V' O : Type*}

def visitAll (f : List R → V → Option (O × List R)) : List R → List V → Option (List O × List R)
  | seen, [] => some ([], seen)
  | seen, v :: vs => (f seen v).bind (fun p => (visitAll f p.2 vs).map (fun q => (p.1 :: q.1, q.2)))

namespace Fold

/-- The fold that remembers every node it has met. -/
def visit [DecidableEq R] (g : Fold R V O) : Nat → List R → V → Option (O × List R)
  | 0, _, _ => none
  | fuel + 1, seen, v =>
    match g.look v with
    | .inl out => some (out, seen)
    | .inr r =>
      if r ∈ seen then some (g.again, seen)
      else (visitAll (g.visit fuel) (r :: seen) (g.parts r)).map (fun p => (g.build r p.1, p.2))

/-- The fold of the tree that a value unfolds to. -/
def plain (g : Fold R V O) : Nat → V → Option O
  | 0, _ => none
  | fuel + 1, v =>
    match g.look v with
    | .inl out => some out
    | .inr r => ((g.parts r).mapM (g.plain fuel)).map (g.build r)

def visits (g : Fold R V O) : Nat → V → List R
  | 0, _ => []
  | fuel + 1, v =>
    match g.look v with
    | .inl _ => []
    | .inr r => r :: (g.parts r).flatMap (g.visits fuel)

inductive Reaches (g : Fold R V O) : V → List Nat → R → Prop where
  | here {v : V} {r : R} (hv : g.look v = .inr r) : Reaches g v [] r
  | part {v w : V} {r s : R} {i : Nat} {path : List Nat} (hv : g.look v = .inr r) (hw : (g.parts r)[i]? = some w)
      (h : Reaches g w path s) : Reaches g v (i :: path) s

def Acyclic (g : Fold R V O) (v : V) : Prop :=
  ∀ path further r, g.Reaches v path r → g.Reaches v (path ++ further) r → further = []

def Unshared (g : Fold R V O) (v : V) : Prop := ∀ path path' r, g.Reaches v path r → g.Reaches v path' r → path = path'

end Fold

section

variable {f f' : List R → V → Option (O × List R)} {seen seen' : List R} {v : V} {vs : List V} {outs : List O}

theorem visitAll_cons_eq_some : visitAll f seen (v :: vs) = some (outs, seen') ↔
    ∃ out s₁ outs', f seen v = some (out, s₁) ∧ visitAll f s₁ vs = some (outs', seen') ∧ outs = out :: outs' := by
  rw [visitAll, Option.bind_eq_some_iff]
  constructor
  · rintro ⟨⟨out, s₁⟩, hv, h⟩
    obtain ⟨⟨outs', s₂⟩, hvs, hpair⟩ := Option.map_eq_some_iff.mp h
    obtain ⟨rfl, rfl⟩ := Prod.mk.inj hpair
    exact ⟨out, s₁, outs', hv, hvs, rfl⟩
  · rintro ⟨out, s₁, outs', hv, hvs, rfl⟩
    exact ⟨(out, s₁), hv, Option.map_eq_some_iff.mpr ⟨(outs', seen'), hvs, rfl⟩⟩

theorem visitAll_singleton (f : List R → V → Option (O × List R)) (seen : List R) (v : V) :
    visitAll f seen [v] = (f seen v).map (fun p => ([p.1], p.2)) := by
  rw [visitAll]
  cases f seen v <;> rfl

theorem visitAll_some (I : List R → Prop) (hf : ∀ seen v, I seen → ∃ out seen', f seen v = some (out, seen') ∧ I seen')
    (vs : List V) (h : I seen) : ∃ outs seen', visitAll f seen vs = some (outs, seen') ∧ I seen' := by
  induction vs generalizing seen with
  | nil => exact ⟨[], seen, rfl, h⟩
  | cons v vs ih =>
    obtain ⟨out, s₁, hv, h₁⟩ := hf seen v h
    obtain ⟨outs, s₂, hvs, h₂⟩ := ih h₁
    exact ⟨out :: outs, s₂, visitAll_cons_eq_some.mpr ⟨out, s₁, outs, hv, hvs, rfl⟩, h₂⟩

theorem visitAll_mono (hf : ∀ seen v p, f seen v = some p → f' seen v = some p)
    (h : visitAll f seen vs = some (outs, seen')) : visitAll f' seen vs = some (outs, seen') := by
  induction vs generalizing seen outs with
  | nil => exact h
  | cons v vs ih =>
    obtain ⟨out, s₁, outs', hv, hvs, rfl⟩ := visitAll_cons_eq_some.mp h
    exact visitAll_cons_eq_some.mpr ⟨out, s₁, outs', hf _ _ _ hv, ih hvs, rfl⟩

end

namespace Fold

variable [DecidableEq R] [DecidableEq R']

section

variable {g : Fold R V O} {fuel : Nat} {seen seen' : List R} {v : V} {out : O} {r : R}

theorem visit_leaf (h : g.look v = .inl out) : g.visit (fuel + 1) seen v = some (out, seen) := by
  rw [visit, h]

theorem visit_again (h : g.look v = .inr r) (hr : r ∈ seen) : g.visit (fuel + 1) seen v = some (g.again, seen) := by
  rw [visit, h]
  exact if_pos hr

theorem visit_node (h : g.look v = .inr r) (hr : r ∉ seen) : g.visit (fuel + 1) seen v =
    (visitAll (g.visit fuel) (r :: seen) (g.parts r)).map (fun p => (g.build r p.1, p.2)) := by
  rw [visit, h]
  exact if_neg hr

theorem visit_mono (h : g.visit fuel seen v = some (out, seen')) : g.visit (fuel + 1) seen v = some (out, seen') := by
  induction fuel generalizing seen seen' v out with
  | zero => cases h
  | succ fuel ih =>
    cases hv : g.look v with
    | inl out' =>
      rw [visit_leaf hv] at h ⊢
      exact h
    | inr r =>
      by_cases hr : r ∈ seen
      · rw [visit_again hv hr] at h ⊢
        exact h
      · rw [visit_node hv hr] at h ⊢
        obtain ⟨⟨outs, s₁⟩, hparts, hpair⟩ := Option.map_eq_some_iff.mp h
        exact Option.map_eq_some_iff.mpr ⟨_, visitAll_mono (fun _ _ _ h => ih h) hparts, hpair⟩

theorem visit_mono_le {fuel' : Nat} (hle : fuel ≤ fuel') (h : g.visit fuel seen v = some (out, seen')) :
    g.visit fuel' seen v = some (out, seen') := by
  induction hle with
  | refl => exact h
  | step _ ih => exact visit_mono ih

theorem visit_unique {fuel' : Nat} {p q : O × List R} (h : g.visit fuel seen v = some p)
    (h' : g.visit fuel' seen v = some q) : p = q := by
  have hp := visit_mono_le (Nat.le_max_left fuel fuel') h
  have hq := visit_mono_le (Nat.le_max_right fuel fuel') h'
  exact Option.some.inj (hp.symm.trans hq)

/-- Every node is entered once, so that fuel for one more than there are is enough,
whatever cycles there may be. -/
theorem visit_some [Fintype R] (g : Fold R V O) (v : V) (hn : seen.Nodup)
    (hfuel : Fintype.card R < fuel + seen.length) :
    ∃ out seen', g.visit fuel seen v = some (out, seen') ∧ seen'.Nodup ∧ Fintype.card R < fuel + seen'.length := by
  induction fuel generalizing seen v with
  | zero =>
    rw [Nat.zero_add] at hfuel
    exact absurd hn.length_le_card hfuel.not_ge
  | succ fuel ih =>
    cases hv : g.look v with
    | inl out => exact ⟨out, seen, visit_leaf hv, hn, hfuel⟩
    | inr r =>
      by_cases hr : r ∈ seen
      · exact ⟨g.again, seen, visit_again hv hr, hn, hfuel⟩
      · have hentered : (r :: seen).Nodup ∧ Fintype.card R < fuel + (r :: seen).length := by
          refine ⟨List.nodup_cons.mpr ⟨hr, hn⟩, ?_⟩
          rw [List.length_cons]
          omega
        obtain ⟨outs, s₁, hparts, hn₁, hfuel₁⟩ := visitAll_some
          (fun seen => seen.Nodup ∧ Fintype.card R < fuel + seen.length) (fun seen v h => ih v h.1 h.2)
          (g.parts r) hentered
        refine ⟨g.build r outs, s₁, ?_, hn₁, ?_⟩
        · rw [visit_node hv hr, hparts]
          rfl
        · omega

end

structure Alike (g : Fold R V O) (g' : Fold R' V' O) (ref : R → R' → Prop) (value : V → V' → Prop) : Prop where
  injective : ∀ r s r' s', ref r r' → ref s s' → (r = s ↔ r' = s')
  look : ∀ v v', value v v' → (∃ out, g.look v = .inl out ∧ g'.look v' = .inl out) ∨
    ∃ r r', g.look v = .inr r ∧ g'.look v' = .inr r' ∧ ref r r'
  parts : ∀ r r', ref r r' → List.Forall₂ value (g.parts r) (g'.parts r')
  build : ∀ r r', ref r r' → g.build r = g'.build r'
  again : g.again = g'.again

section

variable {g : Fold R V O} {g' : Fold R' V' O} {ref : R → R' → Prop} {value : V → V' → Prop}

def Seen (ref : R → R' → Prop) (seen : List R) (seen' : List R') : Prop := ∀ r r', ref r r' → (r ∈ seen ↔ r' ∈ seen')

/-- And so are their outputs. -/
theorem Alike.visit (h : Alike g g' ref value) {fuel : Nat} {seen s₁ : List R} {seen' : List R'} {v : V} {v' : V'}
    {out : O} (hseen : Seen ref seen seen') (hv : value v v') (hvisit : g.visit fuel seen v = some (out, s₁)) :
    ∃ s₁', g'.visit fuel seen' v' = some (out, s₁') ∧ Seen ref s₁ s₁' := by
  induction fuel generalizing seen seen' v v' out s₁ with
  | zero => cases hvisit
  | succ fuel ih =>
    obtain ⟨out', hl, hl'⟩ | ⟨r, r', hl, hl', href⟩ := h.look v v' hv
    · rw [visit_leaf hl] at hvisit
      cases hvisit
      exact ⟨seen', visit_leaf hl', hseen⟩
    · by_cases hr : r ∈ seen
      · rw [visit_again hl hr] at hvisit
        cases hvisit
        refine ⟨seen', ?_, hseen⟩
        rw [visit_again hl' ((hseen r r' href).mp hr), h.again]
      · have hr' : r' ∉ seen' := fun hmem => hr ((hseen r r' href).mpr hmem)
        rw [visit_node hl hr] at hvisit
        obtain ⟨⟨outs, s₂⟩, hparts, hpair⟩ := Option.map_eq_some_iff.mp hvisit
        obtain ⟨rfl, rfl⟩ := Prod.mk.inj hpair
        have hentered : Seen ref (r :: seen) (r' :: seen') := by
          intro x x' hx
          rw [List.mem_cons, List.mem_cons, hseen x x' hx, h.injective x r x' r' hx href]
        have hall : ∀ {vs : List V} {vs' : List V'} {seen : List R} {seen' : List R'} {outs : List O} {s : List R},
            List.Forall₂ value vs vs' → Seen ref seen seen' → visitAll (g.visit fuel) seen vs = some (outs, s) →
            ∃ s', visitAll (g'.visit fuel) seen' vs' = some (outs, s') ∧ Seen ref s s' := by
          intro vs vs' seen seen' outs s hvs hseen hvisits
          induction hvs generalizing seen seen' outs with
          | nil =>
            cases hvisits
            exact ⟨seen', rfl, hseen⟩
          | cons hfirst _ ihs =>
            obtain ⟨out, s₁, outs', hv₁, hvs₁, rfl⟩ := visitAll_cons_eq_some.mp hvisits
            obtain ⟨s₁', hv₁', hseen₁⟩ := ih hseen hfirst hv₁
            obtain ⟨s', hvs', hseen'⟩ := ihs hseen₁ hvs₁
            exact ⟨s', visitAll_cons_eq_some.mpr ⟨out, s₁', outs', hv₁', hvs', rfl⟩, hseen'⟩
        obtain ⟨s₂', hparts', hseen₂⟩ := hall (h.parts r r' href) hentered hparts
        refine ⟨s₂', ?_, hseen₂⟩
        rw [visit_node hl' hr', hparts', h.build r r' href]
        rfl

end

end Fold

section

variable {f : V → Option O} {v : V} {vs : List V} {outs : List O}

theorem mapM_cons_eq_some : (v :: vs).mapM f = some outs ↔
    ∃ out outs', f v = some out ∧ vs.mapM f = some outs' ∧ outs = out :: outs' := by
  rw [List.mapM_cons]
  constructor
  · intro h
    obtain ⟨out, hv, h⟩ := Option.bind_eq_some_iff.mp h
    obtain ⟨outs', hvs, h⟩ := Option.bind_eq_some_iff.mp h
    exact ⟨out, outs', hv, hvs, (Option.some.inj h).symm⟩
  · rintro ⟨out, outs', hv, hvs, rfl⟩
    rw [hv, hvs]
    rfl

theorem mapM_some (h : ∀ v ∈ vs, ∃ out, f v = some out) : ∃ outs, vs.mapM f = some outs := by
  induction vs with
  | nil => exact ⟨[], rfl⟩
  | cons v vs ih =>
    obtain ⟨out, hv⟩ := h v List.mem_cons_self
    obtain ⟨outs, hvs⟩ := ih (fun w hw => h w (List.mem_cons_of_mem v hw))
    exact ⟨out :: outs, mapM_cons_eq_some.mpr ⟨out, outs, hv, hvs, rfl⟩⟩

theorem exists_of_mapM (h : vs.mapM f = some outs) : ∀ v ∈ vs, ∃ out, f v = some out := by
  induction vs generalizing outs with
  | nil => exact fun v hv => absurd hv List.not_mem_nil
  | cons v vs ih =>
    obtain ⟨out, outs', hv, hvs, -⟩ := mapM_cons_eq_some.mp h
    exact List.forall_mem_cons.mpr ⟨⟨out, hv⟩, ih hvs⟩

theorem length_of_mapM (h : vs.mapM f = some outs) : outs.length = vs.length := by
  induction vs generalizing outs with
  | nil =>
    cases h
    rfl
  | cons v vs ih =>
    obtain ⟨out, outs', -, hvs, rfl⟩ := mapM_cons_eq_some.mp h
    rw [List.length_cons, List.length_cons, ih hvs]

end

namespace Fold

variable {g : Fold R V O} {fuel : Nat} {v w : V} {r s : R} {i : Nat} {path : List Nat} {out : O}

theorem plain_leaf (h : g.look v = .inl out) : g.plain (fuel + 1) v = some out := by
  rw [plain, h]

theorem plain_node (h : g.look v = .inr r) :
    g.plain (fuel + 1) v = ((g.parts r).mapM (g.plain fuel)).map (g.build r) := by
  rw [plain, h]

theorem plain_parts (h : g.look v = .inr r) (hplain : g.plain (fuel + 1) v = some out) :
    ∀ w ∈ g.parts r, ∃ out, g.plain fuel w = some out := by
  rw [plain_node h] at hplain
  obtain ⟨outs, houts, -⟩ := Option.map_eq_some_iff.mp hplain
  exact exists_of_mapM houts

theorem visits_leaf (h : g.look v = .inl out) : g.visits (fuel + 1) v = [] := by
  rw [visits, h]

theorem visits_node (h : g.look v = .inr r) : g.visits (fuel + 1) v = r :: (g.parts r).flatMap (g.visits fuel) := by
  rw [visits, h]

theorem not_reaches_leaf (h : g.look v = .inl out) : ¬g.Reaches v path r := by
  intro hreach
  cases hreach with
  | here hv => cases h.symm.trans hv
  | part hv _ _ => cases h.symm.trans hv

theorem reaches_nil_iff (h : g.look v = .inr r) : g.Reaches v [] s ↔ s = r := by
  constructor
  · intro hreach
    cases hreach with
    | here hv => exact Sum.inr.inj (hv.symm.trans h)
  · rintro rfl
    exact .here h

theorem reaches_cons_iff (h : g.look v = .inr r) :
    g.Reaches v (i :: path) s ↔ ∃ w, (g.parts r)[i]? = some w ∧ g.Reaches w path s := by
  constructor
  · intro hreach
    cases hreach with
    | part hv hw hpath =>
      obtain rfl := Sum.inr.inj (h.symm.trans hv)
      exact ⟨_, hw, hpath⟩
  · rintro ⟨w, hw, hpath⟩
    exact .part h hw hpath

theorem Acyclic.part (hacyclic : g.Acyclic v) (h : g.look v = .inr r) (hw : (g.parts r)[i]? = some w) :
    g.Acyclic w := by
  intro path further s hpath hfurther
  exact hacyclic (i :: path) further s (.part h hw hpath) (.part h hw hfurther)

/-- Where every part is of a lower rank there is no cycle. -/
theorem acyclic_of_rank (rank : R → Nat) (h : ∀ r, ∀ w ∈ g.parts r, ∀ s, g.look w = .inr s → rank s < rank r)
    (v : V) : g.Acyclic v := by
  have hle : ∀ (path : List Nat) (v : V) (r s : R), g.look v = .inr r → g.Reaches v path s → rank s ≤ rank r := by
    intro path
    induction path with
    | nil =>
      intro v r s hv hpath
      rw [(reaches_nil_iff hv).mp hpath]
    | cons i path ih =>
      intro v r s hv hpath
      obtain ⟨w, hi, hpath⟩ := (reaches_cons_iff hv).mp hpath
      cases hw : g.look w with
      | inl out => exact absurd hpath (not_reaches_leaf hw)
      | inr t => exact (ih w t s hw hpath).trans (h r w (List.mem_of_getElem? hi) t hw).le
  intro path
  induction path generalizing v with
  | nil =>
    intro further r hpath hfurther
    cases hpath with
    | here hv =>
      cases further with
      | nil => rfl
      | cons i further =>
        obtain ⟨w, hi, hfurther⟩ := (reaches_cons_iff hv).mp hfurther
        cases hw : g.look w with
        | inl out => exact absurd hfurther (not_reaches_leaf hw)
        | inr t =>
          exact absurd (hle further w t r hw hfurther) (h r w (List.mem_of_getElem? hi) t hw).not_ge
  | cons i path ih =>
    intro further r hpath hfurther
    cases hpath with
    | part hv hi hpath =>
      obtain ⟨w, hi', hfurther⟩ := (reaches_cons_iff hv).mp hfurther
      obtain rfl := Option.some.inj (hi.symm.trans hi')
      exact ih _ further r hpath hfurther

theorem plain_some [Fintype R] {ancestors : List R} (hn : ancestors.Nodup)
    (hfuel : Fintype.card R < fuel + ancestors.length) (hacyclic : g.Acyclic v)
    (hnew : ∀ r ∈ ancestors, ∀ path, ¬g.Reaches v path r) : ∃ out, g.plain fuel v = some out := by
  induction fuel generalizing v ancestors with
  | zero =>
    rw [Nat.zero_add] at hfuel
    exact absurd hn.length_le_card hfuel.not_ge
  | succ fuel ih =>
    cases hv : g.look v with
    | inl out => exact ⟨out, plain_leaf hv⟩
    | inr r =>
      have hentered : (r :: ancestors).Nodup := List.nodup_cons.mpr ⟨fun hr => hnew r hr [] (.here hv), hn⟩
      have hparts : ∀ w ∈ g.parts r, ∃ out, g.plain fuel w = some out := by
        intro w hw
        obtain ⟨i, hi⟩ := List.mem_iff_getElem?.mp hw
        apply ih hentered
        · rw [List.length_cons]
          omega
        · exact hacyclic.part hv hi
        · intro s hs path hpath
          rcases List.mem_cons.mp hs with rfl | hs
          · exact List.cons_ne_nil i path (hacyclic [] (i :: path) s (.here hv) (.part hv hi hpath))
          · exact hnew s hs (i :: path) (.part hv hi hpath)
      obtain ⟨outs, houts⟩ := mapM_some hparts
      refine ⟨g.build r outs, ?_⟩
      rw [plain_node hv, houts]
      rfl

theorem mem_visits_iff (h : g.plain fuel v = some out) : s ∈ g.visits fuel v ↔ ∃ path, g.Reaches v path s := by
  induction fuel generalizing v out with
  | zero => cases h
  | succ fuel ih =>
    cases hv : g.look v with
    | inl out' =>
      rw [visits_leaf hv]
      exact iff_of_false List.not_mem_nil (fun ⟨_, hpath⟩ => not_reaches_leaf hv hpath)
    | inr r =>
      have hparts := plain_parts hv h
      rw [visits_node hv, List.mem_cons, List.mem_flatMap]
      constructor
      · rintro (rfl | ⟨w, hw, hs⟩)
        · exact ⟨[], .here hv⟩
        · obtain ⟨i, hi⟩ := List.mem_iff_getElem?.mp hw
          obtain ⟨out', hout⟩ := hparts w hw
          obtain ⟨path, hpath⟩ := (ih hout).mp hs
          exact ⟨i :: path, .part hv hi hpath⟩
      · rintro ⟨path, hpath⟩
        cases path with
        | nil => exact .inl ((reaches_nil_iff hv).mp hpath)
        | cons i path =>
          obtain ⟨w, hi, hpath⟩ := (reaches_cons_iff hv).mp hpath
          have hw := List.mem_of_getElem? hi
          obtain ⟨out', hout⟩ := hparts w hw
          exact .inr ⟨w, hw, (ih hout).mpr ⟨path, hpath⟩⟩

theorem nodup_visits_iff (h : g.plain fuel v = some out) : (g.visits fuel v).Nodup ↔ g.Unshared v := by
  induction fuel generalizing v out with
  | zero => cases h
  | succ fuel ih =>
    cases hv : g.look v with
    | inl out' =>
      rw [visits_leaf hv]
      exact iff_of_true List.nodup_nil (fun path _ _ hpath => absurd hpath (not_reaches_leaf hv))
    | inr r =>
      have hparts := plain_parts hv h
      have hreaches : ∀ {i : Nat} {w : V} {s : R}, (g.parts r)[i]? = some w →
          (s ∈ g.visits fuel w ↔ ∃ path, g.Reaches w path s) := by
        intro i w s hi
        obtain ⟨out', hout⟩ := hparts w (List.mem_of_getElem? hi)
        exact mem_visits_iff hout
      rw [visits_node hv, List.nodup_cons, List.nodup_flatMap, List.pairwise_iff_getElem]
      constructor
      · rintro ⟨hfresh, heach, hapart⟩
        have hbelow : ∀ {i : Nat} {path : List Nat}, ¬g.Reaches v (i :: path) r := by
          intro i path hpath
          obtain ⟨w, hi, hpath⟩ := (reaches_cons_iff hv).mp hpath
          exact hfresh (List.mem_flatMap.mpr ⟨w, List.mem_of_getElem? hi, (hreaches hi).mpr ⟨path, hpath⟩⟩)
        have hlt : ∀ {i j : Nat} {path path' : List Nat} {s : R}, i < j → g.Reaches v (i :: path) s →
            ¬g.Reaches v (j :: path') s := by
          intro i j path path' s hij hpath hpath'
          obtain ⟨w, hi, hpath⟩ := (reaches_cons_iff hv).mp hpath
          obtain ⟨w', hj, hpath'⟩ := (reaches_cons_iff hv).mp hpath'
          obtain ⟨hilt, rfl⟩ := List.getElem?_eq_some_iff.mp hi
          obtain ⟨hjlt, rfl⟩ := List.getElem?_eq_some_iff.mp hj
          exact hapart i j hilt hjlt hij ((hreaches hi).mpr ⟨path, hpath⟩) ((hreaches hj).mpr ⟨path', hpath'⟩)
        intro path path' s hpath hpath'
        cases path with
        | nil =>
          obtain rfl := (reaches_nil_iff hv).mp hpath
          cases path' with
          | nil => rfl
          | cons j path' => exact absurd hpath' hbelow
        | cons i path =>
          cases path' with
          | nil =>
            obtain rfl := (reaches_nil_iff hv).mp hpath'
            exact absurd hpath hbelow
          | cons j path' =>
            rcases Nat.lt_trichotomy i j with hij | rfl | hji
            · exact absurd hpath' (hlt hij hpath)
            · obtain ⟨w, hi, hpath⟩ := (reaches_cons_iff hv).mp hpath
              obtain ⟨w', hi', hpath'⟩ := (reaches_cons_iff hv).mp hpath'
              obtain rfl := Option.some.inj (hi.symm.trans hi')
              have hw := List.mem_of_getElem? hi
              obtain ⟨out', hout⟩ := hparts w hw
              rw [(ih hout).mp (heach w hw) path path' s hpath hpath']
            · exact absurd hpath (hlt hji hpath')
      · intro hunshared
        refine ⟨?_, ?_, ?_⟩
        · intro hr
          obtain ⟨w, hw, hr⟩ := List.mem_flatMap.mp hr
          obtain ⟨i, hi⟩ := List.mem_iff_getElem?.mp hw
          obtain ⟨path, hpath⟩ := (hreaches hi).mp hr
          cases hunshared [] (i :: path) r (.here hv) (.part hv hi hpath)
        · intro w hw
          obtain ⟨i, hi⟩ := List.mem_iff_getElem?.mp hw
          obtain ⟨out', hout⟩ := hparts w hw
          refine (ih hout).mpr (fun path path' s hpath hpath' => ?_)
          exact (List.cons.inj (hunshared _ _ s (.part hv hi hpath) (.part hv hi hpath'))).2
        · intro i j hi hj hlt s hs hs'
          obtain ⟨path, hpath⟩ := (hreaches (List.getElem?_eq_getElem hi)).mp hs
          obtain ⟨path', hpath'⟩ := (hreaches (List.getElem?_eq_getElem hj)).mp hs'
          have heq := hunshared _ _ s (.part hv (List.getElem?_eq_getElem hi) hpath)
            (.part hv (List.getElem?_eq_getElem hj) hpath')
          exact absurd (List.cons.inj heq).1 hlt.ne

end Fold

/-- Whether a visit came to the tree's output, and what it has entered if so. -/
structure Told (seen seen' entered : List R) (same : Prop) : Prop where
  iff : same ↔ entered.Nodup ∧ entered.Disjoint seen
  entered : same → ∀ r, r ∈ seen' ↔ r ∈ entered ∨ r ∈ seen

namespace Told

variable {seen s₁ s₂ entered entered' : List R} {r : R} {p q : Prop}

theorem nil (seen : List R) : Told seen seen [] True where
  iff := iff_of_true trivial ⟨List.nodup_nil, List.disjoint_nil_left seen⟩
  entered _ _ := (or_iff_right List.not_mem_nil).symm

theorem append (h : Told seen s₁ entered p) (h' : Told s₁ s₂ entered' q) :
    Told seen s₂ (entered ++ entered') (p ∧ q) where
  iff := by
    rw [List.nodup_append', List.disjoint_append_left]
    constructor
    · rintro ⟨hp, hq⟩
      obtain ⟨hn, hd⟩ := h.iff.mp hp
      obtain ⟨hn', hd'⟩ := h'.iff.mp hq
      have hafter : ∀ r ∈ entered', r ∉ entered ∧ r ∉ seen := by
        intro r hr
        exact not_or.mp (fun hbefore => hd' hr ((h.entered hp r).mpr hbefore))
      exact ⟨⟨hn, hn', fun r hr hr' => (hafter r hr').1 hr⟩, hd, fun r hr => (hafter r hr).2⟩
    · rintro ⟨⟨hn, hn', hapart⟩, hd, hd'⟩
      have hp := h.iff.mpr ⟨hn, hd⟩
      refine ⟨hp, h'.iff.mpr ⟨hn', fun r hr hr' => ?_⟩⟩
      rcases (h.entered hp r).mp hr' with hbefore | hbefore
      · exact hapart hbefore hr
      · exact hd' hr hbefore
  entered := by
    rintro ⟨hp, hq⟩ r
    rw [h'.entered hq r, h.entered hp r, List.mem_append]
    tauto

theorem enter (hr : r ∉ seen) (h : Told (r :: seen) s₁ entered p) : Told seen s₁ (r :: entered) p where
  iff := by
    rw [h.iff, List.nodup_cons, List.disjoint_cons_left, List.disjoint_cons_right]
    tauto
  entered hp x := by
    rw [h.entered hp x, List.mem_cons, List.mem_cons]
    tauto

theorem again (hr : r ∈ seen) : Told seen seen (r :: entered) False where
  iff := iff_of_false id (fun h => h.2 List.mem_cons_self hr)
  entered h := h.elim

end Told

/-- What is built of a node is told from the output for one met again, and tells what
it was built of. -/
structure Telling (g : Fold R V O) (node : O → Prop) : Prop where
  again : ¬node g.again
  built : ∀ r outs, node (g.build r outs)
  parts : ∀ r outs outs', outs'.length = (g.parts r).length → List.Forall₂ (fun a b => a = b ∨ node b) outs outs' →
    g.build r outs = g.build r outs' → outs = outs'

namespace Fold

variable [DecidableEq R] {g : Fold R V O} {node : O → Prop} {fuel : Nat} {seen seen' : List R} {v : V} {out tree : O}

theorem visit_told (t : Telling g node) (hvisit : g.visit fuel seen v = some (out, seen'))
    (hplain : g.plain fuel v = some tree) :
    Told seen seen' (g.visits fuel v) (out = tree) ∧ (out = tree ∨ node tree) := by
  induction fuel generalizing seen seen' v out tree with
  | zero => cases hvisit
  | succ fuel ih =>
    cases hv : g.look v with
    | inl out' =>
      rw [visit_leaf hv] at hvisit
      rw [plain_leaf hv] at hplain
      cases hvisit
      cases hplain
      rw [visits_leaf hv]
      refine ⟨?_, .inl rfl⟩
      simpa using Told.nil seen
    | inr r =>
      rw [plain_node hv] at hplain
      obtain ⟨trees, htrees, rfl⟩ := Option.map_eq_some_iff.mp hplain
      rw [visits_node hv]
      refine ⟨?_, .inr (t.built r trees)⟩
      by_cases hr : r ∈ seen
      · rw [visit_again hv hr] at hvisit
        cases hvisit
        have hne : g.again ≠ g.build r trees := fun h => t.again (h ▸ t.built r trees)
        rw [eq_false hne]
        exact Told.again hr
      · rw [visit_node hv hr] at hvisit
        obtain ⟨⟨outs, s₁⟩, houts, hpair⟩ := Option.map_eq_some_iff.mp hvisit
        obtain ⟨rfl, rfl⟩ := Prod.mk.inj hpair
        have hall : ∀ {vs : List V} {seen seen' : List R} {outs trees : List O},
            visitAll (g.visit fuel) seen vs = some (outs, seen') → vs.mapM (g.plain fuel) = some trees →
            Told seen seen' (vs.flatMap (g.visits fuel)) (outs = trees) ∧
              List.Forall₂ (fun a b => a = b ∨ node b) outs trees := by
          intro vs
          induction vs with
          | nil =>
            intro seen seen' outs trees houts htrees
            cases houts
            cases htrees
            refine ⟨?_, .nil⟩
            simpa using Told.nil seen
          | cons v vs ihs =>
            intro seen seen' outs trees houts htrees
            obtain ⟨out, s₁, outs', hv, hvs, rfl⟩ := visitAll_cons_eq_some.mp houts
            obtain ⟨tree, trees', hv', hvs', rfl⟩ := mapM_cons_eq_some.mp htrees
            obtain ⟨htold, hout⟩ := ih hv hv'
            obtain ⟨htolds, houts⟩ := ihs hvs hvs'
            refine ⟨?_, .cons hout houts⟩
            rw [List.flatMap_cons, List.cons_eq_cons]
            exact htold.append htolds
        obtain ⟨htold, hforall⟩ := hall houts htrees
        have hbuild : g.build r outs = g.build r trees ↔ outs = trees :=
          ⟨t.parts r outs trees (length_of_mapM htrees) hforall, congrArg (g.build r)⟩
        rw [hbuild]
        exact htold.enter hr

theorem visit_eq_plain_iff [Fintype R] (t : Telling g node) (v : V) (hacyclic : g.Acyclic v)
    (hfuel : Fintype.card R < fuel) :
    ∃ out seen tree, g.visit fuel [] v = some (out, seen) ∧ g.plain fuel v = some tree ∧
      (out = tree ↔ g.Unshared v) := by
  obtain ⟨out, seen, hvisit, -⟩ := g.visit_some v List.nodup_nil hfuel
  obtain ⟨tree, htree⟩ := plain_some List.nodup_nil hfuel hacyclic (fun _ h => absurd h List.not_mem_nil)
  refine ⟨out, seen, tree, hvisit, htree, ?_⟩
  rw [(visit_told t hvisit htree).1.iff, nodup_visits_iff htree]
  exact and_iff_left (List.disjoint_nil_right _)

end Fold

end RentalMarket.Traversal
