import RentalMarket.Lib.JsonText
import RentalMarket.Lib.Keyed
import RentalMarket.Lib.SortedBy

namespace RentalMarket.Audit

open JsonText

variable {β γ : Type*}

/-- The array index that a key is: a canonical numeral below `2 ^ 32 - 1`. -/
def arrayIndex (key : CodeUnits) : Option Nat :=
  let index := key.foldl (fun n u => 10 * n + (u.val - 48)) 0
  if key.all (fun u => decide (48 ≤ u ∧ u ≤ 57)) ∧ key ≠ [] ∧ (key.length = 1 ∨ key.head? ≠ some 48) ∧
      index < 2 ^ 32 - 1 then some index
  else none

/-- `Object.fromEntries(entries)` of entries with distinct keys. The own properties of
an object are enumerated with the array indices first, in ascending order. -/
def fromEntries (entries : List (CodeUnits × β)) : List (CodeUnits × β) :=
  sortedBy (fun e => (arrayIndex e.1).getD 0) (entries.filter (fun e => (arrayIndex e.1).isSome)) ++
    entries.filter (fun e => !(arrayIndex e.1).isSome)

/-- Strings are compared by their code units. -/
def sortEntries (entries : List (CodeUnits × β)) : List (CodeUnits × β) := sortedBy (·.1) entries

mutual

/-- Object keys sorted, and undefined members dropped, at every depth. The keys alone
decide how the entries are sorted, so that their values may be canonicalised before. -/
def canonicalise : Value → Value
  | .array items => .array (canonicaliseItems items)
  | .object members => .object (fromEntries (sortEntries (canonicaliseMembers members)))
  | .null => .null
  | .boolean b => .boolean b
  | .number x => .number x
  | .text s => .text s

def canonicaliseItems : List Value → List Value
  | [] => []
  | v :: items => canonicalise v :: canonicaliseItems items

def canonicaliseMembers : List (CodeUnits × Option Value) → List (CodeUnits × Option Value)
  | [] => []
  | (_, none) :: members => canonicaliseMembers members
  | (key, some v) :: members => (key, some (canonicalise v)) :: canonicaliseMembers members

end

def canonicalText (v : Value) : CodeUnits := stringify (canonicalise v)

inductive Step where
  | index (i : Nat)
  | key (k : CodeUnits)

inductive Observation where
  | null
  | boolean (b : Bool)
  | number (value : ℚ)
  | text (s : CodeUnits)
  | array (length : Nat)
  | object

/-- `value[key]` of an object, if it is not undefined. -/
def member (key : CodeUnits) (members : List (CodeUnits × Option Value)) : Option Value :=
  (members.find? (fun e => e.1 = key)).bind (·.2)

def observe : List Step → Value → Option Observation
  | [], .null => some .null
  | [], .boolean b => some (.boolean b)
  | [], .number x => some (.number x.value)
  | [], .text s => some (.text s)
  | [], .array items => some (.array items.length)
  | [], .object _ => some .object
  | .index i :: path, .array items => (items[i]?).bind (observe path)
  | .key k :: path, .object members => (member k members).bind (observe path)
  | _ :: _, _ => none

/-- The same, whatever the order of keys is and whichever members are undefined. -/
def Same (x y : Value) : Prop := ∀ path, observe path x = observe path y

inductive Proper : Value → Prop where
  | null : Proper .null
  | boolean (b : Bool) : Proper (.boolean b)
  | number (x : Script.Double) : Proper (.number x)
  | text (s : CodeUnits) : Proper (.text s)
  | array {items : List Value} (h : ∀ v ∈ items, Proper v) : Proper (.array items)
  | object {members : List (CodeUnits × Option Value)} (distinct : (members.map (·.1)).Nodup)
    (h : ∀ e ∈ defined members, Proper e.2) : Proper (.object members)

structure State where
  value : Value
  proper : Proper value

def inOrder (entries : List (CodeUnits × β)) : List (CodeUnits × β) := fromEntries (sortEntries entries)

theorem inOrder_perm (entries : List (CodeUnits × β)) : (inOrder entries).Perm entries := by
  have hsplit := List.filter_append_perm (fun e => (arrayIndex e.1).isSome) (sortEntries entries)
  exact ((sortedBy_perm.append_right _).trans hsplit).trans sortedBy_perm

theorem inOrder_map (g : β → γ) (entries : List (CodeUnits × β)) :
    inOrder (entries.map (Prod.map id g)) = (inOrder entries).map (Prod.map id g) := by
  have hsort : sortEntries (entries.map (Prod.map id g)) = (sortEntries entries).map (Prod.map id g) :=
    sortedBy_map _ _
  rw [inOrder, inOrder, fromEntries, fromEntries, hsort, List.filter_map, List.filter_map, List.map_append]
  congr 1
  exact sortedBy_map _ _

theorem inOrder_eq_of_perm {l l' : List (CodeUnits × β)} (h : l'.Perm l) (hl : (l.map (·.1)).Nodup) :
    inOrder l = inOrder l' := by
  have hsort : sortEntries l = sortEntries l' :=
    sortedBy_eq (sortedBy_perm.trans h) sortedBy_pairwise (fun a ha b hb => List.inj_on_of_nodup_map hl ha hb)
  rw [inOrder, hsort, inOrder]

theorem canonicaliseItems_eq_map (items : List Value) : canonicaliseItems items = items.map canonicalise := by
  induction items with
  | nil => rfl
  | cons v items ih => rw [canonicaliseItems, ih, List.map_cons]

theorem canonicaliseMembers_eq_map (members : List (CodeUnits × Option Value)) :
    canonicaliseMembers members = (defined members).map (Prod.map id (fun v => some (canonicalise v))) := by
  induction members with
  | nil => rfl
  | cons e members ih =>
    obtain ⟨key, v⟩ := e
    cases v with
    | none =>
      rw [canonicaliseMembers, ih]
      rfl
    | some v =>
      rw [canonicaliseMembers, ih]
      rfl

def entryText (e : CodeUnits × Value) : CodeUnits := quote e.1 ++ unit ':' :: canonicalText e.2

theorem canonicalText_array (items : List Value) : canonicalText (.array items) =
    unit '[' :: (joined (items.map canonicalText) ++ [unit ']']) := by
  rw [canonicalText, canonicalise, stringify, stringifyItems_eq_map, canonicaliseItems_eq_map, List.map_map]
  rfl

theorem canonicalText_object (members : List (CodeUnits × Option Value)) : canonicalText (.object members) =
    unit '{' :: (joined ((inOrder (defined members)).map entryText) ++ [unit '}']) := by
  have hdefined : ∀ l : List (CodeUnits × Value),
      defined (l.map (Prod.map id (fun v => some (canonicalise v)))) = l.map (Prod.map id canonicalise) := by
    intro l
    rw [defined, List.filterMap_map, ← List.filterMap_eq_map]
    rfl
  rw [canonicalText, canonicalise, stringify, stringifyMembers_eq_map, canonicaliseMembers_eq_map]
  change _ :: (joined ((defined (inOrder _)).map _) ++ _) = _
  rw [inOrder_map, hdefined, List.map_map]
  rfl

section

variable {members members' : List (CodeUnits × Option Value)} {key : CodeUnits} {v w : Value}

theorem mem_defined : (key, v) ∈ defined members ↔ (key, some v) ∈ members := by
  rw [defined, List.mem_filterMap]
  constructor
  · rintro ⟨⟨k, o⟩, he, hmap⟩
    obtain ⟨w, rfl, heq⟩ := Option.map_eq_some_iff.mp hmap
    obtain ⟨rfl, rfl⟩ := Prod.mk.inj heq
    exact he
  · exact fun he => ⟨(key, some v), he, rfl⟩

theorem nodup_keys_defined (h : (members.map (·.1)).Nodup) : ((defined members).map (·.1)).Nodup := by
  apply Keyed.nodup_filterMap h
  intro e e' heq
  obtain ⟨w, -, rfl⟩ := Option.map_eq_some_iff.mp heq
  rfl

theorem member_eq_some (h : (members.map (·.1)).Nodup) : member key members = some v ↔ (key, v) ∈ defined members := by
  rw [mem_defined, member, Option.bind_eq_some_iff]
  constructor
  · rintro ⟨e, hfind, hv⟩
    have hkey : e.1 = key := by simpa using List.find?_some hfind
    have he := List.mem_of_find?_eq_some hfind
    rwa [← hkey, ← hv]
  · exact fun he => ⟨(key, some v), Keyed.find?_key h he, rfl⟩

theorem observe_nil (v : Value) : ∃ o, observe [] v = some o := by
  cases v <;> exact ⟨_, rfl⟩

theorem Same.symm {x y : Value} (h : Same x y) : Same y x := fun path => (h path).symm

theorem Same.member (h : Same (.object members) (.object members')) (key : CodeUnits) :
    Option.Rel Same (Audit.member key members) (Audit.member key members') := by
  have hpath : ∀ path, (Audit.member key members).bind (observe path) = (Audit.member key members').bind (observe path) :=
    fun path => h (.key key :: path)
  cases hv : Audit.member key members with
  | none =>
    cases hw : Audit.member key members' with
    | none => exact .none
    | some w =>
      obtain ⟨o, ho⟩ := observe_nil w
      have hhere := hpath []
      rw [hv, hw, Option.bind_some, ho] at hhere
      cases hhere
  | some v =>
    cases hw : Audit.member key members' with
    | none =>
      obtain ⟨o, ho⟩ := observe_nil v
      have hhere := hpath []
      rw [hv, hw, Option.bind_some, ho] at hhere
      cases hhere
    | some w =>
      refine .some (fun path => ?_)
      have hthere := hpath path
      rwa [hv, hw] at hthere

theorem covers_of_same (h : (members.map (·.1)).Nodup) (h' : (members'.map (·.1)).Nodup)
    (hsame : Same (.object members) (.object members')) :
    ∀ e ∈ defined members, ∃ e' ∈ defined members', e.1 = e'.1 ∧ Same e.2 e'.2 := by
  rintro ⟨key, v⟩ he
  have hrel := hsame.member key
  rw [(member_eq_some h).mpr he] at hrel
  cases hw : Audit.member key members' with
  | none =>
    rw [hw] at hrel
    cases hrel
  | some w =>
    rw [hw] at hrel
    cases hrel with
    | some hvalue => exact ⟨(key, w), (member_eq_some h').mp hw, rfl, hvalue⟩

theorem same_object_iff (h : (members.map (·.1)).Nodup) (h' : (members'.map (·.1)).Nodup) :
    Same (.object members) (.object members') ↔
      (∀ e ∈ defined members, ∃ e' ∈ defined members', e.1 = e'.1 ∧ Same e.2 e'.2) ∧
        ∀ e' ∈ defined members', ∃ e ∈ defined members, e'.1 = e.1 ∧ Same e'.2 e.2 := by
  constructor
  · intro hsame
    exact ⟨covers_of_same h h' hsame, covers_of_same h' h hsame.symm⟩
  · rintro ⟨hcovers, hcovered⟩ path
    cases path with
    | nil => rfl
    | cons step path =>
      cases step with
      | index i => rfl
      | key key =>
        change (member key members).bind (observe path) = (member key members').bind (observe path)
        cases hv : member key members with
        | none =>
          cases hw : member key members' with
          | none => rfl
          | some w =>
            obtain ⟨⟨k, v⟩, he, rfl, -⟩ := hcovered _ ((member_eq_some h').mp hw)
            rw [(member_eq_some h).mpr he] at hv
            cases hv
        | some v =>
          obtain ⟨⟨k, w⟩, he', rfl, hsame⟩ := hcovers _ ((member_eq_some h).mp hv)
          rw [(member_eq_some h').mpr he']
          exact hsame path

theorem keys_inOrder (l : List (CodeUnits × β)) :
    (inOrder l).map (·.1) = (inOrder ((l.map (·.1)).map (fun k => (k, ())))).map (·.1) := by
  have hforget : (l.map (·.1)).map (fun k => (k, ())) = l.map (Prod.map id (fun _ => ())) := List.map_map
  rw [hforget, inOrder_map, List.map_map]
  rfl

theorem keys_inOrder_eq {l : List (CodeUnits × β)} {l' : List (CodeUnits × γ)} (hl : (l.map (·.1)).Nodup)
    (hl' : (l'.map (·.1)).Nodup) (h : ∀ k, k ∈ l.map (·.1) ↔ k ∈ l'.map (·.1)) :
    (inOrder l).map (·.1) = (inOrder l').map (·.1) := by
  have hperm : (l'.map (·.1)).Perm (l.map (·.1)) := (List.perm_ext_iff_of_nodup hl' hl).mpr (fun k => (h k).symm)
  rw [keys_inOrder l, keys_inOrder l', inOrder_eq_of_perm (hperm.map _)]
  rw [List.map_map]
  exact (List.map_id _).symm ▸ hl

theorem forall₂_of_keys {l l' : List (CodeUnits × β)} {R : β → β → Prop} (hkeys : l.map (·.1) = l'.map (·.1))
    (hn : (l'.map (·.1)).Nodup) (h : ∀ e ∈ l, ∃ e' ∈ l', e.1 = e'.1 ∧ R e.2 e'.2) :
    List.Forall₂ (fun e e' => e.1 = e'.1 ∧ R e.2 e'.2) l l' := by
  have hlength : l.length = l'.length := by simpa using congrArg List.length hkeys
  refine List.forall₂_iff_get.mpr ⟨hlength, fun i hi hi' => ?_⟩
  have hkey : (l.get ⟨i, hi⟩).1 = (l'.get ⟨i, hi'⟩).1 := by
    have hplace := congrArg (·[i]?) hkeys
    simpa [hi, hi'] using hplace
  obtain ⟨e', he', hkey', hR⟩ := h _ (List.get_mem l ⟨i, hi⟩)
  rw [Keyed.eq_of_key hn (List.get_mem l' ⟨i, hi'⟩) he' (hkey.symm.trans hkey')]
  exact ⟨hkey', hR⟩

theorem exists_of_forall₂ {l l' : List β} {R : β → β → Prop} (h : List.Forall₂ R l l') :
    ∀ a ∈ l, ∃ b ∈ l', R a b := by
  induction h with
  | nil => exact fun a ha => absurd ha List.not_mem_nil
  | cons hab _ ih =>
    refine List.forall_mem_cons.mpr ⟨⟨_, List.mem_cons_self, hab⟩, fun a ha => ?_⟩
    obtain ⟨b, hb, hR⟩ := ih a ha
    exact ⟨b, List.mem_cons_of_mem _ hb, hR⟩

/-- In their canonical order they have them side by side. -/
theorem same_object_iff_inOrder (h : (members.map (·.1)).Nodup) (h' : (members'.map (·.1)).Nodup) :
    Same (.object members) (.object members') ↔ List.Forall₂ (fun e e' => e.1 = e'.1 ∧ Same e.2 e'.2)
      (inOrder (defined members)) (inOrder (defined members')) := by
  have hperm := inOrder_perm (defined members)
  have hperm' := inOrder_perm (defined members')
  rw [same_object_iff h h']
  constructor
  · rintro ⟨hcovers, hcovered⟩
    apply forall₂_of_keys
    · apply keys_inOrder_eq (nodup_keys_defined h) (nodup_keys_defined h')
      intro k
      constructor
      · intro hk
        obtain ⟨e, he, rfl⟩ := List.mem_map.mp hk
        obtain ⟨e', he', hkey, -⟩ := hcovers e he
        exact List.mem_map.mpr ⟨e', he', hkey.symm⟩
      · intro hk
        obtain ⟨e', he', rfl⟩ := List.mem_map.mp hk
        obtain ⟨e, he, hkey, -⟩ := hcovered e' he'
        exact List.mem_map.mpr ⟨e, he, hkey.symm⟩
    · exact (hperm'.map _).nodup_iff.mpr (nodup_keys_defined h')
    · intro e he
      obtain ⟨e', he', hboth⟩ := hcovers e (hperm.mem_iff.mp he)
      exact ⟨e', hperm'.mem_iff.mpr he', hboth⟩
  · intro hforall
    constructor
    · intro e he
      obtain ⟨e', he', hboth⟩ := exists_of_forall₂ hforall e (hperm.mem_iff.mpr he)
      exact ⟨e', hperm'.mem_iff.mp he', hboth⟩
    · intro e' he'
      obtain ⟨e, he, hkey, hsame⟩ := exists_of_forall₂ hforall.flip e' (hperm'.mem_iff.mpr he')
      exact ⟨e, hperm.mem_iff.mp he, hkey.symm, hsame.symm⟩

theorem same_array_iff {items items' : List Value} :
    Same (.array items) (.array items') ↔ List.Forall₂ Same items items' := by
  rw [List.forall₂_iff_get]
  constructor
  · intro h
    have hlength : items.length = items'.length := by
      have hhere := h []
      simpa [observe] using hhere
    refine ⟨hlength, fun i hi hi' path => ?_⟩
    have hpath := h (.index i :: path)
    simpa [observe, hi, hi'] using hpath
  · rintro ⟨hlength, hitems⟩ path
    cases path with
    | nil => simp [observe, hlength]
    | cons step path =>
      cases step with
      | key k => rfl
      | index i =>
        by_cases hi : i < items.length
        · have hitem := hitems i hi (hlength ▸ hi) path
          simpa [observe, hi, hlength ▸ hi] using hitem
        · have hi' : items'.length ≤ i := by omega
          simp [observe, hi, hi']

end

inductive Kind where
  | null
  | boolean
  | number
  | text
  | array
  | object

def kind : Value → Kind
  | .null => .null
  | .boolean _ => .boolean
  | .number _ => .number
  | .text _ => .text
  | .array _ => .array
  | .object _ => .object

def kindOf (u : Fin 65536) : Option Kind :=
  if u = unit 'n' then some .null
  else if u = unit 't' ∨ u = unit 'f' then some .boolean
  else if u = unit '"' then some .text
  else if u = unit '[' then some .array
  else if u = unit '{' then some .object
  else if u = unit '-' ∨ 48 ≤ u ∧ u ≤ 57 then some .number
  else none

section

variable {x y v w : Value} {rest rest' : CodeUnits}

theorem kindOf_digit {c : Char} (hc : c.isDigit = true) : kindOf (unit c) = some .number := by
  obtain ⟨hle, hge⟩ := Char.isDigit_iff_toNat.mp hc
  have h₀ : '0'.toNat = 48 := rfl
  have h₉ : '9'.toNat = 57 := rfl
  rw [h₀] at hle
  rw [h₉] at hge
  rw [unit]
  interval_cases c.toNat <;> rfl

theorem head_canonicalText (v : Value) : ∃ u t, canonicalText v = u :: t ∧ kindOf u = some (kind v) := by
  cases v with
  | null => exact ⟨_, _, rfl, rfl⟩
  | boolean b => cases b with
    | true => exact ⟨_, _, rfl, rfl⟩
    | false => exact ⟨_, _, rfl, rfl⟩
  | number x =>
    obtain ⟨c, t, htext, hc⟩ := Script.head_numberText x
    refine ⟨unit c, t.map unit, congrArg ascii htext, ?_⟩
    rcases hc with rfl | hc
    · rfl
    · exact kindOf_digit hc
  | text s => exact ⟨_, _, rfl, rfl⟩
  | array items => exact ⟨_, _, canonicalText_array items, rfl⟩
  | object members => exact ⟨_, _, canonicalText_object members, rfl⟩

theorem head_canonicalText_ne (v : Value) {close : Fin 65536} (hclose : kindOf close = none) :
    ∃ u t, canonicalText v = u :: t ∧ u ≠ close := by
  obtain ⟨u, t, htext, hkind⟩ := head_canonicalText v
  refine ⟨u, t, htext, ?_⟩
  rintro rfl
  cases hclose.symm.trans hkind

theorem Same.kind_eq (h : Same x y) : kind x = kind y := by
  have hhere := h []
  cases x <;> cases y <;> first | rfl | cases hhere

theorem apart (h : kind x ≠ kind y) :
    canonicalText x ++ rest = canonicalText y ++ rest' ↔ Same x y ∧ rest = rest' := by
  refine iff_of_false (fun heq => h ?_) (fun hsame => h hsame.1.kind_eq)
  obtain ⟨u, t, hx, hu⟩ := head_canonicalText x
  obtain ⟨u', t', hy, hu'⟩ := head_canonicalText y
  rw [hx, hy] at heq
  rw [(List.cons.inj heq).1, hu'] at hu
  exact (Option.some.inj hu).symm

theorem same_boolean_iff {b b' : Bool} : Same (.boolean b) (.boolean b') ↔ b = b' := by
  constructor
  · intro h
    have hhere := h []
    simpa [observe] using hhere
  · rintro rfl path
    rfl

theorem same_number_iff {a b : Script.Double} : Same (.number a) (.number b) ↔ a.value = b.value := by
  constructor
  · intro h
    have hhere := h []
    simpa [observe] using hhere
  · intro h path
    cases path with
    | nil => exact congrArg (fun n => some (Observation.number n)) h
    | cons step path => cases step <;> rfl

theorem same_text_iff {s t : CodeUnits} : Same (.text s) (.text t) ↔ s = t := by
  constructor
  · intro h
    have hhere := h []
    simpa [observe] using hhere
  · rintro rfl path
    rfl

theorem entryText_reads {e : CodeUnits × Value} (h : Reads canonicalText Proper Same e.2) :
    Reads entryText (fun e => Proper e.2) (fun e e' => e.1 = e'.1 ∧ Same e.2 e'.2) e := by
  intro e' rest rest' he' hrest hrest'
  rw [entryText, entryText, List.append_assoc, List.append_assoc, quote_append_inj, List.cons_append, List.cons_append,
    List.cons_inj_right, h e'.2 rest rest' he' hrest hrest', and_assoc]

/-- The text of a value ends where it ends, and says what the value is. -/
theorem canonicalText_reads (hx : Proper x) : Reads canonicalText Proper Same x := by
  induction x using Value.induct with
  | null =>
    intro y rest rest' _ _ _
    cases y with
    | null => simp [Same]
    | _ => exact apart (fun h => by cases h)
  | boolean b =>
    intro y rest rest' _ _ _
    cases y with
    | boolean b' =>
      rw [same_boolean_iff]
      cases b <;> cases b'
      case true.true | false.false => exact (List.append_right_inj _).trans (and_iff_right rfl).symm
      case true.false | false.true =>
        exact iff_of_false (fun h => absurd (List.cons.inj h).1 (by decide)) (fun h => absurd h.1 (by decide))
    | _ => exact apart (fun h => by cases h)
  | number a =>
    intro y rest rest' _ hrest hrest'
    cases y with
    | number b =>
      rw [same_number_iff]
      exact number_append_inj hrest hrest'
    | _ => exact apart (fun h => by cases h)
  | text s =>
    intro y rest rest' _ _ _
    cases y with
    | text t =>
      rw [same_text_iff]
      exact quote_append_inj
    | _ => exact apart (fun h => by cases h)
  | array items ih =>
    intro y rest rest' hy _ _
    cases y with
    | array items' =>
      cases hx with
      | array hitems => cases hy with
        | array hitems' =>
          rw [same_array_iff, canonicalText_array, canonicalText_array, List.cons_append, List.cons_append,
            List.cons_inj_right, List.append_assoc, List.append_assoc]
          exact joined_append_inj (.inl rfl) (fun v hv => ih v hv (hitems v hv)) hitems'
            (fun v => head_canonicalText_ne v (by decide))
    | _ => exact apart (fun h => by cases h)
  | object members ih =>
    intro y rest rest' hy _ _
    cases y with
    | object members' =>
      cases hx with
      | object distinct hmembers => cases hy with
        | object distinct' hmembers' =>
          rw [same_object_iff_inOrder distinct distinct', canonicalText_object, canonicalText_object, List.cons_append,
            List.cons_append, List.cons_inj_right, List.append_assoc, List.append_assoc]
          apply joined_append_inj (.inr rfl)
          · intro e he
            have hmem := (inOrder_perm _).mem_iff.mp he
            exact entryText_reads (ih e hmem (hmembers e hmem))
          · exact fun e he => hmembers' e ((inOrder_perm _).mem_iff.mp he)
          · intro e
            exact ⟨unit '"', _, rfl, by decide⟩
    | _ => exact apart (fun h => by cases h)

theorem canonicalText_eq_iff (hx : Proper x) (hy : Proper y) : canonicalText x = canonicalText y ↔ Same x y := by
  have hend : Stops [] := by
    rintro _ ⟨⟩
  have h := canonicalText_reads hx y [] [] hy hend hend
  rwa [List.append_nil, List.append_nil, and_iff_left rfl] at h

end

/-- Two states have one text exactly when they are the same. -/
theorem digest_sees_the_state (x y : State) :
    stringify (canonicalise x.value) = stringify (canonicalise y.value) ↔
      ∀ path, observe path x.value = observe path y.value :=
  canonicalText_eq_iff x.proper y.proper

end RentalMarket.Audit
