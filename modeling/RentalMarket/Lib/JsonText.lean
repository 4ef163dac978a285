import Mathlib
import RentalMarket.Lib.NumberText

namespace RentalMarket.JsonText

open Script (Double numberText)

/-- A string, which need not be well-formed. -/
abbrev CodeUnits := List (Fin 65536)

instance neZero_codeUnits : NeZero 65536 := ⟨Nat.succ_ne_zero _⟩

def unit (c : Char) : Fin 65536 := Fin.ofNat 65536 c.toNat

def ascii (s : List Char) : CodeUnits := s.map unit

def isLeading (u : Fin 65536) : Bool := decide (0xd800 ≤ u ∧ u ≤ 0xdbff)

def isTrailing (u : Fin 65536) : Bool := decide (0xdc00 ≤ u ∧ u ≤ 0xdfff)

def hexDigit (n : Nat) : Fin 65536 := Fin.ofNat 65536 (if n < 10 then 48 + n else 87 + n)

def unicodeEscape (u : Fin 65536) : CodeUnits :=
  [unit '\\', unit 'u', hexDigit (u / 4096), hexDigit (u / 256 % 16), hexDigit (u / 16 % 16), hexDigit (u % 16)]

def escapeUnit (u : Fin 65536) : CodeUnits :=
  if u = 8 then [unit '\\', unit 'b']
  else if u = 9 then [unit '\\', unit 't']
  else if u = 10 then [unit '\\', unit 'n']
  else if u = 12 then [unit '\\', unit 'f']
  else if u = 13 then [unit '\\', unit 'r']
  else if u = unit '"' then [unit '\\', unit '"']
  else if u = unit '\\' then [unit '\\', unit '\\']
  else if u < 32 ∨ isLeading u ∨ isTrailing u then unicodeEscape u
  else [u]

/-- A surrogate is escaped unless it is one of a pair. -/
def escape : CodeUnits → CodeUnits
  | [] => []
  | [u] => escapeUnit u
  | u :: v :: s => if isLeading u ∧ isTrailing v then u :: v :: escape s else escapeUnit u ++ escape (v :: s)

def quote (s : CodeUnits) : CodeUnits := unit '"' :: (escape s ++ [unit '"'])

/-- A value of which every member is one too, or undefined. An object has its own
properties in the order in which they are enumerated. -/
inductive Value where
  | null
  | boolean (b : Bool)
  | number (x : Double)
  | text (s : CodeUnits)
  | array (items : List Value)
  | object (members : List (CodeUnits × Option Value))

/-- `parts.join(',')` -/
def joined : List CodeUnits → CodeUnits
  | [] => []
  | part :: parts => part ++ parts.flatMap (unit ',' :: ·)

mutual

/-- `JSON.stringify(value)` -/
def stringify : Value → CodeUnits
  | .null => ascii ['n', 'u', 'l', 'l']
  | .boolean true => ascii ['t', 'r', 'u', 'e']
  | .boolean false => ascii ['f', 'a', 'l', 's', 'e']
  | .number x => ascii (numberText x)
  | .text s => quote s
  | .array items => unit '[' :: (joined (stringifyItems items) ++ [unit ']'])
  | .object members => unit '{' :: (joined (stringifyMembers members) ++ [unit '}'])

def stringifyItems : List Value → List CodeUnits
  | [] => []
  | v :: items => stringify v :: stringifyItems items

def stringifyMembers : List (CodeUnits × Option Value) → List CodeUnits
  | [] => []
  | (_, none) :: members => stringifyMembers members
  | (key, some v) :: members => (quote key ++ unit ':' :: stringify v) :: stringifyMembers members

end

def defined (members : List (CodeUnits × Option Value)) : List (CodeUnits × Value) :=
  members.filterMap (fun e => e.2.map (fun v => (e.1, v)))

theorem stringifyItems_eq_map (items : List Value) : stringifyItems items = items.map stringify := by
  induction items with
  | nil => rfl
  | cons v items ih => rw [stringifyItems, ih, List.map_cons]

theorem stringifyMembers_eq_map (members : List (CodeUnits × Option Value)) : stringifyMembers members =
    (defined members).map (fun e => quote e.1 ++ unit ':' :: stringify e.2) := by
  induction members with
  | nil => rfl
  | cons e members ih =>
    obtain ⟨key, v⟩ := e
    cases v with
    | none =>
      rw [stringifyMembers, ih]
      rfl
    | some v =>
      rw [stringifyMembers, ih]
      rfl

theorem Value.induct {P : Value → Prop} (null : P .null) (boolean : ∀ b, P (.boolean b)) (number : ∀ x, P (.number x))
    (text : ∀ s, P (.text s)) (array : ∀ items, (∀ v ∈ items, P v) → P (.array items))
    (object : ∀ members, (∀ e ∈ defined members, P e.2) → P (.object members)) : ∀ v, P v
  | .null => null
  | .boolean b => boolean b
  | .number x => number x
  | .text s => text s
  | .array items => array items (items_induct items)
  | .object members => object members (members_induct members)
where
  items_induct : ∀ items : List Value, ∀ v ∈ items, P v
    | [] => fun _ hv => absurd hv List.not_mem_nil
    | v :: items => List.forall_mem_cons.mpr ⟨Value.induct null boolean number text array object v, items_induct items⟩
  members_induct : ∀ members : List (CodeUnits × Option Value), ∀ e ∈ defined members, P e.2
    | [] => fun _ he => absurd he List.not_mem_nil
    | (_, none) :: members => members_induct members
    | (_, some v) :: members => List.forall_mem_cons.mpr
        ⟨Value.induct null boolean number text array object v, members_induct members⟩

def hexValue (u : Fin 65536) : Nat := if u.val < 58 then u.val - 48 else u.val - 87

def unescapeLetter (u : Fin 65536) : Fin 65536 :=
  if u = unit 'b' then 8
  else if u = unit 't' then 9
  else if u = unit 'n' then 10
  else if u = unit 'f' then 12
  else if u = unit 'r' then 13
  else u

def readUnit : CodeUnits → Option (Fin 65536 × CodeUnits)
  | [] => none
  | u :: rest =>
    if u ≠ unit '\\' then some (u, rest)
    else
      match rest with
      | [] => none
      | e :: rest =>
        if e ≠ unit 'u' then some (unescapeLetter e, rest)
        else
          match rest with
          | a :: b :: c :: d :: rest =>
            some (Fin.ofNat 65536 (4096 * hexValue a + 256 * hexValue b + 16 * hexValue c + hexValue d), rest)
          | _ => none

structure Stands (t : CodeUnits) (u : Fin 65536) : Prop where
  read : ∀ rest, readUnit (t ++ rest) = some (u, rest)
  inside : ∀ rest, (t ++ rest).head? ≠ some (unit '"')

theorem hexValue_hexDigit {n : Nat} (hn : n < 16) : hexValue (hexDigit n) = n := by
  have h : ∀ n : Fin 16, hexValue (hexDigit n) = n := by decide
  exact h ⟨n, hn⟩

theorem stands_unicodeEscape (u : Fin 65536) : Stands (unicodeEscape u) u where
  read rest := by
    have hu := u.isLt
    change some (Fin.ofNat 65536 (4096 * hexValue (hexDigit (u / 4096)) + 256 * hexValue (hexDigit (u / 256 % 16)) +
      16 * hexValue (hexDigit (u / 16 % 16)) + hexValue (hexDigit (u % 16))), rest) = some (u, rest)
    rw [hexValue_hexDigit (by omega), hexValue_hexDigit (by omega), hexValue_hexDigit (by omega),
      hexValue_hexDigit (by omega)]
    congr 2
    apply Fin.ext
    rw [Fin.val_ofNat]
    omega
  inside _ h := absurd (Option.some.inj h) (by decide)

theorem stands_self {u : Fin 65536} (hquote : u ≠ unit '"') (hescape : u ≠ unit '\\') : Stands [u] u where
  read rest := by
    change (if u ≠ unit '\\' then some (u, rest) else _) = _
    exact if_pos hescape
  inside rest := fun h => hquote (Option.some.inj h)

theorem stands_letter {e : Fin 65536} (he : e ≠ unit 'u') : Stands [unit '\\', e] (unescapeLetter e) where
  read rest := by
    change (if e ≠ unit 'u' then some (unescapeLetter e, rest) else _) = _
    exact if_pos he
  inside _ h := absurd (Option.some.inj h) (by decide)

theorem stands_escapeUnit (u : Fin 65536) : Stands (escapeUnit u) u := by
  rw [escapeUnit]
  split_ifs with h₁ h₂ h₃ h₄ h₅ h₆ h₇
  · rw [h₁]
    exact stands_letter (e := unit 'b') (by decide)
  · rw [h₂]
    exact stands_letter (e := unit 't') (by decide)
  · rw [h₃]
    exact stands_letter (e := unit 'n') (by decide)
  · rw [h₄]
    exact stands_letter (e := unit 'f') (by decide)
  · rw [h₅]
    exact stands_letter (e := unit 'r') (by decide)
  · rw [h₆]
    exact stands_letter (e := unit '"') (by decide)
  · rw [h₇]
    exact stands_letter (e := unit '\\') (by decide)
  · exact stands_unicodeEscape u
  · exact stands_self h₆ h₇

inductive Written : CodeUnits → CodeUnits → Prop where
  | nil : Written [] []
  | cons {u : Fin 65536} {s t w : CodeUnits} (h : Stands t u) (hs : Written s w) : Written (u :: s) (t ++ w)

theorem stands_surrogate {u : Fin 65536} (h : isLeading u = true ∨ isTrailing u = true) : Stands [u] u := by
  have hle : 0xd800 ≤ u := by
    rcases h with h | h
    · exact (of_decide_eq_true h).1
    · exact le_trans (by decide) (of_decide_eq_true h).1
  have hne : ∀ v : Fin 65536, v < 0xd800 → u ≠ v := fun v hv heq => absurd hle (heq ▸ hv).not_ge
  exact stands_self (hne _ (by decide)) (hne _ (by decide))

theorem written_escape (s : CodeUnits) : Written s (escape s) := by
  induction s using escape.induct with
  | case1 => exact .nil
  | case2 u =>
    have h := Written.cons (stands_escapeUnit u) .nil
    rwa [List.append_nil] at h
  | case3 u v s hpair ih =>
    rw [escape, if_pos hpair]
    exact .cons (stands_surrogate (.inl hpair.1)) (.cons (stands_surrogate (.inr hpair.2)) ih)
  | case4 u v s hpair ih =>
    rw [escape, if_neg hpair]
    exact .cons (stands_escapeUnit u) ih

theorem Written.unique {s s' w w' rest rest' : CodeUnits} (h : Written s w) (h' : Written s' w')
    (heq : w ++ unit '"' :: rest = w' ++ unit '"' :: rest') : s = s' ∧ rest = rest' := by
  induction h generalizing s' w' with
  | nil =>
    cases h' with
    | nil => exact ⟨rfl, (List.cons.inj heq).2⟩
    | cons hu _ =>
      rw [List.append_assoc] at heq
      exact absurd (congrArg List.head? heq).symm (hu.inside _)
  | cons hu hs ih =>
    cases h' with
    | nil =>
      rw [List.append_assoc] at heq
      exact absurd (congrArg List.head? heq) (hu.inside _)
    | cons hu' hs' =>
      rw [List.append_assoc, List.append_assoc] at heq
      have hread := congrArg readUnit heq
      rw [hu.read, hu'.read] at hread
      obtain ⟨rfl, htail⟩ := Prod.mk.inj (Option.some.inj hread)
      obtain ⟨rfl, rfl⟩ := ih hs' htail
      exact ⟨rfl, rfl⟩

theorem quote_append_inj {s s' rest rest' : CodeUnits} :
    quote s ++ rest = quote s' ++ rest' ↔ s = s' ∧ rest = rest' := by
  constructor
  · intro h
    rw [quote, quote, List.cons_append, List.cons_append, List.append_assoc, List.append_assoc] at h
    exact (written_escape s).unique (written_escape s') (List.cons.inj h).2
  · rintro ⟨rfl, rfl⟩
    rfl

section

variable {α : Type*} {u v rest rest' : List α}

theorem run_append_inj {p : α → Prop} (hu : ∀ a ∈ u, p a) (hv : ∀ a ∈ v, p a) (hrest : ∀ a ∈ rest.head?, ¬p a)
    (hrest' : ∀ a ∈ rest'.head?, ¬p a) (h : u ++ rest = v ++ rest') : u = v ∧ rest = rest' := by
  induction u generalizing v with
  | nil =>
    cases v with
    | nil => exact ⟨rfl, h⟩
    | cons b v =>
      refine absurd (hv b List.mem_cons_self) (hrest b ?_)
      rw [show rest = b :: (v ++ rest') from h]
      rfl
  | cons a u ih =>
    cases v with
    | nil =>
      refine absurd (hu a List.mem_cons_self) (hrest' a ?_)
      rw [show rest' = a :: (u ++ rest) from h.symm]
      rfl
    | cons b v =>
      obtain ⟨rfl, htail⟩ := List.cons.inj h
      obtain ⟨rfl, rfl⟩ := ih (fun a ha => hu a (List.mem_cons_of_mem _ ha))
        (fun a ha => hv a (List.mem_cons_of_mem _ ha)) htail
      exact ⟨rfl, rfl⟩

end

theorem unit_injective {c d : Char} (hc : c.toNat < 65536) (hd : d.toNat < 65536) (h : unit c = unit d) : c = d := by
  have hval := congrArg Fin.val h
  rw [unit, unit, Fin.val_ofNat, Fin.val_ofNat, Nat.mod_eq_of_lt hc, Nat.mod_eq_of_lt hd] at hval
  exact Char.toNat_inj.mp hval

def Stops (rest : CodeUnits) : Prop := ∀ u ∈ rest.head?, u = unit ',' ∨ u = unit ']' ∨ u = unit '}'

theorem toNat_of_isMark {c : Char} (h : Script.Decimal.IsMark c) : c.toNat < 65536 := by
  rcases h with hdigit | rfl | rfl | rfl | rfl
  · have := (Char.isDigit_iff_toNat.mp hdigit).2
    have h₉ : '9'.toNat = 57 := rfl
    omega
  all_goals decide

instance (c : Char) : Decidable (Script.Decimal.IsMark c) :=
  inferInstanceAs (Decidable (_ ∨ _ ∨ _ ∨ _ ∨ _))

theorem ascii_injective {s t : List Char} (hs : ∀ c ∈ s, Script.Decimal.IsMark c)
    (ht : ∀ c ∈ t, Script.Decimal.IsMark c) (h : ascii s = ascii t) : s = t := by
  induction s generalizing t with
  | nil => exact (List.map_eq_nil_iff.mp h.symm).symm
  | cons c s ih =>
    cases t with
    | nil => cases h
    | cons d t =>
      obtain ⟨hhead, htail⟩ := List.cons.inj h
      rw [unit_injective (toNat_of_isMark (hs c List.mem_cons_self)) (toNat_of_isMark (ht d List.mem_cons_self)) hhead,
        ih (fun c hc => hs c (List.mem_cons_of_mem _ hc)) (fun c hc => ht c (List.mem_cons_of_mem _ hc)) htail]

theorem number_append_inj {x y : Double} {rest rest' : CodeUnits} (hrest : Stops rest) (hrest' : Stops rest') :
    ascii (numberText x) ++ rest = ascii (numberText y) ++ rest' ↔ x.value = y.value ∧ rest = rest' := by
  have hmarks : ∀ x, ∀ u ∈ ascii (numberText x), ∃ c, Script.Decimal.IsMark c ∧ unit c = u := by
    intro x u hu
    obtain ⟨c, hc, rfl⟩ := List.mem_map.mp hu
    exact ⟨c, Script.isMark_of_mem_numberText x c hc, rfl⟩
  have hstops : ∀ rest, Stops rest → ∀ u ∈ rest.head?, ¬∃ c, Script.Decimal.IsMark c ∧ unit c = u := by
    rintro rest hrest _ hu ⟨c, hc, rfl⟩
    rcases hrest _ hu with h | h | h <;> rw [unit_injective (toNat_of_isMark hc) (by decide) h] at hc <;>
      revert hc <;> decide
  rw [← Script.numberText_eq_iff]
  constructor
  · intro h
    obtain ⟨htext, hrests⟩ := run_append_inj (hmarks x) (hmarks y) (hstops _ hrest) (hstops _ hrest') h
    exact ⟨ascii_injective (Script.isMark_of_mem_numberText x) (Script.isMark_of_mem_numberText y) htext, hrests⟩
  · rintro ⟨htext, rfl⟩
    rw [htext]

section

variable {α : Type*} (f : α → CodeUnits) (Q : α → Prop) (R : α → α → Prop)

/-- A text that, with what comes after it, is told from the others by what it says. -/
def Reads (a : α) : Prop := ∀ (b : α) (rest rest' : CodeUnits), Q b → Stops rest → Stops rest' →
  (f a ++ rest = f b ++ rest' ↔ R a b ∧ rest = rest')

variable {f Q R} {close : Fin 65536} {as bs : List α} {rest rest' : CodeUnits}

theorem stops_commas (hclose : close = unit ']' ∨ close = unit '}') (bs : List α) (rest : CodeUnits) :
    Stops ((bs.map f).flatMap (unit ',' :: ·) ++ close :: rest) := by
  intro u hu
  cases bs with
  | nil =>
    cases hu
    exact .inr hclose
  | cons b bs =>
    cases hu
    exact .inl rfl

theorem commas_append_inj (hclose : close = unit ']' ∨ close = unit '}') (h : ∀ a ∈ as, Reads f Q R a)
    (hbs : ∀ b ∈ bs, Q b) :
    (as.map f).flatMap (unit ',' :: ·) ++ close :: rest = (bs.map f).flatMap (unit ',' :: ·) ++ close :: rest' ↔
      List.Forall₂ R as bs ∧ rest = rest' := by
  have hne : close ≠ unit ',' := by
    rcases hclose with rfl | rfl <;> decide
  induction as generalizing bs with
  | nil =>
    cases bs with
    | nil => simp
    | cons b bs =>
      refine iff_of_false (fun h => hne (List.cons.inj h).1) (fun h => ?_)
      cases h.1
  | cons a as ih =>
    cases bs with
    | nil =>
      refine iff_of_false (fun h => hne (List.cons.inj h).1.symm) (fun h => ?_)
      cases h.1
    | cons b bs =>
      have hread := h a List.mem_cons_self b _ _ (hbs b List.mem_cons_self)
        (stops_commas (f := f) hclose as rest) (stops_commas (f := f) hclose bs rest')
      have htail := @ih bs (fun a ha => h a (List.mem_cons_of_mem _ ha)) (fun b hb => hbs b (List.mem_cons_of_mem _ hb))
      rw [List.forall₂_cons, and_assoc]
      refine Iff.trans ?_ (hread.trans (and_congr_right (fun _ => htail)))
      simp only [List.map_cons, List.flatMap_cons, List.cons_append, List.append_assoc, List.cons.injEq, true_and]

/-- So are the texts of some values, with commas between them. -/
theorem joined_append_inj (hclose : close = unit ']' ∨ close = unit '}') (h : ∀ a ∈ as, Reads f Q R a)
    (hbs : ∀ b ∈ bs, Q b) (hopen : ∀ a, ∃ u t, f a = u :: t ∧ u ≠ close) :
    joined (as.map f) ++ close :: rest = joined (bs.map f) ++ close :: rest' ↔
      List.Forall₂ R as bs ∧ rest = rest' := by
  have hne : ∀ a t t', close :: t ≠ f a ++ t' := by
    intro a t t' heq
    obtain ⟨u, t'', ha, hu⟩ := hopen a
    rw [ha] at heq
    exact hu (List.cons.inj heq).1.symm
  cases as with
  | nil =>
    cases bs with
    | nil => simp
    | cons b bs =>
      refine iff_of_false (fun heq => hne b _ _ (heq.trans (List.append_assoc _ _ _))) (fun h => ?_)
      cases h.1
  | cons a as =>
    cases bs with
    | nil =>
      refine iff_of_false (fun heq => hne a _ _ (heq.symm.trans (List.append_assoc _ _ _))) (fun h => ?_)
      cases h.1
    | cons b bs =>
      have hread := h a List.mem_cons_self b _ _ (hbs b List.mem_cons_self)
        (stops_commas (f := f) hclose as rest) (stops_commas (f := f) hclose bs rest')
      have htail : _ ↔ List.Forall₂ R as bs ∧ rest = rest' :=
        commas_append_inj hclose (fun a ha => h a (List.mem_cons_of_mem _ ha))
          (fun b hb => hbs b (List.mem_cons_of_mem _ hb))
      rw [List.forall₂_cons, and_assoc, List.map_cons, List.map_cons, joined, joined, List.append_assoc,
        List.append_assoc]
      exact hread.trans (and_congr_right (fun _ => htail))

end

def utf16Char (c : Char) : CodeUnits :=
  if c.toNat < 65536 then [Fin.ofNat 65536 c.toNat]
  else [Fin.ofNat 65536 (0xd800 + (c.toNat - 65536) / 1024), Fin.ofNat 65536 (0xdc00 + (c.toNat - 65536) % 1024)]

def utf16 (s : String) : CodeUnits := s.toList.flatMap utf16Char

theorem toNat_not_surrogate (c : Char) : (c.toNat < 0xd800 ∨ 0xdfff < c.toNat) ∧ c.toNat < 0x110000 := by
  rcases c.valid with h | ⟨h, h'⟩
  · exact ⟨.inl h, lt_trans h (by decide)⟩
  · exact ⟨.inr h, h'⟩

theorem utf16Char_append_inj {c d : Char} {rest rest' : CodeUnits} (h : utf16Char c ++ rest = utf16Char d ++ rest') :
    c = d ∧ rest = rest' := by
  have hc := toNat_not_surrogate c
  have hd := toNat_not_surrogate d
  rw [utf16Char, utf16Char] at h
  split at h <;> split at h
  case isTrue.isTrue hc' hd' =>
    obtain ⟨hunit, hrest⟩ := List.cons.inj h
    exact ⟨unit_injective hc' hd' hunit, hrest⟩
  case isTrue.isFalse hc' hd' =>
    have hunit := congrArg Fin.val (List.cons.inj h).1
    rw [Fin.val_ofNat, Fin.val_ofNat] at hunit
    omega
  case isFalse.isTrue hc' hd' =>
    have hunit := congrArg Fin.val (List.cons.inj h).1
    rw [Fin.val_ofNat, Fin.val_ofNat] at hunit
    omega
  case isFalse.isFalse hc' hd' =>
    obtain ⟨hleading, htail⟩ := List.cons.inj h
    obtain ⟨htrailing, hrest⟩ := List.cons.inj htail
    have hunit := congrArg Fin.val hleading
    have hunit' := congrArg Fin.val htrailing
    rw [Fin.val_ofNat, Fin.val_ofNat] at hunit hunit'
    exact ⟨Char.toNat_inj.mp (by omega), hrest⟩

theorem utf16_injective : Function.Injective utf16 := by
  intro s t h
  apply String.toList_inj.mp
  rw [utf16, utf16] at h
  generalize s.toList = cs at h
  generalize t.toList = ds at h
  induction cs generalizing ds with
  | nil =>
    cases ds with
    | nil => rfl
    | cons d ds =>
      rw [List.flatMap_nil, List.flatMap_cons, utf16Char] at h
      split at h <;> cases h
  | cons c cs ih =>
    cases ds with
    | nil =>
      rw [List.flatMap_nil, List.flatMap_cons, utf16Char] at h
      split at h <;> cases h
    | cons d ds =>
      obtain ⟨rfl, htail⟩ := utf16Char_append_inj h
      rw [ih ds htail]

end RentalMarket.JsonText
