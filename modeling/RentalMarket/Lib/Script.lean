import Mathlib

namespace RentalMarket.Script

/-- The white space and the line terminators that `trim` removes. -/
def isSpace (c : Char) : Bool :=
  let n := c.toNat
  decide (9 ≤ n ∧ n ≤ 13 ∨ n = 0x20 ∨ n = 0xa0 ∨ n = 0x1680 ∨ 0x2000 ≤ n ∧ n ≤ 0x200a ∨ n = 0x2028 ∨
    n = 0x2029 ∨ n = 0x202f ∨ n = 0x205f ∨ n = 0x3000 ∨ n = 0xfeff)

def trim (s : String) : String :=
  String.ofList ((s.toList.dropWhile isSpace).reverse.dropWhile isSpace).reverse

/-- `length` counts UTF-16 code units. -/
def length (s : String) : Nat := (s.toList.map (fun c => if c.toNat < 0x10000 then 1 else 2)).sum

/-- The categories `Cc` and `Cf` of Unicode. -/
def isControlOrFormat (c : Char) : Bool :=
  let n := c.toNat
  decide (n ≤ 0x1f ∨ 0x7f ≤ n ∧ n ≤ 0x9f ∨ n = 0xad ∨ 0x600 ≤ n ∧ n ≤ 0x605 ∨ n = 0x61c ∨ n = 0x6dd ∨ n = 0x70f ∨
    0x890 ≤ n ∧ n ≤ 0x891 ∨ n = 0x8e2 ∨ n = 0x180e ∨ 0x200b ≤ n ∧ n ≤ 0x200f ∨ 0x202a ≤ n ∧ n ≤ 0x202e ∨
    0x2060 ≤ n ∧ n ≤ 0x2064 ∨ 0x2066 ≤ n ∧ n ≤ 0x206f ∨ n = 0xfeff ∨ 0xfff9 ≤ n ∧ n ≤ 0xfffb ∨ n = 0x110bd ∨
    n = 0x110cd ∨ 0x13430 ≤ n ∧ n ≤ 0x1343f ∨ 0x1bca0 ≤ n ∧ n ≤ 0x1bca3 ∨ 0x1d173 ≤ n ∧ n ≤ 0x1d17a ∨
    n = 0xe0001 ∨ 0xe0020 ≤ n ∧ n ≤ 0xe007f)

def maxSafeInteger : Nat := 2 ^ 53 - 1

def digitsValue (digits : List Char) : Nat := digits.foldl (fun n c => 10 * n + (c.toNat - '0'.toNat)) 0

/-- The sign and the digits before and after the point of a text that the
pattern `^-?\d+(?:\.\d+)?$` matches. -/
def decimalParts (s : String) : Option (Bool × List Char × List Char) :=
  let negative := decide (s.toList.head? = some '-')
  let body := if negative then s.toList.tail else s.toList
  let whole := body.takeWhile Char.isDigit
  if whole = [] then none
  else
    match body.dropWhile Char.isDigit with
    | [] => some (negative, whole, [])
    | point :: fraction =>
      if point = '.' ∧ fraction ≠ [] ∧ fraction.all Char.isDigit then some (negative, whole, fraction) else none

/-- Keys and values, in the order they were first given. -/
abbrev Record (V : Type*) := List (String × V)

namespace Record

variable {V : Type*}

/-- `record[key]` -/
def get (record : Record V) (key : String) : Option V := (record.find? (fun e => e.1 = key)).map (·.2)

/-- `record[key] = value` -/
def put (record : Record V) (key : String) (value : V) : Record V :=
  if record.any (fun e => e.1 = key) then record.map (fun e => if e.1 = key then (key, value) else e)
  else record ++ [(key, value)]

theorem put_of_not_mem {record : Record V} {key : String} (h : key ∉ record.map (·.1)) (value : V) :
    record.put key value = record ++ [(key, value)] := by
  refine if_neg (fun hany => h ?_)
  obtain ⟨e, he, hkey⟩ := List.any_eq_true.mp hany
  exact List.mem_map.mpr ⟨e, he, of_decide_eq_true hkey⟩

theorem mem_of_mem_put {record : Record V} {key : String} {value : V} {e : String × V}
    (h : e ∈ record.put key value) : e ∈ record ∨ e = (key, value) := by
  rw [put] at h
  split at h
  · obtain ⟨x, hx, rfl⟩ := List.mem_map.mp h
    split
    · exact .inr rfl
    · exact .inl hx
  · simpa using h

theorem mem_of_get {record : Record V} {key : String} {value : V} (h : record.get key = some value) :
    (key, value) ∈ record := by
  obtain ⟨⟨k, v⟩, he, rfl⟩ := Option.map_eq_some_iff.mp h
  have hkey : k = key := by simpa using List.find?_some he
  rw [← hkey]
  exact List.mem_of_find?_eq_some he

end Record

end RentalMarket.Script
