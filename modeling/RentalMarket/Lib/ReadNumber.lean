import RentalMarket.Lib.NumberText
import RentalMarket.Lib.Percent

namespace RentalMarket.Script

def radixValue (radix : Nat) (digits : List Char) : Option ℚ :=
  if digits = [] then none
  else
    (digits.foldlM (fun (n : Nat) c => (Percent.hexValue c).bind fun d =>
      if d < radix then some (radix * n + d) else none) 0).map fun n => (n : ℚ)

def exponentPart : List Char → Option Int
  | [] => some 0
  | e :: rest =>
    if e = 'e' ∨ e = 'E' then
      let (negative, digits) := match rest with
        | '-' :: digits => (true, digits)
        | '+' :: digits => (false, digits)
        | digits => (false, digits)
      if digits ≠ [] ∧ digits.all Char.isDigit = true then
        some (if negative then -(digitsValue digits : Int) else digitsValue digits)
      else none
    else none

def unsignedDecimal (text : List Char) : Option ℚ :=
  let whole := text.takeWhile Char.isDigit
  let (fraction, rest) := match text.dropWhile Char.isDigit with
    | '.' :: rest => (rest.takeWhile Char.isDigit, rest.dropWhile Char.isDigit)
    | rest => ([], rest)
  if whole = [] ∧ fraction = [] then none
  else (exponentPart rest).map fun (exponent : Int) =>
    (digitsValue (whole ++ fraction) : ℚ) * 10 ^ (exponent - fraction.length)

/-- `Number(s)`, which is `none` for what is no finite number. A blank text is zero. -/
def readNumber (s : String) : Option ℚ :=
  match (trim s).toList with
  | [] => some 0
  | '0' :: 'x' :: digits | '0' :: 'X' :: digits => (radixValue 16 digits).map toDouble
  | '0' :: 'o' :: digits | '0' :: 'O' :: digits => (radixValue 8 digits).map toDouble
  | '0' :: 'b' :: digits | '0' :: 'B' :: digits => (radixValue 2 digits).map toDouble
  | '-' :: text => (unsignedDecimal text).map fun value => -toDouble value
  | '+' :: text => (unsignedDecimal text).map toDouble
  | text => (unsignedDecimal text).map toDouble

end RentalMarket.Script
