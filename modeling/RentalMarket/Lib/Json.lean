import Mathlib.Data.Rat.Defs

namespace RentalMarket

/-- A value as `JSON.parse` gives it. What `JSON.stringify` writes of one, it reads
back as the same. -/
inductive Json where
  | null
  | bool (b : Bool)
  | number (n : ℚ)
  | string (s : String)
  | array (items : List Json)
  | object (members : List (String × Json))

namespace Json

/-- `value[name]`, where a later member of the name has replaced an earlier one. -/
def member (name : String) : Json → Option Json
  | object members => (members.reverse.find? (fun m => m.1 = name)).map (·.2)
  | _ => none

end Json

end RentalMarket
