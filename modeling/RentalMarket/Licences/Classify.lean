import RentalMarket.Lib.Ascii
import RentalMarket.Core.Postcode

namespace RentalMarket.Licences

open Script (trim)
open Core.Postcode (upperCase)

/-- Every verdict but the first fails the build. -/
inductive Verdict where
  | allowed
  | review
  | denied
  | noGrant
  deriving DecidableEq, Repr

def severity : Verdict → ℕ
  | .allowed => 0
  | .review => 1
  | .denied => 2
  | .noGrant => 3

theorem severity_injective : Function.Injective severity := by
  intro a b h
  cases a <;> cases b <;> first | rfl | cases h

instance linearOrderVerdict : LinearOrder Verdict := LinearOrder.lift' severity severity_injective

theorem le_noGrant (verdict : Verdict) : verdict ≤ .noGrant := by
  cases verdict <;> decide

theorem allowed_le (verdict : Verdict) : .allowed ≤ verdict := Nat.zero_le _

def denied : List String :=
  ["GPL-1.0", "GPL-2.0", "GPL-3.0", "AGPL-1.0", "AGPL-3.0", "SSPL-1.0", "CC-BY-NC-4.0", "BUSL-1.1"]

def review : List String := ["LGPL-2.1", "LGPL-3.0", "MPL-2.0", "EPL-1.0", "EPL-2.0", "CDDL-1.0", "CDDL-1.1"]

def permissive : List String :=
  ["0BSD", "AFL-2.1", "Apache-1.1", "Apache-2.0", "Artistic-2.0", "BSD-2-Clause", "BSD-3-Clause", "BSD-Source-Code",
    "BlueOak-1.0.0", "CC-BY-3.0", "CC-BY-4.0", "CC0-1.0", "ISC", "MIT", "MIT-0", "MS-PL", "PostgreSQL", "Python-2.0",
    "Ruby", "UPL-1.0", "Unicode-DFS-2016", "Unlicense", "W3C", "WTFPL", "Zlib"]

/-- The flag `i`, of a pattern in which every letter is ASCII. -/
def folded (text : List Char) : List Char := text.map Char.toLower

def isWhole (pattern : String) (declaration : List Char) : Bool := decide (folded declaration = folded pattern.toList)

def startsWith (pattern : String) (declaration : List Char) : Bool :=
  (folded pattern.toList).isPrefixOf (folded declaration)

def endsWith (pattern : String) (declaration : List Char) : Bool :=
  (folded pattern.toList).isSuffixOf (folded declaration)

/-- `/^SEE LICEN[CS]E IN\b/i` -/
def pointsAtFile (declaration : List Char) : Bool :=
  (startsWith "SEE LICENCE IN" declaration || startsWith "SEE LICENSE IN" declaration) &&
    (declaration.drop 14).head?.all (fun c => !(c.isAlphanum || c = '_'))

structure NoGrantEntry where
  pattern : List Char → Bool
  why : String

def noGrant : List NoGrantEntry :=
  [⟨isWhole "UNLICENSED", "declares no licence grant at all"⟩,
    ⟨isWhole "UNKNOWN", "has no licence field"⟩,
    ⟨isWhole "NOASSERTION", "asserts no licence"⟩,
    ⟨isWhole "", "has an empty licence field"⟩,
    ⟨pointsAtFile, "points at a licence file nobody has read"⟩,
    ⟨startsWith "LicenseRef-", "carries a bespoke licence with no SPDX identifier"⟩]

/-- Why this declaration grants nothing, or `none` if it is an ordinary licence. -/
def noGrantReason (expression : String) : Option String :=
  (noGrant.find? (fun entry => entry.pattern (trim expression).toList)).map NoGrantEntry.why

/-- Families that always need a decision, whatever version appears. -/
def families : List (String × Verdict) :=
  [("AGPL-", .denied), ("SSPL-", .denied), ("BUSL-", .denied), ("CC-BY-NC", .denied), ("LGPL-", .review),
    ("GPL-", .denied), ("MPL-", .review), ("EPL-", .review), ("CDDL-", .review), ("EUPL-", .review), ("OSL-", .review),
    ("CPAL-", .review), ("RPL-", .review)]

def normaliseLicenceId (identifier : String) : String :=
  let trimmed := (trim identifier).toList
  let id := if trimmed.getLast? = some '+' then trimmed.dropLast else trimmed
  String.ofList
    (if endsWith "-only" id then id.take (id.length - 5)
    else if endsWith "-or-later" id then id.take (id.length - 9)
    else id)

structure Classification where
  verdict : Verdict
  id : String
  known : Bool
  deriving DecidableEq, Repr

def toUpperCase (text : String) : List Char := text.toList.flatMap upperCase

/-- An unrecognised identifier is permitted and reported. -/
def classifyIdentifier (identifier : String) : Classification :=
  let id := normaliseLicenceId identifier
  if noGrantReason id ≠ none then ⟨.noGrant, id, true⟩
  else if id ∈ denied then ⟨.denied, id, true⟩
  else if id ∈ review then ⟨.review, id, true⟩
  else if id ∈ permissive then ⟨.allowed, id, true⟩
  else
    match families.find? (fun entry => entry.1.toList.isPrefixOf (toUpperCase id)) with
    | some entry => ⟨entry.2, id, true⟩
    | none => ⟨.allowed, id, false⟩

example : classifyIdentifier "AGPL-3.0-or-later" = ⟨.denied, "AGPL-3.0", true⟩ := by decide +kernel

end RentalMarket.Licences
