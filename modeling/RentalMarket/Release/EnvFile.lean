import RentalMarket.Release.Plan
import RentalMarket.Lib.Lines
import RentalMarket.Lib.Pieces
import RentalMarket.Lib.Replacement

namespace RentalMarket.Release

open Lines
open Pieces
open Replacement (substituted specials)

/-- What ends a line of a pattern. -/
def isTerminator (c : Char) : Bool := decide (c = '\n' ∨ c = '\r' ∨ c.toNat = 0x2028 ∨ c.toNat = 0x2029)

/-- `/^[A-Z][A-Z0-9_]*$/` -/
def isEnvName : List Char → Bool
  | [] => false
  | c :: rest => c.isUpper && rest.all (fun d => d.isUpper || d.isDigit || d = '_')

/-- `/[\r\n#]/` -/
def isUnwritable (value : List Char) : Bool := value.any (fun c => c = '\r' || c = '\n' || c = '#')

/-- The first match of `^KEY=.*$` with the flag `m`: what is before it, what stands after the
sign, and what is after it. A match may begin where `start` is set. -/
def findLine (key : List Char) : Bool → List Char → Option (List Char × List Char × List Char)
  | _, [] => none
  | start, c :: text =>
    if start && (key ++ ['=']).isPrefixOf (c :: text) then
      let rest := (c :: text).drop (key.length + 1)
      some ([], rest.takeWhile (fun d => !isTerminator d), rest.dropWhile (fun d => !isTerminator d))
    else (findLine key (isTerminator c) text).map (fun m => (c :: m.1, m.2))

def assignment (key value : List Char) : List Char := key ++ '=' :: value

def setEnvValue (contents key value : String) : Except String String :=
  if !isEnvName key.toList then .error ("\"" ++ key ++ "\" is not a valid environment variable name.")
  else if isUnwritable value.toList then .error "Refusing to write a value containing a newline or \"#\"."
  else
    let line := assignment key.toList value.toList
    match findLine key.toList true contents.toList with
    | some (before, old, after) =>
      .ok (String.ofList (before ++ substituted (assignment key.toList old) before after line ++ after))
    | none =>
      let separator := if contents.toList = [] ∨ contents.toList.getLast? = some '\n' then [] else ['\n']
      .ok (String.ofList (contents.toList ++ separator ++ line ++ ['\n']))

def recordTagInEnvFile (contents : String) (tag : Tag) : Except String String := setEnvValue contents "IMAGE_TAG" tag

example : setEnvValue "APP_ENV=staging" "IMAGE_TAG" "abc" = .ok "APP_ENV=staging\nIMAGE_TAG=abc\n" := by decide +kernel

/-- A carriage return at its end belongs to the end of a line. -/
def withoutReturn (line : List Char) : List Char := if line.getLast? = some '\r' then line.dropLast else line

def Assigns (key line : List Char) : Prop := key ++ ['='] <+: line

/-- What a line assigns to the key, as Compose reads it. -/
def assigned (key line : List Char) : Option (List Char) :=
  if (key ++ ['=']).isPrefixOf line then some (withoutReturn (line.drop (key.length + 1))) else none

/-- The last assignment counts. -/
def readEnv (key text : List Char) : Option (List Char) := ((lines '\n' text).filterMap (assigned key)).getLast?

/-- The value is recorded, and nothing else is touched: no other name, whatever is read as one, and no other line. -/
structure Records (contents key value updated : String) : Prop where
  recorded : readEnv key.toList updated.toList = some value.toList
  others : ∀ other, '=' ∉ other → other ≠ key.toList →
    readEnv other updated.toList = readEnv other contents.toList
  inPlace : ∀ (i : ℕ) (line : List Char), (lines '\n' contents.toList)[i]? = some line → ¬Assigns key.toList line →
    (lines '\n' updated.toList)[i]? = some line
  twice : setEnvValue updated key value = .ok updated

def onLine (after : List Char) : List Char := after.takeWhile (fun c => decide (c ≠ '\n'))

def below (after : List Char) : List Char := (after.dropWhile (fun c => decide (c ≠ '\n'))).drop 1

/-- Of a match this is what is before it, the value there, and what is after it. A later line counts where there
is one, so that the value has to stand there before, and what is put in must be put in again; else the match has
to be a line, and the value has to be put in as it is. -/
def RecordableAt (key value before old after : List Char) : Prop :=
  match readEnv key (below after) with
  | none => specials value = [] ∧ Ended '\n' before ∧ (onLine after = [] ∨ onLine after = ['\r'])
  | some last => last = value ∧ (∀ s ∈ specials value, s = '$' ∨ s = '`' ∧ before = []) ∧
      (Ended '\n' before ∨ substituted [] [] [] value = old)

instance decidableRecordableAt (key value before old after : List Char) :
    Decidable (RecordableAt key value before old after) :=
  match h : readEnv key (below after) with
  | none => decidable_of_iff (specials value = [] ∧ Ended '\n' before ∧ (onLine after = [] ∨ onLine after = ['\r']))
      (by rw [RecordableAt, h])
  | some last => decidable_of_iff (last = value ∧ (∀ s ∈ specials value, s = '$' ∨ s = '`' ∧ before = []) ∧
      (Ended '\n' before ∨ substituted [] [] [] value = old)) (by rw [RecordableAt, h])

def Recordable (contents key value : List Char) : Prop :=
  (∀ c ∈ value, isTerminator c = false) ∧
    match findLine key true contents with
    | none => specials value = []
    | some (before, old, after) => RecordableAt key value before old after

theorem unbroken_iff {value : List Char} :
    value.any isTerminator = false ↔ ∀ c ∈ value, isTerminator c = false := by
  simp [List.any_eq_false]

instance decidableRecordable (contents key value : List Char) : Decidable (Recordable contents key value) :=
  match h : findLine key true contents with
  | none => decidable_of_iff (value.any isTerminator = false ∧ specials value = []) (by rw [unbroken_iff, Recordable, h])
  | some (before, old, after) =>
    decidable_of_iff (value.any isTerminator = false ∧ RecordableAt key value before old after)
      (by rw [unbroken_iff, Recordable, h])

end RentalMarket.Release
