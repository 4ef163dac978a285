import RentalMarket.Lib.Percent
import RentalMarket.Lib.Pieces

namespace RentalMarket.Config

open Percent (encodeURIComponent)
open Pieces

inductive PostgresSslMode where
  | disable
  | noVerify
  | verifyFull
  deriving DecidableEq

namespace PostgresSslMode

def text : PostgresSslMode → String
  | disable => "disable"
  | noVerify => "no-verify"
  | verifyFull => "verify-full"

end PostgresSslMode

structure PostgresParts where
  host : String
  port : Nat
  user : String
  password : String
  database : String
  sslMode : Option PostgresSslMode

def buildPostgresUrl (parts : PostgresParts) : String :=
  let user := encodeURIComponent parts.user
  let password := encodeURIComponent parts.password
  let database := encodeURIComponent parts.database
  let url := "postgresql://" ++ user ++ ":" ++ password ++ "@" ++ parts.host ++ ":" ++ parts.port.repr ++ "/" ++ database
  match parts.sslMode with
  | none => url
  | some sslMode => url ++ "?sslmode=" ++ sslMode.text

/-- `[a-z+]` -/
def isPlainSchemeChar (c : Char) : Bool := c.isAlpha || c = '+'

/-- `[^:/@]` -/
def isPlainUserChar (c : Char) : Bool := !(c = ':' || c = '/' || c = '@')

/-- `url.replace(/^([a-z+]+:\/\/[^:/@]*):[^@]*@/i, '$1:***@')`: no part of it can take a
character that the next one needs. -/
def redactUrl (url : String) : String :=
  let text := url.toList
  let scheme := text.takeWhile isPlainSchemeChar
  let slashes := (text.drop scheme.length).take 3
  let user := (text.drop (scheme.length + 3)).takeWhile isPlainUserChar
  let colon := text.drop (scheme.length + 3 + user.length)
  let password := (colon.drop 1).takeWhile (fun c => !(c = '@'))
  let sign := colon.drop (1 + password.length)
  if scheme ≠ [] && slashes = "://".toList && colon.head? = some ':' && sign.head? = some '@' then
    String.ofList (scheme ++ slashes ++ user ++ ":***@".toList ++ sign.drop 1)
  else url

example : redactUrl "postgresql://rental:p%40ss%3A@db:5432/x" = "postgresql://rental:***@db:5432/x" := by decide +kernel

variable {scheme user password : List Char}

theorem redactUrl_of_plain (hne : scheme ≠ []) (hscheme : ∀ c ∈ scheme, isPlainSchemeChar c = true)
    (huser : ∀ c ∈ user, isPlainUserChar c = true) (hpassword : '@' ∉ password) (rest : List Char) :
    redactUrl (String.ofList (scheme ++ ':' :: '/' :: '/' :: (user ++ ':' :: (password ++ '@' :: rest)))) =
      String.ofList (scheme ++ ':' :: '/' :: '/' :: (user ++ ":***@".toList ++ rest)) := by
  unfold redactUrl
  extract_lets text scheme' slashes user' colon password' sign
  have htext : text = scheme ++ ':' :: '/' :: '/' :: (user ++ ':' :: (password ++ '@' :: rest)) := by
    simp only [text, String.toList_ofList]
  have hscheme' : scheme' = scheme := by
    simp only [scheme', htext]
    exact takeWhile_stop hscheme (by decide) _
  have hafterScheme : text.drop scheme.length = ':' :: '/' :: '/' :: (user ++ ':' :: (password ++ '@' :: rest)) := by
    rw [htext, List.drop_left]
  have hslashes : slashes = "://".toList := by
    simp only [slashes, hscheme', hafterScheme]
    rfl
  have hafterSlashes : text.drop (scheme.length + 3) = user ++ ':' :: (password ++ '@' :: rest) := by
    rw [← List.drop_drop, hafterScheme]
    rfl
  have huser' : user' = user := by
    simp only [user', hscheme', hafterSlashes]
    exact takeWhile_stop huser (by decide) _
  have hcolon : colon = ':' :: (password ++ '@' :: rest) := by
    simp only [colon, hscheme', huser']
    rw [← List.drop_drop, hafterSlashes, List.drop_left]
  have hpassword' : password' = password := by
    simp only [password', hcolon]
    refine takeWhile_stop ?_ (by decide) _
    intro c hc
    have hsign : c ≠ '@' := fun heq => hpassword (heq ▸ hc)
    simpa using hsign
  have hsign : sign = '@' :: rest := by
    simp only [sign, hcolon, hpassword']
    rw [← List.drop_drop]
    exact List.drop_left
  rw [if_pos]
  · simp [hscheme', hslashes, huser', hsign]
  · simp [hscheme', hslashes, hcolon, hsign, hne]

theorem redactUrl_of_not_plain {c : Char} (hc : c ∈ scheme) (hplain : isPlainSchemeChar c = false)
    (hcolon : ':' ∉ scheme) (rest : List Char) :
    redactUrl (String.ofList (scheme ++ rest)) = String.ofList (scheme ++ rest) := by
  obtain ⟨front, d, after, rfl, hfront, hd⟩ := exists_first_not hc hplain
  unfold redactUrl
  extract_lets text scheme' slashes user' colon password' sign
  have htext : text = front ++ d :: (after ++ rest) := by
    simp [text]
  have hscheme' : scheme' = front := by
    simp only [scheme', htext]
    exact takeWhile_stop hfront hd _
  have hslashes : slashes ≠ "://".toList := by
    simp only [slashes, hscheme', htext, List.drop_left]
    intro heq
    have hfirst : d = ':' := (List.cons.inj heq).1
    exact hcolon (by simp [hfirst])
  rw [if_neg]
  intro hmatch
  simp only [Bool.and_eq_true, decide_eq_true_eq] at hmatch
  exact hslashes hmatch.1.1.2

end RentalMarket.Config
