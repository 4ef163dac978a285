import RentalMarket.Lib.Script

namespace RentalMarket.Identity.SignIns

structure ParsedUserAgent where
  browserName : Option String
  browserVersion : Option String
  deviceType : Option String
  isMobile : Option Bool
  deriving DecidableEq, Repr

def unknownUserAgent : ParsedUserAgent := ⟨none, none, none, none⟩

/-- How a browser is known: one of its words with digits behind, which are the
version, and for Safari another word further on in the line. -/
structure BrowserToken where
  name : String
  words : List String
  further : Option String

/-- Most specific first: Edge says that it is Chrome, and Chrome that it is Safari. -/
def browsers : List BrowserToken :=
  [⟨"Edge", ["Edge/", "EdgA/", "EdgiOS/", "Edg/"], none⟩,
    ⟨"Opera", ["OPR/"], none⟩,
    ⟨"Samsung Internet", ["SamsungBrowser/"], none⟩,
    ⟨"Firefox", ["Firefox/", "FxiOS/"], none⟩,
    ⟨"Chrome", ["Chrome/", "CriOS/"], none⟩,
    ⟨"Safari", ["Version/"], some "Safari/"⟩]

def platforms : List (String × List String) :=
  [("Android", ["Android"]), ("iPhone", ["iPhone"]), ("iPad", ["iPad"]), ("Windows", ["Windows NT"]),
    ("macOS", ["Macintosh", "Mac OS X"]), ("Linux", ["Linux"])]

def mobileWords : List String := ["Mobile", "iPhone", "Android", "iPad", "Tablet"]

def isLineTerminator (c : Char) : Bool := decide (c.toNat ∈ [0x0A, 0x0D, 0x2028, 0x2029])

def mentions (text : List Char) (word : String) : Bool := text.tails.any (fun rest => word.toList.isPrefixOf rest)

def BrowserToken.matchesAt (t : BrowserToken) (rest : List Char) : Option (List Char) :=
  t.words.findSome? (fun word =>
    if word.toList.isPrefixOf rest then
      let behind := rest.drop word.toList.length
      let digits := behind.takeWhile Char.isDigit
      let line := (behind.drop digits.length).takeWhile (fun c => !isLineTerminator c)
      if digits ≠ [] ∧ t.further.all (mentions line) = true then some digits else none
    else none)

/-- `token.exec(text)`: the first place where the token is. -/
def BrowserToken.exec (t : BrowserToken) (text : List Char) : Option (List Char) :=
  text.tails.findSome? t.matchesAt

def parseUserAgent (userAgent : Option String) : ParsedUserAgent :=
  match userAgent with
  | none => unknownUserAgent
  | some raw =>
    if Script.trim raw = "" then unknownUserAgent
    else
      let text := raw.toList
      let browser := browsers.findSome? (fun t => (t.exec text).map (fun digits => (t.name, String.ofList digits)))
      let deviceType := (platforms.find? (fun p => p.2.any (mentions text))).map (·.1)
      ⟨browser.map (·.1), browser.map (·.2), deviceType, deviceType.map (fun _ => mobileWords.any (mentions text))⟩

/-- What may be kept of a user agent: which browser and its major version, and
which platform. -/
structure ParsedUserAgent.Minimal (p : ParsedUserAgent) : Prop where
  browser : ∀ name ∈ p.browserName, name ∈ browsers.map (·.name)
  version : ∀ version ∈ p.browserVersion, ∀ c ∈ version.toList, c.isDigit = true
  device : ∀ device ∈ p.deviceType, device ∈ platforms.map (·.1)

theorem unknownUserAgent_minimal : unknownUserAgent.Minimal := ⟨nofun, nofun, nofun⟩

theorem BrowserToken.matchesAt_digits {t : BrowserToken} {rest digits : List Char}
    (h : t.matchesAt rest = some digits) : ∀ c ∈ digits, c.isDigit = true := by
  obtain ⟨word, -, hword⟩ := List.exists_of_findSome?_eq_some h
  dsimp only at hword
  split at hword
  · split at hword
    · cases hword
      intro c hc
      exact List.mem_takeWhile_imp hc
    · cases hword
  · cases hword

theorem BrowserToken.exec_digits {t : BrowserToken} {text digits : List Char} (h : t.exec text = some digits) :
    ∀ c ∈ digits, c.isDigit = true := by
  obtain ⟨rest, -, hrest⟩ := List.exists_of_findSome?_eq_some h
  exact matchesAt_digits hrest

theorem parseUserAgent_minimal (userAgent : Option String) : (parseUserAgent userAgent).Minimal := by
  cases userAgent with
  | none => exact unknownUserAgent_minimal
  | some raw =>
    rw [parseUserAgent]
    split
    · exact unknownUserAgent_minimal
    · constructor
      · intro name hname
        obtain ⟨found, hfound, rfl⟩ := Option.map_eq_some_iff.mp hname
        obtain ⟨t, ht, hexec⟩ := List.exists_of_findSome?_eq_some hfound
        obtain ⟨digits, -, rfl⟩ := Option.map_eq_some_iff.mp hexec
        exact List.mem_map.mpr ⟨t, ht, rfl⟩
      · intro version hversion
        obtain ⟨found, hfound, rfl⟩ := Option.map_eq_some_iff.mp hversion
        obtain ⟨t, -, hexec⟩ := List.exists_of_findSome?_eq_some hfound
        obtain ⟨digits, hdigits, rfl⟩ := Option.map_eq_some_iff.mp hexec
        rw [String.toList_ofList]
        exact t.exec_digits hdigits
      · intro device hdevice
        obtain ⟨p, hp, rfl⟩ := Option.map_eq_some_iff.mp hdevice
        exact List.mem_map.mpr ⟨p, List.mem_of_find?_eq_some hp, rfl⟩

end RentalMarket.Identity.SignIns
