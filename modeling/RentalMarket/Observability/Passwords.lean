import RentalMarket.Config.Urls
import RentalMarket.Observability.Settled

namespace RentalMarket.Observability

open Config (PostgresParts buildPostgresUrl isPlainSchemeChar isPlainUserChar redactUrl redactUrl_of_plain
  redactUrl_of_not_plain)
open Percent (encodeURIComponent encode_ne_nil isUnreserved mem_encode)

structure CredentialUrl where
  scheme : String
  user : String
  host : String
  letter : scheme.toList.head?.any Char.isAlpha = true
  schemeChars : ∀ c ∈ scheme.toList, isSchemeChar c = true
  userChars : ∀ c ∈ user.toList, isUserChar c = true

namespace CredentialUrl

def front (u : CredentialUrl) : String := u.scheme ++ "://" ++ u.user ++ ":"

def text (u : CredentialUrl) (password : String) : String := u.front ++ password ++ "@" ++ u.host

end CredentialUrl

/-- Of no two passwords in the URL, a text around it and the URL alone are written differently. -/
def Hides (u : CredentialUrl) (before after : String) : Prop :=
  ∀ password password' : String, IsSecret password.toList → IsSecret password'.toList →
    redactString (before ++ u.text password ++ after) = redactString (before ++ u.text password' ++ after) ∧
      redactUrl (u.text password) = redactUrl (u.text password')

def Recognised (u : CredentialUrl) (before : String) : Prop :=
  (∀ c ∈ u.scheme.toList, isPlainSchemeChar c = true) ∧ Covered none (before ++ u.front).toList

variable {text : List Char}

theorem redactString_ofList (text : List Char) : redactString (String.ofList text) =
    String.ofList (replaceAll bearerPattern none 0 (replaceAll urlCredentialPattern none 0 text)) := by
  rw [redactString, String.toList_ofList]

theorem redactString_covered {password password' : List Char} (h : Covered none text) (hsecret : IsSecret password)
    (hsecret' : IsSecret password') (post : List Char) :
    redactString (String.ofList (text ++ password ++ '@' :: post)) =
      redactString (String.ofList (text ++ password' ++ '@' :: post)) := by
  obtain ⟨written, hwritten⟩ := h.scans
  have hpost := scans_replaceAll bounded_urlCredentialPattern (some '@') post
  rw [redactString_ofList, redactString_ofList, ← (hwritten _ _ _ hsecret hpost).eq_replaceAll,
    ← (hwritten _ _ _ hsecret' hpost).eq_replaceAll]

theorem isSecret_singleton {d : Char} (hat : d ≠ '@') (hspace : Script.isSpace d = false) : IsSecret [d] := by
  refine ⟨List.cons_ne_nil d [], ?_⟩
  intro c hc
  rw [List.mem_singleton.mp hc]
  exact ⟨hat, hspace⟩

theorem redactString_not_covered (h : ¬Covered none text) (hcolon : text.getLast? = some ':') (post : List Char) :
    redactString (String.ofList (text ++ '0' :: '@' :: post)) ≠ redactString (String.ofList (text ++ '1' :: '@' :: post)) := by
  obtain ⟨written, hlast, hwritten⟩ := scans_of_not_covered h
  have hpost := scans_replaceAll bounded_urlCredentialPattern (some '@') post
  have hscan := scans_replaceAll bounded_bearerPattern none written
  have hends : ∀ c ∈ written.getLast?, c = ':' := by
    rw [hlast, hcolon]
    rintro c ⟨⟩
    rfl
  have hdigit : ∀ d, d.toLower ≠ 'b' → IsSecret [d] → ∃ rest, redactString (String.ofList (text ++ d :: '@' :: post)) =
      String.ofList (replaceAll bearerPattern none 0 written ++ d :: rest) := by
    intro d hd hsecret
    have htail : Scans bearerPattern (written.getLast?.or none)
        (d :: '@' :: replaceAll urlCredentialPattern (some '@') 0 post) _ :=
      .kept (bearerPattern_eq_none.mpr (not_begins (.inr hd))) (scans_replaceAll bounded_bearerPattern _ _)
    rw [redactString_ofList, ← (hwritten d _ _ hsecret hpost).eq_replaceAll, ← (hscan.append hends htail).eq_replaceAll]
    exact ⟨_, rfl⟩
  obtain ⟨rest, hzero⟩ := hdigit '0' (by decide) (isSecret_singleton (by decide) (by decide))
  obtain ⟨rest', hone⟩ := hdigit '1' (by decide) (isSecret_singleton (by decide) (by decide))
  rw [hzero, hone]
  intro heq
  have hlists := List.append_cancel_left (String.ofList_injective heq)
  exact absurd (List.cons.inj hlists).1 (by decide)

namespace CredentialUrl

variable {u : CredentialUrl}

theorem surrounded (before after password : String) : before ++ u.text password ++ after =
    String.ofList ((before ++ u.front).toList ++ password.toList ++ '@' :: (u.host ++ after).toList) := by
  refine String.toList_injective ?_
  simp [CredentialUrl.text]

theorem text_eq (password : String) : u.text password = String.ofList (u.scheme.toList ++ ':' :: '/' :: '/' ::
    (u.user.toList ++ ':' :: (password.toList ++ '@' :: u.host.toList))) := by
  refine String.toList_injective ?_
  simp [CredentialUrl.text, CredentialUrl.front]

theorem front_eq : u.front.toList = opening u.scheme.toList u.user.toList := by
  simp [CredentialUrl.front, opening]

theorem getLast?_front (before : String) : (before ++ u.front).toList.getLast? = some ':' := by
  have hlast : (before ++ u.front).toList = (before ++ u.scheme ++ "://" ++ u.user).toList ++ [':'] := by
    simp [CredentialUrl.front]
  rw [hlast, List.getLast?_concat]

theorem scheme_ne_nil : u.scheme.toList ≠ [] := by
  intro hnil
  have hletter := u.letter
  rw [hnil] at hletter
  cases hletter

theorem isPlainUserChar_of_mem {c : Char} (hc : c ∈ u.user.toList) : isPlainUserChar c = true := by
  have hchar := u.userChars c hc
  simp only [isUserChar, Bool.not_eq_true', Bool.or_eq_false_iff] at hchar
  simp [isPlainUserChar, hchar.1.1.1, hchar.1.1.2, hchar.2]

theorem colon_not_mem_scheme : ':' ∉ u.scheme.toList := fun hm => absurd (u.schemeChars _ hm) (by decide)

theorem covered_front {before : String} (hbefore : before.toList.getLast?.any isWord = false) (huser : u.user ≠ "") :
    Covered none (before ++ u.front).toList := by
  refine ⟨before.toList, u.front.toList, [], by simp, ?_, List.forall_mem_nil _⟩
  refine ⟨u.scheme.toList, u.user.toList, front_eq, ?_, u.letter, u.schemeChars, by simpa using huser, u.userChars⟩
  rwa [Option.or_none]

theorem redactUrl_text (hplain : ∀ c ∈ u.scheme.toList, isPlainSchemeChar c = true) {password : String}
    (hpassword : '@' ∉ password.toList) : redactUrl (u.text password) = String.ofList (u.scheme.toList ++
      ':' :: '/' :: '/' :: (u.user.toList ++ ":***@".toList ++ u.host.toList)) := by
  rw [text_eq]
  exact redactUrl_of_plain scheme_ne_nil hplain (fun c => isPlainUserChar_of_mem) hpassword _

theorem redactUrl_text_of_not_plain {c : Char} (hc : c ∈ u.scheme.toList) (hplain : isPlainSchemeChar c = false)
    (password : String) : redactUrl (u.text password) = u.text password := by
  rw [text_eq]
  exact redactUrl_of_not_plain hc hplain colon_not_mem_scheme _

end CredentialUrl

theorem hides_of_recognised {u : CredentialUrl} {before : String} (h : Recognised u before) (after : String) :
    Hides u before after := by
  intro password password' hsecret hsecret'
  constructor
  · rw [CredentialUrl.surrounded, CredentialUrl.surrounded]
    exact redactString_covered h.2 hsecret hsecret' _
  · rw [CredentialUrl.redactUrl_text h.1 hsecret.not_mem_at, CredentialUrl.redactUrl_text h.1 hsecret'.not_mem_at]

theorem recognised_of_digits {u : CredentialUrl} {before after : String}
    (htext : redactString (before ++ u.text "0" ++ after) = redactString (before ++ u.text "1" ++ after))
    (hurl : redactUrl (u.text "0") = redactUrl (u.text "1")) : Recognised u before := by
  constructor
  · intro c hc
    by_contra hplain
    have hc' : isPlainSchemeChar c = false := Bool.not_eq_true _ ▸ hplain
    rw [CredentialUrl.redactUrl_text_of_not_plain hc hc', CredentialUrl.redactUrl_text_of_not_plain hc hc'] at hurl
    simp [CredentialUrl.text] at hurl
  · by_contra hcovered
    rw [CredentialUrl.surrounded, CredentialUrl.surrounded] at htext
    refine redactString_not_covered hcovered (CredentialUrl.getLast?_front before) (u.host ++ after).toList ?_
    simpa using htext

theorem isUserChar_of_isUnreserved {c : Char} (h : isUnreserved c = true ∨ c = '%') : isUserChar c = true := by
  rcases h with h | rfl
  · simp only [isUnreserved, Bool.or_eq_true] at h
    rcases h with hletter | hmark
    · have hspace := Ascii.isSpace_of_isAlphanum hletter
      have hcolon : c ≠ ':' := by
        rintro rfl
        cases hletter
      have hslash : c ≠ '/' := by
        rintro rfl
        cases hletter
      have hat : c ≠ '@' := by
        rintro rfl
        cases hletter
      simp [isUserChar, hcolon, hslash, hspace, hat]
    · have hmarks : "-_.!~*'()".toList.all isUserChar = true := by decide +kernel
      exact List.all_eq_true.mp hmarks c (by simpa using hmark)
  · decide

theorem isUserChar_of_encoded {s : String} {c : Char} (hc : c ∈ (encodeURIComponent s).toList) : isUserChar c = true := by
  rw [encodeURIComponent, String.toList_ofList] at hc
  exact isUserChar_of_isUnreserved (mem_encode hc)

theorem isSecret_encoded {s : String} (h : s ≠ "") : IsSecret (encodeURIComponent s).toList := by
  constructor
  · rw [encodeURIComponent, String.toList_ofList]
    exact encode_ne_nil (by simpa using h)
  · intro c hc
    have hchar := isUserChar_of_encoded hc
    simp only [isUserChar, Bool.not_eq_true', Bool.or_eq_false_iff, decide_eq_false_iff_not] at hchar
    exact ⟨hchar.2, hchar.1.2⟩

def postgresCredentials (parts : PostgresParts) : CredentialUrl where
  scheme := "postgresql"
  user := encodeURIComponent parts.user
  host := parts.host ++ ":" ++ parts.port.repr ++ "/" ++ encodeURIComponent parts.database ++
    (parts.sslMode.map (fun sslMode => "?sslmode=" ++ sslMode.text)).getD ""
  letter := by decide +kernel
  schemeChars := List.all_eq_true.mp (by decide +kernel)
  userChars _ hc := isUserChar_of_encoded hc

theorem buildPostgresUrl_eq (parts : PostgresParts) :
    buildPostgresUrl parts = (postgresCredentials parts).text (encodeURIComponent parts.password) := by
  obtain ⟨host, port, user, password, database, sslMode⟩ := parts
  refine String.toList_injective ?_
  cases sslMode with
  | none => simp [buildPostgresUrl, postgresCredentials, CredentialUrl.text, CredentialUrl.front]
  | some sslMode => simp [buildPostgresUrl, postgresCredentials, CredentialUrl.text, CredentialUrl.front]

/-- What `Hides` says, of the passwords a database is configured with. -/
def HidesPostgres (parts : PostgresParts) (before after : String) : Prop :=
  ∀ password password' : String, password ≠ "" → password' ≠ "" →
    redactString (before ++ buildPostgresUrl { parts with password := password } ++ after) =
      redactString (before ++ buildPostgresUrl { parts with password := password' } ++ after) ∧
    redactUrl (buildPostgresUrl { parts with password := password }) =
      redactUrl (buildPostgresUrl { parts with password := password' })

theorem hidesPostgres_iff {parts : PostgresParts} {before after : String} :
    HidesPostgres parts before after ↔ Recognised (postgresCredentials parts) before := by
  have hurl : ∀ password, buildPostgresUrl { parts with password := password } =
      (postgresCredentials parts).text (encodeURIComponent password) := fun password => buildPostgresUrl_eq _
  constructor
  · intro h
    obtain ⟨htext, halone⟩ := h "0" "1" (by decide) (by decide)
    rw [hurl, hurl] at htext halone
    have hzero : encodeURIComponent "0" = "0" := by decide +kernel
    have hone : encodeURIComponent "1" = "1" := by decide +kernel
    rw [hzero, hone] at htext halone
    exact recognised_of_digits htext halone
  · intro h password password' hne hne'
    rw [hurl, hurl]
    exact hides_of_recognised h after _ _ (isSecret_encoded hne) (isSecret_encoded hne')

/-- A URL hides its password in a log where both patterns take it for one, and only there. The URL of a
database does wherever it begins at a word boundary. -/
theorem passwords_are_hidden_iff (u : CredentialUrl) (parts : PostgresParts) (before after value : String) :
    (Hides u before after ↔ Recognised u before) ∧
    ((HidesPostgres parts before after ↔ Recognised (postgresCredentials parts) before) ∧
      (parts.user ≠ "" → before.toList.getLast?.any isWord = false → HidesPostgres parts before after)) ∧
    redactString (redactString value) = redactString value := by
  refine ⟨?_, ⟨hidesPostgres_iff, ?_⟩, redactString_redactString value⟩
  · constructor
    · intro h
      obtain ⟨htext, halone⟩ := h "0" "1" (isSecret_singleton (by decide) (by decide))
        (isSecret_singleton (by decide) (by decide))
      exact recognised_of_digits htext halone
    · exact fun h => hides_of_recognised h after
  · intro huser hbefore
    refine hidesPostgres_iff.mpr ⟨?_, CredentialUrl.covered_front hbefore ?_⟩
    · exact List.all_eq_true.mp (by decide +kernel : "postgresql".toList.all isPlainSchemeChar = true)
    · intro hnil
      refine (isSecret_encoded huser).nonempty ?_
      have hempty : encodeURIComponent parts.user = "" := hnil
      rw [hempty]
      rfl

theorem rental_database_is_hidden : HidesPostgres ⟨"localhost", 5433, "rental", "", "rental_dev", some .verifyFull⟩
    "connecting to " " failed" :=
  (passwords_are_hidden_iff (postgresCredentials ⟨"localhost", 5433, "rental", "", "rental_dev", some .verifyFull⟩) _ _ _
    "").2.1.2 (by decide) (by decide +kernel)

def namelessRedis : CredentialUrl where
  scheme := "redis"
  user := ""
  host := "cache:6379"
  letter := by decide +kernel
  schemeChars := List.all_eq_true.mp (by decide +kernel)
  userChars := List.forall_mem_nil _

/-- The pattern of `redactUrl` leaves room for nobody, the one of `redactString` does not. -/
theorem nameless_password_is_written : ¬Hides namelessRedis "" "" ∧
    redactString (namelessRedis.text "hunter2") = "redis://:hunter2@cache:6379" ∧
    redactUrl (namelessRedis.text "hunter2") = "redis://:***@cache:6379" := by
  refine ⟨?_, by decide +kernel, by decide +kernel⟩
  intro h
  have hsame := (h "0" "1" (isSecret_singleton (by decide) (by decide)) (isSecret_singleton (by decide) (by decide))).1
  exact absurd hsame (by decide +kernel)

end RentalMarket.Observability
