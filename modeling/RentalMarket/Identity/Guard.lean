import Mathlib
import RentalMarket.Identity.Directory

namespace RentalMarket.Identity.Guard

open RentalMarket.Booking

inductive Num where
  | nan
  | infinite (negative : Bool)
  | finite (value : ℚ)
  deriving DecidableEq

inductive Value where
  | undefined
  | null
  | bool (b : Bool)
  | number (n : Num)
  | text (s : String)
  | list (items : List Value)
  | object

/-- A header, which one that is repeated reaches as one text. -/
inductive Header where
  | absent
  | one (value : String)
  | many (values : List String)
  deriving DecidableEq

abbrev Headers := String → Header

structure VerifiedSession where
  clerkUserId : String
  sessionId : String
  email : String
  secondFactorAgeMinutes : Option Num
  deriving DecidableEq

/-- The second of Clerk's pair of ages. Anything unexpected is no second
factor. -/
def secondFactorAge : Value → Option Num
  | .list (_ :: .number (.finite second) :: _) => if second < 0 then none else some (.finite second)
  | _ => none

structure ClerkClaims where
  sub : Value
  sid : Value
  email : Value
  fva : Value

/-- `ClerkSessionVerifier.verify`, on what the provider has verified. -/
def verifySession (claims : ClerkClaims) : Option VerifiedSession :=
  match claims.sub, claims.sid, claims.email with
  | .text sub, .text sid, .text email =>
    if sub = "" ∨ sid = "" ∨ email = "" then none
    else some ⟨sub, sid, email, secondFactorAge claims.fva⟩
  | _, _, _ => none

structure SecondFactorEvidence where
  session : VerifiedSession
  headers : Headers

inductive Said where
  | threw
  | age (minutes : Option Num)
  deriving DecidableEq

/-- `AdminSecondFactor` -/
structure Prover where
  name : String
  bypassesSecondFactor : Bool
  ageMinutes : SecondFactorEvidence → Said

structure SecondFactorAnswer where
  ageMinutes : ℚ
  provenBy : String
  deriving DecidableEq

structure SecondFactorDecision where
  proof : Option SecondFactorAnswer
  attempts : List SecondFactorAnswer
  deriving DecidableEq

structure SecondFactorChain where
  provers : List Prover
  maximumAgeMinutes : ℚ

def maxSecondFactorAgeMinutes : ℚ := 12 * 60

/-- A prover that throws, cannot tell or answers nonsense has proved nothing. -/
def ask (prover : Prover) (evidence : SecondFactorEvidence) : Option ℚ :=
  match prover.ageMinutes evidence with
  | .threw => none
  | .age none => none
  | .age (some .nan) => none
  | .age (some (.infinite _)) => none
  | .age (some (.finite age)) => if age < 0 then none else some age

/-- The loop of `prove`, with the attempts so far. -/
def proveFrom (maximum : ℚ) (evidence : SecondFactorEvidence) (attempts : List SecondFactorAnswer) :
    List Prover → SecondFactorDecision
  | [] => ⟨none, attempts⟩
  | prover :: provers =>
    match ask prover evidence with
    | none => proveFrom maximum evidence attempts provers
    | some ageMinutes =>
      let attempt := ⟨ageMinutes, prover.name⟩
      if ageMinutes ≤ maximum then ⟨some attempt, attempts ++ [attempt]⟩
      else proveFrom maximum evidence (attempts ++ [attempt]) provers

def SecondFactorChain.prove (chain : SecondFactorChain) (evidence : SecondFactorEvidence) :
    SecondFactorDecision := proveFrom chain.maximumAgeMinutes evidence [] chain.provers

def clerkSecondFactor : Prover where
  name := "clerk-fva"
  bypassesSecondFactor := false
  ageMinutes evidence := .age evidence.session.secondFactorAgeMinutes

def accessAssertionHeader : String := "cf-access-jwt-assertion"

/-- The white space that `trim` removes. -/
def isSpace (c : Char) : Bool :=
  let n := c.toNat
  decide (9 ≤ n ∧ n ≤ 13 ∨ n = 0x20 ∨ n = 0xa0 ∨ n = 0x1680 ∨ 0x2000 ≤ n ∧ n ≤ 0x200a ∨ n = 0x2028 ∨
    n = 0x2029 ∨ n = 0x202f ∨ n = 0x205f ∨ n = 0x3000 ∨ n = 0xfeff)

def trim (s : String) : String :=
  String.ofList ((s.toList.dropWhile isSpace).reverse.dropWhile isSpace).reverse

/-- The assertion, unless there are two. -/
def assertionFrom : Header → Option String
  | .one header =>
    let token := trim header
    if token = "" ∨ ',' ∈ token.toList then none else some token
  | _ => none

def Value.isName : Value → Bool
  | .text s => decide (s ≠ "")
  | _ => false

def isHumanIdentity (claims : String → Value) : Bool :=
  (match claims "common_name" with
    | .undefined => true
    | .text s => decide (s = "")
    | _ => false) && (claims "email").isName && (claims "sub").isName

/-- Minutes since the assertion was issued, by a clock in milliseconds. -/
def ageInMinutes (iat : Value) (now : Int) : Option Num :=
  match iat with
  | .number (.finite issued) =>
    let seconds : ℚ := ((now / 1000 : Int) : ℚ) - issued
    if seconds < 0 then none else some (.finite (Int.floor (seconds / 60)))
  | _ => none

/-- Verification, which throws for whatever it does not accept. -/
abbrev AccessTokenVerifier := String → Option (String → Value)

def cloudflareAccessSecondFactor (verify : AccessTokenVerifier) (now : Int) : Prover where
  name := "cloudflare-access"
  bypassesSecondFactor := false
  ageMinutes evidence :=
    match assertionFrom (evidence.headers accessAssertionHeader) with
    | none => .age none
    | some token =>
      match verify token with
      | none => .age none
      | some claims => if isHumanIdentity claims then .age (ageInMinutes (claims "iat") now) else .age none

def developmentSecondFactor : Prover where
  name := "development-bypass"
  bypassesSecondFactor := true
  ageMinutes _ := .age (some (.finite 0))

def composeSecondFactor (access : Option AccessTokenVerifier) (now : Int) (allowWithoutSecondFactor : Bool) :
    SecondFactorChain where
  provers := [clerkSecondFactor] ++ (access.map (fun verify => cloudflareAccessSecondFactor verify now)).toList ++
    if allowWithoutSecondFactor then [developmentSecondFactor] else []
  maximumAgeMinutes := maxSecondFactorAgeMinutes

structure Route where
  requiredRoles : Option (List UserRole)
  allowsSuspended : Option Bool
  deriving DecidableEq

def Route.admin : Route := ⟨some [.admin], none⟩

inductive ResolveError where
  | accountDeleted
  | failed
  deriving DecidableEq

inductive Refusal where
  | unauthorized
  | forbidden
  | failed
  deriving DecidableEq

structure AuthGuard where
  verifyToken : String → Option ClerkClaims
  resolveSession : VerifiedSession → Except ResolveError MirroredUser
  secondFactor : SecondFactorChain

/-- A scheme and a token, and nothing else. -/
def bearerToken : Header → Option String
  | .one header =>
    match (header.toList.splitOn ' ').filter (fun part => part ≠ []) with
    | [scheme, token] => if scheme.map Char.toLower = "bearer".toList then some (String.ofList token) else none
    | _ => none
  | _ => none

namespace AuthGuard

variable (g : AuthGuard)

def verify (headers : Headers) : Option VerifiedSession :=
  (bearerToken (headers "authorization")).bind (fun token => (g.verifyToken token).bind verifySession)

def refuseIfSuspended (route : Route) (user : MirroredUser) : Except Refusal Unit :=
  if user.suspension.isNone then .ok ()
  else if route.allowsSuspended = some true then .ok ()
  else .error .forbidden

def requireSecondFactor (evidence : SecondFactorEvidence) : Except Refusal Unit :=
  if (g.secondFactor.prove evidence).proof.isNone then .error .forbidden else .ok ()

def authorise (route : Route) (user : MirroredUser) (evidence : SecondFactorEvidence) : Except Refusal Unit :=
  (refuseIfSuspended route user).bind (fun _ =>
    match route.requiredRoles with
    | none => .ok ()
    | some required =>
      if required = [] then .ok ()
      else if user.role ∉ required then .error .forbidden
      else if UserRole.admin ∈ required then g.requireSecondFactor evidence
      else .ok ())

def canActivate (route : Route) (headers : Headers) : Except Refusal MirroredUser :=
  match g.verify headers with
  | none => .error .unauthorized
  | some session =>
    match g.resolveSession session with
    | .error .accountDeleted => .error .unauthorized
    | .error .failed => .error .failed
    | .ok user => (g.authorise route user ⟨session, headers⟩).map (fun _ => user)

end AuthGuard

section

variable {maximum : ℚ} {evidence : SecondFactorEvidence}

theorem ask_nonneg {prover : Prover} {age : ℚ} (h : ask prover evidence = some age) : 0 ≤ age := by
  simp only [ask] at h
  split at h
  any_goals cases h
  split at h
  · cases h
  · rename_i hage
    cases h
    exact not_lt.mp hage

theorem ask_eq_some {prover : Prover} {age : ℚ} :
    ask prover evidence = some age ↔ prover.ageMinutes evidence = .age (some (.finite age)) ∧ 0 ≤ age := by
  constructor
  · intro h
    refine ⟨?_, ask_nonneg h⟩
    simp only [ask] at h
    split at h
    any_goals cases h
    rename_i minutes hsaid
    split at h
    · cases h
    · cases h
      exact hsaid
  · rintro ⟨hsaid, hage⟩
    rw [ask, hsaid]
    exact if_neg (not_lt.mpr hage)

/-- A prover has proved nothing within the maximum age. -/
def Unproven (maximum : ℚ) (evidence : SecondFactorEvidence) (prover : Prover) : Prop :=
  ∀ age, ask prover evidence = some age → maximum < age

theorem proveFrom_cons_of_unproven {prover : Prover} (h : Unproven maximum evidence prover)
    (attempts : List SecondFactorAnswer) (provers : List Prover) :
    ∃ attempts', proveFrom maximum evidence attempts (prover :: provers) =
      proveFrom maximum evidence attempts' provers := by
  cases hask : ask prover evidence with
  | none => exact ⟨attempts, by simp only [proveFrom, hask]⟩
  | some age =>
    refine ⟨attempts ++ [⟨age, prover.name⟩], ?_⟩
    simp only [proveFrom, hask, if_neg (not_le.mpr (h age hask))]

theorem proveFrom_proof (attempts attempts' : List SecondFactorAnswer) (provers : List Prover) :
    (proveFrom maximum evidence attempts provers).proof =
      (proveFrom maximum evidence attempts' provers).proof := by
  induction provers generalizing attempts attempts' with
  | nil => rfl
  | cons prover provers ih =>
    simp only [proveFrom]
    cases ask prover evidence with
    | none => exact ih attempts attempts'
    | some age =>
      by_cases hage : age ≤ maximum
      · simp only [if_pos hage]
      · simp only [if_neg hage]
        exact ih _ _

theorem proveFrom_proof_erase {prover : Prover} (h : Unproven maximum evidence prover)
    (attempts : List SecondFactorAnswer) (pre post : List Prover) :
    (proveFrom maximum evidence attempts (pre ++ prover :: post)).proof =
      (proveFrom maximum evidence attempts (pre ++ post)).proof := by
  induction pre generalizing attempts with
  | nil =>
    obtain ⟨attempts', heq⟩ := proveFrom_cons_of_unproven h attempts post
    rw [List.nil_append, heq]
    exact proveFrom_proof attempts' attempts post
  | cons first pre ih =>
    simp only [List.cons_append, proveFrom]
    cases ask first evidence with
    | none => exact ih attempts
    | some age =>
      by_cases hage : age ≤ maximum
      · simp only [if_pos hage]
      · simp only [if_neg hage]
        exact ih _

theorem proveFrom_isSome (attempts : List SecondFactorAnswer) (provers : List Prover) :
    (proveFrom maximum evidence attempts provers).proof.isSome = true ↔
      ∃ prover ∈ provers, ∃ age, ask prover evidence = some age ∧ age ≤ maximum := by
  induction provers generalizing attempts with
  | nil => simp [proveFrom]
  | cons prover provers ih =>
    cases hask : ask prover evidence with
    | none =>
      simp only [proveFrom, hask]
      rw [ih attempts]
      simp [hask]
    | some age =>
      by_cases hage : age ≤ maximum
      · simp only [proveFrom, hask, if_pos hage]
        simp only [Option.isSome_some, true_iff]
        exact ⟨prover, List.mem_cons_self, age, hask, hage⟩
      · simp only [proveFrom, hask, if_neg hage]
        rw [ih]
        simp [hask, hage]

end

/-- What the two real provers answer from. -/
def Proves (verify : AccessTokenVerifier) (now : Int) (provers : List Prover) (session : VerifiedSession)
    (headers : Headers) (age : ℚ) : Prop :=
  clerkSecondFactor ∈ provers ∧ session.secondFactorAgeMinutes = some (.finite age) ∨
  cloudflareAccessSecondFactor verify now ∈ provers ∧ ∃ assertion claims,
    assertionFrom (headers accessAssertionHeader) = some assertion ∧ verify assertion = some claims ∧
      isHumanIdentity claims = true ∧ ageInMinutes (claims "iat") now = some (.finite age)

theorem access_ageMinutes {verify : AccessTokenVerifier} {now : Int} {evidence : SecondFactorEvidence}
    {age : ℚ} : (cloudflareAccessSecondFactor verify now).ageMinutes evidence = .age (some (.finite age)) ↔
      ∃ assertion claims, assertionFrom (evidence.headers accessAssertionHeader) = some assertion ∧
        verify assertion = some claims ∧ isHumanIdentity claims = true ∧
        ageInMinutes (claims "iat") now = some (.finite age) := by
  simp only [cloudflareAccessSecondFactor]
  constructor
  · intro h
    split at h
    · cases h
    · rename_i assertion hassertion
      split at h
      · cases h
      · rename_i claims hclaims
        split at h
        · rename_i hhuman
          exact ⟨assertion, claims, hassertion, hclaims, hhuman, Said.age.inj h⟩
        · cases h
  · rintro ⟨assertion, claims, hassertion, hclaims, hhuman, hage⟩
    rw [hassertion]
    simp only [hclaims, hhuman, if_true, hage]

namespace AuthGuard

theorem refuseIfSuspended_admin {user : MirroredUser} :
    refuseIfSuspended .admin user = .ok () ↔ user.suspension = none := by
  cases h : user.suspension <;> simp [refuseIfSuspended, Route.admin, h]

theorem authorise_admin {g : AuthGuard} {user : MirroredUser} {evidence : SecondFactorEvidence} :
    g.authorise .admin user evidence = .ok () ↔ user.suspension = none ∧ user.role = .admin ∧
      (g.secondFactor.prove evidence).proof.isSome = true := by
  rw [authorise, Refusal.bind_eq_ok]
  constructor
  · rintro ⟨⟨⟩, hsuspended, h⟩
    simp only [Route.admin, List.cons_ne_nil, if_false, List.mem_singleton] at h
    split at h
    · cases h
    · rename_i hrole
      simp only [if_true, requireSecondFactor] at h
      split at h
      · cases h
      · rename_i hproof
        exact ⟨refuseIfSuspended_admin.mp hsuspended, not_not.mp hrole,
          Option.isSome_iff_ne_none.mpr (fun hnone => hproof (Option.isNone_iff_eq_none.mpr hnone))⟩
  · rintro ⟨hsuspended, hrole, hproof⟩
    refine ⟨(), refuseIfSuspended_admin.mpr hsuspended, ?_⟩
    have hsome : ¬(g.secondFactor.prove evidence).proof.isNone = true := by
      rw [Option.isNone_iff_eq_none]
      exact Option.isSome_iff_ne_none.mp hproof
    simp only [Route.admin, List.cons_ne_nil, if_false, List.mem_singleton, hrole, not_true_eq_false, if_true,
      requireSecondFactor, if_neg hsome]

theorem canActivate_eq_ok {g : AuthGuard} {route : Route} {headers : Headers} {user : MirroredUser} :
    g.canActivate route headers = .ok user ↔ ∃ session, g.verify headers = some session ∧
      g.resolveSession session = .ok user ∧ g.authorise route user ⟨session, headers⟩ = .ok () := by
  rw [canActivate]
  constructor
  · intro h
    split at h
    · cases h
    · rename_i session hsession
      split at h
      · cases h
      · cases h
      · rename_i found hfound
        obtain ⟨u, hauthorised, rfl⟩ := Refusal.map_eq_ok.mp h
        exact ⟨session, hsession, hfound, hauthorised⟩
  · rintro ⟨session, hsession, hfound, hauthorised⟩
    rw [hsession]
    simp only [hfound, hauthorised, Except.map]

/-- A prover that proves nothing to the guard does not change whom it lets
in. -/
theorem canActivate_erase {g : AuthGuard} {pre post : List Prover} {prover : Prover}
    (hprovers : g.secondFactor.provers = pre ++ prover :: post) {route : Route} {headers : Headers}
    (h : ∀ session, g.verify headers = some session →
      Unproven g.secondFactor.maximumAgeMinutes ⟨session, headers⟩ prover) :
    g.canActivate route headers =
      { g with secondFactor := ⟨pre ++ post, g.secondFactor.maximumAgeMinutes⟩ }.canActivate route headers := by
  have hauthorise (user : MirroredUser) (session : VerifiedSession) (hsession : g.verify headers = some session) :
      g.authorise route user ⟨session, headers⟩ =
        { g with secondFactor := ⟨pre ++ post, g.secondFactor.maximumAgeMinutes⟩ }.authorise route user
          ⟨session, headers⟩ := by
    have hproof := proveFrom_proof_erase (h session hsession) [] pre post
    rw [← hprovers] at hproof
    simp only [authorise, requireSecondFactor, SecondFactorChain.prove, hproof]
    rfl
  cases hsession : g.verify headers with
  | none =>
    have hsession' : { g with secondFactor :=
        ⟨pre ++ post, g.secondFactor.maximumAgeMinutes⟩ }.verify headers = none := hsession
    simp only [canActivate, hsession, hsession']
  | some session =>
    have hsession' : { g with secondFactor :=
        ⟨pre ++ post, g.secondFactor.maximumAgeMinutes⟩ }.verify headers = some session := hsession
    simp only [canActivate, hsession, hsession']
    cases g.resolveSession session with
    | error e => cases e <;> rfl
    | ok user => simp only [hauthorise user session hsession]

end AuthGuard

/-- Whom the guard lets onto an administrator's route, while its provers are
the two real ones in any order: an administrator who is not suspended, on the
age of the session's own factor or of a verified human assertion that the
request carries. And a prover that throws, answers nonsense or answers stale
decides nothing, in any chain. -/
theorem administrator_admitted_iff (g : AuthGuard) (verify : AccessTokenVerifier) (now : Int) (headers : Headers)
    (hprovers : ∀ prover ∈ g.secondFactor.provers,
      prover = clerkSecondFactor ∨ prover = cloudflareAccessSecondFactor verify now) :
    (∀ user, g.canActivate .admin headers = .ok user ↔ ∃ session, g.verify headers = some session ∧
      g.resolveSession session = .ok user ∧ user.role = .admin ∧ user.suspension = none ∧
      ∃ age, 0 ≤ age ∧ age ≤ g.secondFactor.maximumAgeMinutes ∧
        Proves verify now g.secondFactor.provers session headers age) ∧
    (∀ (g : AuthGuard) (pre post : List Prover) (prover : Prover) (route : Route),
      g.secondFactor.provers = pre ++ prover :: post →
      (∀ session, g.verify headers = some session →
        Unproven g.secondFactor.maximumAgeMinutes ⟨session, headers⟩ prover) →
      g.canActivate route headers =
        { g with secondFactor := ⟨pre ++ post, g.secondFactor.maximumAgeMinutes⟩ }.canActivate route
          headers) := by
  refine ⟨?_, fun g pre post prover route hcut h => AuthGuard.canActivate_erase hcut h⟩
  intro user
  rw [AuthGuard.canActivate_eq_ok]
  apply exists_congr
  intro session
  rw [AuthGuard.authorise_admin, SecondFactorChain.prove, proveFrom_isSome]
  constructor
  · rintro ⟨hsession, hfound, hsuspended, hrole, prover, hprover, age, hask, hage⟩
    refine ⟨hsession, hfound, hrole, hsuspended, age, ask_nonneg hask, hage, ?_⟩
    obtain ⟨hsaid, -⟩ := ask_eq_some.mp hask
    obtain rfl | rfl := hprovers prover hprover
    · exact .inl ⟨hprover, Said.age.inj hsaid⟩
    · exact .inr ⟨hprover, access_ageMinutes.mp hsaid⟩
  · rintro ⟨hsession, hfound, hrole, hsuspended, age, hnonneg, hage, hproves⟩
    refine ⟨hsession, hfound, hsuspended, hrole, ?_⟩
    obtain ⟨hprover, hfactor⟩ | ⟨hprover, hassertion⟩ := hproves
    · exact ⟨_, hprover, age, ask_eq_some.mpr ⟨congrArg Said.age hfactor, hnonneg⟩, hage⟩
    · exact ⟨_, hprover, age, ask_eq_some.mpr ⟨access_ageMinutes.mpr hassertion, hnonneg⟩, hage⟩

def ada : MirroredUser := ⟨"ada", "clerk-ada", "ada@example.com", .admin, none, none, none⟩

def bensClaims : String → Value
  | "email" => .text "ben@example.com"
  | "sub" => .text "ben"
  | "iat" => .number (.finite 0)
  | _ => .undefined

def verifyBens : AccessTokenVerifier := fun token => if token = "bens" then some bensClaims else none

def adasGuard (fva : Value) : AuthGuard where
  verifyToken token := if token = "adas" then
    some ⟨.text "clerk-ada", .text "session", .text "ada@example.com", fva⟩ else none
  resolveSession _ := .ok ada
  secondFactor := composeSecondFactor (some verifyBens) 60000 false

def borrowedHeaders : Headers
  | "authorization" => .one "Bearer adas"
  | "cf-access-jwt-assertion" => .one "bens"
  | _ => .absent

theorem adasGuard_provers (fva : Value) : ∀ prover ∈ (adasGuard fva).secondFactor.provers,
    prover = clerkSecondFactor ∨ prover = cloudflareAccessSecondFactor verifyBens 60000 := by
  intro prover hprover
  simpa [adasGuard, composeSecondFactor] using hprover

def fresh : Value := .list [.number (.finite 1), .number (.finite 30)]

theorem ada_admitted_on_her_own_factor :
    (adasGuard fresh).canActivate .admin borrowedHeaders = .ok ada ∧
      ∃ session, (adasGuard fresh).verify borrowedHeaders = some session ∧
        session.secondFactorAgeMinutes = some (.finite 30) ∧ (30 : ℚ) ≤ (adasGuard fresh).secondFactor.maximumAgeMinutes := by
  have hsession : ((adasGuard fresh).verify borrowedHeaders).map (·.secondFactorAgeMinutes) =
      some (some (.finite 30)) := by
    decide +kernel
  obtain ⟨session, hverify, hage⟩ := Option.map_eq_some_iff.mp hsession
  have hmaximum : (30 : ℚ) ≤ (adasGuard fresh).secondFactor.maximumAgeMinutes := by decide +kernel
  refine ⟨((administrator_admitted_iff (adasGuard fresh) verifyBens 60000 borrowedHeaders
    (adasGuard_provers _)).1 ada).mpr ?_, session, hverify, hage, hmaximum⟩
  exact ⟨session, hverify, rfl, rfl, rfl, 30, by norm_num, hmaximum,
    .inl ⟨by simp [adasGuard, composeSecondFactor], hage⟩⟩

/-- No factor of hers, and yet she is let in. -/
theorem ada_admitted_on_bens_assertion :
    (adasGuard .null).canActivate .admin borrowedHeaders = .ok ada ∧
      (∃ session, (adasGuard .null).verify borrowedHeaders = some session ∧
        session.secondFactorAgeMinutes = none) ∧
      (∀ assertion claims, assertionFrom (borrowedHeaders accessAssertionHeader) = some assertion →
        verifyBens assertion = some claims → claims "email" ≠ .text ada.email) := by
  refine ⟨by decide +kernel, ?_, ?_⟩
  · have hsession : ((adasGuard .null).verify borrowedHeaders).map (·.secondFactorAgeMinutes) = some none := by
      decide +kernel
    exact Option.map_eq_some_iff.mp hsession
  · intro assertion claims hassertion hclaims hemail
    have hbens : assertionFrom (borrowedHeaders accessAssertionHeader) = some "bens" := by decide +kernel
    rw [hbens] at hassertion
    cases hassertion
    rw [verifyBens, if_pos rfl] at hclaims
    cases hclaims
    exact absurd (Value.text.inj hemail) (by decide)

end RentalMarket.Identity.Guard
