import RentalMarket.Lib.Decimal

namespace RentalMarket.Web

open Script

def hopsOf (forwardedFor : String) : List String :=
  ((forwardedFor.toList.splitOn ',').map (fun hop => trim (String.ofList hop))).filter (fun hop => decide (hop ≠ ""))

/-- What `.` does not match. -/
def isLineTerminator (c : Char) : Bool :=
  decide (c.toNat = 0xa ∨ c.toNat = 0xd ∨ c.toNat = 0x2028 ∨ c.toNat = 0x2029)

def bracketedAddress (address : List Char) : Option String :=
  if address ≠ [] ∧ address.all (fun c => !isLineTerminator c) = true then some (String.ofList address) else none

/-- The address before a bracket the text ends with, or ends with but for a port. The text is
read from its end. -/
def addressBefore : List Char → Option String
  | ']' :: address => bracketedAddress address.reverse
  | reversed =>
    if reversed.takeWhile Char.isDigit = [] then none
    else
      match reversed.dropWhile Char.isDigit with
      | ':' :: ']' :: address => bracketedAddress address.reverse
      | _ => none

/-- The group of the pattern `^\[(?<address>.+)\](?::\d+)?$` -/
def bracketed (value : String) : Option String :=
  match value.toList with
  | '[' :: rest => addressBefore rest.reverse
  | _ => none

def stripPort (value : String) : Option String :=
  match bracketed value with
  | some address => some address
  | none =>
    let candidate :=
      match value.toList.splitOn ':' with
      | [address, _] => address
      | _ => value.toList
    if candidate = [] then none else some (String.ofList candidate)

def clientIpFrom (forwardedFor : Option String) (hopsInFront : Nat) : Option String :=
  match forwardedFor with
  | none => none
  | some forwardedFor =>
    let hops := hopsOf forwardedFor
    let index : Int := hops.length - hopsInFront
    if index < 0 ∨ hops.length ≤ index then none
    else
      match hops[index.toNat]? with
      | none => none
      | some nearest => stripPort nearest

def isAddressChar (c : Char) : Bool := !isSpace c && decide (c ≠ ',' ∧ c ≠ '[' ∧ c ≠ ']')

structure Ipv4 where
  text : String
  nonempty : text ≠ ""
  plain : ∀ c ∈ text.toList, isAddressChar c = true
  colons : text.toList.count ':' = 0

structure Ipv6 where
  text : String
  plain : ∀ c ∈ text.toList, isAddressChar c = true
  colons : 2 ≤ text.toList.count ':'

inductive Peer where
  | ipv4 (address : Ipv4) (port : Option Nat)
  | ipv6 (address : Ipv6)
  | bracketed (address : Ipv6) (port : Option Nat)

namespace Peer

def address : Peer → String
  | ipv4 address _ => address.text
  | ipv6 address => address.text
  | bracketed address _ => address.text

def portText : Option Nat → List Char
  | none => []
  | some port => ':' :: Nat.toDigits 10 port

def text : Peer → List Char
  | ipv4 address port => address.text.toList ++ portText port
  | ipv6 address => address.text.toList
  | bracketed address port => '[' :: address.text.toList ++ ']' :: portText port

end Peer

/-- What a proxy appends. There may be white space before the peer. -/
structure Hop where
  padding : List Char
  blank : ∀ c ∈ padding, isSpace c = true
  peer : Peer

/-- A proxy appends a comma and the peer to the header it is sent, or sets it. -/
def Hop.forward (header : Option String) (hop : Hop) : Option String :=
  match header with
  | none => some (String.ofList hop.peer.text)
  | some header => some (header ++ String.ofList (',' :: hop.padding ++ hop.peer.text))

/-- What arrives of a caller's header by the proxies, the outermost first. -/
def forwarded (caller : Option String) (hops : List Hop) : Option String := hops.foldl Hop.forward caller

section

variable {text padding : List Char} {header : Option String}

theorem trim_padded (hpadding : ∀ c ∈ padding, isSpace c = true) (htext : ∀ c ∈ text, isSpace c = false) :
    trim (String.ofList (padding ++ text)) = String.ofList text := by
  have hdrop : trim (String.ofList (padding ++ text)) = trim (String.ofList text) := by
    simp only [trim, String.toList_ofList, List.dropWhile_append_of_pos hpadding]
  rw [hdrop]
  apply trim_eq_self
  · intro c hc
    rw [String.toList_ofList] at hc
    exact htext c (List.mem_of_mem_head? hc)
  · intro c hc
    rw [String.toList_ofList] at hc
    exact htext c (List.mem_of_mem_getLast? hc)

theorem length_splitOn (sep : Char) (text : List Char) : (text.splitOn sep).length = text.count sep + 1 := by
  induction text with
  | nil => rfl
  | cons c text ih =>
    rw [List.splitOn_cons_eq_if_modifyHead, List.count_cons]
    split
    · rw [List.length_cons, ih]
    · rw [List.length_modifyHead, ih, Nat.add_zero]

theorem hopsOf_append (before after : List Char) : hopsOf (String.ofList (before ++ ',' :: after)) =
    hopsOf (String.ofList before) ++ hopsOf (String.ofList after) := by
  simp only [hopsOf, String.toList_ofList, List.splitOn_append_cons_self, List.map_append, List.filter_append]

theorem hopsOf_padded (hpadding : ∀ c ∈ padding, isSpace c = true)
    (htext : ∀ c ∈ text, isSpace c = false ∧ c ≠ ',') (hne : text ≠ []) :
    hopsOf (String.ofList (padding ++ text)) = [String.ofList text] := by
  have hcomma : ',' ∉ padding ++ text := by
    rw [List.mem_append]
    rintro (hmem | hmem)
    · exact absurd (hpadding _ hmem) (by decide)
    · exact (htext _ hmem).2 rfl
  have hkept : String.ofList text ≠ "" := by
    intro heq
    exact hne (by rw [← String.toList_ofList (l := text), heq]; rfl)
  rw [hopsOf, String.toList_ofList, List.splitOn_eq_singleton hcomma, List.map_singleton,
    trim_padded hpadding (fun c hc => (htext c hc).1)]
  simp [hkept]

end

theorem isAddressChar_iff {c : Char} : isAddressChar c = true ↔ isSpace c = false ∧ c ≠ ',' ∧ c ≠ '[' ∧ c ≠ ']' := by
  simp [isAddressChar]

theorem isLineTerminator_of_isAddressChar {c : Char} (h : isAddressChar c = true) : isLineTerminator c = false := by
  have hspace := (isAddressChar_iff.mp h).1
  rw [isSpace, decide_eq_false_iff_not] at hspace
  rw [isLineTerminator, decide_eq_false_iff_not]
  omega

namespace Peer

theorem isDigit_of_mem {port : Nat} {c : Char} (h : c ∈ Nat.toDigits 10 port) : c.isDigit = true :=
  Nat.isDigit_of_mem_toDigits (by decide) (by decide) h

theorem mem_portText {port : Option Nat} {c : Char} (h : c ∈ portText port) : c = ':' ∨ c.isDigit = true := by
  cases port with
  | none => cases h
  | some port =>
    obtain rfl | hdigit := List.mem_cons.mp h
    · exact .inl rfl
    · exact .inr (isDigit_of_mem hdigit)

theorem mem_text {peer : Peer} {c : Char} (h : c ∈ peer.text) : isSpace c = false ∧ c ≠ ',' := by
  have hport : ∀ port, c ∈ portText port → isSpace c = false ∧ c ≠ ',' := by
    intro port hmem
    obtain rfl | hdigit := mem_portText hmem
    · decide
    · refine ⟨isSpace_of_isDigit hdigit, ?_⟩
      rintro rfl
      cases hdigit
  have hplain : isAddressChar c = true → isSpace c = false ∧ c ≠ ',' := by
    intro hc
    exact ⟨(isAddressChar_iff.mp hc).1, (isAddressChar_iff.mp hc).2.1⟩
  cases peer with
  | ipv4 address port =>
    obtain hmem | hmem := List.mem_append.mp h
    · exact hplain (address.plain c hmem)
    · exact hport port hmem
  | ipv6 address => exact hplain (address.plain c h)
  | bracketed address port =>
    obtain rfl | hmem := List.mem_cons.mp h
    · decide
    obtain hmem | hmem := List.mem_append.mp hmem
    · exact hplain (address.plain c hmem)
    obtain rfl | hmem := List.mem_cons.mp hmem
    · decide
    · exact hport port hmem

end Peer

namespace Ipv4

variable (address : Ipv4)

theorem toList_ne_nil : address.text.toList ≠ [] := by
  intro hnil
  exact address.nonempty (String.toList_eq_nil_iff.mp hnil)

theorem colon_not_mem : ':' ∉ address.text.toList := List.count_eq_zero.mp address.colons

theorem bracket_not_mem : '[' ∉ address.text.toList := fun hmem => (isAddressChar_iff.mp (address.plain _ hmem)).2.2.1 rfl

end Ipv4

namespace Ipv6

variable (address : Ipv6)

theorem toList_ne_nil : address.text.toList ≠ [] := by
  intro hnil
  have hcolons := address.colons
  rw [hnil] at hcolons
  exact absurd hcolons (by decide)

theorem bracket_not_mem : '[' ∉ address.text.toList := fun hmem => (isAddressChar_iff.mp (address.plain _ hmem)).2.2.1 rfl

theorem bracketedAddress_eq : bracketedAddress address.text.toList = some address.text := by
  have hmatched : address.text.toList.all (fun c => !isLineTerminator c) = true := by
    rw [List.all_eq_true]
    intro c hc
    rw [isLineTerminator_of_isAddressChar (address.plain c hc)]
    rfl
  rw [bracketedAddress, if_pos ⟨address.toList_ne_nil, hmatched⟩, String.ofList_toList]

end Ipv6

theorem bracketed_of_not_mem {value : String} (h : value.toList.head? ≠ some '[') : bracketed value = none := by
  rw [bracketed]
  split
  · rename_i hlist
    rw [hlist] at h
    exact absurd rfl h
  · rfl

theorem bracketed_bare (address : Ipv6) :
    bracketed (String.ofList ('[' :: address.text.toList ++ [']'])) = some address.text := by
  have hreverse : (address.text.toList ++ [']']).reverse = ']' :: address.text.toList.reverse := by simp
  have hbefore : addressBefore (']' :: address.text.toList.reverse) = some address.text := by
    rw [addressBefore, List.reverse_reverse, address.bracketedAddress_eq]
  rw [bracketed, String.toList_ofList]
  exact (congrArg addressBefore hreverse).trans hbefore

theorem addressBefore_port {digits address : List Char} (hdigits : ∀ c ∈ digits, c.isDigit = true) (hne : digits ≠ []) :
    addressBefore (digits ++ ':' :: ']' :: address) = bracketedAddress address.reverse := by
  have hdrop : (digits ++ ':' :: ']' :: address).dropWhile Char.isDigit = ':' :: ']' :: address :=
    List.dropWhile_append_of_pos hdigits
  cases digits with
  | nil => exact absurd rfl hne
  | cons d digits =>
    have hd := hdigits d List.mem_cons_self
    have htake : (d :: digits ++ ':' :: ']' :: address).takeWhile Char.isDigit ≠ [] := by
      rw [List.cons_append, List.takeWhile_cons_of_pos hd]
      exact List.cons_ne_nil _ _
    rw [addressBefore]
    · rw [if_neg htake, hdrop]
      rfl
    · intro rest heq
      cases heq
      cases hd

theorem bracketed_port (address : Ipv6) (port : Nat) :
    bracketed (String.ofList ('[' :: address.text.toList ++ ']' :: ':' :: Nat.toDigits 10 port)) = some address.text := by
  have hdigits : ∀ c ∈ (Nat.toDigits 10 port).reverse, c.isDigit = true :=
    fun c hc => Peer.isDigit_of_mem (List.mem_reverse.mp hc)
  have hne : (Nat.toDigits 10 port).reverse ≠ [] := by
    rw [Ne, List.reverse_eq_nil_iff]
    exact Nat.toDigits_ne_nil
  have hreverse : (address.text.toList ++ ']' :: ':' :: Nat.toDigits 10 port).reverse =
      (Nat.toDigits 10 port).reverse ++ ':' :: ']' :: address.text.toList.reverse := by simp
  have hbefore : addressBefore ((Nat.toDigits 10 port).reverse ++ ':' :: ']' :: address.text.toList.reverse) =
      some address.text := by
    rw [addressBefore_port hdigits hne, List.reverse_reverse, address.bracketedAddress_eq]
  rw [bracketed, String.toList_ofList]
  exact (congrArg addressBefore hreverse).trans hbefore

theorem stripPort_of_bracketed {value address : String} (h : bracketed value = some address) :
    stripPort value = some address := by
  rw [stripPort, h]

theorem stripPort_port {address port : List Char} (hbracket : '[' ∉ address) (haddress : ':' ∉ address)
    (hport : ':' ∉ port) (hne : address ≠ []) :
    stripPort (String.ofList (address ++ ':' :: port)) = some (String.ofList address) := by
  have hnone : bracketed (String.ofList (address ++ ':' :: port)) = none := by
    apply bracketed_of_not_mem
    rw [String.toList_ofList]
    cases address with
    | nil => exact absurd rfl hne
    | cons c address =>
      rw [List.cons_append, List.head?_cons]
      intro heq
      exact hbracket (Option.some.inj heq ▸ List.mem_cons_self)
  rw [stripPort, hnone, String.toList_ofList, List.splitOn_append_cons_self, List.splitOn_eq_singleton haddress,
    List.splitOn_eq_singleton hport]
  exact if_neg hne

theorem stripPort_bare {address : List Char} (hbracket : '[' ∉ address) (hcolons : address.count ':' ≠ 1)
    (hne : address ≠ []) : stripPort (String.ofList address) = some (String.ofList address) := by
  have hnone : bracketed (String.ofList address) = none := by
    apply bracketed_of_not_mem
    rw [String.toList_ofList]
    intro heq
    exact hbracket (List.mem_of_mem_head? heq)
  rw [stripPort, hnone, String.toList_ofList]
  dsimp only
  split
  · rename_i hsplit
    have hlength := length_splitOn ':' address
    rw [hsplit] at hlength
    exact absurd (Nat.succ.inj hlength.symm) hcolons
  · exact if_neg hne

theorem stripPort_text (peer : Peer) : stripPort (String.ofList peer.text) = some peer.address := by
  cases peer with
  | ipv4 address port =>
    cases port with
    | none =>
      have hcolons : address.text.toList.count ':' ≠ 1 := by
        rw [address.colons]
        decide
      have hstrip := stripPort_bare address.bracket_not_mem hcolons address.toList_ne_nil
      rw [String.ofList_toList] at hstrip
      rw [Peer.text, Peer.portText, List.append_nil, String.ofList_toList]
      exact hstrip
    | some port =>
      have hcolon : ':' ∉ Nat.toDigits 10 port := fun hmem => absurd (Peer.isDigit_of_mem hmem) (by decide)
      have hstrip := stripPort_port address.bracket_not_mem address.colon_not_mem hcolon address.toList_ne_nil
      rw [String.ofList_toList] at hstrip
      exact hstrip
  | ipv6 address =>
    have hcolons : address.text.toList.count ':' ≠ 1 := by
      have := address.colons
      omega
    have hstrip := stripPort_bare address.bracket_not_mem hcolons address.toList_ne_nil
    rw [String.ofList_toList] at hstrip
    rw [Peer.text, String.ofList_toList]
    exact hstrip
  | bracketed address port =>
    cases port with
    | none => exact stripPort_of_bracketed (bracketed_bare address)
    | some port => exact stripPort_of_bracketed (bracketed_port address port)

theorem text_ne_nil (peer : Peer) : peer.text ≠ [] := by
  cases peer with
  | ipv4 address port => exact List.append_ne_nil_of_left_ne_nil address.toList_ne_nil _
  | ipv6 address => exact address.toList_ne_nil
  | bracketed address port => exact List.cons_ne_nil _ _

def entriesOf (header : Option String) : List String := header.elim [] hopsOf

theorem entriesOf_forward (header : Option String) (hop : Hop) :
    entriesOf (hop.forward header) = entriesOf header ++ [String.ofList hop.peer.text] := by
  have hentry (padding : List Char) (hblank : ∀ c ∈ padding, isSpace c = true) :
      hopsOf (String.ofList (padding ++ hop.peer.text)) = [String.ofList hop.peer.text] :=
    hopsOf_padded hblank (fun _ => Peer.mem_text) (text_ne_nil hop.peer)
  cases header with
  | none =>
    have hbare := hentry [] (List.forall_mem_nil _)
    rw [List.nil_append] at hbare
    rw [Hop.forward, entriesOf, Option.elim_some, hbare]
    rfl
  | some header =>
    have hlist : header ++ String.ofList (',' :: hop.padding ++ hop.peer.text) =
        String.ofList (header.toList ++ ',' :: (hop.padding ++ hop.peer.text)) := by
      rw [← String.toList_inj]
      simp
    rw [Hop.forward, entriesOf, Option.elim_some, hlist, hopsOf_append, hentry hop.padding hop.blank,
      String.ofList_toList]
    rfl

theorem entriesOf_forwarded (caller : Option String) (hops : List Hop) :
    entriesOf (forwarded caller hops) = entriesOf caller ++ hops.map (fun hop => String.ofList hop.peer.text) := by
  induction hops generalizing caller with
  | nil => exact (List.append_nil _).symm
  | cons hop hops ih =>
    rw [forwarded, List.foldl_cons, ← forwarded, ih, entriesOf_forward, List.append_assoc]
    rfl

theorem clientIpFrom_eq (header : Option String) (hopsInFront : Nat) :
    clientIpFrom header hopsInFront =
      if hopsInFront = 0 ∨ (entriesOf header).length < hopsInFront then none
      else (entriesOf header)[(entriesOf header).length - hopsInFront]?.bind stripPort := by
  cases header with
  | none =>
    rw [clientIpFrom, if_pos]
    exact (Nat.eq_zero_or_pos _).imp_right id
  | some header =>
    rw [clientIpFrom, entriesOf, Option.elim_some]
    by_cases hout : hopsInFront = 0 ∨ (hopsOf header).length < hopsInFront
    · rw [if_pos (by omega), if_pos hout]
    · have hindex : (((hopsOf header).length : Int) - hopsInFront).toNat = (hopsOf header).length - hopsInFront := by
        omega
      rw [if_neg (by omega), if_neg hout, hindex]
      cases (hopsOf header)[(hopsOf header).length - hopsInFront]? with
      | none => rfl
      | some nearest => rfl

/-- The address is the one the outermost trusted proxy saw, whatever the caller sent, and there is
none without a trusted proxy, or with fewer entries than proxies. -/
theorem client_ip_is_not_forged :
    (∀ caller outermost inner,
      clientIpFrom (forwarded caller (outermost :: inner)) (inner.length + 1) = some outermost.peer.address) ∧
    (∀ header, clientIpFrom header 0 = none) ∧
    ∀ header hopsInFront, (entriesOf header).length < hopsInFront → clientIpFrom header hopsInFront = none := by
  refine ⟨?_, ?_, ?_⟩
  · intro caller outermost inner
    have hentries := entriesOf_forwarded caller (outermost :: inner)
    have hlength : (entriesOf (forwarded caller (outermost :: inner))).length =
        (entriesOf caller).length + (inner.length + 1) := by
      rw [hentries, List.length_append, List.length_map, List.length_cons]
    rw [clientIpFrom_eq, if_neg (by omega), hlength, Nat.add_sub_cancel, hentries,
      List.getElem?_append_right (Nat.le_refl _), Nat.sub_self]
    exact stripPort_text outermost.peer
  · intro header
    rw [clientIpFrom_eq, if_pos (.inl rfl)]
  · intro header hopsInFront hfew
    rw [clientIpFrom_eq, if_pos (.inr hfew)]

def tunnel : Hop := ⟨[' '], List.all_eq_true.mp (by decide +kernel),
  .ipv4 ⟨"203.0.113.7", by decide, List.all_eq_true.mp (by decide +kernel), by decide +kernel⟩ (some 51000)⟩

def ingress : Hop := ⟨[], List.forall_mem_nil _,
  .bracketed ⟨"2001:db8::1", List.all_eq_true.mp (by decide +kernel), by decide +kernel⟩ none⟩

theorem caller_is_recorded : clientIpFrom (forwarded (some "192.0.2.1, [::1]:80,,") [tunnel, ingress]) 2 =
    some "203.0.113.7" := client_ip_is_not_forged.1 _ tunnel [ingress]

end RentalMarket.Web
