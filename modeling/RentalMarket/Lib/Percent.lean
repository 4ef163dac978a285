import RentalMarket.Lib.Script

namespace RentalMarket.Percent

open Script

/-- The characters that `encodeURIComponent` leaves as they are. -/
def isUnreserved (c : Char) : Bool := c.isAlphanum || "-_.!~*'()".toList.contains c

def hexDigit (n : Nat) : Char := Char.ofNat (if n < 10 then 48 + n else 55 + n)

def hexValue (c : Char) : Option Nat :=
  if c.isDigit then some (c.toNat - 48)
  else if 'A' ≤ c ∧ c ≤ 'F' then some (c.toNat - 55)
  else if 'a' ≤ c ∧ c ≤ 'f' then some (c.toNat - 87)
  else none

def encodeByte (b : UInt8) : List Char := ['%', hexDigit (b.toNat / 16), hexDigit (b.toNat % 16)]

def encodeChar (c : Char) : List Char :=
  if isUnreserved c then [c] else (String.utf8EncodeChar c).flatMap encodeByte

def encode (text : List Char) : List Char := text.flatMap encodeChar

def encodeURIComponent (s : String) : String := String.ofList (encode s.toList)

/-- The bytes of an encoded text. In the encoding of forms a plus is a space. -/
def bytesOf (form : Bool) : List Char → Option (List UInt8)
  | [] => some []
  | '%' :: high :: low :: rest =>
    (hexValue high).bind fun h => (hexValue low).bind fun l => (bytesOf form rest).map (UInt8.ofNat (16 * h + l) :: ·)
  | '%' :: _ => none
  | c :: rest => (bytesOf form rest).map (String.utf8EncodeChar (if form && c == '+' then ' ' else c) ++ ·)

/-- A text whose bytes are no UTF-8 is refused. -/
def decode (form : Bool) (text : List Char) : Option (List Char) :=
  (bytesOf form text).bind fun bytes => bytes.toByteArray.utf8Decode?.map Array.toList

/-- A query string: names and values with `=` between them, joined by `&`. -/
def encodeQuery (parameters : Record String) : List Char :=
  ['&'].intercalate (parameters.map fun e => encode e.1.toList ++ '=' :: encode e.2.toList)

def decodeParameter (form : Bool) (part : List Char) : Option (String × String) :=
  (decode form (part.takeWhile (· ≠ '='))).bind fun name =>
    (decode form (part.dropWhile (· ≠ '=')).tail).map fun value => (String.ofList name, String.ofList value)

def decodeQuery (form : Bool) (query : List Char) : Option (Record String) :=
  (query.splitOn '&').mapM (decodeParameter form)

section

variable {form : Bool} {c : Char}

theorem hexValue_hexDigit : ∀ n < 16, hexValue (hexDigit n) = some n := by decide

theorem isUnreserved_hexDigit : ∀ n < 16, isUnreserved (hexDigit n) = true := by decide

theorem bytesOf_encodeByte (b : UInt8) (rest : List Char) :
    bytesOf form (encodeByte b ++ rest) = (bytesOf form rest).map (b :: ·) := by
  have hlt := b.toNat_lt
  have hvalue : UInt8.ofNat (16 * (b.toNat / 16) + b.toNat % 16) = b := by
    rw [Nat.div_add_mod, UInt8.ofNat_toNat]
  rw [encodeByte, List.cons_append, List.cons_append, List.cons_append, List.nil_append, bytesOf,
    hexValue_hexDigit _ (by omega), hexValue_hexDigit _ (by omega), Option.bind_some, Option.bind_some, hvalue]

theorem bytesOf_encodeBytes (bytes : List UInt8) (rest : List Char) :
    bytesOf form (bytes.flatMap encodeByte ++ rest) = (bytesOf form rest).map (bytes ++ ·) := by
  induction bytes with
  | nil => simp
  | cons b bytes ih =>
    rw [List.flatMap_cons, List.append_assoc, bytesOf_encodeByte, ih, Option.map_map]
    rfl

theorem bytesOf_cons (hpercent : c ≠ '%') (hplus : c ≠ '+') (rest : List Char) :
    bytesOf form (c :: rest) = (bytesOf form rest).map (String.utf8EncodeChar c ++ ·) := by
  rw [bytesOf]
  · simp [hplus]
  · intro _ _ _ heq
    exact absurd heq hpercent
  · exact hpercent

theorem bytesOf_encode (text : List Char) :
    bytesOf form (encode text) = some (text.flatMap String.utf8EncodeChar) := by
  induction text with
  | nil => rfl
  | cons c text ih =>
    rw [encode, List.flatMap_cons, ← encode, encodeChar, List.flatMap_cons]
    split
    · rename_i hplain
      have hpercent : c ≠ '%' := by
        rintro rfl
        cases hplain
      have hplus : c ≠ '+' := by
        rintro rfl
        cases hplain
      rw [List.singleton_append, bytesOf_cons hpercent hplus, ih, Option.map_some]
    · rw [bytesOf_encodeBytes, ih, Option.map_some]

theorem decode_encode (text : List Char) : decode form (encode text) = some text := by
  have hbytes : (text.flatMap String.utf8EncodeChar).toByteArray.utf8Decode? = some text.toArray :=
    List.utf8Decode?_utf8Encode
  rw [decode, bytesOf_encode, Option.bind_some, hbytes]
  simp

theorem encode_ne_nil {text : List Char} (h : text ≠ []) : encode text ≠ [] := by
  intro hnil
  have hdecode : decode false (encode []) = some text := by
    have hnone : encode [] = [] := rfl
    rw [hnone, ← hnil, decode_encode]
  rw [decode_encode] at hdecode
  exact h (Option.some.inj hdecode).symm

theorem encode_of_unreserved {text : List Char} (h : ∀ c ∈ text, isUnreserved c = true) : encode text = text := by
  induction text with
  | nil => rfl
  | cons c text ih =>
    rw [encode, List.flatMap_cons, ← encode, encodeChar, if_pos (h c List.mem_cons_self),
      ih (fun d hd => h d (List.mem_cons_of_mem _ hd)), List.singleton_append]

theorem mem_encode {text : List Char} (h : c ∈ encode text) : isUnreserved c = true ∨ c = '%' := by
  obtain ⟨d, -, hc⟩ := List.mem_flatMap.mp h
  rw [encodeChar] at hc
  split at hc
  · rename_i hplain
    rw [List.mem_singleton.mp hc]
    exact .inl hplain
  · obtain ⟨b, -, hc⟩ := List.mem_flatMap.mp hc
    have hlt := b.toNat_lt
    obtain rfl | hc := List.mem_cons.mp hc
    · exact .inr rfl
    obtain rfl | hc := List.mem_cons.mp hc
    · exact .inl (isUnreserved_hexDigit _ (by omega))
    · rw [List.mem_singleton.mp hc]
      exact .inl (isUnreserved_hexDigit _ (by omega))

theorem separator_not_mem_encode {text : List Char} : '&' ∉ encode text ∧ '=' ∉ encode text := by
  constructor
  · intro h
    obtain hplain | heq := mem_encode h
    · cases hplain
    · cases heq
  · intro h
    obtain hplain | heq := mem_encode h
    · cases hplain
    · cases heq

/-- A written parameter is cut at its first `=`. -/
theorem decodeParameter_encode (name value : String) :
    decodeParameter form (encode name.toList ++ '=' :: encode value.toList) = some (name, value) := by
  have hname : ∀ c ∈ encode name.toList, decide (c ≠ '=') = true := by
    intro c hc
    refine decide_eq_true ?_
    rintro rfl
    exact separator_not_mem_encode.2 hc
  have htake : (encode name.toList ++ '=' :: encode value.toList).takeWhile (fun c => decide (c ≠ '=')) =
      encode name.toList := by
    rw [List.takeWhile_append_of_pos hname]
    simp
  have hdrop : (encode name.toList ++ '=' :: encode value.toList).dropWhile (fun c => decide (c ≠ '=')) =
      '=' :: encode value.toList := by
    rw [List.dropWhile_append_of_pos hname]
    rfl
  rw [decodeParameter, htake, hdrop, List.tail_cons, decode_encode, decode_encode, Option.bind_some, Option.map_some,
    String.ofList_toList, String.ofList_toList]

theorem decodeQuery_encodeQuery {parameters : Record String} (hne : parameters ≠ []) :
    decodeQuery form (encodeQuery parameters) = some parameters := by
  have hparts : ∀ part ∈ parameters.map (fun e => encode e.1.toList ++ '=' :: encode e.2.toList), '&' ∉ part := by
    intro part hpart
    obtain ⟨e, -, rfl⟩ := List.mem_map.mp hpart
    intro hmem
    obtain hmem | hmem := List.mem_append.mp hmem
    · exact separator_not_mem_encode.1 hmem
    · obtain heq | hmem := List.mem_cons.mp hmem
      · cases heq
      · exact separator_not_mem_encode.1 hmem
  have hread (l : Record String) :
      (l.map (fun e => encode e.1.toList ++ '=' :: encode e.2.toList)).mapM (decodeParameter form) = some l := by
    induction l with
    | nil => rfl
    | cons e l ih =>
      rw [List.map_cons, List.mapM_cons, decodeParameter_encode, ih]
      rfl
  rw [decodeQuery, encodeQuery, List.splitOn_intercalate '&' hparts (by simpa using hne), hread]

end

end RentalMarket.Percent
