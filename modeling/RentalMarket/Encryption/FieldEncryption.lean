import RentalMarket.Lib.Base64

namespace RentalMarket.Encryption

open Base64

abbrev Bytes := List UInt8

def utf8 (s : String) : Bytes := s.toList.flatMap String.utf8EncodeChar

/-- What the platform computes under one key: the stream of AES-256 in counter
mode, the tag of Galois mode, and the text that some bytes are. -/
structure Cipher where
  stream : Bytes → Nat → Bytes
  length_stream : ∀ iv n, (stream iv n).length = n
  tag : Bytes → Bytes → Bytes → Bytes
  length_tag : ∀ iv aad ciphertext, (tag iv aad ciphertext).length = 16
  toText : Bytes → String
  toText_utf8 : ∀ s, toText (utf8 s) = s

def keyBytes : Nat := 32

/-- `createFieldEncryptor`: only a key of the right length makes an encryptor. -/
def createFieldEncryptor (cipherOf : Bytes → Cipher) (base64Key : String) : Except String Cipher :=
  let key := decode base64Key.toList
  if key.length ≠ keyBytes then
    .error ("Encryption key must be " ++ toString keyBytes ++ " bytes, got " ++ toString key.length)
  else .ok (cipherOf key)

def ivBytes : Nat := 12

/-- The lengths of a tag that the platform takes. A short one is compared with
the beginning of the tag. -/
def tagLengths : List Nat := [4, 8, 12, 13, 14, 15, 16]

def notAnEnvelope : String := "Stored value is not a recognised envelope"

def notDecryptable : String := "Stored value could not be decrypted"

def isPart (c : Char) : Bool := c.isAlphanum || c = '+' || c = '/' || c = '='

structure Parts where
  iv : List Char
  tag : List Char
  ciphertext : List Char
  deriving DecidableEq, Repr

/-- `ENVELOPE`: the version, and three parts of which the first two are not
empty. No part has a colon in it. -/
def parts (envelope : List Char) : Option Parts :=
  match envelope.splitOn ':' with
  | [version, iv, tag, ciphertext] =>
    if version = ['v', '1'] ∧ iv ≠ [] ∧ tag ≠ [] ∧ iv.all isPart ∧ tag.all isPart ∧
      ciphertext.all isPart then some ⟨iv, tag, ciphertext⟩
    else none
  | _ => none

def xor (stream text : Bytes) : Bytes := List.zipWith (· ^^^ ·) stream text

section

variable (c : Cipher)

/-- The platform takes this tag for the ciphertext in its context. -/
def Cipher.accepts (iv aad tag ciphertext : Bytes) : Bool :=
  iv ≠ [] && tagLengths.contains tag.length && (c.tag iv aad ciphertext).take tag.length == tag

def sealed (iv : Bytes) (plaintext : String) : Bytes :=
  xor (c.stream iv (utf8 plaintext).length) (utf8 plaintext)

def encrypt (iv : Bytes) (plaintext context : String) : String :=
  String.ofList ([':'].intercalate [['v', '1'], encode iv,
    encode (c.tag iv (utf8 context) (sealed c iv plaintext)), encode (sealed c iv plaintext)])

def decrypt (envelope context : String) : Except String String :=
  match parts envelope.toList with
  | none => .error notAnEnvelope
  | some p =>
    let iv := decode p.iv
    let ciphertext := decode p.ciphertext
    if c.accepts iv (utf8 context) (decode p.tag) ciphertext then
      .ok (c.toText (xor (c.stream iv ciphertext.length) ciphertext))
    else .error notDecryptable

end

section

variable {c : Cipher} {iv : Bytes} {plaintext context : String}

theorem xor_length {a b : Bytes} (h : a.length = b.length) : (xor a b).length = b.length := by
  rw [xor, List.length_zipWith, h, Nat.min_self]

theorem xor_xor {a b : Bytes} (h : a.length = b.length) : xor a (xor a b) = b := by
  induction a generalizing b with
  | nil =>
    cases b with
    | nil => rfl
    | cons y b => cases h
  | cons x a ih =>
    cases b with
    | nil => cases h
    | cons y b =>
      have hbyte : x ^^^ (x ^^^ y) = y := by rw [← UInt8.xor_assoc, UInt8.xor_self, UInt8.zero_xor]
      have htail := ih (Nat.succ.inj h)
      simp only [xor, List.zipWith_cons_cons] at htail ⊢
      rw [hbyte, htail]

theorem length_sealed (iv : Bytes) (plaintext : String) :
    (sealed c iv plaintext).length = (utf8 plaintext).length := xor_length (c.length_stream _ _)

theorem unsealed (iv : Bytes) (plaintext : String) :
    xor (c.stream iv (sealed c iv plaintext).length) (sealed c iv plaintext) = utf8 plaintext := by
  rw [length_sealed]
  exact xor_xor (c.length_stream _ _)

theorem isPart_encode (bytes : Bytes) : (encode bytes).all isPart = true := by
  rw [List.all_eq_true]
  intro d hd
  obtain h | rfl | rfl | rfl := isPart_of_mem hd
  · simp [isPart, h]
  · rfl
  · rfl
  · rfl

theorem colon_not_mem {part : List Char} (h : part.all isPart = true) : ':' ∉ part := by
  intro hmem
  have := List.all_eq_true.mp h ':' hmem
  cases this

theorem parts_encrypt (hiv : iv ≠ []) : parts (encrypt c iv plaintext context).toList =
    some ⟨encode iv, encode (c.tag iv (utf8 context) (sealed c iv plaintext)),
      encode (sealed c iv plaintext)⟩ := by
  have htag : c.tag iv (utf8 context) (sealed c iv plaintext) ≠ [] := by
    intro hnil
    have hlength := c.length_tag iv (utf8 context) (sealed c iv plaintext)
    rw [hnil] at hlength
    cases hlength
  have hfree : ∀ part ∈ [['v', '1'], encode iv,
      encode (c.tag iv (utf8 context) (sealed c iv plaintext)), encode (sealed c iv plaintext)],
      ':' ∉ part := by
    intro part hpart
    simp only [List.mem_cons, List.not_mem_nil, or_false] at hpart
    obtain rfl | rfl | rfl | rfl := hpart
    · decide
    · exact colon_not_mem (isPart_encode _)
    · exact colon_not_mem (isPart_encode _)
    · exact colon_not_mem (isPart_encode _)
  rw [parts, encrypt, String.toList_ofList, List.splitOn_intercalate ':' hfree (by simp)]
  exact if_pos ⟨rfl, encode_ne_nil hiv, encode_ne_nil htag, isPart_encode _, isPart_encode _,
    isPart_encode _⟩

theorem accepts_own_tag (hiv : iv ≠ []) (aad ciphertext : Bytes) :
    c.accepts iv aad (c.tag iv aad ciphertext) ciphertext = true := by
  have hlength := c.length_tag iv aad ciphertext
  have hwhole : (c.tag iv aad ciphertext).take 16 = c.tag iv aad ciphertext :=
    List.take_of_length_le (by omega)
  simp [Cipher.accepts, hiv, hlength, tagLengths, hwhole]

theorem decrypt_encrypt (hiv : iv ≠ []) :
    decrypt c (encrypt c iv plaintext context) context = .ok plaintext := by
  rw [decrypt, parts_encrypt hiv]
  simp only [decode_encode, accepts_own_tag hiv, if_true, unsealed, c.toText_utf8]

theorem decrypt_eq_ok {envelope : String} (h : decrypt c envelope context = .ok plaintext) :
    ∃ p, parts envelope.toList = some p ∧
      c.accepts (decode p.iv) (utf8 context) (decode p.tag) (decode p.ciphertext) = true ∧
      plaintext = c.toText (xor (c.stream (decode p.iv) (decode p.ciphertext).length) (decode p.ciphertext)) := by
  unfold decrypt at h
  split at h
  · cases h
  · rename_i p hp
    obtain haccepts | haccepts := Bool.eq_false_or_eq_true
        (c.accepts (decode p.iv) (utf8 context) (decode p.tag) (decode p.ciphertext))
    · simp only [haccepts, if_true, Except.ok.injEq] at h
      exact ⟨p, hp, haccepts, h.symm⟩
    · simp [haccepts] at h

end

end RentalMarket.Encryption
