import Mathlib.Data.List.Basic

namespace RentalMarket.Base64

def digit (n : Nat) : Char :=
  if n < 26 then Char.ofNat (65 + n)
  else if n < 52 then Char.ofNat (71 + n)
  else if n < 62 then Char.ofNat (n - 4)
  else if n = 62 then '+'
  else '/'

/-- The digits of both alphabets, the ordinary one and that of URLs. -/
def value (c : Char) : Option Nat :=
  if 'A' ≤ c ∧ c ≤ 'Z' then some (c.toNat - 65)
  else if 'a' ≤ c ∧ c ≤ 'z' then some (c.toNat - 71)
  else if '0' ≤ c ∧ c ≤ '9' then some (c.toNat + 4)
  else if c = '+' ∨ c = '-' then some 62
  else if c = '/' ∨ c = '_' then some 63
  else none

/-- The bits of the bytes, six at a time, with zeros after the last. -/
def sixes : List UInt8 → List Nat
  | [] => []
  | [a] => [a.toNat / 4, a.toNat % 4 * 16]
  | [a, b] => [a.toNat / 4, a.toNat % 4 * 16 + b.toNat / 16, b.toNat % 16 * 4]
  | a :: b :: c :: rest => a.toNat / 4 :: (a.toNat % 4 * 16 + b.toNat / 16) ::
      (b.toNat % 16 * 4 + c.toNat / 64) :: c.toNat % 64 :: sixes rest

def bytesOf : List Nat → List UInt8
  | p :: q :: r :: s :: rest => UInt8.ofNat (p * 4 + q / 16) :: UInt8.ofNat (q % 16 * 16 + r / 4) ::
      UInt8.ofNat (r % 4 * 64 + s) :: bytesOf rest
  | [p, q, r] => [UInt8.ofNat (p * 4 + q / 16), UInt8.ofNat (q % 16 * 16 + r / 4)]
  | [p, q] => [UInt8.ofNat (p * 4 + q / 16)]
  | _ => []

def padding (length : Nat) : List Char := List.replicate ((3 - length % 3) % 3) '='

def encode (bytes : List UInt8) : List Char := (sixes bytes).map digit ++ padding bytes.length

/-- Reading ends at the first `=` and passes over what is no digit. -/
def decode (text : List Char) : List UInt8 :=
  bytesOf ((text.takeWhile (· ≠ '=')).filterMap value)

theorem value_digit : ∀ n < 64, value (digit n) = some n := by decide

theorem digit_ne_pad : ∀ n < 64, digit n ≠ '=' := by decide

theorem sixes_lt (bytes : List UInt8) : ∀ n ∈ sixes bytes, n < 64 := by
  induction bytes using sixes.induct with
  | case1 => simp [sixes]
  | case2 a =>
    have ha := a.toNat_lt
    simp only [sixes, List.mem_cons, List.not_mem_nil, or_false, forall_eq_or_imp, forall_eq]
    omega
  | case3 a b =>
    have ha := a.toNat_lt
    have hb := b.toNat_lt
    simp only [sixes, List.mem_cons, List.not_mem_nil, or_false, forall_eq_or_imp, forall_eq]
    omega
  | case4 a b c rest ih =>
    have ha := a.toNat_lt
    have hb := b.toNat_lt
    have hc := c.toNat_lt
    simp only [sixes, List.mem_cons, forall_eq_or_imp]
    refine ⟨by omega, by omega, by omega, by omega, ih⟩

theorem ofNat_eq {a : UInt8} {n : Nat} (h : n = a.toNat) : UInt8.ofNat n = a := by
  rw [h, UInt8.ofNat_toNat]

theorem bytesOf_sixes (bytes : List UInt8) : bytesOf (sixes bytes) = bytes := by
  induction bytes using sixes.induct with
  | case1 => rfl
  | case2 a =>
    rw [sixes, bytesOf, ofNat_eq (a := a) (by omega)]
  | case3 a b =>
    have hb := b.toNat_lt
    rw [sixes, bytesOf, ofNat_eq (a := a) (by omega), ofNat_eq (a := b) (by omega)]
  | case4 a b c rest ih =>
    have hb := b.toNat_lt
    have hc := c.toNat_lt
    rw [sixes, bytesOf, ofNat_eq (a := a) (by omega), ofNat_eq (a := b) (by omega),
      ofNat_eq (a := c) (by omega), ih]

theorem takeWhile_encode (bytes : List UInt8) :
    (encode bytes).takeWhile (· ≠ '=') = (sixes bytes).map digit := by
  have hdigits : ∀ c ∈ (sixes bytes).map digit, decide (c ≠ '=') = true := by
    intro c hc
    obtain ⟨n, hn, rfl⟩ := List.mem_map.mp hc
    exact decide_eq_true (digit_ne_pad n (sixes_lt bytes n hn))
  rw [encode, List.takeWhile_append_of_pos hdigits, padding]
  cases (3 - bytes.length % 3) % 3 with
  | zero => simp
  | succ k => rw [List.replicate_succ, List.takeWhile_cons_of_neg (by simp), List.append_nil]

theorem decode_encode (bytes : List UInt8) : decode (encode bytes) = bytes := by
  have hvalues : ((sixes bytes).map digit).filterMap value = sixes bytes := by
    rw [List.filterMap_map]
    calc (sixes bytes).filterMap (value ∘ digit)
        = (sixes bytes).filterMap some :=
          List.filterMap_congr (fun n hn => value_digit n (sixes_lt bytes n hn))
      _ = sixes bytes := List.filterMap_some
  rw [decode, takeWhile_encode, hvalues, bytesOf_sixes]

def IsPart (c : Char) : Prop := c.isAlphanum = true ∨ c = '+' ∨ c = '/' ∨ c = '='

theorem isPart_digit : ∀ n < 64, (digit n).isAlphanum = true ∨ digit n = '+' ∨ digit n = '/' := by
  decide

theorem isPart_of_mem {bytes : List UInt8} {c : Char} (hc : c ∈ encode bytes) : IsPart c := by
  obtain hc | hc := List.mem_append.mp hc
  · obtain ⟨n, hn, rfl⟩ := List.mem_map.mp hc
    obtain h | h | h := isPart_digit n (sixes_lt bytes n hn)
    · exact .inl h
    · exact .inr (.inl h)
    · exact .inr (.inr (.inl h))
  · exact .inr (.inr (.inr (List.eq_of_mem_replicate hc)))

theorem encode_ne_nil {bytes : List UInt8} (h : bytes ≠ []) : encode bytes ≠ [] := by
  intro hnil
  have hbytes := decode_encode bytes
  rw [hnil] at hbytes
  exact h hbytes.symm

end RentalMarket.Base64
