import Railyard.Data.Encoding

/-!
# URL-safe base64 without padding

Three bytes are four digits of six bits each.  One or two bytes left at the end are two or three
digits, whose last bits are zero; reading refuses anything else there, a digit left over, and every
character that is no digit, padding included.

* `encode`, `decode`: writing and reading;
* `decode_encode`: reading inverts writing.
-/

set_option autoImplicit false

namespace Data.Base64

/-! ## Digits -/

/-- The digit of a number below 64. -/
def digit (n : ℕ) : Char :=
  "ABCDEFGHIJKLMNOPQRSTUVWXYZabcdefghijklmnopqrstuvwxyz0123456789-_".toList.getD n '_'

/-- The number of a digit. -/
def value (c : Char) : Option ℕ :=
  if 'A' ≤ c ∧ c ≤ 'Z' then some (c.toNat - 65)
  else if 'a' ≤ c ∧ c ≤ 'z' then some (c.toNat - 71)
  else if '0' ≤ c ∧ c ≤ '9' then some (c.toNat + 4)
  else if c = '-' then some 62
  else if c = '_' then some 63
  else none

theorem value_digit : ∀ n < 64, value (digit n) = some n := by decide +kernel

theorem not_isWhitespace_digit (n : ℕ) : Encoding.isWhitespace (digit n) = false := by
  have hall : "ABCDEFGHIJKLMNOPQRSTUVWXYZabcdefghijklmnopqrstuvwxyz0123456789-_".toList.all
      (fun c ↦ !Encoding.isWhitespace c) = true := by
    decide
  rw [digit, List.getD_eq_getElem?_getD]
  cases h : "ABCDEFGHIJKLMNOPQRSTUVWXYZabcdefghijklmnopqrstuvwxyz0123456789-_".toList[n]? with
  | none => decide
  | some c => simpa using List.all_eq_true.mp hall c (List.mem_of_getElem? h)

/-! ## Writing and reading -/

/-- The digits of some bytes. -/
def digits : Bytes → List Char
  | [] => []
  | [a] => [digit (a.toNat / 4), digit (a.toNat % 4 * 16)]
  | [a, b] =>
    [digit (a.toNat / 4), digit (a.toNat % 4 * 16 + b.toNat / 16), digit (b.toNat % 16 * 4)]
  | a :: b :: c :: rest =>
    digit (a.toNat / 4) :: digit (a.toNat % 4 * 16 + b.toNat / 16) ::
      digit (b.toNat % 16 * 4 + c.toNat / 64) :: digit (c.toNat % 64) :: digits rest

/-- The bytes of some digits. -/
def bytes : List Char → Option Bytes
  | [] => some []
  | [_] => none
  | [c, d] => do
    let w ← value c
    let x ← value d
    if x % 16 = 0 then return [UInt8.ofNat (w * 4 + x / 16)] else none
  | [c, d, e] => do
    let w ← value c
    let x ← value d
    let y ← value e
    if y % 4 = 0 then return [UInt8.ofNat (w * 4 + x / 16), UInt8.ofNat (x % 16 * 16 + y / 4)]
    else none
  | c :: d :: e :: f :: rest => do
    let w ← value c
    let x ← value d
    let y ← value e
    let z ← value f
    let more ← bytes rest
    return UInt8.ofNat (w * 4 + x / 16) :: UInt8.ofNat (x % 16 * 16 + y / 4) ::
      UInt8.ofNat (y % 4 * 64 + z) :: more

/-- `URL_SAFE_NO_PAD.encode` -/
def encode (bs : Bytes) : String := String.ofList (digits bs)

/-- `URL_SAFE_NO_PAD.decode` -/
def decode (s : String) : Option Bytes := bytes s.toList

/-! ## Round trip -/

theorem ofNat_eq {n : ℕ} {b : UInt8} (h : n = b.toNat) : UInt8.ofNat n = b := by
  rw [h, UInt8.ofNat_toNat]

theorem bytes_digits (bs : Bytes) : bytes (digits bs) = some bs := by
  induction bs using digits.induct with
  | case1 => rfl
  | case2 a =>
    have ha := a.toNat_lt
    have hfirst : UInt8.ofNat (a.toNat / 4 * 4 + a.toNat % 4 * 16 / 16) = a := ofNat_eq (by omega)
    simp only [digits, bytes, value_digit _ (show a.toNat / 4 < 64 by omega),
      value_digit _ (show a.toNat % 4 * 16 < 64 by omega), Option.bind_eq_bind, Option.bind_some,
      hfirst]
    exact if_pos (by omega)
  | case3 a b =>
    have ha := a.toNat_lt
    have hb := b.toNat_lt
    have hfirst : UInt8.ofNat (a.toNat / 4 * 4 + (a.toNat % 4 * 16 + b.toNat / 16) / 16) = a :=
      ofNat_eq (by omega)
    have hsecond : UInt8.ofNat ((a.toNat % 4 * 16 + b.toNat / 16) % 16 * 16 +
        b.toNat % 16 * 4 / 4) = b := ofNat_eq (by omega)
    simp only [digits, bytes, value_digit _ (show a.toNat / 4 < 64 by omega),
      value_digit _ (show a.toNat % 4 * 16 + b.toNat / 16 < 64 by omega),
      value_digit _ (show b.toNat % 16 * 4 < 64 by omega), Option.bind_eq_bind, Option.bind_some,
      hfirst, hsecond]
    exact if_pos (by omega)
  | case4 a b c rest ih =>
    have ha := a.toNat_lt
    have hb := b.toNat_lt
    have hc := c.toNat_lt
    have hfirst : UInt8.ofNat (a.toNat / 4 * 4 + (a.toNat % 4 * 16 + b.toNat / 16) / 16) = a :=
      ofNat_eq (by omega)
    have hsecond : UInt8.ofNat ((a.toNat % 4 * 16 + b.toNat / 16) % 16 * 16 +
        (b.toNat % 16 * 4 + c.toNat / 64) / 4) = b := ofNat_eq (by omega)
    have hthird : UInt8.ofNat ((b.toNat % 16 * 4 + c.toNat / 64) % 4 * 64 + c.toNat % 64) = c :=
      ofNat_eq (by omega)
    simp only [digits, bytes, value_digit _ (show a.toNat / 4 < 64 by omega),
      value_digit _ (show a.toNat % 4 * 16 + b.toNat / 16 < 64 by omega),
      value_digit _ (show b.toNat % 16 * 4 + c.toNat / 64 < 64 by omega),
      value_digit _ (show c.toNat % 64 < 64 by omega), Option.bind_eq_bind, Option.bind_some, ih,
      hfirst, hsecond, hthird]
    rfl

/-- **Base64 round trip.** -/
theorem decode_encode (bs : Bytes) : decode (encode bs) = some bs := by
  rw [decode, encode, String.toList_ofList, bytes_digits]

/-- Nothing that is written is white space. -/
theorem not_isWhitespace_encode {bs : Bytes} {c : Char} (h : c ∈ (encode bs).toList) :
    Encoding.isWhitespace c = false := by
  rw [encode, String.toList_ofList] at h
  induction bs using digits.induct with
  | case1 => cases h
  | case2 a =>
    simp only [digits, List.mem_cons, List.not_mem_nil, or_false] at h
    rcases h with rfl | rfl <;> exact not_isWhitespace_digit _
  | case3 a b =>
    simp only [digits, List.mem_cons, List.not_mem_nil, or_false] at h
    rcases h with rfl | rfl | rfl <;> exact not_isWhitespace_digit _
  | case4 a b c' rest ih =>
    simp only [digits, List.mem_cons] at h
    rcases h with rfl | rfl | rfl | rfl | h
    · exact not_isWhitespace_digit _
    · exact not_isWhitespace_digit _
    · exact not_isWhitespace_digit _
    · exact not_isWhitespace_digit _
    · exact ih h

end Data.Base64
