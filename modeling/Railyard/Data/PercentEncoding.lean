import Railyard.Data.Encoding

/-!
# Percent-encoding

How a text becomes a segment of the path of a URL: the bytes that cannot stand there are written
with their number, and the reader of the path takes them back.

* `percentEncode`: the segment for a text;
* `percentDecode_percentEncode`: decoding gives the text back;
* `percentEncode_clean`: the segment has no slash and no question mark in it.
-/

set_option autoImplicit false

namespace Encoding

/-! ## Encoding -/

/-- The bytes that stand for themselves in a segment. -/
def standsInSegment (b : UInt8) : Bool :=
  32 < b ∧ b < 127 ∧ b ∉ ([34, 35, 37, 47, 60, 62, 63, 92, 96, 123, 125] : Bytes)

def upperHex (n : ℕ) : UInt8 := UInt8.ofNat (if n < 10 then 48 + n else 55 + n)

def percentEncodeByte (b : UInt8) : Bytes :=
  if standsInSegment b then [b] else [37, upperHex (b.toNat / 16), upperHex (b.toNat % 16)]

/-- A text as a segment of a path. -/
def percentEncode (s : String) : String :=
  String.ofList (((asBytes s).flatMap percentEncodeByte).map byteChar)

example : percentEncode "a/b?é" = "a%2Fb%3F%C3%A9" := by decide

/-! ## Decoding -/

theorem hexValue_upperHex : ∀ n < 16, hexValue (upperHex n) = some (UInt8.ofNat n) := by decide

theorem percentDecodeBytes_cons {b : UInt8} (h : b ≠ 37) (bs : Bytes) :
    percentDecodeBytes (b :: bs) = b :: percentDecodeBytes bs := by
  match bs with
  | [] => rfl
  | [_] => rfl
  | c :: d :: bs =>
    rw [percentDecodeBytes]
    exact fun _ _ hb _ _ ↦ h hb

theorem percentDecodeBytes_encodeByte (b : UInt8) (bs : Bytes) :
    percentDecodeBytes (percentEncodeByte b ++ bs) = b :: percentDecodeBytes bs := by
  have hlt := b.toNat_lt
  rw [percentEncodeByte]
  split
  · rename_i hstands
    rw [List.singleton_append]
    refine percentDecodeBytes_cons ?_ bs
    rintro rfl
    exact absurd hstands (by decide)
  · have hbyte : 16 * UInt8.ofNat (b.toNat / 16) + UInt8.ofNat (b.toNat % 16) = b := by
      refine UInt8.toNat_inj.mp ?_
      rw [UInt8.toNat_add, UInt8.toNat_mul,
        UInt8.toNat_ofNat_of_lt' (show b.toNat / 16 < 256 by omega),
        UInt8.toNat_ofNat_of_lt' (show b.toNat % 16 < 256 by omega)]
      show (16 * (b.toNat / 16) % 256 + b.toNat % 16) % 256 = b.toNat
      omega
    simp only [List.cons_append, List.nil_append, percentDecodeBytes,
      hexValue_upperHex _ (show b.toNat / 16 < 16 by omega),
      hexValue_upperHex _ (show b.toNat % 16 < 16 by omega), hbyte]

theorem percentDecodeBytes_flatMap (bs : Bytes) :
    percentDecodeBytes (bs.flatMap percentEncodeByte) = bs := by
  induction bs with
  | nil => rfl
  | cons b bs ih => rw [List.flatMap_cons, percentDecodeBytes_encodeByte, ih]

/-! ## The bytes of a segment -/

theorem ascii_percentEncodeByte {b c : UInt8} (h : c ∈ percentEncodeByte b) : c.toNat < 128 := by
  have hdigit : ∀ n < 16, (upperHex n).toNat < 128 := by decide
  have hlt := b.toNat_lt
  rw [percentEncodeByte] at h
  split at h
  · rename_i hstands
    rw [List.mem_singleton.mp h]
    have hascii : b < 127 := (of_decide_eq_true hstands).2.1
    exact Nat.lt_trans hascii (by decide)
  · simp only [List.mem_cons, List.not_mem_nil, or_false] at h
    rcases h with rfl | rfl | rfl
    · decide
    · exact hdigit _ (by omega)
    · exact hdigit _ (by omega)

theorem asBytes_percentEncode (s : String) :
    asBytes (percentEncode s) = (asBytes s).flatMap percentEncodeByte := by
  refine asBytes_ofList_byteChar fun c hc ↦ ?_
  obtain ⟨b, -, hb⟩ := List.mem_flatMap.mp hc
  exact ascii_percentEncodeByte hb

/-- **Decoding gives the text back.** -/
theorem percentDecode_percentEncode (s : String) : percentDecode (percentEncode s) = some s := by
  rw [percentDecode, asBytes_percentEncode, percentDecodeBytes_flatMap, fromUTF8_asBytes]

theorem clean_percentEncodeByte {b c : UInt8} (h : c ∈ percentEncodeByte b) :
    c ≠ 47 ∧ c ≠ 63 := by
  have hdigit : ∀ n < 16, upperHex n ≠ 47 ∧ upperHex n ≠ 63 := by decide
  have hlt := b.toNat_lt
  rw [percentEncodeByte] at h
  split at h
  · rename_i hstands
    rw [List.mem_singleton.mp h]
    constructor <;> rintro rfl <;> exact absurd hstands (by decide)
  · simp only [List.mem_cons, List.not_mem_nil, or_false] at h
    rcases h with rfl | rfl | rfl
    · decide
    · exact hdigit _ (by omega)
    · exact hdigit _ (by omega)

/-- **Nothing in a segment ends it.** -/
theorem percentEncode_clean {s : String} {c : Char} (h : c ∈ (percentEncode s).toList) :
    c ≠ '/' ∧ c ≠ '?' := by
  rw [percentEncode, String.toList_ofList] at h
  obtain ⟨b, hb, rfl⟩ := List.mem_map.mp h
  obtain ⟨a, -, ha⟩ := List.mem_flatMap.mp hb
  obtain ⟨hslash, hmark⟩ := clean_percentEncodeByte ha
  have hchar : ∀ d : UInt8, d.toNat < 128 → byteChar b = byteChar d → b = d := by
    intro d hd heq
    have hnat := congrArg Char.toNat heq
    rw [toNat_byteChar (ascii_percentEncodeByte ha), toNat_byteChar hd] at hnat
    exact UInt8.toNat_inj.mp hnat
  exact ⟨fun heq ↦ hslash (hchar 47 (by decide) heq), fun heq ↦ hmark (hchar 63 (by decide) heq)⟩

/-- Lowercase letters stand for themselves. -/
theorem percentEncode_letters {s : String} (h : ∀ c ∈ s.toList, 'a' ≤ c ∧ c ≤ 'z') :
    percentEncode s = s := by
  have hnat : ∀ c ∈ s.toList, 97 ≤ c.toNat ∧ c.toNat ≤ 122 := h
  have hbyte : ∀ c ∈ s.toList, (UInt8.ofNat c.toNat).toNat = c.toNat := fun c hc ↦
    UInt8.toNat_ofNat_of_lt' (show c.toNat < 256 by have := hnat c hc; omega)
  have hback : (s.toList.map fun c ↦ UInt8.ofNat c.toNat).map byteChar = s.toList := by
    rw [List.map_map]
    refine (List.map_congr_left fun c hc ↦ ?_).trans (List.map_id _)
    show Char.ofNat (UInt8.ofNat c.toNat).toNat = c
    rw [hbyte c hc, Char.ofNat_toNat]
  have hbytes : asBytes s = s.toList.map fun c ↦ UInt8.ofNat c.toNat := by
    have hascii : ∀ b ∈ s.toList.map fun c ↦ UInt8.ofNat c.toNat, b.toNat < 128 := by
      intro b hb
      obtain ⟨c, hc, rfl⟩ := List.mem_map.mp hb
      have hrange := hnat c hc
      rw [hbyte c hc]
      omega
    have hsplit := asBytes_ofList_byteChar hascii
    rwa [hback, String.ofList_toList] at hsplit
  have hstands : ∀ n < 123, 97 ≤ n → percentEncodeByte (UInt8.ofNat n) = [UInt8.ofNat n] := by
    decide
  have hsame : (asBytes s).flatMap percentEncodeByte = asBytes s := by
    rw [hbytes, List.flatMap_map]
    refine (List.flatMap_congr fun c hc ↦ ?_).trans List.map_eq_flatMap.symm
    have hrange := hnat c hc
    exact hstands c.toNat (by omega) hrange.1
  rw [percentEncode, hsame, hbytes, hback, String.ofList_toList]

end Encoding
