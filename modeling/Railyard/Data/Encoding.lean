import Mathlib.Algebra.Group.Nat.Defs
import Mathlib.Data.List.Basic
import Mathlib.Data.Nat.Basic

/-!
# Bytes and text

The byte and text functions the program takes from its standard library and from small crates,
written out as they are documented: hexadecimal printing, decimal parsing, ASCII lowercasing,
searching and splitting, percent-decoding and the splitting of a path into segments.  A string is a
`String`; where the program works on its bytes they are its UTF-8 encoding (`asBytes`).
-/

set_option autoImplicit false

/-- A byte string. -/
abbrev Bytes := List UInt8

namespace Encoding

/-- A sequence succeeds only when its first step does. -/
theorem bind_eq_ok {ε A B : Type} {x : Except ε A} {f : A → Except ε B} {b : B}
    (h : x >>= f = .ok b) : ∃ a, x = .ok a ∧ f a = .ok b := by
  cases x with
  | error e => simp [bind, Except.bind] at h
  | ok a => exact ⟨a, rfl, h⟩

/-- The UTF-8 bytes of a string. -/
def asBytes (s : String) : Bytes := s.toUTF8.data.toList

/-- The character of an ASCII byte. -/
def byteChar (b : UInt8) : Char := Char.ofNat b.toNat

/-- A character as the debug format of a string prints it.  Of the characters beyond ASCII, only the
controls and the soft hyphen are printed by their number here. -/
def debugChar (c : Char) : List Char :=
  if c = '\x00' then ['\\', '0']
  else if c = '\t' then ['\\', 't']
  else if c = '\r' then ['\\', 'r']
  else if c = '\n' then ['\\', 'n']
  else if c = '"' ∨ c = '\\' then ['\\', c]
  else if c.toNat < 32 ∨ (127 ≤ c.toNat ∧ c.toNat < 160) ∨ c.toNat = 173 then
    ['\\', 'u', '\x7b'] ++ Nat.toDigits 16 c.toNat ++ ['\x7d']
  else [c]

/-- The debug format of a string. -/
def debugQuote (s : String) : String :=
  String.ofList ('"' :: s.toList.flatMap debugChar ++ ['"'])

example : debugQuote "a\"\x1b\n" = "\"a\\\"\\u\x7b1b\x7d\\n\"" := by decide

theorem fromUTF8_asBytes (s : String) :
    String.fromUTF8? ⟨(asBytes s).toArray⟩ = some s := by
  have hbytes : (⟨(asBytes s).toArray⟩ : ByteArray) = s.toUTF8 := by
    rw [asBytes, Array.toArray_toList]
  rw [hbytes]
  exact dif_pos s.isValidUTF8

theorem toNat_byteChar {b : UInt8} (h : b.toNat < 128) : (byteChar b).toNat = b.toNat := by
  have hall : ∀ n < 128, (Char.ofNat n).toNat = n := by decide
  exact hall b.toNat h

theorem asBytes_ofList_byteChar {bs : Bytes} (h : ∀ b ∈ bs, b.toNat < 128) :
    asBytes (String.ofList (bs.map byteChar)) = bs := by
  have hone : ∀ b ∈ bs, String.utf8EncodeChar (byteChar b) = [b] := by
    intro b hb
    have hval : (byteChar b).val.toNat = b.toNat := toNat_byteChar (h b hb)
    rw [String.utf8EncodeChar]
    simp only [hval, if_pos (show b.toNat ≤ 127 by have := h b hb; omega), UInt8.ofNat_toNat]
  rw [asBytes, String.toUTF8_eq_toByteArray, String.toByteArray_ofList, List.utf8Encode,
    List.data_toByteArray, List.toList_toArray, List.flatMap_map]
  clear h
  induction bs with
  | nil => rfl
  | cons b bs ih =>
    rw [List.flatMap_cons, hone b List.mem_cons_self,
      ih fun b hb ↦ hone b (List.mem_cons_of_mem _ hb), List.singleton_append]

/-! ## Hexadecimal -/

/-- A lowercase hexadecimal digit. -/
def hexDigit (n : ℕ) : Char := "0123456789abcdef".toList.getD n '0'

/-- The two digits of a byte. -/
def hexByte (b : UInt8) : List Char := [hexDigit (b.toNat / 16), hexDigit (b.toNat % 16)]

/-- Lowercase hexadecimal, two digits a byte. -/
def hexEncode (bs : Bytes) : String := String.ofList (bs.flatMap hexByte)

theorem hexEncode_toList (bs : Bytes) : (hexEncode bs).toList = bs.flatMap hexByte :=
  String.toList_ofList

/-- Two digits a byte. -/
theorem hexEncode_length (bs : Bytes) : (hexEncode bs).toList.length = 2 * bs.length := by
  rw [hexEncode_toList]
  induction bs with
  | nil => rfl
  | cons b bs ih =>
    rw [List.flatMap_cons, List.length_append, ih, List.length_cons, hexByte]
    simp only [List.length_cons, List.length_nil]
    omega

theorem hexDigit_cases :
    ∀ n < 16, (hexDigit n).isDigit ∨ ('a' ≤ hexDigit n ∧ hexDigit n ≤ 'f') := by
  decide

/-- Every character is a lowercase hexadecimal digit. -/
theorem mem_hexEncode {bs : Bytes} {c : Char} (h : c ∈ (hexEncode bs).toList) :
    c.isDigit ∨ ('a' ≤ c ∧ c ≤ 'f') := by
  rw [hexEncode_toList] at h
  obtain ⟨b, -, hb⟩ := List.mem_flatMap.mp h
  have hlt := b.toNat_lt
  rw [hexByte, List.mem_pair] at hb
  rcases hb with rfl | rfl
  · exact hexDigit_cases _ (by omega)
  · exact hexDigit_cases _ (by omega)

/-! ## Numbers, case and the characters of a header -/

/-- A decimal number of at least one digit, `none` on any other character. -/
def decimal (cs : List Char) : Option ℕ :=
  if cs.isEmpty then none
  else cs.foldlM (fun n c ↦ if c.isDigit then some (10 * n + (c.toNat - '0'.toNat)) else none) 0

/-- `str::parse::<u64>`: an optional plus sign, then digits, within 64 bits. -/
def parseU64 (s : String) : Option ℕ :=
  let digits := match s.toList with
    | '+' :: cs => cs
    | cs => cs
  (decimal digits).filter (· < 2 ^ 64)

/-- `str::to_ascii_lowercase`. -/
def toAsciiLowercase (s : String) : String :=
  String.ofList (s.toList.map fun c ↦ if 'A' ≤ c ∧ c ≤ 'Z' then Char.ofNat (c.toNat + 32) else c)

/-- `HeaderValue::to_str`: the value as a string when it is visible ASCII. -/
def headerText (value : String) : Option String :=
  if value.toList.all fun c ↦ c = '\t' ∨ (32 ≤ c.toNat ∧ c.toNat < 127) then some value else none

theorem headerText_eq_some_iff {value : String} : headerText value = some value ↔
    ∀ c ∈ value.toList, c = '\t' ∨ (32 ≤ c.toNat ∧ c.toNat < 127) := by
  rw [headerText]
  split
  · rename_i hall
    simpa using hall
  · rename_i hall
    simpa using hall

theorem headerText_append {a b : String} (ha : headerText a = some a) (hb : headerText b = some b) :
    headerText (a ++ b) = some (a ++ b) := by
  rw [headerText_eq_some_iff] at ha hb ⊢
  intro c hc
  rw [String.toList_append] at hc
  exact (List.mem_append.mp hc).elim (ha c) (hb c)

theorem toNat_of_isDigit {c : Char} (h : c.isDigit) : 48 ≤ c.toNat ∧ c.toNat ≤ 57 := by
  rw [Char.isDigit, Bool.and_eq_true, decide_eq_true_eq, decide_eq_true_eq] at h
  exact h

theorem headerText_hexEncode (bs : Bytes) : headerText (hexEncode bs) = some (hexEncode bs) := by
  rw [headerText_eq_some_iff]
  intro c hc
  rcases mem_hexEncode hc with hdigit | ⟨hlo, hhi⟩
  · have := toNat_of_isDigit hdigit
    omega
  · have hlo' : 97 ≤ c.toNat := hlo
    have hhi' : c.toNat ≤ 102 := hhi
    omega

theorem headerText_toString (n : ℕ) : headerText (toString n) = some (toString n) := by
  rw [headerText_eq_some_iff, Nat.toString_eq_repr, Nat.toList_repr]
  intro c hc
  have := toNat_of_isDigit (Nat.isDigit_of_mem_toDigits (by decide) (by decide) hc)
  omega

/-- Reading digits is what the number they write is made by. -/
theorem decimal_of_isDigit {cs : List Char} (hne : cs ≠ []) (h : ∀ c ∈ cs, c.isDigit) :
    decimal cs = some (Nat.ofDigitChars 10 cs 0) := by
  have hfold : ∀ (cs : List Char) (n : ℕ), (∀ c ∈ cs, c.isDigit) →
      cs.foldlM (fun n c ↦ if c.isDigit then some (10 * n + (c.toNat - '0'.toNat)) else none) n
        = some (Nat.ofDigitChars 10 cs n) := by
    intro cs
    induction cs with
    | nil => exact fun n _ ↦ rfl
    | cons c cs ih =>
      intro n h
      rw [List.foldlM_cons, if_pos (h c List.mem_cons_self), Nat.ofDigitChars_cons]
      exact ih _ fun c hc ↦ h c (List.mem_cons_of_mem _ hc)
  rw [decimal, if_neg (by simpa using hne), hfold cs 0 h]

/-- A number of 64 bits is read back as it was printed. -/
theorem parseU64_toString {n : ℕ} (h : n < 2 ^ 64) : parseU64 (toString n) = some n := by
  have hdigit : ∀ c ∈ Nat.toDigits 10 n, c.isDigit := fun c hc ↦
    Nat.isDigit_of_mem_toDigits (by decide) (by decide) hc
  rw [parseU64, Nat.toString_eq_repr, Nat.toList_repr]
  split
  · rename_i cs hcs
    have := hdigit '+' (by rw [hcs]; exact List.mem_cons_self)
    cases this
  · rw [decimal_of_isDigit Nat.toDigits_ne_nil hdigit, Nat.ofDigitChars_ten_toDigits,
      Option.filter_some, if_pos (decide_eq_true h)]

/-- The characters of Unicode's `White_Space` property. -/
def isWhitespace (c : Char) : Bool :=
  (9 ≤ c.toNat ∧ c.toNat ≤ 13) ∨ (0x2000 ≤ c.toNat ∧ c.toNat ≤ 0x200A) ∨
    c.toNat ∈ [0x20, 0x85, 0xA0, 0x1680, 0x2028, 0x2029, 0x202F, 0x205F, 0x3000]

/-- `str::trim`. -/
def trim (s : String) : String :=
  String.ofList (((s.toList.dropWhile isWhitespace).reverse.dropWhile isWhitespace).reverse)

/-! ## Searching text -/

/-- `str::strip_prefix`. -/
def stripPrefix (start s : String) : Option String :=
  if start.toList.isPrefixOf s.toList then
    some (String.ofList (s.toList.drop start.toList.length))
  else none

/-- `str::strip_suffix`. -/
def stripSuffix (suffix s : String) : Option String :=
  if suffix.toList.isSuffixOf s.toList then
    some (String.ofList (s.toList.take (s.toList.length - suffix.toList.length)))
  else none

theorem stripPrefix_append (start s : String) : stripPrefix start (start ++ s) = some s := by
  have hstart : start.toList.isPrefixOf (start ++ s).toList = true := by
    rw [String.toList_append, List.isPrefixOf_iff_prefix]
    exact List.prefix_append _ _
  have hdrop : (start ++ s).toList.drop start.toList.length = s.toList := by
    rw [String.toList_append, List.drop_left]
  rw [stripPrefix, if_pos hstart, hdrop, String.ofList_toList]

theorem stripSuffix_append (suffix s : String) : stripSuffix suffix (s ++ suffix) = some s := by
  have hsuffix : suffix.toList.isSuffixOf (s ++ suffix).toList = true := by
    rw [String.toList_append, List.isSuffixOf_iff_suffix]
    exact List.suffix_append _ _
  have htake : (s ++ suffix).toList.take ((s ++ suffix).toList.length - suffix.toList.length) =
      s.toList := by
    rw [String.toList_append, List.length_append, Nat.add_sub_cancel, List.take_left]
  rw [stripSuffix, if_pos hsuffix, htake, String.ofList_toList]

/-- What stands before and after the first occurrence of a pattern. -/
def splitOnce (pattern : List Char) : List Char → Option (List Char × List Char)
  | [] => if pattern = [] then some ([], []) else none
  | c :: cs =>
    if pattern.isPrefixOf (c :: cs) then some ([], (c :: cs).drop pattern.length)
    else (splitOnce pattern cs).map fun (before, after) ↦ (c :: before, after)

theorem splitOnce_eq {pattern cs before after : List Char}
    (h : splitOnce pattern cs = some (before, after)) : cs = before ++ pattern ++ after := by
  induction cs generalizing before with
  | nil =>
    have hpattern : pattern = [] := by
      by_contra hne
      simp [splitOnce, hne] at h
    simp only [splitOnce, hpattern, if_true, Option.some.injEq, Prod.mk.injEq] at h
    simp [hpattern, ← h.1, ← h.2]
  | cons c cs ih =>
    rw [splitOnce] at h
    split at h
    · rename_i hstart
      obtain ⟨rest, hrest⟩ := List.isPrefixOf_iff_prefix.mp hstart
      simp only [Option.some.injEq, Prod.mk.injEq] at h
      rw [← h.1, ← h.2, ← hrest]
      simp
    · obtain ⟨⟨b, a⟩, hsplit, hpair⟩ := Option.map_eq_some_iff.mp h
      obtain ⟨rfl, rfl⟩ : c :: b = before ∧ a = after := by simpa using hpair
      rw [ih hsplit]
      simp

/-- What follows the pattern is shorter than the text. -/
theorem splitOnce_length {pattern cs before after : List Char} (hne : pattern ≠ [])
    (h : splitOnce pattern cs = some (before, after)) : after.length < cs.length := by
  have hpos := List.length_pos_iff.mpr hne
  rw [splitOnce_eq h]
  simp only [List.length_append]
  omega

/-- `str::split_whitespace`: the runs of characters that are not white space. -/
def splitWhitespace (s : String) : List (List Char) :=
  (s.toList.splitOnP isWhitespace).filter (· ≠ [])

/-! ## Paths -/

/-- The segments of the path of a request target: what stands between its slashes, up to the
query. -/
def pathSegments (target : String) : List String :=
  (((target.toList.takeWhile (· ≠ '?')).splitOn '/').map String.ofList).tail

/-- What stands after the first question mark of a request target. -/
def query (target : String) : Option String :=
  match target.toList.dropWhile (· ≠ '?') with
  | [] => none
  | _ :: cs => some (String.ofList cs)

/-- The value of a hexadecimal digit. -/
def hexValue (b : UInt8) : Option UInt8 :=
  if 48 ≤ b ∧ b ≤ 57 then some (b - 48)
  else if 97 ≤ b ∧ b ≤ 102 then some (b - 87)
  else if 65 ≤ b ∧ b ≤ 70 then some (b - 55)
  else none

/-- Replace every `%` followed by two hexadecimal digits by the byte they name. -/
def percentDecodeBytes : Bytes → Bytes
  | [] => []
  | [a] => [a]
  | [a, b] => [a, b]
  | a :: b :: c :: rest =>
    match a, hexValue b, hexValue c with
    | 37, some hi, some lo => (16 * hi + lo) :: percentDecodeBytes rest
    | _, _, _ => a :: percentDecodeBytes (b :: c :: rest)

/-- Percent-decoding of a path segment; `none` where the result is not UTF-8. -/
def percentDecode (s : String) : Option String :=
  String.fromUTF8? ⟨(percentDecodeBytes (asBytes s)).toArray⟩

example : percentDecode "a%2Fb%zz%41" = some "a/b%zzA" := by decide

example : pathSegments "/api/users/bob?x=/y" = ["api", "users", "bob"] := by decide

end Encoding
