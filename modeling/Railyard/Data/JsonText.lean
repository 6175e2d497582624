import Railyard.Data.Encoding
import Railyard.Data.Json

/-!
# JSON text

How JSON values are written without white space, and how a text is read.  A text is a byte string;
the strings in it are UTF-8.  A number with a fraction or an exponent, or beyond 64 bits, is kept as
the literal it is written with, so the values are those of `Json String`.

* `write`, `read`: writing and reading a whole text;
* `read_write`: reading inverts writing, on values whose numbers are integers (`Integral`).
-/

set_option autoImplicit false

namespace Data.JsonText

open Encoding (byteChar)

/-! ## Writing -/

def charByte (c : Char) : UInt8 := UInt8.ofNat c.toNat

/-- The bytes of a text of ASCII characters. -/
def ascii (s : String) : Bytes := s.toList.map charByte

/-- A byte of a string: quotes, backslashes and control characters are escaped. -/
def escapeByte (b : UInt8) : Bytes :=
  if b = 34 then [92, 34]
  else if b = 92 then [92, 92]
  else if b = 8 then [92, 98]
  else if b = 9 then [92, 116]
  else if b = 10 then [92, 110]
  else if b = 12 then [92, 102]
  else if b = 13 then [92, 114]
  else if b < 32 then [92, 117, 48, 48] ++ (Encoding.hexByte b).map charByte
  else [b]

/-- The bytes of a string, with the quote that ends it. -/
def writeRest (bs : Bytes) : Bytes := bs.flatMap escapeByte ++ [34]

def writeString (s : String) : Bytes := 34 :: writeRest (Encoding.asBytes s)

def writeNat (n : ℕ) : Bytes := (Nat.toDigits 10 n).map charByte

def writeNumber : Number String → Bytes
  | .pos n => writeNat n.val
  | .neg n => 45 :: writeNat (n.val + 1)
  | .float literal => ascii literal

mutual

/-- The text of a value. -/
def write : Json String → Bytes
  | .null => ascii "null"
  | .bool b => ascii (if b then "true" else "false")
  | .number n => writeNumber n
  | .string s => writeString s
  | .array items => 91 :: (writeItems items ++ [93])
  | .object entries => 123 :: (writeEntries entries ++ [125])

/-- Values between commas. -/
def writeItems : List (Json String) → Bytes
  | [] => []
  | [item] => write item
  | item :: items => write item ++ 44 :: writeItems items

/-- Entries between commas. -/
def writeEntries : List (String × Json String) → Bytes
  | [] => []
  | [entry] => writeEntry entry
  | entry :: entries => writeEntry entry ++ 44 :: writeEntries entries

def writeEntry : String × Json String → Bytes
  | (key, value) => writeString key ++ 58 :: write value

end

example : write (.object [("a\n", .array [.null, .number (.pos 10), .number (.neg 0)])]) =
    ascii "\x7b\"a\\n\":[null,10,-1]\x7d" := by decide

theorem writeItems_cons_cons (item next : Json String) (items : List (Json String)) :
    writeItems (item :: next :: items) = write item ++ 44 :: writeItems (next :: items) := by
  rw [writeItems]
  exact List.cons_ne_nil _ _

theorem writeEntries_cons_cons (entry next : String × Json String)
    (entries : List (String × Json String)) : writeEntries (entry :: next :: entries) =
      writeEntry entry ++ 44 :: writeEntries (next :: entries) := by
  rw [writeEntries]
  exact List.cons_ne_nil _ _

/-! ## Reading -/

/-- White space between tokens. -/
def isSpace (b : UInt8) : Bool := b = 32 ∨ b = 10 ∨ b = 13 ∨ b = 9

/-- What follows a token of one byte. -/
def expect (token : UInt8) (bs : Bytes) : Option Bytes :=
  match bs.dropWhile isSpace with
  | [] => none
  | b :: rest => if b = token then some rest else none

/-! ### Strings -/

/-- Four hexadecimal digits. -/
def readHex : Bytes → Option (ℕ × Bytes)
  | a :: b :: c :: d :: rest => do
    let w ← Encoding.hexValue a
    let x ← Encoding.hexValue b
    let y ← Encoding.hexValue c
    let z ← Encoding.hexValue d
    return (4096 * w.toNat + 256 * x.toNat + 16 * y.toNat + z.toNat, rest)
  | _ => none

def utf8 (n : ℕ) : Bytes := Encoding.asBytes (String.singleton (Char.ofNat n))

/-- What follows `\u`: a character, or the two halves of one beyond the first plane. -/
def readUnicode (bs : Bytes) : Option (Bytes × Bytes) := do
  let (n, rest) ← readHex bs
  if 0xDC00 ≤ n ∧ n ≤ 0xDFFF then
    none
  else if 0xD800 ≤ n ∧ n ≤ 0xDBFF then
    match rest with
    | 92 :: 117 :: rest =>
      let (m, rest) ← readHex rest
      if 0xDC00 ≤ m ∧ m ≤ 0xDFFF then
        return (utf8 (0x10000 + (n - 0xD800) * 0x400 + (m - 0xDC00)), rest)
      else none
    | _ => none
  else return (utf8 n, rest)

/-- What follows a backslash: the bytes it stands for, and the rest. -/
def readEscape : Bytes → Option (Bytes × Bytes)
  | [] => none
  | b :: rest =>
    if b = 34 ∨ b = 92 ∨ b = 47 then some ([b], rest)
    else if b = 98 then some ([8], rest)
    else if b = 102 then some ([12], rest)
    else if b = 110 then some ([10], rest)
    else if b = 114 then some ([13], rest)
    else if b = 116 then some ([9], rest)
    else if b = 117 then readUnicode rest
    else none

/-- The bytes of a string up to the quote that ends it, and the rest.  Every step takes a byte. -/
def readRest : ℕ → Bytes → Option (Bytes × Bytes)
  | 0, _ => none
  | _ + 1, [] => none
  | fuel + 1, b :: bs =>
    if b = 34 then some ([], bs)
    else if b = 92 then do
      let (out, rest) ← readEscape bs
      let (more, rest) ← readRest fuel rest
      return (out ++ more, rest)
    else if b < 32 then none
    else do
      let (more, rest) ← readRest fuel bs
      return (b :: more, rest)

/-- The string that starts behind a quote. -/
def readString (bs : Bytes) : Option (String × Bytes) := do
  let (out, rest) ← readRest bs.length bs
  let s ← String.fromUTF8? ⟨out.toArray⟩
  return (s, rest)

/-! ### Numbers -/

def isDigit (b : UInt8) : Bool := 48 ≤ b ∧ b ≤ 57

/-- At least one digit. -/
def readDigits (bs : Bytes) : Option (Bytes × Bytes) :=
  if bs.takeWhile isDigit = [] then none else some (bs.takeWhile isDigit, bs.dropWhile isDigit)

/-- The fraction of a number, if it has one. -/
def readFraction : Bytes → Option (Bytes × Bytes)
  | [] => some ([], [])
  | b :: rest =>
    if b = 46 then (readDigits rest).map fun (digits, rest) ↦ (46 :: digits, rest)
    else some ([], b :: rest)

/-- The exponent of a number, if it has one. -/
def readExponent : Bytes → Option (Bytes × Bytes)
  | [] => some ([], [])
  | b :: rest =>
    if b = 101 ∨ b = 69 then
      let sign := rest.take 1 |>.filter fun b ↦ b = 43 ∨ b = 45
      (readDigits (rest.drop sign.length)).map fun (digits, rest) ↦ (b :: sign ++ digits, rest)
    else some ([], b :: rest)

instance neZero_i63 : NeZero (2 ^ 63) := inferInstance

/-- An integer, where it fits 64 bits. -/
def integer (negative : Bool) (n : ℕ) (literal : String) : Number String :=
  if negative then
    if 0 < n ∧ n ≤ 2 ^ 63 then .neg (Fin.ofNat (2 ^ 63) (n - 1)) else .float literal
  else if n < 2 ^ 64 then .pos (Fin.ofNat (2 ^ 64) n)
  else .float literal

def readNumber (bs : Bytes) : Option (Number String × Bytes) := do
  let sign := bs.take 1 |>.filter fun b ↦ b = 45
  let (digits, rest) ← readDigits (bs.drop sign.length)
  if digits.head? = some 48 ∧ digits ≠ [48] then
    none
  else
    let (fraction, rest) ← readFraction rest
    let (exponent, rest) ← readExponent rest
    let literal := String.ofList ((sign ++ digits ++ fraction ++ exponent).map byteChar)
    if fraction = [] ∧ exponent = [] then
      let n ← Encoding.decimal (digits.map byteChar)
      return (integer (sign ≠ []) n literal, rest)
    else return (.float literal, rest)

/-! ### Values -/

/-- A keyword, whose first letter has been read. -/
def readWord (rest : String) (value : Json String) (bs : Bytes) : Option (Json String × Bytes) :=
  if (ascii rest).isPrefixOf bs then some (value, bs.drop (ascii rest).length) else none

mutual

/-- A value and the rest.  Every second step takes a byte. -/
def readValue : ℕ → Bytes → Option (Json String × Bytes)
  | 0, _ => none
  | fuel + 1, bs =>
    match bs.dropWhile isSpace with
    | [] => none
    | b :: rest =>
      if b = 110 then readWord "ull" .null rest
      else if b = 116 then readWord "rue" (.bool true) rest
      else if b = 102 then readWord "alse" (.bool false) rest
      else if b = 34 then (readString rest).map fun (s, rest) ↦ (.string s, rest)
      else if b = 91 then
        match expect 93 rest with
        | some rest => some (.array [], rest)
        | none => (readItems fuel rest).map fun (items, rest) ↦ (.array items, rest)
      else if b = 123 then
        match expect 125 rest with
        | some rest => some (.object [], rest)
        | none => (readEntries fuel rest).map fun (entries, rest) ↦ (.object entries, rest)
      else (readNumber (b :: rest)).map fun (n, rest) ↦ (.number n, rest)

/-- The items of an array up to the bracket that ends it. -/
def readItems : ℕ → Bytes → Option (List (Json String) × Bytes)
  | 0, _ => none
  | fuel + 1, bs => do
    let (item, rest) ← readValue fuel bs
    match expect 44 rest with
    | some rest =>
      let (items, rest) ← readItems fuel rest
      return (item :: items, rest)
    | none =>
      let rest ← expect 93 rest
      return ([item], rest)

/-- The entries of an object up to the brace that ends it. -/
def readEntries : ℕ → Bytes → Option (List (String × Json String) × Bytes)
  | 0, _ => none
  | fuel + 1, bs => do
    let rest ← expect 34 bs
    let (key, rest) ← readString rest
    let rest ← expect 58 rest
    let (value, rest) ← readValue fuel rest
    match expect 44 rest with
    | some rest =>
      let (entries, rest) ← readEntries fuel rest
      return ((key, value) :: entries, rest)
    | none =>
      let rest ← expect 125 rest
      return ([(key, value)], rest)

end

/-- A whole text. -/
def read (bs : Bytes) : Option (Json String) := do
  let (value, rest) ← readValue (2 * bs.length) bs
  if rest.all isSpace then return value else none

/-! ## Round trip -/

/-! ### Strings -/

theorem hexValue_charByte :
    ∀ n < 16, Encoding.hexValue (charByte (Encoding.hexDigit n)) = some (UInt8.ofNat n) := by
  decide

/-- The code of a control character. -/
theorem readHex_hexByte (b : UInt8) (rest : Bytes) :
    readHex (48 :: 48 :: ((Encoding.hexByte b).map charByte ++ rest)) = some (b.toNat, rest) := by
  have hlt := b.toNat_lt
  have hhi := hexValue_charByte (b.toNat / 16) (by omega)
  have hlo := hexValue_charByte (b.toNat % 16) (by omega)
  have hzero : Encoding.hexValue 48 = some 0 := by decide
  have hhi' : (UInt8.ofNat (b.toNat / 16)).toNat = b.toNat / 16 :=
    UInt8.toNat_ofNat_of_lt' (show b.toNat / 16 < 256 by omega)
  have hlo' : (UInt8.ofNat (b.toNat % 16)).toNat = b.toNat % 16 :=
    UInt8.toNat_ofNat_of_lt' (show b.toNat % 16 < 256 by omega)
  simp only [Encoding.hexByte, List.map_cons, List.map_nil, List.cons_append, List.nil_append,
    readHex, hzero, hhi, hlo, Option.bind_eq_bind, Option.bind_some, hhi', hlo', UInt8.toNat_zero]
  refine congrArg some (Prod.ext ?_ rfl)
  show 4096 * 0 + 256 * 0 + 16 * (b.toNat / 16) + b.toNat % 16 = b.toNat
  omega

theorem utf8_of_lt : ∀ n < 32, utf8 n = [UInt8.ofNat n] := by decide +kernel

theorem readRest_backslash {bs out rest : Bytes} (h : readEscape bs = some (out, rest))
    (fuel : ℕ) : readRest (fuel + 1) (92 :: bs) =
      (readRest fuel rest).map fun more ↦ (out ++ more.1, more.2) := by
  rw [readRest, if_neg (by decide), if_pos rfl, h]
  show (readRest fuel rest).bind _ = _
  cases readRest fuel rest <;> rfl

/-- A byte of a string stands for itself, or is written as an escape that is read as this byte. -/
theorem escapeByte_cases (b : UInt8) :
    (escapeByte b = [b] ∧ b ≠ 34 ∧ b ≠ 92 ∧ ¬ b < 32) ∨
      ∃ escape, escapeByte b = 92 :: escape ∧
        ∀ bs, readEscape (escape ++ bs) = some ([b], bs) := by
  rw [escapeByte]
  -- the bytes with an escape of one letter
  iterate 7
    split
    · rename_i h
      exact .inr ⟨[_], rfl, fun bs ↦ by rw [h]; rfl⟩
  split
  · rename_i h
    have hlt : b.toNat < 32 := h
    refine .inr ⟨_, rfl, fun bs ↦ ?_⟩
    show readUnicode (48 :: 48 :: ((Encoding.hexByte b).map charByte ++ bs)) = _
    rw [readUnicode, readHex_hexByte]
    show (if 0xDC00 ≤ b.toNat ∧ b.toNat ≤ 0xDFFF then none
      else if 0xD800 ≤ b.toNat ∧ b.toNat ≤ 0xDBFF then _
      else some (utf8 b.toNat, bs) : Option (Bytes × Bytes)) = _
    rw [if_neg (by omega), if_neg (by omega), utf8_of_lt _ hlt, UInt8.ofNat_toNat]
  · rename_i hquote hbackslash _ _ _ _ _ hcontrol
    exact .inl ⟨rfl, hquote, hbackslash, hcontrol⟩

/-- Every byte of a string is read back. -/
theorem readRest_escapeByte (fuel : ℕ) (b : UInt8) (bs : Bytes) :
    readRest (fuel + 1) (escapeByte b ++ bs) =
      (readRest fuel bs).map fun more ↦ (b :: more.1, more.2) := by
  obtain ⟨hsame, hquote, hbackslash, hcontrol⟩ | ⟨escape, hescape, hread⟩ := escapeByte_cases b
  · rw [hsame, List.singleton_append, readRest, if_neg hquote, if_neg hbackslash, if_neg hcontrol]
    cases readRest fuel bs <;> rfl
  · rw [hescape, List.cons_append]
    exact readRest_backslash (hread bs) fuel

theorem readRest_writeRest {bs : Bytes} {fuel : ℕ} (h : bs.length < fuel) (rest : Bytes) :
    readRest fuel (writeRest bs ++ rest) = some (bs, rest) := by
  induction bs generalizing fuel with
  | nil =>
    obtain ⟨fuel, rfl⟩ := Nat.exists_eq_succ_of_ne_zero (Nat.ne_of_gt h)
    rfl
  | cons b bs ih =>
    rw [List.length_cons] at h
    obtain ⟨fuel, rfl⟩ := Nat.exists_eq_succ_of_ne_zero (Nat.ne_of_gt (Nat.zero_lt_of_lt h))
    have hsplit : writeRest (b :: bs) ++ rest = escapeByte b ++ (writeRest bs ++ rest) := by
      rw [writeRest, writeRest, List.flatMap_cons, List.append_assoc, List.append_assoc,
        List.append_assoc]
    rw [hsplit, readRest_escapeByte, ih (Nat.lt_of_succ_lt_succ h), Option.map_some]

theorem escapeByte_length (b : UInt8) : 1 ≤ (escapeByte b).length := by
  obtain ⟨hsame, -⟩ | ⟨escape, hescape, -⟩ := escapeByte_cases b
  · rw [hsame, List.length_singleton]
  · rw [hescape, List.length_cons]
    exact Nat.le_add_left ..

theorem length_lt_writeRest (bs : Bytes) : bs.length < (writeRest bs).length := by
  rw [writeRest, List.length_append, List.length_singleton]
  refine Nat.lt_succ_of_le ?_
  induction bs with
  | nil => exact Nat.le_refl _
  | cons b bs ih =>
    rw [List.flatMap_cons, List.length_append, List.length_cons, Nat.add_comm]
    exact Nat.add_le_add (escapeByte_length b) ih

/-- A string is read back as it was written. -/
theorem readString_writeRest (s : String) (rest : Bytes) :
    readString (writeRest (Encoding.asBytes s) ++ rest) = some (s, rest) := by
  have hlt := length_lt_writeRest (Encoding.asBytes s)
  have hfuel : (Encoding.asBytes s).length < (writeRest (Encoding.asBytes s) ++ rest).length := by
    rw [List.length_append]
    omega
  rw [readString, readRest_writeRest hfuel]
  show (String.fromUTF8? _).bind _ = _
  rw [Encoding.fromUTF8_asBytes]
  rfl

/-! ### Numbers -/

/-- What may follow a value. -/
def Delimited (rest : Bytes) : Prop := ∀ b ∈ rest.head?, b = 44 ∨ b = 93 ∨ b = 125

theorem Delimited.cons {b : UInt8} (h : b = 44 ∨ b = 93 ∨ b = 125) (rest : Bytes) :
    Delimited (b :: rest) := fun b' hb' ↦ by rwa [← Option.some.inj hb']

theorem Delimited.head_ne {b c : UInt8} {rest : Bytes} (h : Delimited (b :: rest))
    (hc : ¬ (c = 44 ∨ c = 93 ∨ c = 125)) : b ≠ c := by
  rintro rfl
  exact hc (h b rfl)

theorem byteChar_charByte {c : Char} (h : c.isDigit) : byteChar (charByte c) = c := by
  have hc := Encoding.toNat_of_isDigit h
  rw [byteChar, charByte, UInt8.toNat_ofNat_of_lt' (show c.toNat < 256 by omega),
    Char.ofNat_toNat]

theorem isDigit_charByte {c : Char} (h : c.isDigit) : isDigit (charByte c) = true := by
  have hc := Encoding.toNat_of_isDigit h
  have hbyte : (charByte c).toNat = c.toNat :=
    UInt8.toNat_ofNat_of_lt' (show c.toNat < 256 by omega)
  refine decide_eq_true ⟨?_, ?_⟩
  · show 48 ≤ (charByte c).toNat
    omega
  · show (charByte c).toNat ≤ 57
    omega

theorem isDigit_toDigits {n : ℕ} {c : Char} (h : c ∈ Nat.toDigits 10 n) : c.isDigit :=
  Nat.isDigit_of_mem_toDigits (by decide) (by decide) h

theorem writeNat_ne_nil (n : ℕ) : writeNat n ≠ [] :=
  Nat.toDigits_ne_nil ∘ List.map_eq_nil_iff.mp

theorem isDigit_writeNat {n : ℕ} {b : UInt8} (h : b ∈ writeNat n) : isDigit b = true := by
  obtain ⟨c, hc, rfl⟩ := List.mem_map.mp h
  exact isDigit_charByte (isDigit_toDigits hc)

theorem readDigits_writeNat (n : ℕ) {rest : Bytes} (hrest : Delimited rest) :
    readDigits (writeNat n ++ rest) = some (writeNat n, rest) := by
  have hall : ∀ b ∈ writeNat n, isDigit b = true := fun b hb ↦ isDigit_writeNat hb
  have hstop : rest.takeWhile isDigit = [] ∧ rest.dropWhile isDigit = rest := by
    cases rest with
    | nil => exact ⟨rfl, rfl⟩
    | cons b rest =>
      have hb : isDigit b = false := by
        rcases hrest b rfl with rfl | rfl | rfl <;> decide
      rw [List.takeWhile_cons_of_neg (by simp [hb]), List.dropWhile_cons_of_neg (by simp [hb])]
      exact ⟨rfl, rfl⟩
  have htake : (writeNat n ++ rest).takeWhile isDigit = writeNat n := by
    rw [List.takeWhile_append_of_pos hall, hstop.1, List.append_nil]
  have hdrop : (writeNat n ++ rest).dropWhile isDigit = rest := by
    rw [List.dropWhile_append_of_pos hall, hstop.2]
  rw [readDigits, htake, hdrop, if_neg (writeNat_ne_nil n)]

/-- No number but zero is written with a zero in front. -/
theorem head?_toDigits {n : ℕ} (h : (Nat.toDigits 10 n).head? = some '0') : n = 0 := by
  induction n using Nat.strongRecOn with
  | ind n ih =>
    by_cases hlt : n < 10
    · rw [Nat.toDigits_of_lt_base hlt] at h
      have hall : ∀ m < 10, [Nat.digitChar m].head? = some '0' → m = 0 := by decide
      exact hall n hlt h
    · rw [Nat.toDigits_of_base_le (by decide) (Nat.le_of_not_lt hlt), List.head?_append,
        Option.or_of_isSome (List.isSome_head?.mpr Nat.toDigits_ne_nil)] at h
      have hzero := ih (n / 10) (by omega) h
      omega

theorem not_leading_zero (n : ℕ) : ¬ ((writeNat n).head? = some 48 ∧ writeNat n ≠ [48]) := by
  rintro ⟨hhead, hne⟩
  rw [writeNat, List.head?_map, Option.map_eq_some_iff] at hhead
  obtain ⟨c, hc, hbyte⟩ := hhead
  have hdigit := isDigit_toDigits (List.mem_of_mem_head? hc)
  have hzero : c = '0' := by
    rw [← byteChar_charByte hdigit, hbyte]
    rfl
  rw [hzero] at hc
  rw [head?_toDigits hc] at hne
  exact hne rfl

theorem decimal_writeNat (n : ℕ) : Encoding.decimal ((writeNat n).map byteChar) = some n := by
  have hsame : (writeNat n).map byteChar = Nat.toDigits 10 n := by
    rw [writeNat, List.map_map]
    refine (List.map_congr_left fun c hc ↦ ?_).trans (List.map_id _)
    exact byteChar_charByte (isDigit_toDigits hc)
  rw [hsame, Encoding.decimal_of_isDigit Nat.toDigits_ne_nil fun c hc ↦ isDigit_toDigits hc,
    Nat.ofDigitChars_ten_toDigits]

theorem readFraction_delimited {rest : Bytes} (hrest : Delimited rest) :
    readFraction rest = some ([], rest) := by
  cases rest with
  | nil => rfl
  | cons b rest => exact if_neg (hrest.head_ne (by decide))

theorem readExponent_delimited {rest : Bytes} (hrest : Delimited rest) :
    readExponent rest = some ([], rest) := by
  cases rest with
  | nil => rfl
  | cons b rest =>
    exact if_neg (not_or.mpr ⟨hrest.head_ne (by decide), hrest.head_ne (by decide)⟩)

theorem readNumber_sign {sign : Bytes} (hsign : sign = [] ∨ sign = [45]) (n : ℕ) {rest : Bytes}
    (hrest : Delimited rest) : ∃ literal, readNumber (sign ++ (writeNat n ++ rest)) =
      some (integer (sign ≠ []) n literal, rest) := by
  have hfound : ((sign ++ (writeNat n ++ rest)).take 1).filter (fun b ↦ b = 45) = sign := by
    rcases hsign with rfl | rfl
    · obtain ⟨d, ds, hd⟩ := List.exists_cons_of_ne_nil (writeNat_ne_nil n)
      have hdigit := isDigit_writeNat (n := n) (b := d) (by rw [hd]; exact List.mem_cons_self)
      rw [hd]
      refine List.filter_cons_of_neg fun h ↦ ?_
      rw [of_decide_eq_true h] at hdigit
      exact absurd hdigit (by decide)
    · rfl
  have hdrop : (sign ++ (writeNat n ++ rest)).drop sign.length = writeNat n ++ rest :=
    List.drop_left
  refine ⟨String.ofList ((sign ++ writeNat n ++ [] ++ []).map byteChar), ?_⟩
  simp only [readNumber, hfound, hdrop, readDigits_writeNat n hrest, Option.bind_eq_bind,
    Option.bind_some, if_neg (not_leading_zero n), readFraction_delimited hrest,
    readExponent_delimited hrest, and_self, if_true, decimal_writeNat]
  rfl

/-- An integer is read back as it was written. -/
theorem readNumber_writeNumber {n : Number String} (hint : ∀ literal, n ≠ .float literal)
    {rest : Bytes} (hrest : Delimited rest) :
    readNumber (writeNumber n ++ rest) = some (n, rest) := by
  cases n with
  | pos n =>
    obtain ⟨literal, hread⟩ := readNumber_sign (.inl rfl) n.val hrest
    refine hread.trans (congrArg some (Prod.ext ?_ rfl))
    show (if n.val < 2 ^ 64 then .pos (Fin.ofNat (2 ^ 64) n.val) else .float literal :
      Number String) = .pos n
    rw [if_pos n.isLt, Fin.ofNat_val_eq_self]
  | neg n =>
    obtain ⟨literal, hread⟩ := readNumber_sign (.inr rfl) (n.val + 1) hrest
    refine hread.trans (congrArg some (Prod.ext ?_ rfl))
    show (if 0 < n.val + 1 ∧ n.val + 1 ≤ 2 ^ 63 then .neg (Fin.ofNat (2 ^ 63) (n.val + 1 - 1))
      else .float literal : Number String) = .neg n
    rw [if_pos ⟨Nat.succ_pos _, n.isLt⟩, Nat.add_sub_cancel, Fin.ofNat_val_eq_self]
  | float literal => exact absurd rfl (hint literal)

/-! ### Values -/

/-- No number in the value has a fraction or an exponent, or is beyond 64 bits. -/
inductive Integral : Json String → Prop
  | null : Integral .null
  | bool (b : Bool) : Integral (.bool b)
  | number {n : Number String} (h : ∀ literal, n ≠ .float literal) : Integral (.number n)
  | string (s : String) : Integral (.string s)
  | array {items : List (Json String)} (h : ∀ item ∈ items, Integral item) :
      Integral (.array items)
  | object {entries : List (String × Json String)} (h : ∀ entry ∈ entries, Integral entry.2) :
      Integral (.object entries)

theorem expect_self {b : UInt8} (hb : isSpace b = false) (rest : Bytes) :
    expect b (b :: rest) = some rest := by
  rw [expect, List.dropWhile_cons_of_neg (by simp [hb])]
  exact if_pos rfl

theorem expect_other {b c : UInt8} (hc : isSpace c = false) (hne : c ≠ b) (rest : Bytes) :
    expect b (c :: rest) = none := by
  rw [expect, List.dropWhile_cons_of_neg (by simp [hc])]
  exact if_neg hne

theorem head_writeNumber {n : Number String} (hint : ∀ literal, n ≠ .float literal) :
    ∃ b more, writeNumber n = b :: more ∧ (isDigit b = true ∨ b = 45) := by
  cases n with
  | pos n =>
    obtain ⟨b, more, hb⟩ := List.exists_cons_of_ne_nil (writeNat_ne_nil n.val)
    exact ⟨b, more, hb, .inl (isDigit_writeNat (hb ▸ List.mem_cons_self))⟩
  | neg n => exact ⟨45, _, rfl, .inr rfl⟩
  | float literal => exact absurd rfl (hint literal)

/-- A number starts with none of the bytes that other values start with. -/
theorem number_start {b : UInt8} (hb : isDigit b = true ∨ b = 45) : isSpace b = false ∧ b ≠ 93 ∧
    b ≠ 110 ∧ b ≠ 116 ∧ b ≠ 102 ∧ b ≠ 34 ∧ b ≠ 91 ∧ b ≠ 123 := by
  have hall : ∀ n < 58, 45 ≤ n → isSpace (UInt8.ofNat n) = false := by decide
  have hrange : 45 ≤ b.toNat ∧ b.toNat < 58 := by
    rcases hb with hb | rfl
    · obtain ⟨hlo, hhi⟩ := of_decide_eq_true hb
      have hlo' : 48 ≤ b.toNat := hlo
      have hhi' : b.toNat ≤ 57 := hhi
      omega
    · decide
  have hspace := hall b.toNat hrange.2 hrange.1
  rw [UInt8.ofNat_toNat] at hspace
  refine ⟨hspace, ?_⟩
  refine ⟨?_, ?_, ?_, ?_, ?_, ?_, ?_⟩ <;> rintro rfl <;> exact absurd hrange (by decide)

/-- What a value starts with. -/
theorem head_write {v : Json String} (h : Integral v) :
    ∃ b more, write v = b :: more ∧ isSpace b = false ∧ b ≠ 93 := by
  cases h with
  | null => exact ⟨110, _, rfl, by decide, by decide⟩
  | bool b =>
    cases b with
    | true => exact ⟨116, _, rfl, by decide, by decide⟩
    | false => exact ⟨102, _, rfl, by decide, by decide⟩
  | number hint =>
    obtain ⟨b, more, hb, hstart⟩ := head_writeNumber hint
    exact ⟨b, more, hb, (number_start hstart).1, (number_start hstart).2.1⟩
  | string s => exact ⟨34, _, rfl, by decide, by decide⟩
  | array h => exact ⟨91, _, rfl, by decide, by decide⟩
  | object h => exact ⟨123, _, rfl, by decide, by decide⟩

/-- Reading a value inverts writing it, given enough fuel. -/
def Reads (v : Json String) : Prop := ∀ fuel rest, 2 * (write v).length ≤ fuel → Delimited rest →
  readValue fuel (write v ++ rest) = some (v, rest)

theorem readItems_writeItems {items : List (Json String)} (hne : items ≠ [])
    (h : ∀ item ∈ items, Reads item) {fuel : ℕ} (hfuel : 2 * (writeItems items).length < fuel)
    (rest : Bytes) : readItems fuel (writeItems items ++ 93 :: rest) = some (items, rest) := by
  induction items generalizing fuel with
  | nil => exact absurd rfl hne
  | cons item items ih =>
    obtain ⟨fuel, rfl⟩ := Nat.exists_eq_succ_of_ne_zero (Nat.ne_of_gt (Nat.zero_lt_of_lt hfuel))
    have hitem := h item List.mem_cons_self
    have hitems := fun other hother ↦ h other (List.mem_cons_of_mem _ hother)
    cases items with
    | nil =>
      rw [writeItems] at hfuel ⊢
      rw [readItems, hitem fuel _ (by omega) (.cons (.inr (.inl rfl)) rest)]
      simp only [Option.bind_eq_bind, Option.bind_some,
        expect_other (b := 44) (c := 93) (by decide) (by decide),
        expect_self (b := 93) (by decide)]
      rfl
    | cons next items =>
      rw [writeItems_cons_cons, List.length_append, List.length_cons] at hfuel
      rw [writeItems_cons_cons, List.append_assoc, List.cons_append, readItems,
        hitem fuel _ (by omega) (.cons (.inl rfl) _)]
      have hmore : readItems fuel (writeItems (next :: items) ++ 93 :: rest) =
          some (next :: items, rest) := ih (List.cons_ne_nil _ _) hitems (by omega)
      simp only [Option.bind_eq_bind, Option.bind_some, expect_self (b := 44) (by decide), hmore]
      rfl

theorem readEntries_writeEntries {entries : List (String × Json String)} (hne : entries ≠ [])
    (h : ∀ entry ∈ entries, Reads entry.2) {fuel : ℕ}
    (hfuel : 2 * (writeEntries entries).length < fuel) (rest : Bytes) :
    readEntries fuel (writeEntries entries ++ 125 :: rest) = some (entries, rest) := by
  induction entries generalizing fuel with
  | nil => exact absurd rfl hne
  | cons entry entries ih =>
    obtain ⟨fuel, rfl⟩ := Nat.exists_eq_succ_of_ne_zero (Nat.ne_of_gt (Nat.zero_lt_of_lt hfuel))
    obtain ⟨key, value⟩ := entry
    have hvalue : Reads value := h (key, value) List.mem_cons_self
    have hentries := fun other hother ↦ h other (List.mem_cons_of_mem _ hother)
    have hlength : (write value).length ≤ (writeEntry (key, value)).length := by
      rw [writeEntry, List.length_append, List.length_cons]
      omega
    have hsplit : ∀ rest, writeEntry (key, value) ++ rest =
        34 :: (writeRest (Encoding.asBytes key) ++ 58 :: (write value ++ rest)) := by
      intro rest
      rw [writeEntry, writeString, List.cons_append, List.cons_append, List.append_assoc,
        List.cons_append]
    cases entries with
    | nil =>
      rw [writeEntries] at hfuel ⊢
      have hread := hvalue fuel (125 :: rest) (by omega) (.cons (.inr (.inr rfl)) rest)
      rw [hsplit, readEntries]
      simp only [Option.bind_eq_bind, Option.bind_some, expect_self (b := 34) (by decide),
        readString_writeRest, expect_self (b := 58) (by decide), hread,
        expect_other (b := 44) (c := 125) (by decide) (by decide),
        expect_self (b := 125) (by decide)]
      rfl
    | cons next entries =>
      rw [writeEntries_cons_cons, List.length_append, List.length_cons] at hfuel
      have hread := hvalue fuel (44 :: (writeEntries (next :: entries) ++ 125 :: rest)) (by omega)
        (.cons (.inl rfl) _)
      have hmore : readEntries fuel (writeEntries (next :: entries) ++ 125 :: rest) =
          some (next :: entries, rest) := ih (List.cons_ne_nil _ _) hentries (by omega)
      rw [writeEntries_cons_cons, List.append_assoc, List.cons_append, hsplit, readEntries]
      simp only [Option.bind_eq_bind, Option.bind_some, expect_self (b := 34) (by decide),
        readString_writeRest, expect_self (b := 58) (by decide), hread,
        expect_self (b := 44) (by decide), hmore]
      rfl

theorem readValue_number {b : UInt8} (hb : isDigit b = true ∨ b = 45) (fuel : ℕ) (more : Bytes) :
    readValue (fuel + 1) (b :: more) =
      (readNumber (b :: more)).map fun read ↦ (.number read.1, read.2) := by
  obtain ⟨hspace, -, hnull, htrue, hfalse, hquote, harray, hobject⟩ := number_start hb
  rw [readValue, List.dropWhile_cons_of_neg (by simp [hspace])]
  simp only [if_neg hnull, if_neg htrue, if_neg hfalse, if_neg hquote, if_neg harray,
    if_neg hobject]

theorem readValue_string (fuel : ℕ) (s : String) (rest : Bytes) :
    readValue (fuel + 1) (writeString s ++ rest) = some (.string s, rest) := by
  have hstart : readValue (fuel + 1) (writeString s ++ rest) =
      (readString (writeRest (Encoding.asBytes s) ++ rest)).map fun read ↦
        (.string read.1, read.2) := rfl
  rw [hstart, readString_writeRest, Option.map_some]

theorem readValue_items (fuel : ℕ) {bs : Bytes} (h : expect 93 bs = none) :
    readValue (fuel + 1) (91 :: bs) =
      (readItems fuel bs).map fun read ↦ (.array read.1, read.2) := by
  rw [readValue, List.dropWhile_cons_of_neg (by decide)]
  simp only [h]
  rfl

theorem readValue_entries (fuel : ℕ) {bs : Bytes} (h : expect 125 bs = none) :
    readValue (fuel + 1) (123 :: bs) =
      (readEntries fuel bs).map fun read ↦ (.object read.1, read.2) := by
  rw [readValue, List.dropWhile_cons_of_neg (by decide)]
  simp only [h]
  rfl

theorem head_writeItems {item : Json String} (h : Integral item) (items : List (Json String)) :
    ∃ b more, writeItems (item :: items) = b :: more ∧ isSpace b = false ∧ b ≠ 93 := by
  obtain ⟨b, more, hb, hstart⟩ := head_write h
  cases items with
  | nil => exact ⟨b, more, by rw [writeItems, hb], hstart⟩
  | cons next items => exact ⟨b, _, by rw [writeItems_cons_cons, hb, List.cons_append], hstart⟩

theorem head_writeEntries (entry : String × Json String) (entries : List (String × Json String)) :
    ∃ more, writeEntries (entry :: entries) = 34 :: more := by
  obtain ⟨key, value⟩ := entry
  cases entries with
  | nil => exact ⟨_, by rw [writeEntries, writeEntry, writeString, List.cons_append]⟩
  | cons next entries =>
    exact ⟨_, by rw [writeEntries_cons_cons, writeEntry, writeString, List.cons_append,
      List.cons_append]⟩

/-- Every value takes a step. -/
theorem reads_of_succ {v : Json String} (hv : Integral v)
    (h : ∀ fuel rest, 2 * (write v).length ≤ fuel + 1 → Delimited rest →
      readValue (fuel + 1) (write v ++ rest) = some (v, rest)) : Reads v := by
  intro fuel rest hfuel hrest
  obtain ⟨b, more, hb, -⟩ := head_write hv
  cases fuel with
  | zero =>
    rw [hb, List.length_cons] at hfuel
    omega
  | succ fuel => exact h fuel rest hfuel hrest

theorem reads_of_integral {v : Json String} (h : Integral v) : Reads v := by
  induction h with
  | null => exact reads_of_succ .null fun fuel rest _ _ ↦ rfl
  | bool b =>
    refine reads_of_succ (.bool b) fun fuel rest _ _ ↦ ?_
    cases b <;> rfl
  | @number n hint =>
    refine reads_of_succ (.number hint) fun fuel rest _ hrest ↦ ?_
    obtain ⟨b, more, hb, hstart⟩ := head_writeNumber hint
    have hread := readNumber_writeNumber hint hrest
    rw [hb, List.cons_append] at hread
    rw [write, hb, List.cons_append, readValue_number hstart, hread, Option.map_some]
  | string s =>
    refine reads_of_succ (.string s) fun fuel rest _ _ ↦ ?_
    rw [write, readValue_string]
  | @array items hint ih =>
    refine reads_of_succ (.array hint) fun fuel rest hfuel _ ↦ ?_
    rw [write, List.length_cons, List.length_append, List.length_singleton] at hfuel
    rw [write, List.cons_append, List.append_assoc, List.singleton_append]
    cases items with
    | nil => rfl
    | cons item items =>
      obtain ⟨b, more, hb, hspace, hclose⟩ := head_writeItems (hint item List.mem_cons_self) items
      have hopen : expect 93 (writeItems (item :: items) ++ 93 :: rest) = none := by
        rw [hb, List.cons_append, expect_other hspace hclose]
      rw [readValue_items fuel hopen,
        readItems_writeItems (List.cons_ne_nil _ _) ih (by omega) rest, Option.map_some]
  | @object entries hint ih =>
    refine reads_of_succ (.object hint) fun fuel rest hfuel _ ↦ ?_
    rw [write, List.length_cons, List.length_append, List.length_singleton] at hfuel
    rw [write, List.cons_append, List.append_assoc, List.singleton_append]
    cases entries with
    | nil => rfl
    | cons entry entries =>
      obtain ⟨more, hmore⟩ := head_writeEntries entry entries
      have hopen : expect 125 (writeEntries (entry :: entries) ++ 125 :: rest) = none := by
        rw [hmore, List.cons_append, expect_other (by decide) (by decide)]
      rw [readValue_entries fuel hopen,
        readEntries_writeEntries (List.cons_ne_nil _ _) ih (by omega) rest, Option.map_some]

/-- **Reading inverts writing.** -/
theorem read_write {v : Json String} (h : Integral v) : read (write v) = some v := by
  have hread := reads_of_integral h (2 * (write v).length) [] (Nat.le_refl _) nofun
  rw [List.append_nil] at hread
  rw [read, hread]
  rfl

end Data.JsonText
