import Railyard.Data.Encoding

/-!
# Case and white space

What lowercasing and trimming do to the characters of a string.

* `toList_toAsciiLowercase`, `lowerChar_eq_iff`: lowercasing goes character by character, and makes
  no other character of one that is no letter;
* `trim_around`: trimming takes white space off both ends, and no more;
* `startsWith_iff_of_trim`: what a text starts with, told from the trimmed text.
-/

set_option autoImplicit false

namespace Encoding

/-! ## Lowercase -/

/-- `char::to_ascii_lowercase` -/
def lowerChar (c : Char) : Char := if 'A' ≤ c ∧ c ≤ 'Z' then Char.ofNat (c.toNat + 32) else c

theorem toList_toAsciiLowercase (s : String) :
    (toAsciiLowercase s).toList = s.toList.map lowerChar := String.toList_ofList

theorem toAsciiLowercase_append (s t : String) :
    toAsciiLowercase (s ++ t) = toAsciiLowercase s ++ toAsciiLowercase t := by
  refine String.toList_injective ?_
  simp only [toList_toAsciiLowercase, String.toList_append, List.map_append]

theorem toNat_ofNat_add : ∀ n < 91, 65 ≤ n → (Char.ofNat (n + 32)).toNat = n + 32 := by decide

/-- Lowercasing leaves a character as it is, or makes a lowercase letter of it. -/
theorem lowerChar_cases (c : Char) :
    (¬ ('A' ≤ c ∧ c ≤ 'Z') ∧ lowerChar c = c) ∨
      (('A' ≤ c ∧ c ≤ 'Z') ∧ 97 ≤ (lowerChar c).toNat ∧ (lowerChar c).toNat ≤ 122) := by
  by_cases h : 'A' ≤ c ∧ c ≤ 'Z'
  · have hlo : 65 ≤ c.toNat := h.1
    have hhi : c.toNat ≤ 90 := h.2
    have hlower : (lowerChar c).toNat = c.toNat + 32 := by
      rw [lowerChar, if_pos h]
      exact toNat_ofNat_add _ (by omega) hlo
    exact .inr ⟨h, by omega, by omega⟩
  · exact .inl ⟨h, if_neg h⟩

/-- A character that is no letter is the lowercase of itself only. -/
theorem lowerChar_eq_iff {c d : Char} (hd : d.toNat < 65) : lowerChar c = d ↔ c = d := by
  rcases lowerChar_cases c with ⟨-, hsame⟩ | ⟨hupper, hlo, -⟩
  · rw [hsame]
  · refine iff_of_false (fun h ↦ ?_) fun h ↦ ?_
    · rw [h] at hlo
      omega
    · have hlo' : 65 ≤ c.toNat := hupper.1
      rw [h] at hlo'
      omega

/-- Text without capitals is its own lowercase. -/
theorem toAsciiLowercase_eq_self {s : String} (h : ∀ c ∈ s.toList, ¬ ('A' ≤ c ∧ c ≤ 'Z')) :
    toAsciiLowercase s = s := by
  refine String.ext ?_
  rw [toList_toAsciiLowercase]
  exact (List.map_congr_left fun c hc ↦ if_neg (h c hc)).trans (List.map_id _)

/-- Lowercasing and cutting at a character that is no letter may be done in either order. -/
theorem takeWhile_map_lowerChar {d : Char} (hd : d.toNat < 65) (cs : List Char) :
    (cs.takeWhile (· ≠ d)).map lowerChar = (cs.map lowerChar).takeWhile (· ≠ d) := by
  have hsame : (fun c ↦ decide (c ≠ d)) ∘ lowerChar = fun c ↦ decide (c ≠ d) := by
    funext c
    simp only [Function.comp_apply, ne_eq, lowerChar_eq_iff hd]
  rw [List.takeWhile_map, hsame]

/-- What follows the first of two marks is cut off whatever it is. -/
theorem takeWhile_takeWhile_append (c d : Char) (l r : List Char) :
    ((l ++ c :: r).takeWhile (· ≠ d)).takeWhile (· ≠ c)
      = (l.takeWhile (· ≠ d)).takeWhile (· ≠ c) := by
  induction l with
  | nil =>
    rw [List.nil_append, List.takeWhile_cons]
    split
    · rw [List.takeWhile_cons_of_neg (by simp)]
      rfl
    · rfl
  | cons a l ih =>
    rw [List.cons_append, List.takeWhile_cons, List.takeWhile_cons]
    split
    · rw [List.takeWhile_cons, List.takeWhile_cons, ih]
    · rfl

theorem headerText_of_headerText {value s : String} (h : headerText value = some s) :
    headerText s = some s := by
  have hsame : value = s := by
    rw [headerText] at h
    split at h
    · exact Option.some.inj h
    · cases h
  rwa [hsame] at h

theorem headerText_toAsciiLowercase {s : String} (h : headerText s = some s) :
    headerText (toAsciiLowercase s) = some (toAsciiLowercase s) := by
  rw [headerText_eq_some_iff] at h ⊢
  intro c hc
  rw [toList_toAsciiLowercase] at hc
  obtain ⟨d, hd, rfl⟩ := List.mem_map.mp hc
  rcases lowerChar_cases d with ⟨-, hsame⟩ | ⟨-, hlo, hhi⟩
  · rw [hsame]
    exact h d hd
  · omega

/-! ## What a text starts with -/

theorem stripPrefix_eq_some_iff {start s rest : String} :
    stripPrefix start s = some rest ↔ s = start ++ rest := by
  refine ⟨fun h ↦ ?_, fun h ↦ by rw [h, stripPrefix_append]⟩
  rw [stripPrefix] at h
  split at h
  · rename_i hstart
    obtain ⟨tail, htail⟩ := List.isPrefixOf_iff_prefix.mp hstart
    rw [← htail, List.drop_left] at h
    refine String.toList_injective ?_
    rw [String.toList_append, ← Option.some.inj h, String.toList_ofList, htail]
  · cases h

theorem drop_start (start rest : String) :
    String.ofList ((start ++ rest).toList.drop start.toList.length) = rest := by
  rw [String.toList_append, List.drop_left, String.ofList_toList]

/-! ## Length -/

/-- A text of ASCII characters has as many bytes as characters. -/
theorem utf8ByteSize_ofList {cs : List Char} (h : ∀ c ∈ cs, c.toNat < 128) :
    (String.ofList cs).utf8ByteSize = cs.length := by
  rw [← String.size_toByteArray, String.toByteArray_ofList, List.utf8Encode, List.size_toByteArray,
    List.length_flatMap]
  induction cs with
  | nil => rfl
  | cons c cs ih =>
    obtain ⟨hc, hcs⟩ := List.forall_mem_cons.mp h
    have hone : c.utf8Size = 1 := Char.utf8Size_eq_one_iff.mpr (Nat.le_of_lt_succ hc)
    rw [List.map_cons, List.sum_cons, ih hcs, String.length_utf8EncodeChar, hone,
      List.length_cons, Nat.add_comm]

/-! ## White space -/

theorem dropWhile_append_isWhitespace {space cs : List Char} {c : Char}
    (hspace : ∀ c ∈ space, isWhitespace c = true) (hc : isWhitespace c = false) :
    (space ++ c :: cs).dropWhile isWhitespace = c :: cs := by
  rw [List.dropWhile_append_of_pos hspace, List.dropWhile_cons_of_neg (by simp [hc])]

/-- White space around a text without any. -/
theorem trim_around {before s after : String} (hne : s ≠ "")
    (hbefore : ∀ c ∈ before.toList, isWhitespace c = true)
    (hafter : ∀ c ∈ after.toList, isWhitespace c = true)
    (hs : ∀ c ∈ s.toList, isWhitespace c = false) : trim (before ++ s ++ after) = s := by
  have hnil : s.toList ≠ [] := by simpa using hne
  have hstart : (before ++ s ++ after).toList.dropWhile isWhitespace
      = s.toList ++ after.toList := by
    obtain ⟨c, cs, hcs⟩ := List.exists_cons_of_ne_nil hnil
    rw [String.toList_append, String.toList_append, List.append_assoc, hcs, List.cons_append]
    exact dropWhile_append_isWhitespace hbefore (hs c (hcs ▸ List.mem_cons_self))
  have hend : (s.toList ++ after.toList).reverse.dropWhile isWhitespace = s.toList.reverse := by
    obtain ⟨c, cs, hcs⟩ := List.exists_cons_of_ne_nil (mt List.reverse_eq_nil_iff.mp hnil)
    rw [List.reverse_append, hcs]
    refine dropWhile_append_isWhitespace (fun c hc ↦ hafter c (List.mem_reverse.mp hc)) ?_
    exact hs c (List.mem_reverse.mp (hcs ▸ List.mem_cons_self))
  rw [trim, hstart, hend, List.reverse_reverse, String.ofList_toList]

/-- `str::starts_with` -/
def startsWith (start s : String) : Bool := start.toList.isPrefixOf s.toList

theorem startsWith_iff {start s : String} :
    startsWith start s = true ↔ start.toList <+: s.toList := List.isPrefixOf_iff_prefix

theorem startsWith_append (start rest : String) : startsWith start (start ++ rest) = true := by
  rw [startsWith_iff, String.toList_append]
  exact List.prefix_append _ _

/-- Trimming takes nothing off the front of a text that does not start with white space. -/
theorem trim_isPrefix {s : String} (h : ∀ c ∈ s.toList.head?, isWhitespace c = false) :
    (trim s).toList <+: s.toList := by
  have hstart : s.toList.dropWhile isWhitespace = s.toList := by
    cases hs : s.toList with
    | nil => rfl
    | cons c cs =>
      rw [hs] at h
      exact List.dropWhile_cons_of_neg (by simp [h c rfl])
  rw [trim, String.toList_ofList, hstart]
  exact List.reverse_suffix.mp (by rw [List.reverse_reverse]; exact List.dropWhile_suffix _)

/-- Trimming takes nothing off a start without white space. -/
theorem startsWith_trim {start s : String} (hne : start ≠ "")
    (hstart : ∀ c ∈ start.toList, isWhitespace c = false) (h : startsWith start s = true) :
    startsWith start (trim s) = true := by
  obtain ⟨c, cs, hcs⟩ := List.exists_cons_of_ne_nil (l := start.toList) (by simpa using hne)
  obtain ⟨rest, hrest⟩ := startsWith_iff.mp h
  have hfront : s.toList.dropWhile isWhitespace = s.toList := by
    rw [← hrest, hcs, List.cons_append]
    exact List.dropWhile_cons_of_neg (by simp [hstart c (hcs ▸ List.mem_cons_self)])
  have hback : ∃ rest', s.toList.reverse.dropWhile isWhitespace
      = rest' ++ start.toList.reverse := by
    have hkept : start.toList.reverse.dropWhile isWhitespace = start.toList.reverse := by
      obtain ⟨d, ds, hds⟩ := List.exists_cons_of_ne_nil (l := start.toList.reverse)
        (by simpa using hne)
      have hd : isWhitespace d = false := hstart d (List.mem_reverse.mp (hds ▸ List.mem_cons_self))
      rw [hds]
      exact List.dropWhile_cons_of_neg (by simp [hd])
    rw [← hrest, List.reverse_append, List.dropWhile_append, hkept]
    split
    · exact ⟨[], rfl⟩
    · exact ⟨_, rfl⟩
  obtain ⟨rest', hrest'⟩ := hback
  rw [startsWith_iff, trim, String.toList_ofList, hfront, hrest', List.reverse_append,
    List.reverse_reverse]
  exact List.prefix_append _ _

/-- A text starts with what its trimmed self starts with, unless white space comes first. -/
theorem startsWith_iff_of_trim {start s : String} (hne : start ≠ "")
    (hstart : ∀ c ∈ start.toList, isWhitespace c = false)
    (h : startsWith start (trim s) = true) :
    startsWith start s = true ↔ ∀ c ∈ s.toList.head?, isWhitespace c = false := by
  constructor
  · intro hs c hc
    obtain ⟨d, ds, hds⟩ := List.exists_cons_of_ne_nil (l := start.toList) (by simpa using hne)
    obtain ⟨rest, hrest⟩ := startsWith_iff.mp hs
    rw [← hrest, hds, List.cons_append] at hc
    exact hstart c (by rw [hds, ← Option.some.inj hc]; exact List.mem_cons_self)
  · exact fun hhead ↦ startsWith_iff.mpr ((startsWith_iff.mp h).trans (trim_isPrefix hhead))

end Encoding
