import Mathlib.Data.List.Chain
import Mathlib.Data.List.DropRight
import Railyard.Client.Relink
import Railyard.Client.Target

/-!
# The names the client derives

`railyard init` takes a project's name from that of its directory, and a login over `ssh` a user's
from the local one.  The server and the manifest check both on their own; what the client derives
passes.

* `Squeezed`: what the loop of `sanitizeProjectName` keeps true of the name it builds;
* `label_sanitizeProjectName`: what is left after the truncation and the trim;
* `derived_names_accepted`: the names are accepted, and a project's is not squeezed any further.
-/

set_option autoImplicit false

namespace Client

/-! ## The loop -/

/-- The characters of a label. -/
abbrev LabelChar (c : Char) : Prop := ('a' ≤ c ∧ c ≤ 'z') ∨ c.isDigit ∨ c = '-'

theorem LabelChar.toNat_cases {c : Char} (h : LabelChar c) :
    c.toNat ≤ 57 ∨ 97 ≤ c.toNat ∧ c.toNat ≤ 122 := by
  rcases h with ⟨hlo, hhi⟩ | hdigit | rfl
  · exact .inr ⟨hlo, hhi⟩
  · exact .inl (Encoding.toNat_of_isDigit hdigit).2
  · exact .inl (by decide)

/-- A label in the making: no dash in front, and never two in a row. -/
structure Squeezed (cs : List Char) : Prop where
  chars : ∀ c ∈ cs, LabelChar c
  head : cs.head? ≠ some '-'
  single : cs.IsChain fun a b ↦ a ≠ '-' ∨ b ≠ '-'

section Loop

variable {cs more : List Char}

theorem Squeezed.nil : Squeezed [] := ⟨nofun, nofun, .nil⟩

theorem Squeezed.concat (h : Squeezed cs) {c : Char} (hc : LabelChar c)
    (hdash : c = '-' → cs ≠ [] ∧ cs.getLast? ≠ some '-') : Squeezed (cs ++ [c]) := by
  refine ⟨fun d hd ↦ ?_, ?_, List.isChain_append.mpr ⟨h.single, .singleton c, ?_⟩⟩
  · rcases List.mem_append.mp hd with hd | hd
    · exact h.chars d hd
    · rwa [List.mem_singleton.mp hd]
  · cases cs with
    | nil => exact fun hhead ↦ (hdash (Option.some.inj hhead)).1 rfl
    | cons d cs => exact h.head
  · intro d hd e he
    obtain rfl := Option.some.inj he
    by_cases hlast : c = '-'
    · refine .inl fun hd' ↦ (hdash hlast).2 ?_
      rw [← hd']
      exact hd
    · exact .inr hlast

/-- What the name starts with is squeezed. -/
theorem Squeezed.of_append (h : Squeezed (cs ++ more)) : Squeezed cs := by
  refine ⟨fun c hc ↦ h.chars c (List.mem_append_left _ hc), ?_, h.single.left_of_append⟩
  cases cs with
  | nil => nofun
  | cons c cs => exact h.head

theorem Squeezed.push (h : Squeezed cs) (c : Char) : Squeezed (pushNameChar cs c) := by
  rw [pushNameChar]
  split
  · rename_i hc
    refine h.concat (hc.imp_right .inl) ?_
    rintro rfl
    exact absurd hc (by decide)
  split
  · rename_i hdash
    exact h.concat (.inr (.inr rfl)) fun _ ↦ hdash
  · exact h

theorem squeezed_foldl (h : Squeezed cs) (raw : List Char) :
    Squeezed (raw.foldl pushNameChar cs) := by
  induction raw generalizing cs with
  | nil => exact h
  | cons c raw ih => exact ih (h.push c)

/-- A dash that stands in a squeezed name was taken. -/
theorem Squeezed.dash (h : Squeezed (cs ++ ['-'])) : cs ≠ [] ∧ cs.getLast? ≠ some '-' := by
  refine ⟨fun hnil ↦ h.head ?_, fun hlast ↦ ?_⟩
  · rw [hnil]
    rfl
  · rcases (List.isChain_append.mp h.single).2.2 '-' hlast '-' rfl with hne | hne
    · exact hne rfl
    · exact hne rfl

theorem pushNameChar_of_squeezed {c : Char} (h : Squeezed (cs ++ [c])) :
    pushNameChar cs c = cs ++ [c] := by
  have hc : LabelChar c := h.chars c (List.mem_append_right _ (List.mem_singleton_self c))
  rw [pushNameChar]
  by_cases hdash : c = '-'
  · subst hdash
    rw [if_neg (by decide), if_pos h.dash]
  · exact if_pos (hc.imp_right fun hor ↦ hor.resolve_right hdash)

/-- What is squeezed is taken as it is. -/
theorem foldl_of_squeezed (h : Squeezed (cs ++ more)) :
    more.foldl pushNameChar cs = cs ++ more := by
  induction more generalizing cs with
  | nil => rw [List.foldl_nil, List.append_nil]
  | cons c more ih =>
    rw [List.append_cons] at h ⊢
    rw [List.foldl_cons, pushNameChar_of_squeezed h.of_append]
    exact ih h

end Loop

/-! ## The trim -/

section Trim

variable {cs : List Char}

theorem trimDashes_of_head (h : cs.head? ≠ some '-') :
    trimDashes cs = cs.rdropWhile (· = '-') := by
  have hfront : cs.dropWhile (· = '-') = cs := by
    cases cs with
    | nil => rfl
    | cons c cs =>
      refine List.dropWhile_cons_of_neg fun hc ↦ h ?_
      rw [List.head?_cons, of_decide_eq_true hc]
  rw [trimDashes, hfront]
  rfl

/-- Trimming takes dashes off the end only, where there is none in front. -/
theorem Squeezed.trimDashes_isPrefix (h : Squeezed cs) : trimDashes cs <+: cs := by
  rw [trimDashes_of_head h.head]
  exact List.rdropWhile_prefix _ _

theorem getLast?_trimDashes : (trimDashes cs).getLast? ≠ some '-' := by
  intro hlast
  have hfirst := List.head?_dropWhile_not (· = '-') (cs.dropWhile (· = '-')).reverse
  rw [trimDashes, List.getLast?_reverse] at hlast
  rw [hlast] at hfirst
  exact absurd hfirst (by decide)

theorem trimDashes_eq_self (hhead : cs.head? ≠ some '-') (hlast : cs.getLast? ≠ some '-') :
    trimDashes cs = cs := by
  rw [trimDashes_of_head hhead]
  refine List.rdropWhile_eq_self_iff.mpr fun hne hdash ↦ hlast ?_
  rw [List.getLast?_eq_some_getLast hne, of_decide_eq_true hdash]

end Trim

/-! ## The names -/

section Names

variable (toLowercase : String → String) (raw : String)

/-- **What is left after the truncation and the trim** is a label still. -/
theorem label_sanitizeProjectName :
    Squeezed (sanitizeProjectName toLowercase raw).toList ∧
      (sanitizeProjectName toLowercase raw).toList.length ≤ 63 ∧
      (sanitizeProjectName toLowercase raw).toList.getLast? ≠ some '-' := by
  have hloop : Squeezed ((toLowercase raw).toList.foldl pushNameChar []) :=
    squeezed_foldl .nil _
  have hcut : Squeezed (((toLowercase raw).toList.foldl pushNameChar []).take 63) := by
    rw [← List.take_append_drop 63 ((toLowercase raw).toList.foldl pushNameChar [])] at hloop
    exact hloop.of_append
  have hstart := hcut.trimDashes_isPrefix
  rw [sanitizeProjectName, String.toList_ofList]
  refine ⟨?_, hstart.length_le.trans (List.length_take_le _ _), getLast?_trimDashes⟩
  obtain ⟨dashes, hdashes⟩ := hstart
  rw [← hdashes] at hcut
  exact hcut.of_append

/-- **A derived project name is valid**, where there is one. -/
theorem isValidProjectName_sanitize (h : sanitizeProjectName toLowercase raw ≠ "") :
    Railyard.isValidProjectName (sanitizeProjectName toLowercase raw) = true := by
  obtain ⟨hlabel, hlength, hlast⟩ := label_sanitizeProjectName toLowercase raw
  have hascii : ∀ c ∈ (sanitizeProjectName toLowercase raw).toList, c.toNat < 128 := by
    intro c hc
    rcases (hlabel.chars c hc).toNat_cases with h | h <;> omega
  have hsize : (sanitizeProjectName toLowercase raw).utf8ByteSize ≤ 63 := by
    rw [← String.ofList_toList (s := sanitizeProjectName toLowercase raw),
      Encoding.utf8ByteSize_ofList hascii]
    exact hlength
  have hchars := List.all_eq_true.mpr fun c hc ↦ decide_eq_true (hlabel.chars c hc)
  exact decide_eq_true ⟨h, hsize, hchars, hlabel.head, hlast⟩

/-- **Deriving a name from a derived one changes nothing**, where lowercase labels are their own
lowercase. -/
theorem sanitizeProjectName_idem
    (hlower : ∀ s : String, (∀ c ∈ s.toList, LabelChar c) → toLowercase s = s) :
    sanitizeProjectName toLowercase (sanitizeProjectName toLowercase raw) =
      sanitizeProjectName toLowercase raw := by
  obtain ⟨hlabel, hlength, hlast⟩ := label_sanitizeProjectName toLowercase raw
  generalize sanitizeProjectName toLowercase raw = name at hlabel hlength hlast ⊢
  rw [sanitizeProjectName, hlower name hlabel.chars, foldl_of_squeezed hlabel, List.nil_append,
    List.take_of_length_le hlength, trimDashes_eq_self hlabel.head hlast, String.ofList_toList]

/-- **A derived user name is accepted**, where there is one. -/
theorem validatedName_sanitize (h : Target.sanitizeUserName toLowercase raw ≠ "") :
    Railyard.validatedName (Target.sanitizeUserName toLowercase raw) =
      .ok (Target.sanitizeUserName toLowercase raw) := by
  refine if_pos ⟨h, List.all_eq_true.mpr fun c hc ↦ ?_⟩
  rw [Target.sanitizeUserName, String.toList_ofList] at hc
  exact (List.mem_filter.mp hc).2

end Names

/-- **What the client derives is accepted**: a project's name by the server and by the manifest, and
it is not squeezed any further; a user's by the server. -/
theorem derived_names_accepted (toLowercase : String → String)
    (hlower : ∀ s : String, (∀ c ∈ s.toList, LabelChar c) → toLowercase s = s) (raw : String) :
    (sanitizeProjectName toLowercase raw = "" ∨
        Railyard.isValidProjectName (sanitizeProjectName toLowercase raw) = true ∧
          Manifest.isValidName (sanitizeProjectName toLowercase raw) = true) ∧
      sanitizeProjectName toLowercase (sanitizeProjectName toLowercase raw) =
        sanitizeProjectName toLowercase raw ∧
      (Target.sanitizeUserName toLowercase raw = "" ∨
        Railyard.validatedName (Target.sanitizeUserName toLowercase raw) =
          .ok (Target.sanitizeUserName toLowercase raw)) := by
  refine ⟨?_, sanitizeProjectName_idem toLowercase raw hlower, ?_⟩
  · refine Classical.or_iff_not_imp_left.mpr fun hname ↦ ?_
    have hvalid := isValidProjectName_sanitize toLowercase raw hname
    exact ⟨hvalid, isValidName_of_isValidProjectName hvalid⟩
  · exact Classical.or_iff_not_imp_left.mpr (validatedName_sanitize toLowercase raw)

/-- The names of a directory and of a user with capitals and blanks. -/
theorem derived_names_accepted_myProject :
    (sanitizeProjectName Encoding.toAsciiLowercase "--My  Project (2)" = "my-project-2" ∧
        Target.sanitizeUserName Encoding.toAsciiLowercase "Ada L." = "adal") ∧
      Railyard.isValidProjectName
        (sanitizeProjectName Encoding.toAsciiLowercase "--My  Project (2)") = true := by
  have hlower : ∀ s : String, (∀ c ∈ s.toList, LabelChar c) → Encoding.toAsciiLowercase s = s := by
    refine fun s hs ↦ Encoding.toAsciiLowercase_eq_self fun c hc hupper ↦ ?_
    have hlo : 65 ≤ c.toNat := hupper.1
    have hhi : c.toNat ≤ 90 := hupper.2
    rcases (hs c hc).toNat_cases with h | h <;> omega
  refine ⟨by decide +kernel, ?_⟩
  obtain ⟨hname, -, -⟩ :=
    derived_names_accepted Encoding.toAsciiLowercase hlower "--My  Project (2)"
  exact (hname.resolve_left (by decide +kernel)).1

end Client
