import Railyard.Manifest.Format
import Railyard.Manifest.References

/-!
# Rewriting a manifest

Linking a manifest to a project prints it and writes it back.  The codec reads what it wrote, so
the question is whether what is read passes validation again: the project's name is valid by
assumption, and everything else `validate` looks at is unchanged.

* `validate_eq_nil_iff`: acceptance does not depend on the iteration order of the hash map.
* `validate_linkProject`: a linked manifest is accepted when the manifest and the name are.
* `link_roundtrip`: reading the text of a linked manifest gives the linked manifest.
-/

set_option autoImplicit false

namespace Manifest

open Data

variable {F : Type} [Float64 F]

/-! ## The iteration order does not matter -/

/-- A manifest is accepted when each part of it is. -/
theorem validate_eq_nil_iff {hash : HashOrder} {manifest : RailyardManifest F} :
    validate hash manifest = [] ↔
      (∀ project, manifest.project = some project → isValidName project.name = true) ∧
        (∀ github, manifest.github = some github → isValidRepo github.repo = true) ∧
        (∀ name service, (name, service) ∈ manifest.services.entries →
          validateService manifest name service = []) ∧
        ∀ name, ¬ Relation.TransGen (fun a b ↦ b ∈ envEdges manifest a) name name := by
  rw [← findEnvReferenceCycle_eq_none_iff hash]
  simp only [validate, List.append_eq_nil_iff, List.map_eq_nil_iff, Option.toList_eq_nil_iff,
    List.flatMap_eq_nil_iff, Option.mem_toList, check_eq_nil, checkRepo, Bool.not_eq_false',
    Prod.forall, and_assoc]

theorem validate_eq_nil_of_hash {hash hash' : HashOrder} {manifest : RailyardManifest F}
    (h : validate hash manifest = []) : validate hash' manifest = [] :=
  validate_eq_nil_iff.mpr (validate_eq_nil_iff.mp h)

/-! ## Linking -/

omit [Float64 F] in
theorem linkProject_eq (manifest : RailyardManifest F) (name id : String) :
    manifest.linkProject name id = { manifest with project := some ⟨some id, name⟩ } := by
  cases hproject : manifest.project <;> simp [RailyardManifest.linkProject, hproject]

/-- Validation looks at the project for its name only. -/
theorem validate_linkProject {hash hash' : HashOrder} {manifest : RailyardManifest F}
    {name id : String} (h : validate hash manifest = []) (hname : isValidName name = true) :
    validate hash' (manifest.linkProject name id) = [] := by
  obtain ⟨-, hgithub, hservices, hcycle⟩ := validate_eq_nil_iff.mp h
  rw [linkProject_eq]
  refine validate_eq_nil_iff.mpr ⟨fun project hproject ↦ ?_, hgithub, hservices, hcycle⟩
  rw [← Option.some.inj hproject]
  exact hname

/-! ## Reading what was written -/

theorem parse_eq_ok {text : JsonText F} {hash : HashOrder} {input : String} {raw : Json F}
    {manifest : RailyardManifest F} (hraw : text.parse input = some raw)
    (hdecode : RailyardManifest.codec.decode raw = some manifest)
    (hvalid : validate hash manifest = []) : parse text hash input = .ok manifest := by
  simp [parse, hraw, parseValue, hdecode, hvalid]

theorem parseValue_ok {hash : HashOrder} {raw : Json F} {manifest : RailyardManifest F}
    (h : parseValue hash raw = .ok manifest) : validate hash manifest = [] := by
  rw [parseValue] at h
  split at h
  · simp at h
  · rename_i decoded _
    split at h
    · rename_i hvalid
      obtain rfl : decoded = manifest := by simpa using h
      exact hvalid
    · simp at h

/-- What is accepted passed validation. -/
theorem validate_of_parse {text : JsonText F} {hash : HashOrder} {input : String}
    {manifest : RailyardManifest F}
    (h : parse text hash input = .ok manifest ∨ parseRelaxed text hash input = .ok manifest) :
    validate hash manifest = [] := by
  rcases h with h | h
  · rw [parse] at h
    split at h
    · simp at h
    · exact parseValue_ok h
  · rw [parseRelaxed] at h
    split at h
    · simp at h
    · exact parseValue_ok h

/-- Printing a document with a line feed after it, and parsing that, gives the document back. -/
def JsonText.Lossless (text : JsonText F) (document : Json F) : Prop :=
  document.WF → text.parse (text.print document ++ "\n") = some document

/-- The text of an accepted manifest is read as that manifest. -/
theorem parse_toJsonString {text : JsonText F} {hash : HashOrder} {manifest : RailyardManifest F}
    (hvalid : validate hash manifest = [])
    (hlossless : text.Lossless (RailyardManifest.codec.encode manifest)) :
    parse text hash (manifest.toJsonString text) = .ok manifest :=
  parse_eq_ok (hlossless (RailyardManifest.codec.wf manifest))
    (RailyardManifest.codec.decode_encode manifest) hvalid

/-- **Linking rewrites a manifest without losing anything.**  The text of a linked manifest is
accepted and read as the manifest with its project's name and id replaced. -/
theorem link_roundtrip (text : JsonText F) (hash hash' : HashOrder) (input : String)
    (manifest : RailyardManifest F) (name id : String)
    (hmanifest : parse text hash input = .ok manifest ∨
      parseRelaxed text hash input = .ok manifest)
    (hname : isValidName name = true)
    (hlossless : text.Lossless
      (RailyardManifest.codec.encode (manifest.linkProject name id))) :
    parse text hash' ((manifest.linkProject name id).toJsonString text) =
      .ok { manifest with project := some { id := some id, name := name } } := by
  have hvalid : validate hash' (manifest.linkProject name id) = [] :=
    validate_linkProject (validate_of_parse hmanifest) hname
  rw [parse_toJsonString hvalid hlossless, linkProject_eq]

/-! ## A manifest with a number in its environment -/

/-- The document of the sample. -/
def sampleDocument : Json ℤ :=
  .object [("services", .object [("db", .object [("image", .string "postgres"),
    ("env", .object [("PORT", .number (.pos 5432))])])])]

/-- What the sample is read as. -/
def sampleManifest : RailyardManifest ℤ :=
  { (RailyardManifest.default : RailyardManifest ℤ) with
    services := .ofList [("db", { (Service.default : Service ℤ) with
      image := some "postgres", env := .ofList [("PORT", "5432")] })] }

/-- The text of the sample. -/
def sampleInput : String :=
  "\x7b\"services\":\x7b\"db\":\x7b\"image\":\"postgres\",\"env\":\x7b\"PORT\":5432\x7d\x7d\x7d\x7d"

/-- The text of the linked sample. -/
def sampleOutput : String :=
  "\x7b\n  \"project\": \x7b\n    \"id\": \"prj_1\",\n    \"name\": \"acme\"\n  \x7d,\n" ++
  "  \"services\": \x7b\n    \"db\": \x7b\n      \"image\": \"postgres\",\n" ++
  "      \"env\": \x7b\n        \"PORT\": \"5432\"\n      \x7d\n    \x7d\n  \x7d\n\x7d"

/-- Parsing of the two texts of the sample. -/
def sampleParse (input : String) : Option (Json ℤ) :=
  if input = sampleInput then some sampleDocument
  else if input = sampleOutput ++ "\n" then
    some (RailyardManifest.codec.encode (sampleManifest.linkProject "acme" "prj_1"))
  else none

/-- Printing and parsing of the two texts of the sample. -/
def sampleText : JsonText ℤ := ⟨fun _ ↦ sampleOutput, sampleParse, fun _ ↦ none⟩

theorem sampleParse_input : sampleParse sampleInput = some sampleDocument := by
  rw [sampleParse, if_pos rfl]

theorem sampleParse_output : sampleParse (sampleOutput ++ "\n") =
    some (RailyardManifest.codec.encode (sampleManifest.linkProject "acme" "prj_1")) := by
  rw [sampleParse, if_neg (by decide), if_pos rfl]

theorem link_roundtrip_sample :
    parse sampleText .insertion
        ((sampleManifest.linkProject "acme" "prj_1").toJsonString sampleText) =
      .ok { sampleManifest with project := some { id := some "prj_1", name := "acme" } } := by
  have hdecode : RailyardManifest.codec.decode sampleDocument = some sampleManifest := rfl
  have hlossless : sampleText.Lossless
      (RailyardManifest.codec.encode (sampleManifest.linkProject "acme" "prj_1")) := by
    intro _
    simp only [sampleText]
    exact sampleParse_output
  exact link_roundtrip sampleText .insertion .insertion sampleInput sampleManifest "acme" "prj_1"
    (.inl (parse_eq_ok sampleParse_input hdecode (by decide +kernel))) (by decide) hlossless

end Manifest
