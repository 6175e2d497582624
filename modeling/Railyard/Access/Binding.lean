import Railyard.Data.Occurrences
import Railyard.Server.Auth

/-!
# What a signature binds

A signature covers one text, into which the fields of a request are written line by line.  Where no
field holds a line feed, the text determines every field, whatever else the fields hold.

* `canonical_injOn`: different fields have different texts;
* `signature_binds_every_field`: so a signature over one request never verifies as another's.
-/

set_option autoImplicit false

namespace Railyard

/-! ## Lines -/

/-- A text of one line. -/
def OneLine (s : String) : Prop := '\n' ∉ s.toList

/-- A field of one line, up to the mark that starts the next line. -/
theorem field_inj {mark x y r s : String} (hmark : mark.toList.head? = some '\n') (hx : OneLine x)
    (hy : OneLine y) (h : x ++ (mark ++ r) = y ++ (mark ++ s)) : x = y ∧ r = s := by
  obtain ⟨label, hlabel⟩ := List.head?_eq_some_iff.mp hmark
  have hchars := congrArg String.toList h
  rw [String.toList_append, String.toList_append, String.toList_append, String.toList_append,
    hlabel] at hchars
  obtain ⟨hfield, hrest⟩ := Encoding.append_cons_inj hx hy hchars
  exact ⟨String.toList_injective hfield, String.toList_injective (List.append_cancel_left hrest)⟩

theorem toString_injective : Function.Injective (fun n : ℕ ↦ toString n) := by
  intro n m h
  have hdigits : Nat.toDigits 10 n = Nat.toDigits 10 m := by
    simpa [Nat.toString_eq_repr, Nat.toList_repr] using congrArg String.toList h
  rw [← Nat.ofDigitChars_ten_toDigits (n := n), hdigits, Nat.ofDigitChars_ten_toDigits]

theorem oneLine_toString (n : ℕ) : OneLine (toString n) := by
  intro hmem
  rw [Nat.toString_eq_repr, Nat.toList_repr] at hmem
  have hdigit := Nat.isDigit_of_mem_toDigits (by decide) (by decide) hmem
  exact absurd hdigit (by decide)

/-! ## The text of a request -/

/-- The fields a signature covers. -/
@[ext]
structure RequestFields where
  keyId : String
  timestamp : ℕ
  nonce : String
  method : String
  pathAndQuery : String
  host : String
  contentSha256 : String
deriving DecidableEq

namespace RequestFields

/-- The text of the fields. -/
def canonical (fields : RequestFields) : String :=
  canonicalRequest fields.keyId fields.timestamp fields.nonce fields.method fields.pathAndQuery
    fields.host fields.contentSha256

/-- No field holds a line feed. -/
structure Lines (fields : RequestFields) : Prop where
  keyId : OneLine fields.keyId
  nonce : OneLine fields.nonce
  method : OneLine fields.method
  pathAndQuery : OneLine fields.pathAndQuery
  host : OneLine fields.host
  contentSha256 : OneLine fields.contentSha256

theorem canonical_eq (fields : RequestFields) :
    fields.canonical = "RAILYARD-REQUEST-V1\nkey_id:" ++ (fields.keyId ++ ("\ntimestamp:" ++
      (toString fields.timestamp ++ ("\nnonce:" ++ (fields.nonce ++ ("\nmethod:" ++
        (fields.method ++ ("\npath:" ++ (fields.pathAndQuery ++ ("\nhost:" ++
          (fields.host ++ ("\ncontent_sha256:" ++ fields.contentSha256)))))))))))) := by
  -- whatever the marks are
  have hassoc : ∀ m₀ k m₁ t m₂ n m₃ v m₄ p m₅ o m₆ c : String,
      m₀ ++ k ++ m₁ ++ t ++ m₂ ++ n ++ m₃ ++ v ++ m₄ ++ p ++ m₅ ++ o ++ m₆ ++ c =
        m₀ ++ (k ++ (m₁ ++ (t ++ (m₂ ++ (n ++ (m₃ ++ (v ++ (m₄ ++ (p ++ (m₅ ++ (o ++
          (m₆ ++ c)))))))))))) := by
    intros
    simp only [String.append_assoc]
  exact hassoc ..

/-- Different fields have different texts. -/
theorem canonical_injOn : Set.InjOn canonical {fields | fields.Lines} := by
  intro f hf g hg h
  rw [canonical_eq, canonical_eq, String.append_right_inj] at h
  obtain ⟨hkeyId, h⟩ := field_inj (by decide) hf.keyId hg.keyId h
  obtain ⟨htimestamp, h⟩ := field_inj (by decide) (oneLine_toString _) (oneLine_toString _) h
  obtain ⟨hnonce, h⟩ := field_inj (by decide) hf.nonce hg.nonce h
  obtain ⟨hmethod, h⟩ := field_inj (by decide) hf.method hg.method h
  obtain ⟨hpath, h⟩ := field_inj (by decide) hf.pathAndQuery hg.pathAndQuery h
  obtain ⟨hhost, hhash⟩ := field_inj (by decide) hf.host hg.host h
  exact RequestFields.ext hkeyId (toString_injective htimestamp) hnonce hmethod hpath hhost hhash

end RequestFields

/-! ## Requests -/

/-- What a signed request carries, as the fields the signature covers. -/
def SignedRequest.fields (q : SignedRequest) : RequestFields :=
  ⟨q.head.keyId, q.head.timestamp, q.head.nonce, q.method, q.target, q.host, q.head.contentSha256⟩

/-- The start of a request and its authority hold no line feed. -/
structure Request.Lines (req : Request) : Prop where
  method : OneLine req.method
  target : OneLine req.target
  authority : ∀ authority, req.authority = some authority → OneLine authority

/-- Nor does a header. -/
theorem Request.oneLine_of_header? {req : Request} {name value : String}
    (h : req.header? name = some value) : OneLine value := by
  obtain ⟨header, -, htext⟩ := Option.bind_eq_some_iff.mp h
  rw [Encoding.headerText] at htext
  split at htext
  · rename_i hall
    obtain rfl : header.2 = value := by simpa using htext
    intro hmem
    exact absurd (List.all_eq_true.mp hall '\n' hmem) (by decide)
  · simp at htext

theorem Request.oneLine_of_header {req : Request} {name value : String}
    (h : req.header name = .ok value) : OneLine value := by
  rw [Request.header] at h
  split at h
  · rename_i found hfound
    obtain rfl : found = value := by simpa using h
    exact oneLine_of_header? hfound
  · simp at h

/-- The signature headers of a request hold no line feed. -/
theorem Request.signedHead_lines {req : Request} {head : SignedHead}
    (h : req.signedHead = .ok head) :
    OneLine head.keyId ∧ OneLine head.nonce ∧ OneLine head.contentSha256 := by
  obtain ⟨version, -, h⟩ := Encoding.bind_eq_ok h
  split at h
  · simp [throw, throwThe, MonadExceptOf.throw] at h
  obtain ⟨keyId, hkeyId, h⟩ := Encoding.bind_eq_ok h
  obtain ⟨nonce, hnonce, h⟩ := Encoding.bind_eq_ok h
  obtain ⟨hash, hhash, h⟩ := Encoding.bind_eq_ok h
  obtain ⟨signature, -, h⟩ := Encoding.bind_eq_ok h
  obtain ⟨timestamp, -, h⟩ := Encoding.bind_eq_ok h
  split at h
  · obtain rfl := Except.ok.inj h
    exact ⟨oneLine_of_header hkeyId, oneLine_of_header hnonce, oneLine_of_header hhash⟩
  · simp [throw, throwThe, MonadExceptOf.throw] at h

/-- The fields of a signed request hold no line feed. -/
theorem Request.Lines.fields {req : Request} {q : SignedRequest} (hreq : req.Lines)
    (h : req.signed = some q) : q.fields.Lines := by
  rw [Request.signed] at h
  split at h
  · rename_i head host hhead hhost
    obtain rfl := Option.some.inj h
    obtain ⟨hkeyId, hnonce, hhash⟩ := Request.signedHead_lines hhead
    refine ⟨hkeyId, hnonce, hreq.method, hreq.target, ?_, hhash⟩
    rw [Request.host] at hhost
    split at hhost
    · rename_i found hfound
      obtain rfl := Except.ok.inj hhost
      exact Request.oneLine_of_header? hfound
    · split at hhost
      · rename_i authority hauthority
        obtain rfl := Except.ok.inj hhost
        exact hreq.authority _ hauthority
      · simp at hhost
  · simp at h

theorem Request.canonical_eq_fields {req : Request} {q : SignedRequest} (h : req.signed = some q) :
    q.head.canonical req q.host = q.fields.canonical := by
  rw [Request.signed] at h
  split at h
  · obtain rfl := Option.some.inj h
    rfl
  · simp at h

/-- **A signature binds every field.**  Fields without line feeds are determined by the text a
signature covers, whatever else they hold.  So two requests for which the server checks a signature
against the same text agree in the key id, the time, the nonce, the method, the path and query, the
host and the hash of the body; their headers cannot hold a line feed, nor can what starts an HTTP
request or its authority. -/
theorem signature_binds_every_field :
    (∀ fields fields' : RequestFields, fields.Lines → fields'.Lines →
      fields.canonical = fields'.canonical → fields = fields') ∧
    ∀ (req req' : Request) (q q' : SignedRequest), req.Lines → req'.Lines →
      req.signed = some q → req'.signed = some q' →
        q.head.canonical req q.host = q'.head.canonical req' q'.host → q.fields = q'.fields := by
  refine ⟨fun f f' hf hf' ↦ RequestFields.canonical_injOn hf hf', ?_⟩
  intro req req' q q' hreq hreq' hq hq' htext
  rw [Request.canonical_eq_fields hq, Request.canonical_eq_fields hq'] at htext
  exact RequestFields.canonical_injOn (hreq.fields hq) (hreq'.fields hq') htext

/-- Labels within a field do no harm. -/
theorem signature_binds_every_field_labels :
    (⟨"a", 1, "b", "GET", "/\thost:", "c", ""⟩ : RequestFields).canonical ≠
      (⟨"a", 1, "b", "GET", "/", "host:c", ""⟩ : RequestFields).canonical := by
  intro htext
  have hlines : (⟨"a", 1, "b", "GET", "/\thost:", "c", ""⟩ : RequestFields).Lines := by
    constructor <;> unfold OneLine <;> decide
  have hlines' : (⟨"a", 1, "b", "GET", "/", "host:c", ""⟩ : RequestFields).Lines := by
    constructor <;> unfold OneLine <;> decide
  have heq := signature_binds_every_field.1 _ _ hlines hlines' htext
  exact absurd heq (by decide)

end Railyard
