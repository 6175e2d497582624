import Railyard.Data.Base64
import Railyard.Data.JsonText
import Railyard.Data.Serde
import Railyard.Data.Text
import Railyard.Server.Invite

/-!
# Invite blobs

The text an invite is handed over as: a prefix and the invite as JSON in URL-safe base64.
`InvitePayload.encode` writes it, `InvitePayload.parse` reads it back, whatever white space it was
pasted with.

* `InvitePayload.toVec`, `InvitePayload.fromSlice`: the payload as JSON, by the rules its type is
  annotated with;
* `Crates.Specified`, `Decoders.specified`: base64 and JSON as their specifications have them.

An invite is read from the same two crates that write it, which come as `Decoders`.
-/

set_option autoImplicit false

namespace Railyard

open Data

/-! ## The payload as JSON -/

def InviteProject.codec : Codec String InviteProject :=
  (Codec.openStruct (.cons "id" (.required .string) <| .cons "name" (.required .string) .nil)
    false).iso (fun (id, name, _) ↦ ⟨id, name⟩) (fun p ↦ (p.id, p.name, ())) fun _ ↦ rfl

theorem expiresAt_width : 64 ≤ 64 := Nat.le_refl 64

/-- The values of the fields of a payload, in order; the project is left out when there is none. -/
def InvitePayload.fields : Codec String (String × String × String × String ×
    Option InviteProject × String × U64 × Unit) :=
  Codec.openStruct
    (.cons "server_url" (.required .string) <|
      .cons "server_name" (.required .string) <|
      .cons "user_id" (.required .string) <|
      .cons "user_name" (.required .string) <|
      .cons "project" (.optional InviteProject.codec) <|
      .cons "invite_token" (.required .string) <|
      .cons "expires_at" (.required (.uint 64 expiresAt_width)) .nil) false

/-- `serde_json::to_vec`; the expiry is a number of 64 bits. -/
def InvitePayload.toVec (p : InvitePayload) : Bytes :=
  JsonText.write <| InvitePayload.fields.encode
    (p.serverUrl, p.serverName, p.userId, p.userName, p.project, p.inviteToken,
      Fin.ofNat (2 ^ 64) p.expiresAt, ())

/-- `serde_json::from_slice` -/
def InvitePayload.fromSlice (bs : Bytes) : Option InvitePayload :=
  (JsonText.read bs).bind fun json ↦ (InvitePayload.fields.decode json).map
    fun (serverUrl, serverName, userId, userName, project, inviteToken, expiresAt, _) ↦
      ⟨serverUrl, serverName, userId, userName, project, inviteToken, expiresAt.val⟩

/-! ## Reading a blob -/

/-- What reading a blob takes from other crates. -/
structure Decoders where
  /-- `URL_SAFE_NO_PAD.decode` -/
  urlSafeNoPad : String → Option Bytes
  /-- `serde_json::from_slice` of an invite payload -/
  inviteJson : Bytes → Option InvitePayload

def invalidBlob : Error := "not a valid " ++ inviteBlobPrefix ++ "* invite blob"

def InvitePayload.parse (decoders : Decoders) (blob : String) : Except Error InvitePayload := do
  let some encoded := Encoding.stripPrefix inviteBlobPrefix (Encoding.trim blob)
    | throw invalidBlob
  let some json := decoders.urlSafeNoPad encoded
    | throw invalidBlob
  let some payload := decoders.inviteJson json
    | throw invalidBlob
  return payload

theorem InvitePayload.parse_eq_ok_iff {decoders : Decoders} {blob : String} {p : InvitePayload} :
    InvitePayload.parse decoders blob = .ok p ↔ ∃ encoded json,
      Encoding.trim blob = inviteBlobPrefix ++ encoded ∧
        decoders.urlSafeNoPad encoded = some json ∧ decoders.inviteJson json = some p := by
  rw [parse]
  constructor
  · intro h
    cases hstart : Encoding.stripPrefix inviteBlobPrefix (Encoding.trim blob) with
    | none => simp [hstart, throw, throwThe, MonadExceptOf.throw] at h
    | some encoded =>
      cases hjson : decoders.urlSafeNoPad encoded with
      | none => simp [hstart, hjson, throw, throwThe, MonadExceptOf.throw] at h
      | some json =>
        cases hpayload : decoders.inviteJson json with
        | none => simp [hstart, hjson, hpayload, throw, throwThe, MonadExceptOf.throw] at h
        | some payload =>
          simp only [hstart, hjson, hpayload] at h
          refine ⟨encoded, json, Encoding.stripPrefix_eq_some_iff.mp hstart, hjson, ?_⟩
          rw [hpayload, Except.ok.inj h]
  · rintro ⟨encoded, json, htrim, hjson, hpayload⟩
    simp only [htrim, Encoding.stripPrefix_append, hjson, hpayload]
    rfl

/-- The crates write base64 and JSON as specified. -/
structure Crates.Specified (crates : Crates) : Prop where
  urlSafeNoPad : crates.urlSafeNoPad = Base64.encode
  inviteJson : crates.inviteJson = InvitePayload.toVec

/-- The crates read base64 and JSON as specified. -/
def Decoders.specified : Decoders := ⟨Base64.decode, InvitePayload.fromSlice⟩

/-! ## Round trip -/

theorem InviteProject.integral_encode (project : InviteProject) :
    JsonText.Integral (InviteProject.codec.encode project) := by
  have hencode : InviteProject.codec.encode project =
      .object [("id", .string project.id), ("name", .string project.name)] := rfl
  rw [hencode]
  refine .object fun entry hentry ↦ ?_
  simp only [List.mem_cons, List.not_mem_nil, or_false] at hentry
  rcases hentry with rfl | rfl <;> exact .string _

theorem InvitePayload.integral_encode (serverUrl serverName userId userName inviteToken : String)
    (project : Option InviteProject) (expiresAt : U64) :
    JsonText.Integral (InvitePayload.fields.encode
      (serverUrl, serverName, userId, userName, project, inviteToken, expiresAt, ())) := by
  have hencode : InvitePayload.fields.encode
      (serverUrl, serverName, userId, userName, project, inviteToken, expiresAt, ()) =
      .object (("server_url", .string serverUrl) :: ("server_name", .string serverName) ::
        ("user_id", .string userId) :: ("user_name", .string userName) ::
        (((project.map InviteProject.codec.encode).map fun j ↦ ("project", j)).toList ++
          [("invite_token", .string inviteToken), ("expires_at", .number (.pos expiresAt))])) :=
    rfl
  rw [hencode]
  refine .object fun entry hentry ↦ ?_
  simp only [List.mem_cons, List.mem_append, Option.mem_toList, Option.map_map,
    Option.map_eq_some_iff, List.not_mem_nil, or_false] at hentry
  rcases hentry with rfl | rfl | rfl | rfl | ⟨project, -, rfl⟩ | rfl | rfl
  · exact .string _
  · exact .string _
  · exact .string _
  · exact .string _
  · exact project.integral_encode
  · exact .string _
  · exact .number nofun

theorem InvitePayload.fromSlice_toVec {p : InvitePayload} (hexpires : p.expiresAt < 2 ^ 64) :
    InvitePayload.fromSlice p.toVec = some p := by
  have hvalue : (Fin.ofNat (2 ^ 64) p.expiresAt).val = p.expiresAt := Nat.mod_eq_of_lt hexpires
  rw [fromSlice, toVec, JsonText.read_write (integral_encode ..), Option.bind_some,
    fields.decode_encode, Option.map_some]
  exact congrArg (fun expiresAt ↦ some { p with expiresAt }) hvalue

theorem inviteBlobPrefix_ne : inviteBlobPrefix ≠ "" := by decide

theorem not_isWhitespace_inviteBlobPrefix :
    ∀ c ∈ inviteBlobPrefix.toList, Encoding.isWhitespace c = false := by
  have hall : inviteBlobPrefix.toList.all (fun c ↦ !Encoding.isWhitespace c) = true := by decide
  simpa using hall

theorem not_isWhitespace_encode {crates : Crates} (hcrates : crates.Specified)
    (p : InvitePayload) : ∀ c ∈ (p.encode crates).toList, Encoding.isWhitespace c = false := by
  intro c hc
  rw [InvitePayload.encode, hcrates.urlSafeNoPad, String.toList_append, List.mem_append] at hc
  rcases hc with hc | hc
  · exact not_isWhitespace_inviteBlobPrefix c hc
  · exact Base64.not_isWhitespace_encode hc

theorem InvitePayload.parse_of_trim {p : InvitePayload} (hexpires : p.expiresAt < 2 ^ 64)
    {blob : String} (htrim : Encoding.trim blob = inviteBlobPrefix ++ Base64.encode p.toVec) :
    InvitePayload.parse .specified blob = .ok p :=
  parse_eq_ok_iff.mpr ⟨Base64.encode p.toVec, p.toVec, htrim, Base64.decode_encode p.toVec,
    fromSlice_toVec hexpires⟩

theorem InvitePayload.trim_encode {crates : Crates} (hcrates : crates.Specified)
    (p : InvitePayload) {before after : String}
    (hbefore : ∀ c ∈ before.toList, Encoding.isWhitespace c = true)
    (hafter : ∀ c ∈ after.toList, Encoding.isWhitespace c = true) :
    Encoding.trim (before ++ p.encode crates ++ after) =
      inviteBlobPrefix ++ Base64.encode p.toVec := by
  have hencode : p.encode crates = inviteBlobPrefix ++ Base64.encode p.toVec := by
    rw [InvitePayload.encode, hcrates.urlSafeNoPad, hcrates.inviteJson]
  have hne : p.encode crates ≠ "" := by
    rw [hencode, Ne, String.append_eq_empty_iff]
    exact fun h ↦ inviteBlobPrefix_ne h.1
  rw [Encoding.trim_around hne hbefore hafter (not_isWhitespace_encode hcrates p), hencode]

/-- **Invite blobs round-trip**, whatever white space they are pasted with. -/
theorem InvitePayload.parse_encode {crates : Crates} (hcrates : crates.Specified)
    {p : InvitePayload} (hexpires : p.expiresAt < 2 ^ 64) {before after : String}
    (hbefore : ∀ c ∈ before.toList, Encoding.isWhitespace c = true)
    (hafter : ∀ c ∈ after.toList, Encoding.isWhitespace c = true) :
    InvitePayload.parse .specified (before ++ p.encode crates ++ after) = .ok p :=
  parse_of_trim hexpires (trim_encode hcrates p hbefore hafter)

/-! ### A blob pasted with a line break -/

/-- Crates of which only the two that write blobs matter. -/
def blobCrates : Crates :=
  { Crates.sample with urlSafeNoPad := Base64.encode, inviteJson := InvitePayload.toVec }

def pastedPayload : InvitePayload :=
  ⟨"https://railyard.example", "Zürich \"one\"", "usr_1", "zoé", some ⟨"prj_1", "blog\n"⟩, "tok",
    2 ^ 64 - 1⟩

theorem InvitePayload.parse_encode_pastedPayload :
    InvitePayload.parse .specified ("\n " ++ pastedPayload.encode blobCrates ++ "\t\u00a0") =
      .ok pastedPayload :=
  parse_encode ⟨rfl, rfl⟩ (by decide) (List.all_eq_true.mp (by decide))
    (List.all_eq_true.mp (by decide))

end Railyard
