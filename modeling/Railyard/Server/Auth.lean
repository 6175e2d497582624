import Railyard.Server.Http

/-!
# Authenticating requests

The canonical form of a request, the signature check that every protected request goes through,
the check of a buffered body against the hash that was signed, and the one endpoint that needs
neither: the redemption of an invite.
-/

set_option autoImplicit false

namespace Railyard

open Effects

def timestampWindowSeconds : ℕ := 300

def maxBodyBytes : ℕ := 4 * 1024 * 1024

def signatureVersion : String := "v1"

def headerSignatureVersion : String := "x-railyard-signature-version"

def headerKeyId : String := "x-railyard-key-id"

def headerTimestamp : String := "x-railyard-timestamp"

def headerNonce : String := "x-railyard-nonce"

def headerContentSha256 : String := "x-railyard-content-sha256"

def headerSignature : String := "x-railyard-signature"

/-- `unix_timestamp()` -/
def unixTimestamp : Task ℕ := .op .unixTimestamp .ret

/-- The critical section on `seen_nonces`; returns whether the nonce was already there. -/
def recordNonce (window now : ℕ) (nonce : String) : Task Bool :=
  .op (.recordNonce window now nonce) .ret

/-- The text a signature covers. -/
def canonicalRequest (keyId : String) (timestamp : ℕ)
    (nonce method pathAndQuery host contentSha256 : String) : String :=
  "RAILYARD-REQUEST-V1\nkey_id:" ++ keyId ++ "\ntimestamp:" ++ toString timestamp ++ "\nnonce:" ++
    nonce ++ "\nmethod:" ++ method ++ "\npath:" ++ pathAndQuery ++ "\nhost:" ++ host ++
    "\ncontent_sha256:" ++ contentSha256

variable (crates : Crates)

/-- The hash an invite token is stored as. -/
def tokenHash (token : String) : String := crates.sha256Hex (Encoding.asBytes token)

/-- The 32 bytes of an encoded public key, when they are one. -/
def parsePublicKey (encoded : String) : Option Bytes :=
  (crates.base64Decode encoded).filter fun bytes ↦ bytes.length = 32 ∧ crates.isVerifyingKey bytes

/-- The 64 bytes of an encoded signature. -/
def parseSignature (encoded : String) : Option Bytes :=
  (crates.base64Decode encoded).filter fun bytes ↦ bytes.length = 64

/-- The host a request is for: its `Host` header, else the authority of its URI. -/
def Request.host (req : Request) : Except Error String :=
  match req.header? "host" with
  | some host => .ok host
  | none => match req.authority with
    | some authority => .ok authority
    | none => .error "request has no host"

/-- What the signature headers of a request say. -/
structure SignedHead where
  keyId : String
  nonce : String
  contentSha256 : String
  signature : String
  timestamp : ℕ
  deriving DecidableEq

/-- The part of `checkedRequest` before the clock is read: the headers. -/
def Request.signedHead (req : Request) : Except Error SignedHead := do
  let version ← req.header headerSignatureVersion
  if version ≠ signatureVersion then
    throw "unsupported signature version"
  else
    let keyId ← req.header headerKeyId
    let nonce ← req.header headerNonce
    let contentSha256 ← req.header headerContentSha256
    let signature ← req.header headerSignature
    let timestamp ← req.header headerTimestamp
    match Encoding.parseU64 timestamp with
    | some timestamp => return ⟨keyId, nonce, contentSha256, signature, timestamp⟩
    | none => throw "timestamp is not unix seconds"

/-- A request with all the headers of a signature says what they say. -/
theorem Request.signedHead_ok {req : Request} {head : SignedHead}
    (hversion : req.header? headerSignatureVersion = some signatureVersion)
    (hkeyId : req.header? headerKeyId = some head.keyId)
    (hnonce : req.header? headerNonce = some head.nonce)
    (hhash : req.header? headerContentSha256 = some head.contentSha256)
    (hsignature : req.header? headerSignature = some head.signature)
    (htimestamp : req.header? headerTimestamp = some (toString head.timestamp))
    (hlt : head.timestamp < 2 ^ 64) : req.signedHead = .ok head := by
  simp only [signedHead, Request.header, hversion, hkeyId, hnonce, hhash, hsignature, htimestamp]
  show (match Encoding.parseU64 (toString head.timestamp) with
    | some timestamp => (.ok ⟨head.keyId, head.nonce, head.contentSha256, head.signature,
      timestamp⟩ : Except Error SignedHead)
    | none => .error "timestamp is not unix seconds") = .ok head
  rw [Encoding.parseU64_toString hlt]

/-- The text the signature of a request with this head covers. -/
def SignedHead.canonical (head : SignedHead) (req : Request) (host : String) : String :=
  canonicalRequest head.keyId head.timestamp head.nonce req.method req.target host
    head.contentSha256

/-- The part of `checkedRequest` between the key lookup and the nonce: the signature. -/
def verifyHead (req : Request) (head : SignedHead) (publicKey : String) : Except Error Unit :=
  match parsePublicKey crates publicKey with
  | none => .error "stored public key is corrupt"
  | some publicKey =>
    match parseSignature crates head.signature with
    | none => .error "signature is not base64 ed25519"
    | some signature =>
      match req.host with
      | .error e => .error e
      | .ok host =>
        if crates.verify publicKey (head.canonical req host) signature then .ok ()
        else .error "signature verification failed"

/-- Everything a signature covers, and the signature. -/
structure SignedRequest where
  head : SignedHead
  method : String
  target : String
  host : String
  deriving DecidableEq

/-- What a request carries, when all of it is there. -/
def Request.signed (req : Request) : Option SignedRequest :=
  match req.signedHead, req.host with
  | .ok head, .ok host => some ⟨head, req.method, req.target, host⟩
  | _, _ => none

theorem Request.signedHead_of_signed {req : Request} {q : SignedRequest}
    (h : req.signed = some q) : req.signedHead = .ok q.head := by
  rw [signed] at h
  split at h
  · rename_i head host hh _
    cases h; exact hh
  · cases h

/-- The request as it is passed on. -/
def Request.authenticated (req : Request) (head : SignedHead) (user : AuthUser) : Request :=
  { req with
    signedHash := some (Encoding.toAsciiLowercase head.contentSha256), caller := some user }

/-- Verify the caller's identity from the headers alone; the body is never read here.  The
signature covers the claimed content hash, and checking the body against that claim is left to
`verifyBodyHash` or the streaming handler. -/
def checkedRequest (req : Request) : Action Request := do
  let head ← req.signedHead
  let now ← unixTimestamp
  if timestampWindowSeconds < ReplayWindow.absDiff now head.timestamp then
    throw "timestamp outside the allowed window"
  else
    let owner ← (Db.keyOwner head.keyId).adapt fun _ ↦ "key lookup failed"
    match owner with
    | none => throw "unknown or revoked key"
    | some (publicKey, user) =>
      verifyHead crates req head publicKey
      -- recorded only now, so that strangers cannot fill the replay map
      if ← recordNonce timestampWindowSeconds now head.nonce then
        throw "nonce already used"
      else
        return req.authenticated head user

theorem checkedRequest_run (req : Request) :
    (checkedRequest crates req).run =
      match req.signedHead with
      | .error e => .ret (.error e)
      | .ok head => .op .unixTimestamp fun now ↦
        if timestampWindowSeconds < ReplayWindow.absDiff now head.timestamp then
          .ret (.error "timestamp outside the allowed window")
        else .op (.sql (.keyOwner head.keyId)) fun
          | .error _ => .ret (.error "key lookup failed")
          | .ok [] => .ret (.error "unknown or revoked key")
          | .ok ((publicKey, id, name, projectId) :: _) =>
            match verifyHead crates req head publicKey with
            | .error e => .ret (.error e)
            | .ok () => .op (.recordNonce timestampWindowSeconds now head.nonce) fun
              | true => .ret (.error "nonce already used")
              | false => .ret (.ok (req.authenticated head ⟨id, name, projectId⟩)) := by
  rw [checkedRequest]
  cases req.signedHead with
  | error e => rfl
  | ok head =>
    refine Prog.op_congr fun now ↦ ?_
    show (if timestampWindowSeconds < ReplayWindow.absDiff now head.timestamp then
      throw "timestamp outside the allowed window" else _ : Action Request).run = _
    split
    · rfl
    · refine Prog.op_congr fun r ↦ ?_
      rcases r with e | _ | ⟨⟨publicKey, id, name, projectId⟩, rows⟩
      · rfl
      · rfl
      · show (do
          verifyHead crates req head publicKey
          if ← recordNonce timestampWindowSeconds now head.nonce then
            throw "nonce already used"
          else
            return req.authenticated head ⟨id, name, projectId⟩ : Action Request).run
          = match verifyHead crates req head publicKey with
            | .error e => .ret (.error e)
            | .ok () => _
        cases verifyHead crates req head publicKey with
        | error e => rfl
        | ok _ => exact Prog.op_congr fun r ↦ by cases r <;> rfl

/-- A whole run of `checkedRequest`. -/
theorem checkedRequest_exec (req : Request) (w : ℕ → Outside) (s : Server) :
    (checkedRequest crates req).run.run perform w s =
      match req.signedHead with
      | .error e => (.error e, s)
      | .ok head =>
        if timestampWindowSeconds < ReplayWindow.absDiff (w 0).now head.timestamp then
          (.error "timestamp outside the allowed window", s)
        else match (perform (w 1) (.sql (.keyOwner head.keyId)) s).1 with
        | .error _ => (.error "key lookup failed", s)
        | .ok [] => (.error "unknown or revoked key", s)
        | .ok ((publicKey, id, name, projectId) :: _) =>
          match verifyHead crates req head publicKey with
          | .error e => (.error e, s)
          | .ok () =>
            (if (ReplayWindow.record timestampWindowSeconds (w 0).now head.nonce
                  s.seenNonces).1 then
                .error "nonce already used"
              else .ok (req.authenticated head ⟨id, name, projectId⟩),
              { s with
                seenNonces := (ReplayWindow.record timestampWindowSeconds (w 0).now head.nonce
                  s.seenNonces).2 }) := by
  rw [checkedRequest_run]
  cases req.signedHead with
  | error e => rfl
  | ok head =>
    show Prog.run perform (if timestampWindowSeconds < ReplayWindow.absDiff (w 0).now head.timestamp
      then _ else _) _ s = if timestampWindowSeconds < ReplayWindow.absDiff (w 0).now head.timestamp
      then _ else _
    by_cases hw : timestampWindowSeconds < ReplayWindow.absDiff (w 0).now head.timestamp
    · rw [if_pos hw, if_pos hw]
      rfl
    · rw [if_neg hw, if_neg hw, Prog.run_op, perform_read rfl]
      rcases (perform (w (0 + 1)) (.sql (.keyOwner head.keyId)) s).1 with
        e | _ | ⟨⟨publicKey, id, name, projectId⟩, rows⟩
      · rfl
      · rfl
      · show Prog.run perform (match verifyHead crates req head publicKey with
          | .error e => _
          | .ok () => _) _ s = match verifyHead crates req head publicKey with
          | .error e => _
          | .ok () => _
        cases verifyHead crates req head publicKey with
        | error e => rfl
        | ok _ =>
          simp only [Prog.run_op, perform]
          cases (ReplayWindow.record timestampWindowSeconds (w 0).now head.nonce s.seenNonces).1 <;>
            rfl

/-- A request that passes every check is accepted. -/
theorem checkedRequest_accepts {req : Request} {w : ℕ → Outside} {s : Server} {head : SignedHead}
    {publicKey id name : String} {projectId : Option String}
    {rows : List (String × String × String × Option String)} (hhead : req.signedHead = .ok head)
    (hclock : ReplayWindow.absDiff (w 0).now head.timestamp ≤ timestampWindowSeconds)
    (howner : (perform (w 1) (.sql (.keyOwner head.keyId)) s).1
      = .ok ((publicKey, id, name, projectId) :: rows))
    (hverify : verifyHead crates req head publicKey = .ok ())
    (hnew : (ReplayWindow.record timestampWindowSeconds (w 0).now head.nonce s.seenNonces).1
      = false) :
    ((checkedRequest crates req).run.run perform w s).1
      = .ok (req.authenticated head ⟨id, name, projectId⟩) := by
  simp only [checkedRequest_exec, hhead, if_neg (Nat.not_lt.mpr hclock), howner, hverify, hnew,
    Bool.false_eq_true, if_false]

/-- A request whose signature does not check out is turned away. -/
theorem checkedRequest_rejects {req : Request} {w : ℕ → Outside} {s : Server} {head : SignedHead}
    {publicKey id name : String} {projectId : Option String} {e : Error}
    {rows : List (String × String × String × Option String)} (hhead : req.signedHead = .ok head)
    (hclock : ReplayWindow.absDiff (w 0).now head.timestamp ≤ timestampWindowSeconds)
    (howner : (perform (w 1) (.sql (.keyOwner head.keyId)) s).1
      = .ok ((publicKey, id, name, projectId) :: rows))
    (hverify : verifyHead crates req head publicKey = .error e) :
    (checkedRequest crates req).run.run perform w s = (.error e, s) := by
  simp only [checkedRequest_exec, hhead, if_neg (Nat.not_lt.mpr hclock), howner, hverify]

/-- The signature layer. -/
def verifySignature (next : Handler) : Handler := fun req ↦ do
  match ← (checkedRequest crates req).run with
  | .ok req => next req
  | .error reason => return .text 401 ("unauthorized: " ++ reason)

theorem verifySignature_run (next : Handler) (req : Request) (w : ℕ → Outside) (s : Server) :
    (verifySignature crates next req).run perform w s =
      match (checkedRequest crates req).run.run perform w s with
      | (.error reason, s') => (.text 401 ("unauthorized: " ++ reason), s')
      | (.ok req', s') => (next req').run perform
          (fun n ↦ w (n + (checkedRequest crates req).run.steps perform w s)) s' := by
  refine (Prog.run_bind perform _ _ w s).trans ?_
  rcases (checkedRequest crates req).run.run perform w s with ⟨reason | req', s'⟩ <;> rfl

/-- Buffer the body and enforce the signed content hash.  Requests without a signed hash, those of
the admin socket, pass through. -/
def verifyBodyHash (next : Handler) : Handler := fun req ↦
  match req.signedHash with
  | none => next req
  | some expected =>
    match toBytes req.body maxBodyBytes with
    | none => .ret (.text 400 "failed to read request body")
    | some bodyBytes =>
      if crates.sha256Hex bodyBytes ≠ expected then
        .ret (.text 401 "unauthorized: body does not match content hash")
      else next { req with body := [.data bodyBytes] }

/-- `verifyBodyHash` answers at once, or goes on with the same request and a body. -/
theorem verifyBodyHash_cases (next : Handler) (req : Request) :
    (∃ response, verifyBodyHash crates next req = .ret response) ∨
      ∃ body, verifyBodyHash crates next req = next { req with body := body } := by
  rw [verifyBodyHash]
  split
  · exact .inr ⟨req.body, rfl⟩
  · split
    · exact .inl ⟨_, rfl⟩
    · split
      · exact .inl ⟨_, rfl⟩
      · exact .inr ⟨_, rfl⟩

/-- The redeem-invite endpoint. -/
def redeemInvite : Handler := fun req ↦
  extract (crates.jsonRedeemInvite req) fun request ↦ do
    if (parsePublicKey crates request.publicKey).isNone then
      return .text 400 "public_key must be a base64 ed25519 public key"
    let now ← unixTimestamp
    match ← (Db.redeemInvite (tokenHash crates request.inviteToken) request.publicKey now).run with
    | .ok (some keyId) => return .json (.redeemInvite keyId)
    | .ok none => return .text 401 "invite is invalid, expired, or already redeemed"
    | .error _ => return internalServerError

/-- The answer to a redemption that got as far as the database. -/
def redeemResponse : Except Error (Option String) → Response
  | .ok (some keyId) => .json (.redeemInvite keyId)
  | .ok none => .text 401 "invite is invalid, expired, or already redeemed"
  | .error _ => internalServerError

theorem redeemResponse_status {r : Except Error (Option String)}
    (h : (redeemResponse r).status = 200) : ∃ keyId, r = .ok (some keyId) := by
  rcases r with e | _ | keyId
  · cases h
  · cases h
  · exact ⟨keyId, rfl⟩

theorem redeemInvite_eq (req : Request) :
    redeemInvite crates req = extract (crates.jsonRedeemInvite req) fun request ↦
      if (parsePublicKey crates request.publicKey).isNone then
        .ret (.text 400 "public_key must be a base64 ed25519 public key")
      else .op .unixTimestamp fun now ↦
        (Db.redeemInvite (tokenHash crates request.inviteToken) request.publicKey now).run.bind
          fun r ↦ .ret (redeemResponse r) := by
  rw [redeemInvite]
  refine congrArg _ (funext fun request ↦ ?_)
  split
  · rfl
  · refine Prog.op_congr fun now ↦ ?_
    show (Db.redeemInvite _ _ now).run.bind _ = _
    refine congrArg (Prog.bind _) (funext fun r ↦ ?_)
    rcases r with e | _ | keyId <;> rfl

end Railyard
