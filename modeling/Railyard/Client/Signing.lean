import Railyard.Client.Store
import Railyard.Enrolment.Provenance

/-!
# Signed requests

Every request to the API but one is signed.  The client signs the method, the path and query and the
host it is about to send, and the server rebuilds the same text from what arrives.  The two get at
the text by different means: the client cuts it out of a URL it has rewritten, the server reads it
off the request's URI and its `Host` header.

* `controlPlaneApiUrl` and `signedRequestWithType` are the client's side.
* `Arrives` says how a request that was sent reaches the API.
* `rebuilt_eq_signed_iff`: the two texts agree exactly when the URL has no fragment.
* `signing_agrees_iff` puts it together with the check of the signature.
-/

set_option autoImplicit false

namespace Client

open Data (Path)
open Railyard (Request canonicalRequest headerKeyId headerTimestamp headerNonce
  headerContentSha256 headerSignature headerSignatureVersion signatureVersion)

/-! ## URLs -/

/-- A parsed URL, by the text of its parts. -/
structure Url where
  scheme : String
  /-- The host, an IPv6 address in brackets. -/
  host : Option String
  /-- The port, unless it is the default one of the scheme. -/
  port : Option UInt16
  path : String
  query : Option String
  fragment : Option String
deriving DecidableEq

namespace Url

/-- What of a URL is transmitted after the host. -/
def pathAndQuery (url : Url) : String := url.path ++ url.query.elim "" ("?" ++ ·)

/-- `url[Position::BeforePath..]` -/
def beforePath (url : Url) : String := url.pathAndQuery ++ url.fragment.elim "" ("#" ++ ·)

/-- What follows the scheme does not start with a slash. -/
def cannotBeABase (url : Url) : Bool := url.host.isNone && !(url.path.toList.head? = some '/')

/-- The host, with the port where there is one. -/
def hostAndPort (host : String) : Option UInt16 → String
  | some port => host ++ ":" ++ toString port.toNat
  | none => host

/-- What is cut out of a URL is what is transmitted of it, or longer. -/
theorem beforePath_cases (url : Url) :
    (url.fragment = none ∧ url.beforePath = url.pathAndQuery) ∨
      (url.fragment ≠ none ∧ url.pathAndQuery.length < url.beforePath.length) := by
  rw [beforePath]
  cases url.fragment with
  | none => exact .inl ⟨rfl, String.append_empty⟩
  | some fragment =>
    refine .inr ⟨Option.some_ne_none fragment, ?_⟩
    have hmark : "#".length = 1 := rfl
    simp only [Option.elim_some, String.length_append]
    omega

end Url

/-- What the client takes from other crates. -/
structure Crates where
  /-- `Url::parse` -/
  parseUrl : String → Except Error Url
  /-- `PathSegmentsMut::push`: the path with one more segment, percent-encoded. -/
  pushSegment : (scheme path segment : String) → String
  /-- The query as `Url::set_query` writes it. -/
  encodeQuery : (scheme query : String) → String
  /-- `Sha256::digest` -/
  sha256 : Bytes → Bytes
  /-- `BASE64_STANDARD.encode` -/
  base64Encode : Bytes → String
  /-- `SigningKey::verifying_key` -/
  verifyingKey : SigningKey → Bytes
  /-- `SigningKey::sign` -/
  sign : SigningKey → (message : String) → Bytes

variable (crates : Crates)

/-- `url` with the path and query of a request in place of its own. -/
def controlPlaneApiUrl (url : Url) (suffix : String) : Except Error Url :=
  let (suffix, query) := match Encoding.splitOnce ['?'] suffix.toList with
    | some (path, query) => (path, some (String.ofList query))
    | none => (suffix.toList, none)
  if url.cannotBeABase then .error "server URL cannot be a cannot-be-a-base URL"
  else
    let segments := ((suffix.splitOn '/').filter (· ≠ [])).map String.ofList
    .ok { url with
      path := segments.foldl (crates.pushSegment url.scheme) "/"
      query := query.map (crates.encodeQuery url.scheme) }

/-! ## Signing -/

structure SignedRequestHeaders where
  keyId : String
  timestamp : UInt64
  nonce : String
  contentSha256 : String
  signature : String

/-- The time and the random bytes a request is signed with. -/
structure Moment where
  timestamp : UInt64
  nonce : { bs : Bytes // bs.length = 16 }

/-- The text `signRequest` signs. -/
def signedText (moment : Moment) (keyId method pathAndQuery host : String) (body : Bytes) :
    String :=
  canonicalRequest keyId moment.timestamp.toNat (Encoding.hexEncode moment.nonce.val) method
    pathAndQuery host (Encoding.hexEncode (crates.sha256 body))

def signRequest (moment : Moment) (signingKey : SigningKey)
    (keyId method pathAndQuery host : String) (body : Bytes) : SignedRequestHeaders where
  keyId := keyId
  timestamp := moment.timestamp
  nonce := Encoding.hexEncode moment.nonce.val
  contentSha256 := Encoding.hexEncode (crates.sha256 body)
  signature := crates.base64Encode
    (crates.sign signingKey (signedText crates moment keyId method pathAndQuery host body))

/-- A request handed over for sending. -/
structure Outgoing where
  method : String
  url : Url
  headers : List (String × String)
  body : Bytes

def invalidKeyFile : Error := "invalid key file"

/-- The request as it is sent. -/
def signedRequestWithType (root : Path) (store : Store) (moment : Moment) (server : ServerConfig)
    (method suffix : String) (body : Bytes) (contentType : String) : Except Error Outgoing := do
  let signingKey ← match store.readSigningKey root server.privateKeyPath with
    | some key => .ok key
    | none => .error invalidKeyFile
  let serverUrl ← crates.parseUrl server.serverUrl
  let requestUrl ← controlPlaneApiUrl crates serverUrl suffix
  let pathAndQuery := requestUrl.beforePath
  let host ← match requestUrl.host with
    | some host => .ok host
    | none => .error "server URL is missing a host"
  let host := Url.hostAndPort host requestUrl.port
  let signed := signRequest crates moment signingKey server.keyId method pathAndQuery host body
  .ok
    { method := method
      url := requestUrl
      headers :=
        [("host", host), (headerKeyId, signed.keyId),
          (headerTimestamp, toString signed.timestamp.toNat), (headerNonce, signed.nonce),
          (headerContentSha256, signed.contentSha256), (headerSignature, signed.signature),
          (headerSignatureVersion, signatureVersion)] ++
        if body = [] then [] else [("content-type", contentType)]
      body := body }

/-! ## What is sent and what arrives -/

/-- The headers the check reads. -/
def checkedHeaders : List String :=
  ["host", headerKeyId, headerTimestamp, headerNonce, headerContentSha256, headerSignature,
    headerSignatureVersion]

/-- The request reaches the API with its method, its path and query, and the headers the check
reads.  A fragment is never transmitted. -/
structure Arrives (sent : Outgoing) (req : Request) : Prop where
  method : req.method = sent.method
  pathAndQuery : req.pathAndQuery = some sent.url.pathAndQuery
  headers : ∀ name ∈ checkedHeaders,
    req.headers.find? (fun h ↦ h.1 = name) = sent.headers.find? fun h ↦ h.1 = name

/-- The request with nothing added on the way. -/
def Outgoing.onWire (sent : Outgoing) : Request where
  method := sent.method
  pathAndQuery := some sent.url.pathAndQuery
  headers := sent.headers
  body := [.data sent.body]

theorem Outgoing.arrives (sent : Outgoing) : Arrives sent sent.onWire :=
  ⟨rfl, rfl, fun _ _ ↦ rfl⟩

section Sending

variable {root : Path} {store : Store} {server : ServerConfig} {key : SigningKey} {url : Url}
  {host : String}

/-- A URL with a host can be the base of a request, and only its path and query are replaced. -/
theorem controlPlaneApiUrl_ok (suffix : String) (hhost : url.host = some host) :
    ∃ requestUrl, controlPlaneApiUrl crates url suffix = .ok requestUrl ∧
      requestUrl.host = some host ∧ requestUrl.port = url.port ∧
      requestUrl.fragment = url.fragment := by
  have hbase : url.cannotBeABase = false := by simp [Url.cannotBeABase, hhost]
  simp only [controlPlaneApiUrl, hbase]
  rcases Encoding.splitOnce ['?'] suffix.toList with _ | ⟨path, query⟩
  · exact ⟨_, rfl, hhost, rfl, rfl⟩
  · exact ⟨_, rfl, hhost, rfl, rfl⟩

/-- The headers of a request that was signed. -/
structure Signs (crates : Crates) (moment : Moment) (server : ServerConfig) (key : SigningKey)
    (verb : String) (body : Bytes) (authority : String) (sent : Outgoing) : Prop where
  method : sent.method = verb
  host : sent.headers.find? (fun h ↦ h.1 = "host") = some ("host", authority)
  keyId : sent.headers.find? (fun h ↦ h.1 = headerKeyId) = some (headerKeyId, server.keyId)
  timestamp : sent.headers.find? (fun h ↦ h.1 = headerTimestamp)
    = some (headerTimestamp, toString moment.timestamp.toNat)
  nonce : sent.headers.find? (fun h ↦ h.1 = headerNonce)
    = some (headerNonce, Encoding.hexEncode moment.nonce.val)
  contentSha256 : sent.headers.find? (fun h ↦ h.1 = headerContentSha256)
    = some (headerContentSha256, Encoding.hexEncode (crates.sha256 body))
  signature : sent.headers.find? (fun h ↦ h.1 = headerSignature)
    = some (headerSignature, crates.base64Encode (crates.sign key
        (signedText crates moment server.keyId verb sent.url.beforePath authority body)))
  version : sent.headers.find? (fun h ↦ h.1 = headerSignatureVersion)
    = some (headerSignatureVersion, signatureVersion)

/-- With a key and a URL that has a host, a request is signed and sent. -/
theorem signedRequestWithType_ok (moment : Moment) (method suffix contentType : String)
    (body : Bytes) (hkey : store.readSigningKey root server.privateKeyPath = some key)
    (hparse : crates.parseUrl server.serverUrl = .ok url) (hhost : url.host = some host) :
    ∃ sent, signedRequestWithType crates root store moment server method suffix body contentType
        = .ok sent ∧ sent.url.fragment = url.fragment ∧
      Signs crates moment server key method body (Url.hostAndPort host url.port) sent := by
  obtain ⟨requestUrl, hurl, hhost', hport, hfragment⟩ := controlPlaneApiUrl_ok crates suffix hhost
  refine ⟨_, by
    simp only [signedRequestWithType, hkey, hparse, bind, Except.bind, hurl, hhost', hport]; rfl,
    hfragment, ?_⟩
  constructor <;> rfl

end Sending

/-! ## The check -/

/-- The crates of the client and of the server are the same crates: what one encodes the other
decodes, and what one signs the other verifies.  Encoded signatures and the hosts of URLs are
visible ASCII. -/
structure CratesAgree (crates : Crates) (server : Railyard.Crates) : Prop where
  key_length : ∀ key, (crates.verifyingKey key).length = 32
  key_valid : ∀ key, server.isVerifyingKey (crates.verifyingKey key) = true
  key_decoded : ∀ key, server.base64Decode (crates.base64Encode (crates.verifyingKey key))
    = some (crates.verifyingKey key)
  signature_length : ∀ key text, (crates.sign key text).length = 64
  signature_valid : ∀ key text,
    server.verify (crates.verifyingKey key) text (crates.sign key text) = true
  signature_decoded : ∀ key text, server.base64Decode (crates.base64Encode (crates.sign key text))
    = some (crates.sign key text)
  signature_visible : ∀ key text, Encoding.headerText (crates.base64Encode (crates.sign key text))
    = some (crates.base64Encode (crates.sign key text))
  host_visible : ∀ text url host, crates.parseUrl text = .ok url → url.host = some host →
    Encoding.headerText host = some host

section Checking

open Railyard (SignedHead checkedRequest)

variable {crates} {moment : Moment} {server : ServerConfig} {key : SigningKey} {url : Url}
  {method host : String} {body : Bytes} {sent : Outgoing} {req : Request}

theorem headerText_hostAndPort (hhost : Encoding.headerText host = some host)
    (port : Option UInt16) :
    Encoding.headerText (Url.hostAndPort host port) = some (Url.hostAndPort host port) := by
  cases port with
  | none => exact hhost
  | some port =>
    exact Encoding.headerText_append (Encoding.headerText_append hhost rfl)
      (Encoding.headerText_toString _)

/-- What arrives in a header is what was sent, when it is visible ASCII. -/
theorem Arrives.header? (h : Arrives sent req) {name value : String} (hname : name ∈ checkedHeaders)
    (hsent : sent.headers.find? (fun h ↦ h.1 = name) = some (name, value))
    (hvalue : Encoding.headerText value = some value) : req.header? name = some value := by
  rw [Request.header?, h.headers name hname, hsent]
  exact hvalue

variable (crates moment server key method body host sent) in
/-- What the headers of a signed request say. -/
def signedHead : SignedHead where
  keyId := server.keyId
  nonce := Encoding.hexEncode moment.nonce.val
  contentSha256 := Encoding.hexEncode (crates.sha256 body)
  signature := crates.base64Encode (crates.sign key
    (signedText crates moment server.keyId method sent.url.beforePath host body))
  timestamp := moment.timestamp.toNat

/-- The server reads off the headers what the client wrote into them. -/
theorem Signs.arrives (hsigns : Signs crates moment server key method body host sent)
    {srv : Railyard.Crates} (hagree : CratesAgree crates srv) (harrives : Arrives sent req)
    (hkeyId : Encoding.headerText server.keyId = some server.keyId)
    (hhost : Encoding.headerText host = some host) :
    req.signedHead = .ok (signedHead crates moment server key method host body sent) ∧
      req.host = .ok host := by
  refine ⟨Request.signedHead_ok ?_ ?_ ?_ ?_ ?_ ?_ moment.timestamp.toNat_lt, ?_⟩
  · exact harrives.header? (by decide) hsigns.version (by decide)
  · exact harrives.header? (by decide) hsigns.keyId hkeyId
  · exact harrives.header? (by decide) hsigns.nonce (Encoding.headerText_hexEncode _)
  · exact harrives.header? (by decide) hsigns.contentSha256 (Encoding.headerText_hexEncode _)
  · exact harrives.header? (by decide) hsigns.signature (hagree.signature_visible _ _)
  · exact harrives.header? (by decide) hsigns.timestamp (Encoding.headerText_toString _)
  · rw [Request.host, harrives.header? (by decide) hsigns.host hhost]

/-- Texts that differ in the path at most differ by its length. -/
theorem canonicalRequest_path_length {keyId nonce path path' hash : String} {timestamp : ℕ}
    (h : canonicalRequest keyId timestamp nonce method path host hash
      = canonicalRequest keyId timestamp nonce method path' host hash) :
    path.length = path'.length := by
  obtain ⟨before, mark, hashMark, hsplit⟩ : ∃ before mark hashMark : String, ∀ path,
      canonicalRequest keyId timestamp nonce method path host hash
        = before ++ path ++ mark ++ host ++ hashMark ++ hash := ⟨_, _, _, fun path ↦ rfl⟩
  rw [hsplit, hsplit] at h
  have hlength := congrArg String.length h
  simp only [String.length_append] at hlength
  omega

/-- **The server rebuilds the text that was signed exactly when the URL has no fragment.** -/
theorem rebuilt_eq_signed_iff (hsigns : Signs crates moment server key method body host sent)
    (harrives : Arrives sent req) :
    (signedHead crates moment server key method host body sent).canonical req host
      = signedText crates moment server.keyId method sent.url.beforePath host body ↔
    sent.url.fragment = none := by
  have htarget : req.target = sent.url.pathAndQuery := by
    rw [Request.target, harrives.pathAndQuery, Option.getD_some]
  rw [SignedHead.canonical, signedText, htarget, harrives.method, hsigns.method]
  rcases sent.url.beforePath_cases with ⟨hnone, heq⟩ | ⟨hsome, hlt⟩
  · exact iff_of_true (by rw [heq]; rfl) hnone
  · refine iff_of_false (fun h ↦ ?_) hsome
    exact absurd (canonicalRequest_path_length h) hlt.ne

/-- With the key that was enrolled, all that can go wrong is the signature. -/
theorem verifyHead_eq {srv : Railyard.Crates} (hagree : CratesAgree crates srv)
    (hhost : req.host = .ok host) :
    Railyard.verifyHead srv req (signedHead crates moment server key method host body sent)
        (crates.base64Encode (crates.verifyingKey key)) =
      if srv.verify (crates.verifyingKey key)
          ((signedHead crates moment server key method host body sent).canonical req host)
          (crates.sign key
            (signedText crates moment server.keyId method sent.url.beforePath host body))
        then .ok () else .error "signature verification failed" := by
  have hkey : Railyard.parsePublicKey srv (crates.base64Encode (crates.verifyingKey key))
      = some (crates.verifyingKey key) := by
    rw [Railyard.parsePublicKey, hagree.key_decoded]
    simp [hagree.key_length, hagree.key_valid]
  have hsignature : Railyard.parseSignature srv
      (signedHead crates moment server key method host body sent).signature
      = some (crates.sign key
        (signedText crates moment server.keyId method sent.url.beforePath host body)) := by
    rw [Railyard.parseSignature, signedHead, hagree.signature_decoded]
    simp [hagree.signature_length]
  simp only [Railyard.verifyHead, hkey, hsignature, hhost]

/-- Where the texts agree and the key is enrolled, the signature checks out. -/
theorem verifyHead_ok {srv : Railyard.Crates} (hagree : CratesAgree crates srv)
    (hhost : req.host = .ok host)
    (hrebuilt : (signedHead crates moment server key method host body sent).canonical req host
      = signedText crates moment server.keyId method sent.url.beforePath host body) :
    Railyard.verifyHead srv req (signedHead crates moment server key method host body sent)
      (crates.base64Encode (crates.verifyingKey key)) = .ok () := by
  rw [verifyHead_eq hagree hhost, hrebuilt, if_pos (hagree.signature_valid _ _)]

/-- The server accepts `req` as a request of `user`, having rebuilt the text that was signed. -/
structure Accepted (srv : Railyard.Crates) (w : ℕ → Railyard.Outside) (s : Railyard.Server)
    (user : Railyard.UserRow) (text : String) (req : Request) : Prop where
  rebuilt : ∃ head host, req.signedHead = .ok head ∧ req.host = .ok host ∧
    head.canonical req host = text
  accepted : ∃ head, ((checkedRequest srv req).run.run Railyard.perform w s).1
    = .ok (req.authenticated head ⟨user.id, user.name, user.projectId⟩)

end Checking

/-! ## Every request -/

section Agreement

open Railyard (Call Pool UserRow Outside timestampWindowSeconds)

variable {crates : Crates} {srv : Railyard.Crates} {adm : Pool → Effects.Act Outside Call → Prop}
  {c : Pool} {root : Path} {store : Store} {server : ServerConfig} {key : SigningKey} {url : Url}
  {host : String} {user : UserRow}

/-- **When client and server agree on what is signed.**  Let an entry's URL parse and have a host,
its key be readable and enrolled on a server in any state it can be in.  A request the client makes
is signed and sent, and where it arrives while the clocks differ by at most 300 seconds, with a
nonce that is new, the server rebuilds the text that was signed and accepts the request, exactly
if the URL has no fragment. -/
theorem signing_agrees_iff (hagree : CratesAgree crates srv)
    (hparse : crates.parseUrl server.serverUrl = .ok url) (hhost : url.host = some host)
    (hkey : store.readSigningKey root server.privateKeyPath = some key)
    (hreach : Effects.Reaches Railyard.perform (Call.prog srv) adm ⟨.fresh, []⟩ c)
    (huser : user ∈ c.shared.users) (hid : user.id = server.keyId)
    (henrolled : user.publicKey = some (crates.base64Encode (crates.verifyingKey key)))
    (method suffix contentType : String) (body : Bytes) (moment : Moment)
    (hnonce : c.shared.seenNonces (Encoding.hexEncode moment.nonce.val) = none)
    (w : ℕ → Outside) (hlookup : (w 1).fault = none)
    (hclock : ReplayWindow.absDiff (w 0).now moment.timestamp.toNat ≤ timestampWindowSeconds) :
    (∃ sent, signedRequestWithType crates root store moment server method suffix body contentType
        = .ok sent ∧
      ∀ req, Arrives sent req → Accepted srv w c.shared user
        (signedText crates moment server.keyId method sent.url.beforePath
          (Url.hostAndPort host url.port) body) req) ↔
      url.fragment = none := by
  obtain ⟨sent, hsent, hfragment, hsigns⟩ :=
    signedRequestWithType_ok crates moment method suffix contentType body hkey hparse hhost
  have hkeyId : Encoding.headerText server.keyId = some server.keyId := by
    obtain ⟨bs, hform⟩ := Railyard.userId_form hreach user huser
    rw [← hid, hform]
    exact Encoding.headerText_append (by decide) (Encoding.headerText_hexEncode bs)
  have hvisible := headerText_hostAndPort (hagree.host_visible _ _ _ hparse hhost) url.port
  rw [← hfragment]
  constructor
  · rintro ⟨sent', hsent', haccepted⟩
    rw [hsent, Except.ok.injEq] at hsent'
    subst hsent'
    obtain ⟨hhead, hhost'⟩ := hsigns.arrives hagree sent.arrives hkeyId hvisible
    obtain ⟨head, host', hhead', hhost'', hrebuilt⟩ := (haccepted _ sent.arrives).rebuilt
    cases hhead.symm.trans hhead'
    cases hhost'.symm.trans hhost''
    exact (rebuilt_eq_signed_iff hsigns sent.arrives).mp hrebuilt
  · intro hnone
    refine ⟨sent, hsent, fun req harrives ↦ ?_⟩
    obtain ⟨hhead, hhost'⟩ := hsigns.arrives hagree harrives hkeyId hvisible
    have hrebuilt := (rebuilt_eq_signed_iff hsigns harrives).mpr hnone
    obtain ⟨rows, hrows⟩ := Railyard.keyOwner_reply_of_mem huser henrolled
    have howner : (Railyard.perform (w 1) (.sql (.keyOwner server.keyId)) c.shared).1
        = .ok ((crates.base64Encode (crates.verifyingKey key), user.id, user.name,
          user.projectId) :: rows) := by
      rw [Railyard.perform_sql_ok hlookup, ← hid]
      exact hrows
    exact ⟨⟨_, _, hhead, hhost', hrebuilt⟩, _, Railyard.checkedRequest_accepts srv hhead hclock
      howner (verifyHead_ok hagree hhost' hrebuilt) (ReplayWindow.record_of_none hnonce)⟩

/-! ### A server behind an IPv6 literal -/

def sampleSecret : SigningKey := "AAAAAAAAAAAAAAAAAAAAAAAAAAAAAAAAAAAAAAAAAAA="

/-- The verifying key of `sampleSecret`. -/
def samplePublicKey : Bytes :=
  [59, 106, 39, 188, 206, 182, 164, 45, 98, 163, 168, 208, 42, 111, 13, 115, 101, 50, 21, 119, 29,
    226, 67, 166, 58, 192, 72, 161, 139, 89, 218, 41]

def samplePublicKeyBase64 : String := "O2onvM62pC1io6jQKm8Nc2UyFXcd4kOmOsBIoYtZ2ik="

/-- 64 zero bytes in base64. -/
def zerosBase64 : String := String.ofList (List.replicate 86 'A') ++ "=="

/-- A text, its signature by `sampleSecret`, and this signature in base64. -/
structure Signed where
  text : String
  signature : Bytes
  encoded : String

/-- The signature of the one text; of any other, zeros. -/
def Signed.sign (signed : Signed) (text : String) : Bytes :=
  if text = signed.text then signed.signature else List.replicate 64 0

/-- Stand-ins that do what the crates do on the URL, the key and the text of one request. -/
def Crates.sample (serverUrl : String) (url : Url) (signed : Signed) : Crates where
  parseUrl text := if text = serverUrl then .ok url else .error "relative URL without a base"
  pushSegment _ path segment := if path = "/" then path ++ segment else path ++ "/" ++ segment
  encodeQuery _ query := query
  sha256 _ :=
    [227, 176, 196, 66, 152, 252, 28, 20, 154, 251, 244, 200, 153, 111, 185, 36, 39, 174, 65, 228,
      100, 155, 147, 76, 164, 149, 153, 27, 120, 82, 184, 85]
  base64Encode bs :=
    if bs = samplePublicKey then samplePublicKeyBase64
    else if bs = signed.signature then signed.encoded
    else zerosBase64
  verifyingKey _ := samplePublicKey
  sign _ text := signed.sign text

def Signed.serverCrates (signed : Signed) : Railyard.Crates :=
  { Railyard.Crates.sample with
    base64Decode := fun text ↦
      if text = samplePublicKeyBase64 then some samplePublicKey
      else if text = signed.encoded then some signed.signature
      else if text = zerosBase64 then some (List.replicate 64 0)
      else none
    isVerifyingKey := fun key ↦ key = samplePublicKey
    verify := fun key text signature ↦ key = samplePublicKey ∧ signature = signed.sign text }

theorem Signed.verify_iff {signed : Signed} {key signature : Bytes} {text : String} :
    signed.serverCrates.verify key text signature = true ↔
      key = samplePublicKey ∧ signature = signed.sign text := by
  simp [Signed.serverCrates]

def sampleUrl (fragment : Option String) : Url :=
  ⟨"https", some "[::1]", some 7300, "/", none, fragment⟩

theorem sampleUrl_host (fragment : Option String) :
    ∀ host, (sampleUrl fragment).host = some host → Encoding.headerText host = some host := by
  rintro host ⟨⟩
  decide

/-- The entry of the sample server, under the key id of its first user. -/
def sampleServer (serverUrl : String) : ServerConfig :=
  ⟨serverUrl, "usr_0000000000000000", keyPath [] "usr_0000000000000000"⟩

def enrolledStore : Store :=
  (Store.empty.writeSigningKey [] "usr_0000000000000000" sampleSecret).2

def sampleMoment : Moment := ⟨60, List.replicate 16 0, rfl⟩

/-- The text of a `whoami` request. -/
def whoamiText (pathAndQuery : String) : String :=
  "RAILYARD-REQUEST-V1\nkey_id:usr_0000000000000000\ntimestamp:60\n" ++
    "nonce:00000000000000000000000000000000\nmethod:GET\npath:" ++ pathAndQuery ++
    "\nhost:[::1]:7300\n" ++
    "content_sha256:e3b0c44298fc1c149afbf4c8996fb92427ae41e4649b934ca495991b7852b855"

/-- The user of the sample key enrols. -/
def sampleEnrolled : List (Effects.Act Outside Call) :=
  Railyard.callAlone 0 (.mintInvite "https://[::1]:7300" "bob" none) 8 {} ++
    Railyard.callAlone 1 (.redeemInvite (Encoding.hexEncode Railyard.zeroTokenDigest)
      samplePublicKeyBase64 60) 3 {}

example : signedText (.sample "" (sampleUrl none) ⟨"", [], ""⟩) sampleMoment "usr_0000000000000000"
    "GET" "/api/whoami" "[::1]:7300" [] = whoamiText "/api/whoami" := by decide +kernel

theorem Signed.agrees (signed : Signed) {serverUrl : String} {url : Url}
    (hlength : signed.signature.length = 64)
    (hvisible : Encoding.headerText signed.encoded = some signed.encoded)
    (hkey : signed.encoded ≠ samplePublicKeyBase64) (hzeros : signed.encoded ≠ zerosBase64)
    (hhost : ∀ host, url.host = some host → Encoding.headerText host = some host) :
    CratesAgree (.sample serverUrl url signed) signed.serverCrates := by
  have hsigned : signed.signature ≠ samplePublicKey := by
    intro h
    rw [h] at hlength
    cases hlength
  have hsign : ∀ text, signed.sign text = signed.signature ∨
      signed.sign text = List.replicate 64 0 := by
    intro text
    rw [Signed.sign]
    split
    · exact .inl rfl
    · exact .inr rfl
  have hencode : ∀ text, (Crates.sample serverUrl url signed).base64Encode (signed.sign text)
      = if signed.sign text = signed.signature then signed.encoded else zerosBase64 := by
    intro text
    have hne : signed.sign text ≠ samplePublicKey := by
      rcases hsign text with h | h
      · rw [h]; exact hsigned
      · rw [h]; decide
    exact if_neg hne
  refine ⟨fun _ ↦ rfl, fun _ ↦ decide_eq_true (rfl : samplePublicKey = samplePublicKey),
    fun _ ↦ ?_, fun _ text ↦ ?_, fun _ text ↦ ?_, fun _ text ↦ ?_, fun _ text ↦ ?_,
    fun text url' host hparse hurl ↦ ?_⟩
  · simp [Crates.sample, Signed.serverCrates]
  · rcases hsign text with h | h
    · exact (congrArg List.length h).trans hlength
    · exact (congrArg List.length h).trans List.length_replicate
  · exact Signed.verify_iff.mpr ⟨rfl, rfl⟩
  · show signed.serverCrates.base64Decode ((Crates.sample serverUrl url signed).base64Encode
      (signed.sign text)) = some (signed.sign text)
    rw [hencode]
    split
    · rename_i h
      simp [Signed.serverCrates, hkey, h]
    · rename_i hne
      rw [(hsign text).resolve_left hne]
      have hzeros' : zerosBase64 ≠ samplePublicKeyBase64 := by decide
      simp [Signed.serverCrates, Ne.symm hzeros, hzeros']
  · show Encoding.headerText ((Crates.sample serverUrl url signed).base64Encode (signed.sign text))
      = some ((Crates.sample serverUrl url signed).base64Encode (signed.sign text))
    rw [hencode]
    split
    · exact hvisible
    · decide
  · simp only [Crates.sample] at hparse
    split at hparse
    · cases hparse
      exact hhost host hurl
    · cases hparse

/-- The signature of a `whoami` request. -/
def whoamiSigned : Signed where
  text := whoamiText "/api/whoami"
  signature :=
    [48, 11, 117, 0, 7, 90, 70, 130, 85, 64, 59, 203, 128, 151, 86, 71, 162, 10, 178, 24, 66, 226,
      100, 218, 90, 152, 63, 250, 200, 217, 60, 241, 92, 157, 108, 134, 190, 241, 82, 95, 190, 226,
      197, 131, 56, 246, 28, 129, 167, 12, 216, 131, 189, 104, 122, 60, 31, 107, 197, 11, 124, 117,
      138, 15]
  encoded :=
    "MAt1AAdaRoJVQDvLgJdWR6IKshhC4mTaWpg/+sjZPPFcnWyGvvFSX77ixYM49hyBpwzYg71oejwfa8ULfHWKDw=="

/-- The first user, enrolled with the sample key. -/
def enrolledUser : UserRow :=
  ⟨"usr_0000000000000000", "bob", some samplePublicKeyBase64, none, 0⟩

theorem readSigningKey_enrolled :
    enrolledStore.readSigningKey [] (keyPath [] "usr_0000000000000000") = some sampleSecret := by
  decide +kernel

theorem sampleEnrolled_reached (signed : Signed) :
    ∃ c, Effects.Reaches Railyard.perform (Call.prog signed.serverCrates) (fun _ _ ↦ True)
      ⟨.fresh, []⟩ c ∧ enrolledUser ∈ c.shared.users ∧
        ∀ nonce, c.shared.seenNonces nonce = none := by
  refine ⟨_, Effects.Reaches.of_run? sampleEnrolled rfl
    (Effects.Conf.admits_of_forall (fun _ _ ↦ trivial) _ _), ?_, fun _ ↦ rfl⟩
  exact List.mem_cons_self

theorem signing_agrees_iff_whoami :
    ∃ c : Pool, enrolledUser ∈ c.shared.users ∧
      ∃ sent, signedRequestWithType (.sample "https://[::1]:7300" (sampleUrl none) whoamiSigned)
          [] enrolledStore sampleMoment (sampleServer "https://[::1]:7300") "GET" "/api/whoami" []
          "application/json" = .ok sent ∧
        ∀ req, Arrives sent req → Accepted whoamiSigned.serverCrates (fun _ ↦ { now := 61 })
          c.shared enrolledUser (signedText
            (.sample "https://[::1]:7300" (sampleUrl none) whoamiSigned) sampleMoment
            "usr_0000000000000000" "GET" sent.url.beforePath
            (Url.hostAndPort "[::1]" (some 7300)) []) req := by
  obtain ⟨c, hreach, huser, hnonces⟩ := sampleEnrolled_reached whoamiSigned
  have hagree : CratesAgree (.sample "https://[::1]:7300" (sampleUrl none) whoamiSigned)
      whoamiSigned.serverCrates :=
    whoamiSigned.agrees rfl (by decide) (by decide +kernel) (by decide +kernel)
      (sampleUrl_host none)
  have hparse : (Crates.sample "https://[::1]:7300" (sampleUrl none) whoamiSigned).parseUrl
    (sampleServer "https://[::1]:7300").serverUrl = .ok (sampleUrl none) := rfl
  have hiff := signing_agrees_iff hagree hparse rfl readSigningKey_enrolled hreach huser rfl rfl
    "GET" "/api/whoami" "application/json" [] sampleMoment (hnonces _) (fun _ ↦ { now := 61 }) rfl
    (by decide)
  exact ⟨c, huser, hiff.mpr rfl⟩

/-- The signature of a `whoami` request to a URL with a fragment. -/
def fragmentSigned : Signed where
  text := whoamiText "/api/whoami#top"
  signature :=
    [253, 5, 43, 226, 63, 48, 255, 68, 176, 78, 227, 221, 110, 191, 50, 140, 2, 163, 254, 226, 15,
      68, 151, 169, 23, 160, 20, 213, 134, 2, 143, 129, 137, 172, 189, 211, 53, 149, 159, 230, 178,
      130, 64, 11, 177, 162, 112, 47, 49, 121, 250, 19, 91, 254, 39, 98, 216, 76, 224, 140, 97, 247,
      158, 2]
  encoded :=
    "/QUr4j8w/0SwTuPdbr8yjAKj/uIPRJepF6AU1YYCj4GJrL3TNZWf5rKCQAuxonAvMXn6E1v+J2LYTOCMYfeeAg=="

/-- The crates of the client on an entry whose URL ends in a fragment. -/
def fragmentCrates : Crates :=
  .sample "https://[::1]:7300/#top" (sampleUrl (some "top")) fragmentSigned

/-- An enrolled client signs the fragment of its server's URL, and the server, which never sees it,
turns the request away. -/
theorem fragment_breaks_signing :
    ∃ c, Effects.Reaches Railyard.perform (Call.prog fragmentSigned.serverCrates) (fun _ _ ↦ True)
        ⟨.fresh, []⟩ c ∧ enrolledUser ∈ c.shared.users ∧
      ∃ sent req head, signedRequestWithType fragmentCrates [] enrolledStore sampleMoment
          (sampleServer "https://[::1]:7300/#top") "GET" "/api/whoami" [] "application/json"
          = .ok sent ∧
        Arrives sent req ∧ req.signedHead = .ok head ∧
        req.host = .ok (Url.hostAndPort "[::1]" (some 7300)) ∧
        head.canonical req (Url.hostAndPort "[::1]" (some 7300))
          ≠ signedText fragmentCrates sampleMoment "usr_0000000000000000" "GET"
            sent.url.beforePath (Url.hostAndPort "[::1]" (some 7300)) [] ∧
        ((Railyard.checkedRequest fragmentSigned.serverCrates req).run.run Railyard.perform
          (fun _ ↦ { now := 61 }) c.shared).1 = .error "signature verification failed" := by
  obtain ⟨c, hreach, huser, -⟩ := sampleEnrolled_reached fragmentSigned
  have hagree : CratesAgree fragmentCrates fragmentSigned.serverCrates :=
    fragmentSigned.agrees rfl (by decide) (by decide +kernel) (by decide +kernel)
      (sampleUrl_host _)
  have hparse : fragmentCrates.parseUrl (sampleServer "https://[::1]:7300/#top").serverUrl
    = .ok (sampleUrl (some "top")) := rfl
  obtain ⟨sent, hsent, hfragment, hsigns⟩ := signedRequestWithType_ok fragmentCrates sampleMoment
    "GET" "/api/whoami" "application/json" [] readSigningKey_enrolled hparse rfl
  have hhost : Encoding.headerText "[::1]" = some "[::1]" := by decide
  have hvisible := headerText_hostAndPort hhost (some 7300)
  obtain ⟨hhead, hhost'⟩ := hsigns.arrives hagree sent.arrives (by decide) hvisible
  have hne := mt (rebuilt_eq_signed_iff hsigns sent.arrives).mp (by rw [hfragment]; exact nofun)
  refine ⟨c, hreach, huser, sent, sent.onWire, _, hsent, sent.arrives, hhead, hhost', hne, ?_⟩
  have htext : signedText fragmentCrates sampleMoment
      (sampleServer "https://[::1]:7300/#top").keyId "GET" sent.url.beforePath
      (Url.hostAndPort "[::1]" (sampleUrl (some "top")).port) [] = fragmentSigned.text := by
    have hpath : (signedRequestWithType fragmentCrates [] enrolledStore sampleMoment
        (sampleServer "https://[::1]:7300/#top") "GET" "/api/whoami" []
        "application/json").map (fun sent ↦ sent.url.beforePath) = .ok "/api/whoami#top" := by
      decide +kernel
    rw [hsent] at hpath
    have hpath' : sent.url.beforePath = "/api/whoami#top" := Except.ok.inj hpath
    rw [hpath']
    decide +kernel
  obtain ⟨rows, hrows⟩ := Railyard.keyOwner_reply_of_mem huser rfl
  have howner : (Railyard.perform { now := 61 } (.sql (.keyOwner "usr_0000000000000000"))
      c.shared).1 = .ok ((fragmentCrates.base64Encode (fragmentCrates.verifyingKey sampleSecret),
        enrolledUser.id, enrolledUser.name, enrolledUser.projectId) :: rows) := by
    rw [Railyard.perform_sql_ok rfl]
    exact hrows
  have hclock : ReplayWindow.absDiff 61 60 ≤ timestampWindowSeconds := by decide
  refine congrArg Prod.fst (Railyard.checkedRequest_rejects fragmentSigned.serverCrates hhead
    (w := fun _ ↦ { now := 61 }) hclock howner
    ((verifyHead_eq hagree hhost').trans (if_neg fun hverify ↦ ?_)))
  -- it verifies only as the signature of the one text that was signed
  obtain ⟨-, hsignature⟩ := Signed.verify_iff.mp hverify
  have hzeros : fragmentSigned.signature ≠ List.replicate 64 0 := by decide
  have hsame : fragmentCrates.sign sampleSecret = fragmentSigned.sign := rfl
  rw [hsame, Signed.sign, Signed.sign, if_pos htext, if_neg fun h ↦ hne (h.trans htext.symm)]
    at hsignature
  exact hzeros hsignature

end Agreement

end Client
