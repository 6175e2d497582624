import Railyard.Server.Db

/-!
# Requests, responses and the router

The part of HTTP the API is written against.  A `Request` is what a handler or a middleware layer
gets: the head as it arrived, the body as the frames it arrives in, and the two extensions the
layers pass on.  A `Router` is a list of routes, and a layer wraps the routes added before it
(`Router.routeLayer`), so which routes a layer covers can be read off the order of the calls that
build the router.

`Crates` collects what the server takes from crates that are not part of the repository.
-/

set_option autoImplicit false

namespace Railyard

open Effects

/-! ## Requests and responses -/

/-- One frame of a request body. -/
inductive Frame
  | data (bytes : Bytes)
  | trailers
  /-- A transport error; nothing comes after it. -/
  | error (e : Error)

/-- A request as handlers and layers see it. -/
structure Request where
  method : String
  /-- The authority of the request's URI, if it has one. -/
  authority : Option String := none
  /-- The path and query of the request's URI, if it has one. -/
  pathAndQuery : Option String := none
  /-- Header names in lowercase, with their values. -/
  headers : List (String × String) := []
  body : List Frame := []
  /-- Extension: the caller the request was authenticated as. -/
  caller : Option AuthUser := none
  /-- Extension: the content hash the caller signed. -/
  signedHash : Option String := none

/-- The first header of this name, when it has one that is visible ASCII. -/
def Request.header? (req : Request) (name : String) : Option String :=
  (req.headers.find? fun h ↦ h.1 = name).bind fun h ↦ Encoding.headerText h.2

def Request.header (req : Request) (name : String) : Except Error String :=
  match req.header? name with
  | some value => .ok value
  | none => .error ("missing or malformed " ++ name ++ " header")

/-- The path and query, or the root when the URI has none. -/
def Request.target (req : Request) : String := req.pathAndQuery.getD "/"

/-- What a response carries.  The JSON bodies are kept as the values they print. -/
inductive Payload
  | empty
  | text (s : String)
  | redeemInvite (keyId : String)
  | whoami (userId name : String) (projectId projectName : Option String)
  | project (p : ProjectRow)
  | projects (ps : List ProjectRow)
  | createUser (userId inviteBlob : String) (expiresAt : ℕ)
  | users (us : List User)
  | release (r : Release)
  | releases (rs : List Release)

structure Response where
  status : ℕ
  body : Payload

def Response.text (status : ℕ) (s : String) : Response := ⟨status, .text s⟩

/-- `Json(…).into_response()`. -/
def Response.json (body : Payload) : Response := ⟨200, body⟩

def internalServerError : Response := ⟨500, .empty⟩

/-! ## Bodies -/

/-- The bytes of a body that arrives without a transport error. -/
def bodyBytes : List Frame → Option Bytes
  | [] => some []
  | .data bytes :: rest => (bodyBytes rest).map (bytes ++ ·)
  | .trailers :: rest => bodyBytes rest
  | .error _ :: _ => none

/-- `axum::body::to_bytes`: the whole body, unless it fails or is longer than `limit`. -/
def toBytes : List Frame → ℕ → Option Bytes
  | [], _ => some []
  | .data bytes :: rest, limit =>
    if limit < bytes.length then none
    else (toBytes rest (limit - bytes.length)).map (bytes ++ ·)
  | .trailers :: rest, limit => toBytes rest limit
  | .error _ :: _, _ => none

theorem bodyBytes_of_toBytes {frames : List Frame} {limit : ℕ} {bs : Bytes}
    (h : toBytes frames limit = some bs) : bodyBytes frames = some bs := by
  induction frames generalizing limit bs with
  | nil => exact h
  | cons frame rest ih =>
    cases frame with
    | data bytes =>
      rw [toBytes] at h
      split at h
      · cases h
      · obtain ⟨bs', hbs', rfl⟩ := Option.map_eq_some_iff.mp h
        rw [bodyBytes, ih hbs', Option.map_some]
    | trailers => exact ih h
    | error e => cases h

/-! ## What other crates do -/

/-- The body of a redeem-invite request. -/
structure RedeemInviteRequest where
  inviteToken : String
  publicKey : String

structure CreateProjectRequest where
  name : String
  id : Option String

structure CreateUserRequest where
  name : String
  projectId : Option String

structure InviteProject where
  id : String
  name : String

structure InvitePayload where
  serverUrl : String
  serverName : String
  userId : String
  userName : String
  project : Option InviteProject
  inviteToken : String
  expiresAt : ℕ

/-- What the server takes from other crates: encodings, cryptography, and the extractors that
read a value out of a request or answer it with a rejection. -/
structure Crates where
  /-- `BASE64_STANDARD.decode` -/
  base64Decode : String → Option Bytes
  /-- `URL_SAFE_NO_PAD.encode` -/
  urlSafeNoPad : Bytes → String
  /-- `serde_json::to_vec` of an invite payload -/
  inviteJson : InvitePayload → Bytes
  /-- `Sha256::digest` -/
  sha256 : Bytes → Bytes
  /-- Whether `VerifyingKey::from_bytes` accepts these 32 bytes. -/
  isVerifyingKey : Bytes → Bool
  /-- `VerifyingKey::verify` of a message against a signature of 64 bytes. -/
  verify : (key : Bytes) → (message : String) → (signature : Bytes) → Bool
  /-- `Json<RedeemInviteRequest>` -/
  jsonRedeemInvite : Request → Except Response RedeemInviteRequest
  /-- `Json<CreateProjectRequest>` -/
  jsonCreateProject : Request → Except Response CreateProjectRequest
  /-- `Json<CreateUserRequest>` -/
  jsonCreateUser : Request → Except Response CreateUserRequest
  /-- `Query<CreateReleaseQuery>`, the message of the query string -/
  queryCreateRelease : Option String → Except Response (Option String)

/-- The rejection of a request that does not say it carries JSON. -/
def missingJsonContentType : Response :=
  .text 415 "Expected request with `Content-Type: application/json`"

/-- `Sha256::digest` printed by `hex::encode`. -/
def Crates.sha256Hex (crates : Crates) (bs : Bytes) : String :=
  Encoding.hexEncode (crates.sha256 bs)

/-! ### Stand-ins

For runs on concrete inputs.  `Crates.sample` does what the crates do on the tokens, keys,
signatures and requests of these runs. -/

/-- A digit of the URL-safe alphabet. -/
def base64Digit (n : ℕ) : Char :=
  ("ABCDEFGHIJKLMNOPQRSTUVWXYZabcdefghijklmnopqrstuvwxyz0123456789-_".toList)[n]?.getD '_'

/-- URL-safe base64 without padding. -/
def base64UrlNoPad : List ℕ → List Char
  | [] => []
  | [a] => [base64Digit (a / 4), base64Digit (a % 4 * 16)]
  | [a, b] => [base64Digit (a / 4), base64Digit (a % 4 * 16 + b / 16), base64Digit (b % 16 * 4)]
  | a :: b :: c :: rest =>
    base64Digit (a / 4) :: base64Digit (a % 4 * 16 + b / 16) ::
      base64Digit (b % 16 * 4 + c / 64) :: base64Digit (c % 64) :: base64UrlNoPad rest

def InvitePayload.toJson (payload : InvitePayload) : String :=
  "\x7b\"server_url\":" ++ payload.serverUrl.quote ++
    ",\"server_name\":" ++ payload.serverName.quote ++
    ",\"user_id\":" ++ payload.userId.quote ++
    ",\"user_name\":" ++ payload.userName.quote ++
    (payload.project.elim "" fun project ↦
      ",\"project\":\x7b\"id\":" ++ project.id.quote ++ ",\"name\":" ++ project.name.quote ++
        "\x7d") ++
    ",\"invite_token\":" ++ payload.inviteToken.quote ++
    ",\"expires_at\":" ++ toString payload.expiresAt ++ "\x7d"

/-- The neutral element of the curve, encoded: a key for which the signature `neutralSignature`
verifies whatever the message. -/
def neutralKey : String := "AQAAAAAAAAAAAAAAAAAAAAAAAAAAAAAAAAAAAAAAAAA="

def neutralSignature : String :=
  "AQAAAAAAAAAAAAAAAAAAAAAAAAAAAAAAAAAAAAAAAAAAAAAAAAAAAAAAAAAAAAAAAAAAAAAAAAAAAAAAAAAAAA=="

/-- The digest of the token that is made of 32 zero bytes. -/
def zeroTokenDigest : Bytes :=
  [15, 0, 115, 133, 182, 249, 212, 183, 238, 178, 116, 134, 5, 175, 225, 169, 132, 160, 163, 191,
    163, 240, 20, 208, 158, 42, 120, 76, 233, 229, 205, 26]

/-- Stand-ins for the crates. -/
def Crates.sample : Crates where
  base64Decode s :=
    if s = neutralKey then some (1 :: List.replicate 31 0)
    else if s = neutralSignature then some (1 :: List.replicate 63 0)
    else none
  urlSafeNoPad bs := String.ofList (base64UrlNoPad (bs.map UInt8.toNat))
  inviteJson payload := Encoding.asBytes payload.toJson
  sha256 _ := zeroTokenDigest
  isVerifyingKey key := key = 1 :: List.replicate 31 0
  verify key _ signature := key = 1 :: List.replicate 31 0 ∧ signature = 1 :: List.replicate 63 0
  jsonRedeemInvite _ := .error missingJsonContentType
  jsonCreateProject _ := .error missingJsonContentType
  jsonCreateUser _ := .error missingJsonContentType
  queryCreateRelease _ := .ok none

/-- The configuration the API reads. -/
structure Config where
  proxyAddr : String
  apiAddr : String
  serverUrl : String
  serviceUpstreams : List (String × String)
  dataDir : String

/-! ## The router -/

/-- A handler, or what comes after a layer. -/
abbrev Handler := Request → Task Response

/-- A segment of a route's path. -/
inductive Segment
  | lit (s : String)
  | param

/-- The handlers of one path. -/
structure Route where
  path : List Segment
  /-- The methods with a handler, which is given what the path's parameters matched. -/
  methods : List (String × (List String → Handler))
  /-- What answers every other method. -/
  fallback : Handler

/-- What the parameters of a route match in a path, if the path matches at all. -/
def matchPath : List Segment → List String → Option (List String)
  | [], [] => some []
  | .lit s :: path, t :: ts => if s = t then matchPath path ts else none
  | .param :: path, t :: ts => if t = "" then none else (matchPath path ts).map (t :: ·)
  | _, _ => none

theorem matchPath_length {path : List Segment} {ts params : List String}
    (h : matchPath path ts = some params) : ts.length = path.length := by
  induction path generalizing ts params with
  | nil =>
    cases ts with
    | nil => rfl
    | cons t ts => cases h
  | cons segment path ih =>
    cases ts with
    | nil => cases segment <;> cases h
    | cons t ts =>
      rw [List.length_cons, List.length_cons]
      cases segment with
      | lit s =>
        rw [matchPath] at h
        split at h
        · rw [ih h]
        · cases h
      | param =>
        rw [matchPath] at h
        split at h
        · cases h
        · obtain ⟨params', h, -⟩ := Option.map_eq_some_iff.mp h
          rw [ih h]

/-- A path without parameters matches itself only. -/
theorem matchPath_lits (ss : List String) {ts params : List String}
    (h : matchPath (ss.map Segment.lit) ts = some params) : ts = ss := by
  induction ss generalizing ts params with
  | nil =>
    cases ts with
    | nil => rfl
    | cons t ts => cases h
  | cons s ss ih =>
    cases ts with
    | nil => cases h
    | cons t ts =>
      rw [List.map_cons, matchPath] at h
      split at h
      · rename_i hst; rw [hst, ih h]
      · cases h

/-- A handler answers its own method, and one for `GET` also answers `HEAD`. -/
def answers (handled method : String) : Bool :=
  handled = method ∨ (handled = "GET" ∧ method = "HEAD")

/-- What a route answers a method with. -/
def Route.handler (route : Route) (method : String) (params : List String) : Handler :=
  match route.methods.find? fun m ↦ answers m.1 method with
  | some m => m.2 params
  | none => route.fallback

abbrev Router := List Route

/-- Wrap every route added so far in a layer, what answers other methods included. -/
def Router.routeLayer (router : Router) (layer : Handler → Handler) : Router :=
  List.map (fun route ↦ { route with
    methods := route.methods.map fun m ↦ (m.1, fun params ↦ layer (m.2 params))
    fallback := layer route.fallback }) router

/-- The handler a request goes to: that of the route whose path matches. -/
def Router.find (router : Router) (req : Request) : Option Handler :=
  router.findSome? fun route ↦
    (matchPath route.path (Encoding.pathSegments req.target)).map (route.handler req.method)

/-- The response to `HEAD` has no body. -/
def stripBody (method : String) (response : Response) : Response :=
  if method = "HEAD" then { response with body := .empty } else response

@[simp] theorem stripBody_status (method : String) (response : Response) :
    (stripBody method response).status = response.status := by
  rw [stripBody]
  split <;> rfl

/-- Answer a request. -/
def Router.serve (router : Router) (req : Request) : Task Response :=
  match router.find req with
  | none => .ret ⟨404, .empty⟩
  | some handler => (handler req).bind fun response ↦ .ret (stripBody req.method response)

@[simp] theorem Router.find_routeLayer (router : Router) (layer : Handler → Handler)
    (req : Request) : (router.routeLayer layer).find req = (router.find req).map layer := by
  have hhandler : ∀ (route : Route) (params : List String),
      Route.handler { route with
        methods := route.methods.map fun m ↦ (m.1, fun params ↦ layer (m.2 params))
        fallback := layer route.fallback } req.method params
      = layer (route.handler req.method params) := by
    intro route params
    simp only [Route.handler, List.find?_map, Function.comp_def]
    cases route.methods.find? fun m ↦ answers m.1 req.method <;> rfl
  induction router with
  | nil => rfl
  | cons route router ih =>
    rw [find, routeLayer, List.map_cons, List.findSome?_cons, find, List.findSome?_cons]
    cases matchPath route.path (Encoding.pathSegments req.target) with
    | none => exact ih
    | some params => exact congrArg some (hhandler route params)

@[simp] theorem Router.find_append (router router' : Router) (req : Request) :
    Router.find (router ++ router') req = (router.find req).or (router'.find req) :=
  List.findSome?_append

/-- A request goes to the handler of a route whose path it matches. -/
theorem Router.find_eq_some {router : Router} {req : Request} {handler : Handler}
    (h : router.find req = some handler) :
    ∃ route ∈ router, ∃ params,
      matchPath route.path (Encoding.pathSegments req.target) = some params ∧
        route.handler req.method params = handler := by
  obtain ⟨route, hroute, h⟩ := List.exists_of_findSome?_eq_some h
  obtain ⟨params, hparams, h⟩ := Option.map_eq_some_iff.mp h
  exact ⟨route, hroute, params, hparams, h⟩

/-- What a route answers comes from one of its methods or from its fallback. -/
theorem Route.handler_cases (route : Route) (method : String) (params : List String) :
    (∃ m ∈ route.methods, answers m.1 method = true ∧ route.handler method params = m.2 params) ∨
      route.handler method params = route.fallback := by
  rw [handler]
  split
  · rename_i m hm
    have hm' : answers m.1 method = true := by simpa using List.find?_some hm
    exact .inl ⟨m, List.mem_of_find?_eq_some hm, hm', rfl⟩
  · exact .inr rfl

/-- `Path<String>` of one parameter: percent-decoded, refused when that is not UTF-8. -/
def pathParam (name raw : String) : Except Response String :=
  match Encoding.percentDecode raw with
  | some value => .ok value
  | none => .error (.text 400 ("Invalid URL: Invalid UTF-8 in `" ++ name ++ "`"))

/-- Run `f` on what an extractor found, or answer with its rejection. -/
def extract {α : Type} (found : Except Response α) (f : α → Task Response) : Task Response :=
  match found with
  | .ok a => f a
  | .error response => .ret response

@[simp] theorem extract_ok {α : Type} (a : α) (f : α → Task Response) : extract (.ok a) f = f a :=
  rfl

@[simp] theorem extract_error {α : Type} (response : Response) (f : α → Task Response) :
    extract (.error response) f = .ret response := rfl

/-- `Extension<AuthUser>` -/
def Request.callerExtension (req : Request) : Except Response AuthUser :=
  match req.caller with
  | some caller => .ok caller
  | none => .error (.text 500 "Missing request extension")

end Railyard
