import Railyard.Access.Authorisation
import Railyard.Client.Init
import Railyard.Client.Removal
import Railyard.Client.Servers
import Railyard.Enrolment.Accounts

/-!
# A client among servers

Each host runs a server, with any number of calls in flight, and the client reaches them over the
network.  `Platform.net` is what the requests of a login come to there: `redeemInvite` makes a call
in the server's pool, and `whoami` signs a request that the server's router serves.

* `redeem_served`: the redemption is what the endpoint does with the request;
* `whoami_some`: an identity that is confirmed is that of a user with a key;
* `whoami_online`: where nothing is in the way, a user with this key is confirmed.

The nonce of a `whoami` request is checked for being new and not recorded, so that asking leaves the
servers as they are.
-/

set_option autoImplicit false

namespace Client

open Data (Path)
open Railyard (Call Pool Outside Server UserRow Response Request InvitePayload perform
  headerKeyId headerTimestamp headerNonce headerContentSha256 headerSignature
  headerSignatureVersion signatureVersion timestampWindowSeconds)

/-- The servers, by host, each with the calls made to it so far. -/
abbrev Deployment := String → Pool

/-- A client and servers. -/
structure Platform where
  env : Env
  crates : Crates
  server : Railyard.Crates
  /-- The configuration of each server. -/
  config : String → Railyard.Config
  hosts : Servers.Hosts

/-- What the two sides rely on from each other's crates. -/
structure Platform.Agrees (P : Platform) : Prop where
  crates : CratesAgree P.crates P.server
  publicKey : ∀ key, P.env.publicKeyBase64 key = P.crates.base64Encode (P.crates.verifyingKey key)
  sha256 : ∀ bs, P.server.sha256Hex bs = Encoding.hexEncode (P.crates.sha256 bs)
  segments : ∃ encode, PushesSegments P.crates encode
  blobs : P.server.Specified

/-- What a signed request meets: when it is signed, and what the outside contributes to its
answer. -/
structure Visit where
  moment : Moment
  outside : ℕ → Outside

/-- What the requests of one login meet. -/
structure Visits where
  whoami : (url keyId : String) → Visit
  redeem : ℕ → Outside

/-! ## Requests -/

section Requests

variable (crates : Crates)

def whoamiPath : String := "/api/whoami"

def redeemInvitePath : String := "/api/auth/redeem-invite"

/-- `signedRequestWithType`, once the key is read. -/
def signedRequestBy (moment : Moment) (signingKey : SigningKey) (url keyId method suffix : String)
    (body : Bytes) (contentType : String) : Except Error Outgoing := do
  let serverUrl ← crates.parseUrl url
  let requestUrl ← controlPlaneApiUrl crates serverUrl suffix
  let pathAndQuery := requestUrl.beforePath
  let host ← match requestUrl.host with
    | some host => .ok host
    | none => .error "server URL is missing a host"
  let host := Url.hostAndPort host requestUrl.port
  let signed := signRequest crates moment signingKey keyId method pathAndQuery host body
  .ok
    { method := method
      url := requestUrl
      headers :=
        [("host", host), (headerKeyId, signed.keyId),
          (headerTimestamp, toString signed.timestamp.toNat), (headerNonce, signed.nonce),
          (headerContentSha256, signed.contentSha256), (headerSignature, signed.signature),
          (headerSignatureVersion, signatureVersion)] ++
        if body = [] then [] else [("content-type", contentType)]
      body := body }

theorem signedRequestWithType_eq (root : Path) (store : Store) (moment : Moment)
    (server : ServerConfig) (method suffix : String) (body : Bytes) (contentType : String) :
    signedRequestWithType crates root store moment server method suffix body contentType =
      match store.readSigningKey root server.privateKeyPath with
      | none => .error invalidKeyFile
      | some key => signedRequestBy crates moment key server.serverUrl server.keyId method suffix
          body contentType := by
  rw [signedRequestWithType]
  cases store.readSigningKey root server.privateKeyPath <;> rfl

end Requests

/-- The identity in a response, if it is one of success. -/
def identityOf (response : Response) : Option WhoamiResponse :=
  if response.status < 200 ∨ 300 ≤ response.status then none
  else match response.body with
    | .whoami userId name projectId _ => some ⟨userId, name, projectId⟩
    | _ => none

namespace Platform

variable (P : Platform)

/-- `http::whoami` -/
def whoami (visit : Visit) (url keyId : String) (key : SigningKey) (d : Deployment) :
    Option WhoamiResponse :=
  match signedRequestBy P.crates visit.moment key url keyId "GET" whoamiPath []
      "application/json" with
  | .error _ => none
  | .ok sent => identityOf (Railyard.served (P.config (P.hosts url)) P.server sent.onWire
      visit.outside (d (P.hosts url)).shared).1

/-- The call a redemption makes. -/
def redemption (outside : ℕ → Outside) (invite : InvitePayload) (publicKey : String) : Call :=
  .redeemInvite (Railyard.tokenHash P.server invite.inviteToken) publicKey (outside 0).now

/-- The pool of the invite's server once the call has returned. -/
def afterRedemption (outside : ℕ → Outside) (invite : InvitePayload) (publicKey : String)
    (d : Deployment) : Pool :=
  (d (P.hosts invite.serverUrl)).alone perform (Call.prog P.server)
    (P.redemption outside invite publicKey) fun n ↦ outside (n + 1)

/-- What the server answers. -/
def redeemResponse (outside : ℕ → Outside) (invite : InvitePayload) (publicKey : String)
    (d : Deployment) : Response :=
  Railyard.redeemResponse (Railyard.redemption P.server ⟨invite.inviteToken, publicKey⟩ outside
    (d (P.hosts invite.serverUrl)).shared).1

/-- `http::redeem_invite` -/
def redeemInvite (outside : ℕ → Outside) (invite : InvitePayload) (publicKey : String)
    (d : Deployment) : Except Error String × Deployment :=
  match P.crates.parseUrl invite.serverUrl with
  | .error e => (.error e, d)
  | .ok url =>
    match controlPlaneApiUrl P.crates url redeemInvitePath with
    | .error e => (.error e, d)
    | .ok _ =>
      if (Railyard.parsePublicKey P.server publicKey).isNone then
        (.error ("invite redemption failed " ++ statusText
          (.text 400 "public_key must be a base64 ed25519 public key")), d)
      else
        let response := P.redeemResponse outside invite publicKey d
        (match response.body with
          | .redeemInvite keyId => .ok keyId
          | _ => .error ("invite redemption failed " ++ statusText response),
          Function.update d (P.hosts invite.serverUrl)
            (P.afterRedemption outside invite publicKey d))

/-- What the requests of a login come to. -/
def net (visits : Visits) : Net Deployment where
  redeemInvite := P.redeemInvite visits.redeem
  whoami url keyId key d := P.whoami (visits.whoami url keyId) url keyId key d

/-! ## Redeeming -/

variable {P} {outside : ℕ → Outside} {invite : InvitePayload} {publicKey : String} {d : Deployment}

/-- The call does to the tables what the endpoint does with the request. -/
theorem afterRedemption_shared :
    (P.afterRedemption outside invite publicKey d).shared =
      (Railyard.redemption P.server ⟨invite.inviteToken, publicKey⟩ outside
        (d (P.hosts invite.serverUrl)).shared).2 :=
  congrArg Prod.snd (Effects.Prog.run_bind_ret perform _ Railyard.Outcome.redeemInvite _ _)

/-- **The redemption is the endpoint's**: a request with the invite's token and this key is answered
the same, and leaves the server in the same state. -/
theorem redeem_served {req : Request}
    (hjson : P.server.jsonRedeemInvite req = .ok ⟨invite.inviteToken, publicKey⟩)
    (hkey : (Railyard.parsePublicKey P.server publicKey).isNone = false) :
    (Railyard.redeemInvite P.server req).run perform outside (d (P.hosts invite.serverUrl)).shared =
      (P.redeemResponse outside invite publicKey d,
        (P.afterRedemption outside invite publicKey d).shared) := by
  rw [Railyard.redeemInvite_exec hjson, if_neg (by simp [hkey]), afterRedemption_shared]
  rfl

end Platform

/-! ## Asking who somebody is -/

section Whoami

variable {config : Railyard.Config} {srv : Railyard.Crates} {req : Request} {w : ℕ → Outside}
  {s : Server} {user : Railyard.AuthUser} {identity : WhoamiResponse}

/-- The route of `whoami`. -/
theorem served_whoami (hmethod : req.method = "GET")
    (hpath : Encoding.pathSegments req.target = ["api", "whoami"]) :
    Railyard.served config srv req w s =
      (Railyard.verifySignature srv (Railyard.verifyBodyHash srv Railyard.whoami) req).run perform
        w s := by
  have hfind : (Railyard.signedRoutes config srv).find req =
      some (Railyard.verifySignature srv (Railyard.verifyBodyHash srv Railyard.whoami)) := by
    simp [Railyard.signedRoutes, Railyard.protectedRoutes, Railyard.Router.find,
      Railyard.Router.routeLayer, Railyard.bufferedRoutes, Railyard.route, Railyard.routeParam,
      Railyard.matchPath, Railyard.projectsPath, Railyard.usersPath, Railyard.whoamiPath,
      Railyard.Route.handler, Railyard.answers, hpath, hmethod]
  have hbody : Railyard.stripBody req.method = id := by
    funext response
    rw [Railyard.stripBody, if_neg (by rw [hmethod]; decide)]
    rfl
  rw [Railyard.served, Railyard.Router.serve, hfind, hbody]
  exact congrArg (fun p ↦ Effects.Prog.run perform p w s) (Effects.Prog.bind_ret _)

/-- What the handler answers: it looks up the name of the caller's project, if it has one. -/
theorem whoami_run (hcaller : req.caller = some user) :
    ((Railyard.whoami req).run perform w s).1 =
      match user.projectId with
      | none => .json (.whoami user.id user.name none none)
      | some id =>
        match (perform (w 0) (.sql (.projectById id)) s).1 with
        | .error _ => Railyard.internalServerError
        | .ok rows => .json (.whoami user.id user.name (some id)
            (rows.head?.map Railyard.ProjectRow.name)) := by
  have hextension : req.callerExtension = .ok user := by
    rw [Railyard.Request.callerExtension, hcaller]
  rw [Railyard.whoami, hextension, Railyard.extract_ok]
  cases hproject : user.projectId with
  | none => rfl
  | some id =>
    simp only [Railyard.Db.projectById_run, Effects.Prog.bind_def, Effects.Prog.op_bind,
      Effects.Prog.run_op]
    cases (perform (w 0) (.sql (.projectById id)) s).1 <;> rfl

/-- The handler tells the caller who it is, if anything. -/
theorem identityOf_whoami (hcaller : req.caller = some user)
    (h : identityOf ((Railyard.whoami req).run perform w s).1 = some identity) :
    identity = ⟨user.id, user.name, user.projectId⟩ := by
  rw [whoami_run hcaller] at h
  cases hproject : user.projectId with
  | none =>
    rw [hproject] at h
    exact (Option.some.inj h).symm
  | some id =>
    rw [hproject] at h
    cases hrows : (perform (w 0) (.sql (.projectById id)) s).1 with
    | error e => simp [hrows, identityOf, Railyard.internalServerError] at h
    | ok rows =>
      simp only [hrows] at h
      exact (Option.some.inj h).symm

/-- Without a fault it does. -/
theorem identityOf_whoami_ok (hcaller : req.caller = some user) (hfault : (w 0).fault = none) :
    identityOf ((Railyard.whoami req).run perform w s).1 =
      some ⟨user.id, user.name, user.projectId⟩ := by
  rw [whoami_run hcaller]
  cases hproject : user.projectId with
  | none => rfl
  | some id =>
    simp only [Railyard.perform_sql_ok hfault]
    rfl

/-- Where the body does not match the signed hash, nobody is named. -/
theorem identityOf_verifyBodyHash {next : Railyard.Handler}
    (h : identityOf ((Railyard.verifyBodyHash srv next req).run perform w s).1 = some identity) :
    ∃ body, identityOf ((next { req with body := body }).run perform w s).1 = some identity := by
  rw [Railyard.verifyBodyHash] at h
  split at h
  · exact ⟨req.body, h⟩
  split at h
  · cases h
  split at h
  · cases h
  · exact ⟨_, h⟩

/-- An answer that names somebody is that to a request of an existing user with a key, which was
verified. -/
theorem served_identity (hmethod : req.method = "GET")
    (hpath : Encoding.pathSegments req.target = ["api", "whoami"])
    (h : identityOf (Railyard.served config srv req w s).1 = some identity) :
    ∃ head, req.signedHead = .ok head ∧ ∃ u ∈ s.users, u.id = head.keyId ∧
      u.publicKey ≠ none ∧ identity = ⟨u.id, u.name, u.projectId⟩ := by
  rw [served_whoami hmethod hpath, Railyard.verifySignature_run, Railyard.checkedRequest_exec] at h
  have hrejected : ∀ reason : String, identityOf (.text 401 ("unauthorized: " ++ reason)) = none :=
    fun _ ↦ rfl
  cases hhead : req.signedHead with
  | error e => simp [hhead, hrejected] at h
  | ok head =>
    simp only [hhead] at h
    split at h
    · rename_i hcheck
      simp [hrejected] at h
    rename_i req' s' hcheck
    split at hcheck
    · simp at hcheck
    rcases howner : (perform (w 1) (.sql (.keyOwner head.keyId)) s).1 with
      e | _ | ⟨⟨publicKey, id, name, projectId⟩, rows⟩
    all_goals simp only [howner] at hcheck
    · simp at hcheck
    · simp at hcheck
    cases hverify : Railyard.verifyHead srv req head publicKey with
    | error e => simp [hverify] at hcheck
    | ok _ =>
      simp only [hverify, Prod.mk.injEq] at hcheck
      obtain ⟨hreq, -⟩ := hcheck
      split at hreq
      · simp at hreq
      obtain rfl := Except.ok.inj hreq
      obtain ⟨-, hrows⟩ := Railyard.perform_sql_eq_ok howner
      obtain ⟨u, hu, hid, hkey, hrow⟩ := Railyard.mem_keyOwner_reply hrows List.mem_cons_self
      refine ⟨head, rfl, u, hu, hid, by rw [hkey]; exact Option.some_ne_none _, ?_⟩
      obtain ⟨hid', hname', hproject'⟩ : id = u.id ∧ name = u.name ∧ projectId = u.projectId := by
        simpa using hrow
      obtain ⟨body, hbody⟩ := identityOf_verifyBodyHash h
      rw [identityOf_whoami rfl hbody, hid', hname', hproject']

/-- A request of a user with a key that passes every check is answered with the user's identity. -/
theorem served_identity_ok (hmethod : req.method = "GET")
    (hpath : Encoding.pathSegments req.target = ["api", "whoami"]) {head : Railyard.SignedHead}
    {u : UserRow} {publicKey : String} (hhead : req.signedHead = .ok head)
    (hclock : ReplayWindow.absDiff (w 0).now head.timestamp ≤ timestampWindowSeconds)
    (hu : u ∈ s.users) (hid : u.id = head.keyId) (hkey : u.publicKey = some publicKey)
    (hverify : Railyard.verifyHead srv req head publicKey = .ok ())
    (hnonce : s.seenNonces head.nonce = none)
    (hbody : Railyard.BodyPasses srv req.body
      (some (Encoding.toAsciiLowercase head.contentSha256)))
    (hfault : ∀ n, (w n).fault = none) :
    identityOf (Railyard.served config srv req w s).1 = some ⟨u.id, u.name, u.projectId⟩ := by
  obtain ⟨rows, hrows⟩ := Railyard.keyOwner_reply_of_mem hu hkey
  have howner : (perform (w 1) (.sql (.keyOwner head.keyId)) s).1
      = .ok ((publicKey, u.id, u.name, u.projectId) :: rows) := by
    rw [Railyard.perform_sql_ok (hfault 1), ← hid]
    exact hrows
  have haccepted := Railyard.checkedRequest_accepts srv hhead hclock howner hverify
    (ReplayWindow.record_of_none hnonce)
  rw [served_whoami hmethod hpath, Railyard.verifySignature_run]
  rcases hrun : (Railyard.checkedRequest srv req).run.run perform w s with ⟨r, s'⟩
  rw [hrun] at haccepted
  obtain rfl : r = _ := haccepted
  have hpasses : Railyard.BodyPasses srv (req.authenticated head ⟨u.id, u.name, u.projectId⟩).body
    (req.authenticated head ⟨u.id, u.name, u.projectId⟩).signedHash := hbody
  obtain ⟨body, hpass⟩ := Railyard.verifyBodyHash_passes hpasses Railyard.whoami
  simp only [hpass]
  have hcaller : ({ req.authenticated head ⟨u.id, u.name, u.projectId⟩ with
    body := body } : Request).caller = some ⟨u.id, u.name, u.projectId⟩ := rfl
  exact identityOf_whoami_ok hcaller (hfault _)

end Whoami

/-! ## Signed requests for `whoami` -/

section Signed

variable {P : Platform} {visit : Visit} {key : SigningKey} {url keyId : String} {d : Deployment}
  {sent : Outgoing}

/-- The path of a request for `whoami`. -/
theorem controlPlaneApiUrl_whoami (hP : P.Agrees) {parsed requestUrl : Url}
    (h : controlPlaneApiUrl P.crates parsed whoamiPath = .ok requestUrl) :
    requestUrl.pathAndQuery = whoamiPath := by
  obtain ⟨encode, hpush⟩ := hP.segments
  have hroot : P.crates.pushSegment parsed.scheme "/" "api" = "/api" :=
    hpush.root parsed.scheme "api" (by decide)
  have hwhoami : P.crates.pushSegment parsed.scheme "/api" "whoami" = whoamiPath := by
    rw [hpush.push _ _ _ (by decide) (by decide), hpush.letters _ _ (by decide)]
    decide
  have hsplit : Encoding.splitOnce ['?'] whoamiPath.toList = none := by decide
  have hsegments : ((whoamiPath.toList.splitOn '/').filter (· ≠ [])).map String.ofList
      = ["api", "whoami"] := by decide
  rw [controlPlaneApiUrl] at h
  simp only [hsplit, hsegments, List.foldl_cons, List.foldl_nil, hroot, hwhoami] at h
  split at h
  · cases h
  · obtain rfl := Except.ok.inj h
    exact String.append_empty

/-- The request that is signed with a key, for a URL that has a host. -/
theorem signedRequestBy_ok {parsed : Url} {host : String} (moment : Moment) (key : SigningKey)
    (method suffix : String) (body : Bytes) (contentType : String)
    (hparse : P.crates.parseUrl url = .ok parsed) (hhost : parsed.host = some host) :
    ∃ sent, signedRequestBy P.crates moment key url keyId method suffix body contentType
        = .ok sent ∧ sent.url.fragment = parsed.fragment ∧ sent.body = body ∧
      controlPlaneApiUrl P.crates parsed suffix = .ok sent.url ∧
      Signs P.crates moment ⟨url, keyId, []⟩ key method body (Url.hostAndPort host parsed.port)
        sent := by
  obtain ⟨requestUrl, hurl, hhost', hport, hfragment⟩ :=
    controlPlaneApiUrl_ok P.crates suffix hhost
  refine ⟨_, by
    simp only [signedRequestBy, hparse, bind, Except.bind, hurl, hhost', hport]; rfl,
    hfragment, rfl, hurl, ?_⟩
  constructor <;> rfl

/-- What could be sent is for a URL with a host. -/
theorem signedRequestBy_host {moment : Moment} {method suffix : String} {body : Bytes}
    {contentType : String} (h : signedRequestBy P.crates moment key url keyId method suffix body
      contentType = .ok sent) :
    ∃ parsed host, P.crates.parseUrl url = .ok parsed ∧ parsed.host = some host := by
  cases hparse : P.crates.parseUrl url with
  | error e => simp [signedRequestBy, hparse, bind, Except.bind] at h
  | ok parsed =>
    cases hurl : controlPlaneApiUrl P.crates parsed suffix with
    | error e => simp [signedRequestBy, hparse, hurl, bind, Except.bind] at h
    | ok requestUrl =>
      have hsame : requestUrl.host = parsed.host := by
        simp only [controlPlaneApiUrl] at hurl
        split at hurl
        · cases hurl
        · rw [← Except.ok.inj hurl]
      cases hhost : parsed.host with
      | none =>
        rw [hhost] at hsame
        simp [signedRequestBy, hparse, hurl, hsame, bind, Except.bind] at h
      | some host => exact ⟨parsed, host, rfl, hhost⟩

/-- A signed request for `whoami`, as it gets to the server. -/
theorem whoami_sent (hP : P.Agrees) (hkeyId : Encoding.headerText keyId = some keyId)
    {parsed : Url} {host : String} (hparse : P.crates.parseUrl url = .ok parsed)
    (hhost : parsed.host = some host) :
    ∃ sent, signedRequestBy P.crates visit.moment key url keyId "GET" whoamiPath []
        "application/json" = .ok sent ∧ sent.url.fragment = parsed.fragment ∧
      sent.onWire.method = "GET" ∧
      Encoding.pathSegments sent.onWire.target = ["api", "whoami"] ∧
      Signs P.crates visit.moment ⟨url, keyId, []⟩ key "GET" [] (Url.hostAndPort host parsed.port)
        sent ∧
      sent.onWire.signedHead = .ok (signedHead P.crates visit.moment ⟨url, keyId, []⟩ key "GET"
        (Url.hostAndPort host parsed.port) [] sent) ∧
      sent.onWire.host = .ok (Url.hostAndPort host parsed.port) ∧
      sent.onWire.body = [.data []] := by
  obtain ⟨sent, hsent, hfragment, hbody, hurl, hsigns⟩ := signedRequestBy_ok visit.moment key "GET"
    whoamiPath [] "application/json" hparse hhost
  have hvisible := headerText_hostAndPort (hP.crates.host_visible _ _ _ hparse hhost) parsed.port
  obtain ⟨hhead, hhost'⟩ := hsigns.arrives hP.crates sent.arrives hkeyId hvisible
  have htarget : sent.onWire.target = whoamiPath :=
    controlPlaneApiUrl_whoami hP hurl
  refine ⟨sent, hsent, hfragment, hsigns.method, ?_, hsigns, hhead, hhost', ?_⟩
  · rw [htarget]
    decide
  · exact congrArg (fun body ↦ [Railyard.Frame.data body]) hbody

/-- **Whoever is confirmed is a user with a key.** -/
theorem Platform.whoami_some (hP : P.Agrees) (hkeyId : Encoding.headerText keyId = some keyId)
    {identity : WhoamiResponse} (h : P.whoami visit url keyId key d = some identity) :
    ∃ u ∈ (d (P.hosts url)).shared.users, u.id = keyId ∧ u.publicKey ≠ none ∧
      identity = ⟨u.id, u.name, u.projectId⟩ := by
  rw [whoami] at h
  split at h
  · cases h
  rename_i sent hsent
  obtain ⟨parsed, host, hparse, hhost⟩ := signedRequestBy_host hsent
  obtain ⟨sent', hsent', -, hmethod, hpath, -, hhead, -⟩ :=
    whoami_sent hP hkeyId hparse hhost
  obtain rfl := Except.ok.inj (hsent.symm.trans hsent')
  obtain ⟨head, hhead', u, hu, hid, hkey, hidentity⟩ := served_identity hmethod hpath h
  obtain rfl := Except.ok.inj (hhead.symm.trans hhead')
  exact ⟨u, hu, hid, hkey, hidentity⟩

/-- Nothing is in the way of a request: the URL parses, has a host and no fragment, the clocks are
close, the nonce is new, and no statement fails. -/
structure Visit.Online (P : Platform) (visit : Visit) (url : String) (s : Server) : Prop where
  url : ∃ parsed, P.crates.parseUrl url = .ok parsed ∧ parsed.host.isSome ∧ parsed.fragment = none
  clock : ReplayWindow.absDiff (visit.outside 0).now visit.moment.timestamp.toNat
    ≤ timestampWindowSeconds
  nonce : s.seenNonces (Encoding.hexEncode visit.moment.nonce.val) = none
  faultless : ∀ n, (visit.outside n).fault = none

/-- Of a server, only the nonces it has seen can be in the way. -/
theorem Visit.Online.of_seenNonces {s s' : Server} (h : visit.Online P url s)
    (hs : s'.seenNonces = s.seenNonces) : visit.Online P url s' :=
  { h with nonce := by rw [hs]; exact h.nonce }

/-- **A user whose key it is is confirmed**, where nothing is in the way. -/
theorem Platform.whoami_online (hP : P.Agrees) (hkeyId : Encoding.headerText keyId = some keyId)
    (honline : visit.Online P url (d (P.hosts url)).shared) {u : UserRow}
    (hu : u ∈ (d (P.hosts url)).shared.users) (hid : u.id = keyId)
    (hkey : u.publicKey = some (P.env.publicKeyBase64 key)) :
    P.whoami visit url keyId key d = some ⟨u.id, u.name, u.projectId⟩ := by
  obtain ⟨⟨parsed, hparse, hsome, hnone⟩, hclock, hnonce, hfault⟩ := honline
  obtain ⟨host, hhost⟩ := Option.isSome_iff_exists.mp hsome
  obtain ⟨sent, hsent, hfragment, hmethod, hpath, hsigns, hhead, hhost', hbody⟩ :=
    whoami_sent hP hkeyId hparse hhost
  have hrebuilt := (rebuilt_eq_signed_iff hsigns sent.arrives).mpr (hfragment.trans hnone)
  rw [hP.publicKey] at hkey
  rw [whoami, hsent]
  refine served_identity_ok hmethod hpath hhead hclock hu hid hkey
    (verifyHead_ok hP.crates hhost' hrebuilt) hnonce ?_ hfault
  rw [hbody]
  rintro expected ⟨⟩
  refine ⟨[], rfl, ?_⟩
  rw [hP.sha256]
  refine (Encoding.toAsciiLowercase_eq_self fun c hc hupper ↦ ?_).symm
  rcases Encoding.mem_hexEncode hc with hdigit | ⟨hlo, -⟩
  · have := Encoding.toNat_of_isDigit hdigit
    have hlo : 65 ≤ c.toNat := hupper.1
    omega
  · have hlo' : 97 ≤ c.toNat := hlo
    have hhi : c.toNat ≤ 90 := hupper.2
    omega

end Signed

end Client
