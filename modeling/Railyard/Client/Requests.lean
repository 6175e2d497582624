import Railyard.Client.Deployment
import Railyard.Client.Nearest
import Railyard.Data.FormUrlencoded
import Railyard.Effects.Command
import Railyard.Storage.Truth

/-!
# The requests of the commands

What a command asks of a server, and what becomes of it.  A request is signed, and is one more
request to the server: how the server goes on with it and with all the others, up to the answer, is
any run of the API.

* `World` is what the commands read and change, `Site` what is the same for all of them;
* `Http.signedRequestWithType` signs and sends, and the rest of `Http` is a function for each
  endpoint;
* `Onward` is what a request may change, and `Http.moves_whoami` and the like say what its answer
  means: it is about the server as it has become.
-/

set_option autoImplicit false

namespace Client

open Data (Path Float64)
open Effects Encoding
open Railyard (ApiPool ApiRequest Outside Server Request Response CreateUserRequest ProjectRow
  Release User InvitePayload RedeemInviteRequest Sound telling perform)

/-! ## What commands meet -/

/-- How a request fails that is not answered. -/
inductive SendError
  /-- There is no connection, or no answer in time. -/
  | network (e : Error)
  | other (e : Error)

def SendError.text : SendError → Error
  | network e => e
  | other e => e

/-- What a server does: requests arrive, and those it has do their next operation. -/
abbrev Acts := List (Act Outside ApiRequest)

/-- How a request fares. -/
inductive Fare
  | unsent (e : SendError)
  /-- It arrives, the server does these things, and no answer arrives. -/
  | lost (acts : Acts) (e : SendError)
  /-- It arrives, the server does these things, and the answer arrives, if there is one by then. -/
  | answered (acts : Acts)

/-- What a request meets. -/
structure Passage where
  /-- When it is signed. -/
  moment : Moment
  /-- What the servers, by URL, do before it arrives. -/
  before : String → Acts
  fare : Fare

/-- What the commands read and change. -/
structure World where
  files : Files
  store : Store
  /-- The servers, by the URL of their entries, with the requests made to them so far. -/
  servers : String → ApiPool
  /-- What the requests that are still to be made will meet. -/
  ahead : ℕ → Passage

/-- What is the same for every command in one directory. -/
structure Site (F : Type) extends Workspace F where
  /-- The crates of the client. -/
  client : Crates
  publicKeyBase64 : SigningKey → String
  urlHost : String → Option String
  /-- The configurations of the servers. -/
  config : String → Railyard.Config
  /-- `serde_json::to_vec` of the bodies. -/
  createUserJson : CreateUserRequest → Bytes
  redeemInviteJson : RedeemInviteRequest → Bytes

variable {F : Type} (site : Site F)

/-! ## Sending -/

/-- What a server has become, once it has done these things. -/
def Site.serve (url : String) (acts : Acts) (c : ApiPool) : ApiPool :=
  (c.run? perform (ApiRequest.prog (site.config url) site.crates) acts).getD c

/-- What a request was answered with, if it has been. -/
def answerOf (c : ApiPool) (i : ℕ) : Option Response := (c.threads[i]?).bind fun t ↦ t.code.ended

/-- Hand a request to the server at a URL. -/
def deliver (url : String) (req : Request) (fare : Fare) (servers : String → ApiPool) :
    Except SendError Response × (String → ApiPool) :=
  let served (acts : Acts) := Function.update servers url
    (site.serve url (.spawn (.signed req) :: acts) (servers url))
  match fare with
  | .unsent e => (.error e, servers)
  | .lost acts e => (.error e, served acts)
  | .answered acts =>
    match answerOf (served acts url) (servers url).threads.length with
    | some response => (.ok response, served acts)
    | none => (.error (.other "connection closed before message completed"), served acts)

namespace Http

/-- The paths of the endpoints. -/
def projectsPath : String := "/api/projects"

/-- `project_releases_path` -/
def projectReleasesPath (projectId : String) : String :=
  projectsPath ++ "/" ++ projectId ++ "/releases"

variable (server : ServerConfig)

/-- Sign a request and send it to the server of an entry. -/
def signedRequestWithType (method suffix : String) (body : Bytes) (contentType : String) :
    Command SendError World Response := .act fun w ↦
  let passage := w.ahead 0
  let w := { w with
    servers := fun url ↦ site.serve url (passage.before url) (w.servers url)
    ahead := fun n ↦ w.ahead (n + 1) }
  match Client.signedRequestWithType site.client site.disk.root w.store passage.moment server method
      suffix body contentType with
  | .error e => (.error (.other e), w)
  | .ok sent =>
    let (answer, servers) := deliver site server.serverUrl sent.onWire passage.fare w.servers
    (answer, { w with servers := servers })

def signedRequest (method suffix : String) (body : Bytes) : Command SendError World Response :=
  signedRequestWithType site server method suffix body "application/json"

/-- `StatusCode::is_success` -/
def isSuccess (response : Response) : Prop := 200 ≤ response.status ∧ response.status < 300

instance (response : Response) : Decidable (isSuccess response) :=
  inferInstanceAs (Decidable (_ ∧ _))

def decodeError : Error := "error decoding response body"

/-! ### The endpoints -/

/-- What a server says to whose key an entry holds. -/
inductive WhoamiOutcome
  | identity (identity : WhoamiResponse) (projectName : Option String)
  /-- The server has answered, and does not accept the key. -/
  | rejected (reason : String)
  | unreachable

def whoami : Command Error World WhoamiOutcome := do
  match ← (signedRequest site server "GET" whoamiPath []).attempt with
  | .error (.network _) => return .unreachable
  | .error (.other e) => throw e
  | .ok response =>
    if isSuccess response then
      match response.body with
      | .whoami userId name projectId projectName =>
        return .identity ⟨userId, name, projectId⟩ projectName
      | _ => throw decodeError
    else
      return .rejected ("(" ++ toString response.status ++ ") " ++
        match response.body with
        | .text s => trim s
        | _ => "")

def listProjects : Command Error World (List ProjectRow) := do
  let response ← (signedRequest site server "GET" projectsPath []).adapt SendError.text
  if 400 ≤ response.status then throw ("HTTP status error " ++ statusText response)
  else
    match response.body with
    | .projects projects => return projects
    | _ => throw decodeError

/-- Upload an archive.  The message goes into the query, which the signature covers. -/
def createRelease (projectId : String) (message : Option String) (archive : Bytes) :
    Command Error World Release := do
  let path := projectReleasesPath projectId ++
    message.elim "" fun message ↦ "?" ++ appendPair "" "message" message
  let response ← (signedRequestWithType site server "POST" path archive
    "application/gzip").adapt SendError.text
  if isSuccess response then
    match response.body with
    | .release release => return release
    | _ => throw decodeError
  else throw ("release upload failed " ++ statusText response)

structure CreateUserResponse where
  userId : String
  inviteBlob : String
  expiresAt : ℕ

def createUser (name : String) (projectId : Option String) :
    Command Error World CreateUserResponse := do
  let response ← (signedRequest site server "POST" usersPath
    (site.createUserJson ⟨name, projectId⟩)).adapt SendError.text
  if isSuccess response then
    match response.body with
    | .createUser userId inviteBlob expiresAt => return ⟨userId, inviteBlob, expiresAt⟩
    | _ => throw decodeError
  else throw ("user creation failed " ++ statusText response)

def listUsers : Command Error World (List User) := do
  let response ← (signedRequest site server "GET" usersPath []).adapt SendError.text
  if isSuccess response then
    match response.body with
    | .users users => return users
    | _ => throw decodeError
  else throw ("user listing failed " ++ statusText response)

/-- Whether there was such a user. -/
def removeUser (name : String) : Command Error World Bool := do
  let response ← (signedRequest site server "DELETE" (usersPath ++ "/" ++ name) []).adapt
    SendError.text
  if response.status = 204 then return true
  else if response.status = 404 then return false
  else throw ("user removal failed " ++ statusText response)

end Http

/-! ## The requests of a login -/

/-- What the requests of a login meet. -/
structure LoginTraffic where
  /-- A request for the identity behind a key. -/
  whoami : (url keyId : String) → Visit
  /-- What the servers do before the invite is redeemed. -/
  before : String → Acts
  redeem : Fare

/-- What surrounds a login here. -/
def Site.env : Env := ⟨site.disk.root, site.publicKeyBase64, site.urlHost⟩

/-- The request that redeems an invite. -/
def redeemRequest (url : Url) (invite : InvitePayload) (publicKey : String) : Request where
  method := "POST"
  pathAndQuery := some url.pathAndQuery
  headers := [("content-type", "application/json"),
    ("host", Url.hostAndPort (url.host.getD "") url.port)]
  body := [.data (site.redeemInviteJson ⟨invite.inviteToken, publicKey⟩)]

/-- `http::redeem_invite` -/
def Site.redeemInvite (traffic : LoginTraffic) (invite : InvitePayload) (publicKey : String)
    (servers : String → ApiPool) : Except Error String × (String → ApiPool) :=
  match (site.client.parseUrl invite.serverUrl).bind fun url ↦
      controlPlaneApiUrl site.client url redeemInvitePath with
  | .error e => (.error e, servers)
  | .ok url =>
    match deliver site invite.serverUrl (redeemRequest site url invite publicKey) traffic.redeem
        fun url ↦ site.serve url (traffic.before url) (servers url) with
    | (.error e, servers) => (.error e.text, servers)
    | (.ok response, servers) =>
      if Http.isSuccess response then
        match response.body with
        | .redeemInvite keyId => (.ok keyId, servers)
        | _ => (.error Http.decodeError, servers)
      else (.error ("invite redemption failed " ++ statusText response), servers)

/-- What the requests of a login come to.  Asking for identities leaves the servers as they are. -/
def Site.net (traffic : LoginTraffic) : Net (String → ApiPool) where
  redeemInvite := site.redeemInvite traffic
  whoami url keyId key servers :=
    let visit := traffic.whoami url keyId
    match signedRequestBy site.client visit.moment key url keyId "GET" whoamiPath []
        "application/json" with
    | .error _ => none
    | .ok sent => identityOf (Railyard.served (site.config url) site.crates sent.onWire
        visit.outside (servers url).shared).1

/-! ## What a request may change -/

/-- The tables of a server are sound, and what its requests tell is known. -/
def Site.Backs (url : String) (c : ApiPool) : Prop :=
  Sound c.shared ∧ ∀ t ∈ c.threads, t.Backed (telling (site.config url)) Railyard.Known.Holds
    (fun K response ↦ response.Backed (site.config url) site.crates (· ∈ K)) c.shared

/-- This is so of every server. -/
def Site.Sane (servers : String → ApiPool) : Prop := ∀ url, site.Backs url (servers url)

/-- A server has a project. -/
def HasProject (servers : String → ApiPool) (url id : String) : Prop :=
  (Railyard.Known.project id).Holds (servers url).shared

/-- What a response says of the tables of the server at a URL is so. -/
def Site.Means (servers : String → ApiPool) (url : String) (response : Response) : Prop :=
  response.Backed (site.config url) site.crates fun x ↦ x.Holds (servers url).shared

/-- Servers as they may become: what is known of them stays so. -/
structure Site.Onwards (servers servers' : String → ApiPool) : Prop where
  sane : site.Sane servers → site.Sane servers'
  kept : ∀ url (x : Railyard.Known), x.Holds (servers url).shared → x.Holds (servers' url).shared

/-- What may become of everything while a command asks: nothing of what the client has changes. -/
structure Site.Onward (w w' : World) : Prop where
  files : w'.files = w.files
  store : w'.store = w.store
  servers : site.Onwards w.servers w'.servers

/-- The servers are sane. -/
abbrev Site.Ready (w : World) : Prop := site.Sane w.servers

instance : IsPreorder (String → ApiPool) site.Onwards where
  refl _ := ⟨id, fun _ _ ↦ id⟩
  trans _ _ _ h h' := ⟨h'.sane ∘ h.sane, fun url x hx ↦ h'.kept url x (h.kept url x hx)⟩

instance : IsPreorder World site.Onward where
  refl w := ⟨rfl, rfl, refl_of site.Onwards w.servers⟩
  trans _ _ _ h h' := ⟨h'.files.trans h.files, h'.store.trans h.store,
    trans_of site.Onwards h.servers h'.servers⟩

section Serving

variable {site} {url : String} {servers servers' : String → ApiPool}

/-- What a server does keeps what is known of it. -/
theorem serve_kept (acts : Acts) (c : ApiPool) (x : Railyard.Known) (hx : x.Holds c.shared) :
    x.Holds (site.serve url acts c).shared := by
  rw [Site.serve]
  cases hrun : c.run? perform (ApiRequest.prog (site.config url) site.crates) acts with
  | none => exact hx
  | some c' =>
    refine (Effects.Reaches.of_run? acts hrun (Conf.admits_of_forall (fun _ _ ↦ trivial) acts c)
      : Effects.Reaches perform _ (fun _ _ ↦ True) c c').invariant
      (I := fun c ↦ x.Holds c.shared) hx fun c₁ c₂ a _ hx₁ _ hstep ↦ ?_
    obtain ⟨call, -, rfl⟩ | ⟨i, o, t, q, k, -, -, -, rfl⟩ := Conf.step_eq_some _ _ hstep
    · exact hx₁
    · exact Railyard.Known.stable o q c₁.shared x hx₁

theorem serve_backs (hreject : site.crates.RejectPlainly) (acts : Acts) {c : ApiPool}
    (h : site.Backs url c) : site.Backs url (site.serve url acts c) := by
  rw [Site.serve]
  cases hrun : c.run? perform (ApiRequest.prog (site.config url) site.crates) acts with
  | none => exact h
  | some c' =>
    have hreach : Effects.Reaches perform (ApiRequest.prog (site.config url) site.crates)
        (fun _ _ ↦ True) c c' :=
      .of_run? acts hrun (Conf.admits_of_forall (fun _ _ ↦ trivial) acts c)
    obtain ⟨hsound, -, hthreads⟩ := hreach.backed (Railyard.sound_telling (site.config url))
      (Railyard.tells_prog hreject) h.1 h.2
    exact ⟨hsound, hthreads⟩

/-- What an answer says is so. -/
theorem means_of_answerOf {c : ApiPool} {i : ℕ} {response : Response} (h : site.Backs url c)
    (hanswer : answerOf c i = some response) :
    response.Backed (site.config url) site.crates fun x ↦ x.Holds c.shared := by
  obtain ⟨t, ht, hended⟩ := Option.bind_eq_some_iff.mp hanswer
  obtain ⟨K, hK, hcode⟩ := h.2 t (List.mem_of_getElem? ht)
  rw [Prog.ended_eq_some.mp hended] at hcode
  exact Railyard.Response.Backed.mono hcode hK

theorem onwards_update {c : ApiPool} (hbacks : site.Backs url (servers url) → site.Backs url c)
    (hkept : ∀ x : Railyard.Known, x.Holds (servers url).shared → x.Holds c.shared) :
    site.Onwards servers (Function.update servers url c) := by
  constructor
  · intro h other
    by_cases hother : other = url
    · subst hother
      rw [Function.update_self]
      exact hbacks (h other)
    · rw [Function.update_of_ne hother]
      exact h other
  · intro other x hx
    by_cases hother : other = url
    · subst hother
      rw [Function.update_self]
      exact hkept x hx
    · rw [Function.update_of_ne hother]
      exact hx

theorem onwards_each (hreject : site.crates.RejectPlainly) (acts : String → Acts) :
    site.Onwards servers fun url ↦ site.serve url (acts url) (servers url) :=
  ⟨fun h url ↦ serve_backs hreject (acts url) (h url), fun url ↦ serve_kept (acts url) _⟩

/-- **A request that is delivered** keeps what is known of the servers, and its answer means
something of the one it went to. -/
theorem deliver_onwards (hreject : site.crates.RejectPlainly) (url : String)
    (servers : String → ApiPool) (req : Request) (fare : Fare) :
    site.Onwards servers (deliver site url req fare servers).2 ∧
      (site.Sane servers → ∀ response, (deliver site url req fare servers).1 = .ok response →
        site.Means (deliver site url req fare servers).2 url response) := by
  have hserved : ∀ acts : Acts, site.Onwards servers (Function.update servers url
      (site.serve url (.spawn (.signed req) :: acts) (servers url))) := fun acts ↦
    onwards_update (serve_backs hreject _) (serve_kept _ _)
  cases fare with
  | unsent e => exact ⟨refl_of site.Onwards servers, fun _ _ h ↦ by cases h⟩
  | lost acts e => exact ⟨hserved acts, fun _ _ h ↦ by cases h⟩
  | answered acts =>
    simp only [deliver]
    split
    · rename_i found hanswer
      refine ⟨hserved acts, fun hsane response hresponse ↦ ?_⟩
      obtain rfl := Except.ok.inj hresponse
      exact means_of_answerOf ((hserved acts).sane hsane url) hanswer
    · exact ⟨hserved acts, fun _ _ h ↦ by cases h⟩

end Serving

/-! ### What commands ask -/

section Asking

variable {site} {α : Type} {server : ServerConfig}

/-- While the command asks, nothing of what the client has changes, and what it is told is so. -/
def Site.Asks {ε : Type} (site : Site F) (p : Command ε World α) (Q : α → World → Prop) : Prop :=
  Command.Moves site.Onward site.Ready p fun a w ↦ site.Ready w ∧ Q a w

theorem Site.Asks.of_moves {ε : Type} {p : Command ε World α} {Q : α → World → Prop}
    (h : Command.Moves site.Onward site.Ready p Q) : site.Asks p Q := by
  intro w hw
  obtain ⟨hmove, hvalue⟩ := h w hw
  exact ⟨hmove, fun a ha ↦ ⟨hmove.servers.sane hw, hvalue a ha⟩⟩

theorem Site.Asks.attempt {ε ε' : Type} {p : Command ε World α} {Q : α → World → Prop}
    (h : site.Asks p Q) : site.Asks (p.attempt : Command ε' World (Except ε α)) fun r w ↦
      ∀ a, r = .ok a → Q a w :=
  .of_moves ((Command.Moves.attempt h).post fun _ _ hr a ha ↦ (hr a ha).2)

theorem Site.Asks.adapt {ε ε' : Type} {p : Command ε World α} {Q : α → World → Prop}
    (h : site.Asks p Q) (f : ε → ε') : site.Asks (p.adapt f) Q :=
  Command.Moves.adapt h f

namespace Http

/-- **A request that is signed and sent** changes nothing of what the client has, and its answer
means something of the server of the entry. -/
theorem asks_signedRequestWithType (hreject : site.crates.RejectPlainly)
    {method suffix : String} {body : Bytes} {contentType : String} :
    site.Asks (signedRequestWithType site server method suffix body contentType)
      fun response w ↦ site.Means w.servers server.serverUrl response := by
  refine .of_moves fun w hw ↦ ?_
  have hbefore : site.Onwards w.servers fun url ↦
      site.serve url ((w.ahead 0).before url) (w.servers url) := onwards_each hreject _
  rw [signedRequestWithType, Command.start_act]
  dsimp only
  split
  · exact ⟨⟨rfl, rfl, hbefore⟩, fun _ h ↦ by cases h⟩
  · rename_i sent _
    obtain ⟨hmove, hmeans⟩ := deliver_onwards hreject server.serverUrl
      (fun url ↦ site.serve url ((w.ahead 0).before url) (w.servers url)) sent.onWire
      (w.ahead 0).fare
    exact ⟨⟨rfl, rfl, trans_of site.Onwards hbefore hmove⟩, hmeans (hbefore.sane hw)⟩

/-- An identity that a server confirms is scoped to a project it has, if to any. -/
theorem asks_whoami (hreject : site.crates.RejectPlainly) :
    site.Asks (whoami site server) fun outcome w ↦ ∀ identity name,
      outcome = .identity identity name →
        ∀ id ∈ identity.projectId, HasProject w.servers server.serverUrl id := by
  refine Command.Moves.bind (asks_signedRequestWithType hreject).attempt fun r ↦ ?_
  rcases r with (e | e) | response
  · exact .pure fun w hw ↦ ⟨hw.1, fun _ _ h ↦ by cases h⟩
  · exact .throw e
  · dsimp only
    split
    · split
      · rename_i userId name projectId projectName hbody
        refine .pure fun w hw ↦ ⟨hw.1, ?_⟩
        rintro identity _ ⟨⟩
        have hmeans := hw.2 response rfl
        rw [Site.Means, Railyard.Response.Backed, hbody] at hmeans
        exact hmeans
      · exact .throw decodeError
    · exact .pure fun w hw ↦ ⟨hw.1, fun _ _ h ↦ by cases h⟩

/-- The projects a server lists are there. -/
theorem asks_listProjects (hreject : site.crates.RejectPlainly) :
    site.Asks (listProjects site server) fun projects w ↦
      ∀ p ∈ projects, HasProject w.servers server.serverUrl p.id := by
  refine Command.Moves.bind ((asks_signedRequestWithType hreject).adapt _) fun response ↦ ?_
  split
  · exact .throw _
  split
  · rename_i projects hbody
    refine .pure fun w hw ↦ ⟨hw.1, ?_⟩
    have hmeans : site.Means w.servers server.serverUrl response := hw.2
    rw [Site.Means, Railyard.Response.Backed, hbody] at hmeans
    exact hmeans
  · exact .throw decodeError

/-- A release that a server answers with is there. -/
theorem asks_createRelease (hreject : site.crates.RejectPlainly) (projectId : String)
    (message : Option String) (archive : Bytes) :
    site.Asks (createRelease site server projectId message archive) fun release w ↦
      (Railyard.Known.release release.id release.projectId).Holds
        (w.servers server.serverUrl).shared := by
  refine Command.Moves.bind ((asks_signedRequestWithType hreject).adapt _) fun response ↦ ?_
  split
  · split
    · rename_i release hbody
      refine .pure fun w hw ↦ ⟨hw.1, ?_⟩
      have hmeans : site.Means w.servers server.serverUrl response := hw.2
      rw [Site.Means, Railyard.Response.Backed, hbody] at hmeans
      exact hmeans
    · exact .throw decodeError
  · exact .throw _

theorem asks_createUser (hreject : site.crates.RejectPlainly) (name : String)
    (projectId : Option String) :
    site.Asks (createUser site server name projectId) fun _ _ ↦ True := by
  refine Command.Moves.bind ((asks_signedRequestWithType hreject).adapt _) fun response ↦ ?_
  split
  · split
    · exact .pure fun w hw ↦ ⟨hw.1, trivial⟩
    · exact .throw decodeError
  · exact .throw _

theorem asks_listUsers (hreject : site.crates.RejectPlainly) :
    site.Asks (listUsers site server) fun _ _ ↦ True := by
  refine Command.Moves.bind ((asks_signedRequestWithType hreject).adapt _) fun response ↦ ?_
  split
  · split
    · exact .pure fun w hw ↦ ⟨hw.1, trivial⟩
    · exact .throw decodeError
  · exact .throw _

theorem asks_removeUser (hreject : site.crates.RejectPlainly) (name : String) :
    site.Asks (removeUser site server name) fun _ _ ↦ True := by
  refine Command.Moves.bind ((asks_signedRequestWithType hreject).adapt _) fun response ↦ ?_
  split
  · exact .pure fun w hw ↦ ⟨hw.1, trivial⟩
  split
  · exact .pure fun w hw ↦ ⟨hw.1, trivial⟩
  · exact .throw _

end Http

end Asking

end Client
