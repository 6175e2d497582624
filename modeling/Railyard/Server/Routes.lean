import Railyard.Server.Invite

/-!
# Routes and handlers

The handlers of the API and the two routers they are served from: `signedRoutes`, behind the
ingress proxy, where every protected route sits behind the signature layer, and `adminRoutes`, on
the local socket, where requests act as an admin without a signature.

All protected routes but the one for releases sit behind `verifyBodyHash` as well: uploads are
streamed to disk, and `receiveArchive` checks the signed hash as the bytes land.
-/

set_option autoImplicit false

namespace Railyard

open Effects

variable (config : Config) (crates : Crates)

/-! ## Checks on names and ids -/

/-- Only ids this platform could have minted are accepted for reuse. -/
def isValidProjectId (id : String) : Bool :=
  match id.toList with
  | 'p' :: 'r' :: 'j' :: '_' :: hex =>
    hex.length = 16 ∧ hex.all fun c ↦ c.isDigit ∨ ('a' ≤ c ∧ c ≤ 'f')
  | _ => false

/-- A lowercase DNS label. -/
def isValidProjectName (name : String) : Bool :=
  name ≠ "" ∧ name.utf8ByteSize ≤ 63 ∧
    (name.toList.all fun c ↦ ('a' ≤ c ∧ c ≤ 'z') ∨ c.isDigit ∨ c = '-') ∧
    name.toList.head? ≠ some '-' ∧ name.toList.getLast? ≠ some '-'

/-! ## Users and projects -/

/-- Echo back who the verified key belongs to. -/
def whoami : Handler := fun req ↦
  extract req.callerExtension fun caller ↦ do
    let projectName ← match caller.projectId with
      | none => pure (Except.ok none)
      | some id => do
        let project ← (Db.projectById id).run
        pure (project.map fun project ↦ project.map ProjectRow.name)
    match projectName with
    | .error _ => return internalServerError
    | .ok projectName =>
      return .json (.whoami caller.id caller.name caller.projectId projectName)

def root : Handler := fun _ ↦
  .ret (.text 200 ("Railyard API is running.\nproxy=" ++ config.proxyAddr ++ "\napi=" ++
    config.apiAddr ++ "\nservices=" ++ toString config.serviceUpstreams.length))

def healthz : Handler := fun _ ↦ .ret (.text 200 "ok")

def createProject : Handler := fun req ↦
  extract req.callerExtension fun caller ↦
  extract (crates.jsonCreateProject req) fun request ↦ do
    if caller.projectId.isSome then
      return .text 403 "only server admins can create projects"
    if !isValidProjectName request.name then
      return .text 400
        "project name must be a lowercase DNS label (a-z, 0-9, hyphens; max 63 chars)"
    if request.id.any fun id ↦ !isValidProjectId id then
      return .text 400 "project id must look like prj_<16 hex chars>"
    let now ← unixTimestamp
    match ← (Db.createProject request.name request.id now).run with
    | .ok (some project) => return .json (.project project)
    | .ok none => return .text 409 "project name or id already exists"
    | .error _ => return internalServerError

/-- Create a user, and mint its invite blob.  Only admins may invite. -/
def createUser : Handler := fun req ↦
  extract req.callerExtension fun inviter ↦
  extract (crates.jsonCreateUser req) fun request ↦ do
    if inviter.projectId.isSome then
      return .text 403 "only server admins can create users and invites"
    if let .error error := validatedName request.name then
      return .text 400 error
    let project ← match request.projectId with
      | none => pure (Except.ok none)
      | some id => do
        match ← (Db.projectById id).run with
        | .ok (some project) => pure (.ok (some (InviteProject.mk project.id project.name)))
        | .ok none => pure (.error (Response.text 404 ("no project " ++ id ++ " on this server")))
        | .error _ => pure (.error internalServerError)
    match project with
    | .error response => return response
    | .ok project =>
      match ← (mintInvite crates config.serverUrl request.name project).run with
      | .ok (some minted) =>
        return .json (.createUser minted.userId minted.blob minted.expiresAt)
      | .ok none => return .text 409 ("user " ++ request.name ++ " already exists")
      | .error _ => return internalServerError

def listUsers : Handler := fun req ↦
  extract req.callerExtension fun caller ↦ do
    if caller.projectId.isSome then
      return .text 403 "only server admins can list users"
    match ← Db.listUsers.run with
    | .ok users => return .json (.users users)
    | .error _ => return internalServerError

def removeUser (name : String) : Handler := fun req ↦
  extract req.callerExtension fun caller ↦
  extract (pathParam "name" name) fun name ↦ do
    if caller.projectId.isSome then
      return .text 403 "only server admins can remove users"
    match ← (Db.removeUser name).run with
    | .ok true => return ⟨204, .empty⟩
    | .ok false => return .text 404 ("no user named " ++ name)
    | .error _ => return internalServerError

def listProjects : Handler := fun req ↦
  extract req.callerExtension fun caller ↦ do
    match ← Db.listProjects.run with
    | .ok projects =>
      return .json (.projects (projects.filter fun project ↦
        match caller.projectId with
        | none => true
        | some scope => project.id = scope))
    | .error _ => return internalServerError

/-! ## Releases -/

def maxArchiveBytes : ℕ := 2 * 1024 * 1024 * 1024

/-- `Path::join`: an absolute path replaces what it is joined to. -/
def joinPath (base path : String) : String :=
  if path.toList.head? = some '/' then path
  else if base = "" ∨ base.toList.getLast? = some '/' then base ++ path
  else base ++ "/" ++ path

/-- `releases/<project_id>/<release_id>` below the data directory. -/
def releaseDir (projectId releaseId : String) : String :=
  joinPath (joinPath (joinPath config.dataDir "releases") projectId) releaseId

/-- One step on the file system. -/
def fs (f : FsOp) : Action Unit := ExceptT.mk (.op (.fs f) .ret)

/-- The loop of `receiveArchive`: write the frames to `path` as they come.  Returns how many bytes
came and what the hasher was fed. -/
def receiveFrames (path : String) : List Frame → ℕ → Bytes → Action (ℕ × Bytes)
  | [], received, hashed => return (received, hashed)
  | .error e :: _, _, _ => throw e
  | .trailers :: frames, received, hashed => receiveFrames path frames received hashed
  | .data data :: frames, received, hashed => do
    let received := received + data.length
    if maxArchiveBytes < received then
      throw ("archive exceeds the " ++ toString maxArchiveBytes ++ " byte limit")
    fs (.writeAll path data)
    receiveFrames path frames received (hashed ++ data)

/-- The part of `receiveArchive` after the file at `path` has been created. -/
def receiveBody (path : String) (body : List Frame) (signedHash : Option String) :
    Action Unit := do
  let (received, hashed) ← receiveFrames path body 0 []
  fs (.flush path)
  if received = 0 then
    throw "request body must be a gzipped tarball of the project source"
  if let some expected := signedHash then
    if crates.sha256Hex hashed ≠ expected then
      throw "body does not match the signed content hash"

/-- Stream the body to `<dir>/archive.tar.gz`, hashing the bytes as they land.  The archive is
untrusted until they match the hash the caller signed. -/
def receiveArchive (dir : String) (body : List Frame) (signedHash : Option String) :
    Action Unit := do
  fs (.createDirAll dir)
  let path := joinPath dir "archive.tar.gz"
  fs (.createFile path)
  receiveBody crates path body signedHash

/-- Unpack `<dir>/archive.tar.gz` to `<dir>/source`. -/
def unpackArchive (dir : String) : Action Unit := do
  let archive := joinPath dir "archive.tar.gz"
  fs (.openFile archive)
  let source := joinPath dir "source"
  fs (.createDirAll source)
  fs (.unpack archive source)

/-- `spawn_blocking(…).await`, with the error of a task that did not come back. -/
def spawnBlocking (task : Action Unit) : Action Unit :=
  ExceptT.mk do
    let result ← task.run
    .op .joinBlocking fun
      | .ok () => .ret result
      | .error e => .ret (.error e)

/-- A project-scoped key may only touch its own project, admins may touch any; also confirms that
the project exists. -/
def confirmProjectAccess (caller : AuthUser) (projectId : String) :
    Task (Except Response Unit) := do
  if caller.projectId.any fun scope ↦ scope ≠ projectId then
    return .error (.text 403 "key is not scoped to this project")
  match ← (Db.projectById projectId).run with
  | .ok (some _) => return .ok ()
  | .ok none => return .error (.text 404 ("no project " ++ projectId ++ " on this server"))
  | .error _ => return .error internalServerError

/-- The last part of `createRelease`: store the outcome and answer. -/
def finishRelease (projectId : String) (release : Release) (unpacked : Except Error Unit) :
    Task Response := do
  let (status, error) := match unpacked with
    | .ok () => (ReleaseStatus.ready, none)
    | .error error => (ReleaseStatus.failed, some error)
  let now ← unixTimestamp
  -- a failed status update is only logged
  let _ ← (Db.setReleaseStatus release.id status error now).run
  match unpacked with
  | .ok () => return .json (.release
      ⟨release.id, projectId, status, release.message, error, release.createdAt, now⟩)
  | .error failure => return .text 400 ("release " ++ release.id ++ " failed: " ++ failure)

/-- What `createRelease` does once the release has its row: receive and unpack the archive, and
store the outcome. -/
def storeRelease (projectId : String) (release : Release) (req : Request) : Task Response := do
  let dir := releaseDir config projectId release.id
  let unpacked ← (show Action Unit from do
    receiveArchive crates dir req.body req.signedHash
    spawnBlocking (unpackArchive dir)).run
  finishRelease projectId release unpacked

/-- Receive a gzipped tarball of the project's source and unpack it.  Every upload becomes a
release row, also when receiving or unpacking it fails. -/
def createRelease (projectId : String) : Handler := fun req ↦
  extract req.callerExtension fun caller ↦
  extract (pathParam "project_id" projectId) fun projectId ↦
  extract (crates.queryCreateRelease (Encoding.query req.target)) fun message ↦ do
    match ← confirmProjectAccess caller projectId with
    | .error response => return response
    | .ok () =>
      let message := message.filter (· ≠ "")
      let now ← unixTimestamp
      match ← (Db.createRelease projectId .unpacking message now).run with
      | .error _ => return internalServerError
      | .ok release => storeRelease config crates projectId release req

def listReleases (projectId : String) : Handler := fun req ↦
  extract req.callerExtension fun caller ↦
  extract (pathParam "project_id" projectId) fun projectId ↦ do
    match ← confirmProjectAccess caller projectId with
    | .error response => return response
    | .ok () =>
      match ← (Db.listReleases projectId).run with
      | .ok releases => return .json (.releases releases)
      | .error _ => return internalServerError

/-! ## The routers -/

/-- What answers the methods a route has no handler for. -/
def methodNotAllowed : Handler := fun _ ↦ .ret ⟨405, .empty⟩

/-- A route without parameters. -/
def route (path : List Segment) (methods : List (String × Handler)) : Route :=
  ⟨path, methods.map fun m ↦ (m.1, fun _ ↦ m.2), methodNotAllowed⟩

/-- A route whose path has one parameter. -/
def routeParam (path : List Segment) (methods : List (String × (String → Handler))) : Route :=
  ⟨path, methods.map fun m ↦ (m.1, fun params ↦ m.2 (params.headD "")), methodNotAllowed⟩

def projectsPath : List Segment := [.lit "api", .lit "projects"]

def usersPath : List Segment := [.lit "api", .lit "users"]

def whoamiPath : List Segment := [.lit "api", .lit "whoami"]

def redeemInvitePath : List Segment := [.lit "api", .lit "auth", .lit "redeem-invite"]

/-- The routes behind `verifyBodyHash`. -/
def bufferedRoutes : Router :=
  [route [.lit ""] [("GET", root config)],
    route projectsPath [("GET", listProjects), ("POST", createProject crates)],
    route usersPath [("GET", listUsers), ("POST", createUser config crates)],
    routeParam (usersPath ++ [.param]) [("DELETE", removeUser)],
    route whoamiPath [("GET", whoami)]]

/-- The route of releases. -/
def releaseRoutes : Router :=
  [routeParam (projectsPath ++ [.param, .lit "releases"])
    [("GET", listReleases), ("POST", createRelease config crates)]]

/-- The routes that need no signature. -/
def publicRoutes : Router :=
  [route redeemInvitePath [("POST", redeemInvite crates)],
    route [.lit "healthz"] [("GET", healthz)]]

/-- Every authenticated route, shared by both listeners.  The releases route is added after the
`verifyBodyHash` layer and so sits outside it. -/
def protectedRoutes : Router :=
  Router.routeLayer (bufferedRoutes config crates) (verifyBodyHash crates) ++
    releaseRoutes config crates

/-- The public surface. -/
def signedRoutes : Router :=
  Router.routeLayer (protectedRoutes config crates) (verifySignature crates) ++
    publicRoutes crates

/-- Requests on the admin socket act as an admin user without signatures. -/
def adminRoutes : Router :=
  Router.routeLayer (protectedRoutes config crates) fun next req ↦
    next { req with caller := some ⟨"local", "local", none⟩ }

end Railyard
