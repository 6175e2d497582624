import Railyard.Client.Store
import Railyard.Server.Http

/-!
# Logging in

`login` redeems an invite for an identity on a server and records it: a key file, a server entry,
and the binding of the invite's project or, for an admin, of the projects whose entries the new one
replaces.  What it learns from servers comes through a `Net`, whose state is theirs.

The steps are those of the source in their order, with the stores passed from one to the next; a
failing step leaves what the earlier ones did.  The disk of a login deletes every file it is asked
to delete.
-/

set_option autoImplicit false

namespace Client

open Data (Path)
open Railyard (InvitePayload InviteProject)

/-- The identity behind the key that signed a request. -/
structure WhoamiResponse where
  userId : String
  name : String
  /-- Absent for server-wide admins. -/
  projectId : Option String
deriving DecidableEq

/-- What the client asks of servers, whose state is a `W`. -/
structure Net (W : Type) where
  /-- Redeem an invite with a public key; the answer is a key id. -/
  redeemInvite : InvitePayload → String → W → Except Error String × W
  /-- The identity a server confirms for a key id and a private key; `none` for every other
  outcome. -/
  whoami : String → String → SigningKey → W → Option WhoamiResponse

/-- What surrounds a run of the client. -/
structure Env where
  /-- The configuration directory. -/
  root : Path
  /-- `public_key_base64`. -/
  publicKeyBase64 : SigningKey → String
  /-- The host of a URL, if it parses and has one. -/
  urlHost : String → Option String

variable {W : Type} (env : Env) (net : Net W)

/-- Who the client is by an entry: what the server confirms for the key in its file. -/
def liveIdentity (store : Store) (w : W) (server : ServerConfig) : Option WhoamiResponse :=
  (store.readSigningKey env.root server.privateKeyPath).bind fun key ↦
    net.whoami server.serverUrl server.keyId key w

/-! ## Checks before redeeming -/

/-- The first entry for a server whose live identity satisfies a condition. -/
def findIdentity (store : Store) (w : W) (serverUrl : String) (wanted : WhoamiResponse → Bool) :
    Option (String × WhoamiResponse) :=
  store.listServers.findSome? fun (name, server) ↦
    if server.serverUrl ≠ serverUrl then none
    else ((liveIdentity env net store w server).filter wanted).map fun identity ↦ (name, identity)

variable {env net} in
theorem findIdentity_eq_some {store : Store} {w : W} {serverUrl name : String}
    {wanted : WhoamiResponse → Bool} {identity : WhoamiResponse}
    (h : findIdentity env net store w serverUrl wanted = some (name, identity)) :
    ∃ server, store.entry name = some server ∧ server.serverUrl = serverUrl ∧
      liveIdentity env net store w server = some identity ∧ wanted identity = true := by
  obtain ⟨⟨name', server⟩, hmem, hfound⟩ := List.exists_of_findSome?_eq_some h
  rw [Option.ite_none_left_eq_some, Option.map_eq_some_iff] at hfound
  obtain ⟨hurl, identity', hfilter, hpair⟩ := hfound
  obtain ⟨rfl, rfl⟩ : name' = name ∧ identity' = identity := by simpa using hpair
  have hlive := Option.filter_eq_some_iff.mp hfilter
  exact ⟨server, Store.mem_listServers.mp hmem, not_not.mp hurl, hlive.1, hlive.2⟩

variable {env net} in
theorem findIdentity_eq_none {store : Store} {w : W} {serverUrl : String}
    {wanted : WhoamiResponse → Bool} :
    findIdentity env net store w serverUrl wanted = none ↔
      ∀ name server identity, store.entry name = some server → server.serverUrl = serverUrl →
        liveIdentity env net store w server = some identity → wanted identity = false := by
  rw [findIdentity, List.findSome?_eq_none_iff]
  constructor
  · intro h name server identity hentry hurl hlive
    have hname := h (name, server) (Store.mem_listServers.mpr hentry)
    simpa [hurl, hlive, Option.filter] using hname
  · rintro h ⟨name, server⟩ hmem
    by_cases hurl : server.serverUrl = serverUrl
    · cases hlive : liveIdentity env net store w server with
      | none => simp [hlive]
      | some identity =>
        have hwanted := h name server identity (Store.mem_listServers.mp hmem) hurl hlive
        simp [hlive, hurl, Option.filter, hwanted]
    · simp [hurl]

/-- A live local identity for another user with exactly this invite's scope. -/
def existingDifferentUserWithSameScope (store : Store) (w : W) (invite : InvitePayload) :
    Option (String × WhoamiResponse) :=
  findIdentity env net store w invite.serverUrl fun identity ↦
    identity.projectId = invite.project.map InviteProject.id ∧ identity.userId ≠ invite.userId

/-- An existing identity whose live-checked scope covers the project: an admin, or a user scoped to
that same project. -/
def existingAccess (store : Store) (w : W) (serverUrl projectId : String) :
    Option (String × WhoamiResponse) :=
  findIdentity env net store w serverUrl fun identity ↦
    identity.projectId.isNone ∨ identity.projectId = some projectId

/-- `str::trim_matches('-')`. -/
def trimDashes (cs : List Char) : List Char :=
  ((cs.dropWhile (· = '-')).reverse.dropWhile (· = '-')).reverse

/-- Letters, digits, `-` and `_`, everything else a dash, without dashes at either end. -/
def sanitizeServerName (raw : String) : String :=
  String.ofList (trimDashes (raw.toList.map fun c ↦
    if c.isAlphanum ∨ c = '-' ∨ c = '_' then c else '-'))

/-- Explicit `--name` wins; otherwise the project's name, then the server's, then the host. -/
def resolveServerName (explicit : Option String) (invite : InvitePayload) :
    Except Error String :=
  match explicit with
  | some raw =>
    if sanitizeServerName raw = "" then .error "server name has no usable characters"
    else .ok (sanitizeServerName raw)
  | none =>
    let candidates := (invite.project.map InviteProject.name).toList ++
      [invite.serverName] ++ (env.urlHost invite.serverUrl).toList
    match (candidates.map sanitizeServerName).find? (· ≠ "") with
    | some name => .ok name
    | none => .error "could not derive a server name from this invite; pass --name <name>"

/-- The entry under a name, when it is for another server than the invite. -/
def squatter (store : Store) (serverName : String) (invite : InvitePayload) :
    Option ServerConfig :=
  (store.entry serverName).filter fun existing ↦ existing.serverUrl ≠ invite.serverUrl

/-! ## After redeeming -/

/-- Go through the entries as they were listed: each one for this server whose live identity is
scoped to a project is removed, and its bindings are pointed at the admin entry. -/
def supersedeEntries (w : W) (serverUrl adminEntry : String) :
    List (String × ServerConfig) → Store → Except Error Unit × Store
  | [], store => (.ok (), store)
  | (name, server) :: rest, store =>
    if name = adminEntry ∨ server.serverUrl ≠ serverUrl then
      supersedeEntries w serverUrl adminEntry rest store
    else if !(liveIdentity env net store w server).any fun identity ↦
        identity.projectId.isSome then
      supersedeEntries w serverUrl adminEntry rest store
    else
      match store.rebindProjects name adminEntry with
      | (.error e, store) => (.error e, store)
      | (.ok (), store) =>
        match store.removeServer env.root (fun _ ↦ false) name with
        | (.error e, store) => (.error e, store)
        | (.ok (), store) => supersedeEntries w serverUrl adminEntry rest store

/-- Remove the entries for a server that a new admin entry makes redundant. -/
def supersedeProjectEntries (store : Store) (w : W) (serverUrl adminEntry : String) :
    Except Error Unit × Store :=
  supersedeEntries env net w serverUrl adminEntry store.listServers store

/-- Record the identity a redemption gave. -/
def recordIdentity (invite : InvitePayload) (serverName keyId : String) (key : SigningKey)
    (store : Store) (w : W) : Except Error Unit × Store :=
  let (path, store) := store.writeSigningKey env.root keyId key
  let store := store.writeServer serverName ⟨invite.serverUrl, keyId, path⟩
  match invite.project with
  | none => supersedeProjectEntries env net store w invite.serverUrl serverName
  | some project => store.recordProjectBinding project.id serverName

/-! ## Login -/

/-- `login`, from the payload of the invite on, at a time and with a key drawn for it. -/
def login (invite : InvitePayload) (name : Option String) (now : ℕ) (key : SigningKey)
    (store : Store) (w : W) : Except Error Unit × Store × W :=
  if invite.expiresAt ≤ now then
    (.error "this invite has expired; ask for a new one", store, w)
  else
  match existingDifferentUserWithSameScope env net store w invite with
  | some (entryName, identity) =>
    (.error ("already logged in to " ++ invite.serverUrl ++ " as user " ++ identity.name ++
      " with the same permissions (server " ++ entryName ++ "); this invite is for user " ++
      invite.userName ++ ". Log out of " ++ entryName ++ " first"), store, w)
  | none =>
  match invite.project.bind fun project ↦
      (existingAccess env net store w invite.serverUrl project.id).map fun found ↦
        (project.id, found.1) with
  | some (projectId, entryName) =>
    let (result, store) := store.recordProjectBinding projectId entryName
    (result, store, w)
  | none =>
  match resolveServerName env name invite with
  | .error e => (.error e, store, w)
  | .ok serverName =>
  match squatter store serverName invite with
  | some existing =>
    (.error ("server " ++ serverName ++ " already points at " ++ existing.serverUrl ++
      "; pass --name <name> to pick another name"), store, w)
  | none =>
  match net.redeemInvite invite (env.publicKeyBase64 key) w with
  | (.error e, w) => (.error e, store, w)
  | (.ok keyId, w) =>
    let (result, store) := recordIdentity env net invite serverName keyId key store w
    (result, store, w)

/-! ## The ways a login can go -/

/-- The login comes to redeem the invite, for an entry of this name, and gets this key id. -/
structure Redeems (invite : InvitePayload) (name : Option String) (now : ℕ) (key : SigningKey)
    (store : Store) (w : W) (serverName keyId : String) (w' : W) : Prop where
  unexpired : now < invite.expiresAt
  noOther : existingDifferentUserWithSameScope env net store w invite = none
  notCovered : ∀ project, invite.project = some project →
    existingAccess env net store w invite.serverUrl project.id = none
  name : resolveServerName env name invite = .ok serverName
  free : squatter store serverName invite = none
  reply : net.redeemInvite invite (env.publicKeyBase64 key) w = (.ok keyId, w')

/-- What a login comes to: it is refused, it only links the invite's project to an entry that
covers it, the server does not redeem the invite, or the new identity is recorded. -/
inductive LoginCase (invite : InvitePayload) (name : Option String) (now : ℕ) (key : SigningKey)
    (store : Store) (w : W) : Except Error Unit × Store × W → Prop
  | refused (e : Error) : LoginCase invite name now key store w (.error e, store, w)
  | linked {project : InviteProject} {entryName : String} {identity : WhoamiResponse}
      {result : Except Error Unit} {store' : Store} (hproject : invite.project = some project)
      (haccess : existingAccess env net store w invite.serverUrl project.id =
        some (entryName, identity))
      (hrecord : store.recordProjectBinding project.id entryName = (result, store')) :
      LoginCase invite name now key store w (result, store', w)
  | rejected {e : Error} {w' : W}
      (hredeem : net.redeemInvite invite (env.publicKeyBase64 key) w = (.error e, w')) :
      LoginCase invite name now key store w (.error e, store, w')
  | redeemed {serverName keyId : String} {w' : W} {result : Except Error Unit} {store' : Store}
      (hredeems : Redeems env net invite name now key store w serverName keyId w')
      (hrecord : recordIdentity env net invite serverName keyId key store w' = (result, store')) :
      LoginCase invite name now key store w (result, store', w')

theorem login_cases (invite : InvitePayload) (name : Option String) (now : ℕ) (key : SigningKey)
    (store : Store) (w : W) :
    LoginCase env net invite name now key store w (login env net invite name now key store w) := by
  rw [login]
  split
  · exact .refused _
  rename_i hunexpired
  split
  · exact .refused _
  rename_i hother
  split
  · rename_i projectId entryName hlinked
    obtain ⟨project, hproject, hfound⟩ := Option.bind_eq_some_iff.mp hlinked
    obtain ⟨⟨entryName', identity⟩, haccess, hpair⟩ := Option.map_eq_some_iff.mp hfound
    obtain ⟨rfl, rfl⟩ : project.id = projectId ∧ entryName' = entryName := by simpa using hpair
    exact .linked hproject haccess rfl
  rename_i hnone
  have haccess : ∀ project, invite.project = some project →
      existingAccess env net store w invite.serverUrl project.id = none := by
    intro project hproject
    simpa [hproject] using hnone
  split
  · exact .refused _
  rename_i serverName hname
  split
  · exact .refused _
  rename_i hsquatter
  split
  · rename_i e w' hredeem
    exact .rejected hredeem
  · rename_i keyId w' hredeem
    exact .redeemed ⟨not_le.mp hunexpired, hother, haccess, hname, hsquatter, hredeem⟩ rfl

/-! ## The stores with the new identity -/

section Written

variable {env} {invite : InvitePayload} {serverName id : String} {key : SigningKey} {store : Store}

/-- The entry of the new identity. -/
def newServer (env : Env) (invite : InvitePayload) (keyId : String) : ServerConfig :=
  ⟨invite.serverUrl, keyId, keyPath env.root keyId⟩

/-- The stores with the new key file and the new entry. -/
def written (env : Env) (invite : InvitePayload) (serverName keyId : String) (key : SigningKey)
    (store : Store) : Store :=
  (store.writeKeyFile env.root (keyPath env.root keyId) key).writeServer serverName
    (newServer env invite keyId)

theorem recordIdentity_eq (net : Net W) (w : W) :
    recordIdentity env net invite serverName id key store w =
      match invite.project with
      | none => supersedeProjectEntries env net (written env invite serverName id key store) w
          invite.serverUrl serverName
      | some project =>
        (written env invite serverName id key store).recordProjectBinding project.id serverName :=
  rfl

theorem entry_written (hfile : locate env.root (keyPath env.root id) = .file) (name : String) :
    (written env invite serverName id key store).entry name =
      if serverName = name then some (newServer env invite id) else store.entry name := by
  rw [written, Store.entry_writeServer, Store.entry_writeKeyFile hfile]

theorem binding_written (hfile : locate env.root (keyPath env.root id) = .file)
    (projectId : String) :
    (written env invite serverName id key store).binding projectId = store.binding projectId := by
  rw [written, Store.binding_writeServer, Store.binding_writeKeyFile hfile]

theorem config_written (hfile : locate env.root (keyPath env.root id) = .file) :
    (written env invite serverName id key store).config = store.config := by
  simp [written, Store.writeServer, Store.writeKeyFile, hfile]

theorem readSigningKey_written (hfile : locate env.root (keyPath env.root id) = .file)
    (path : Path) :
    (written env invite serverName id key store).readSigningKey env.root path =
      if path = keyPath env.root id then some key else store.readSigningKey env.root path := by
  rw [written, Store.readSigningKey_writeServer, Store.readSigningKey_writeKeyFile hfile]

end Written

end Client
