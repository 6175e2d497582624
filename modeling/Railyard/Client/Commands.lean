import Railyard.Client.Bindings
import Railyard.Client.Requests

/-!
# The commands on a project

`link`, `unlink`, `up`, `user` and `whoami`: each finds the project of the working directory, the
server it is on, and asks that server.  What they share is which project and which server they act
on: a manifest further up is confirmed first, and a project without a server is looked for on every
server the client knows.

* `confirmedLinkedProject`, `resolveProjectServer`: the project and its server;
* `serverProjectPresence`: whether an entry can act on a project that its server has;
* `Link.run`, `Unlink.run`, `Up.run`, `User.add` and the others: the commands.

What they print is left out, apart from what `whoami` reports.
-/

set_option autoImplicit false

namespace Client

open Data (Path Float64)
open Effects Encoding
open Manifest (HashOrder RailyardManifest)
open Railyard (Release User ProjectRow)

/-! ## The stores -/

namespace Store

/-- Forget which server a project is on; the answer is where it was bound to, if it was. -/
def removeProjectBinding (store : Store) (projectId : String) :
    Except Error (Option String) × Store :=
  match store.config with
  | none => (.error invalidConfig, store)
  | some projects =>
    (.ok projects[projectId]?, { store with config := some (projects.erase projectId) })

theorem removeProjectBinding_cases (store : Store) (projectId : String) :
    (store.config = none ∧ ∃ e, store.removeProjectBinding projectId = (.error e, store)) ∨
      ∃ store', store.removeProjectBinding projectId = (.ok (store.binding projectId), store') ∧
        store'.servers = store.servers ∧ store'.keys = store.keys ∧
        ∀ other, store'.binding other =
          if projectId = other then none else store.binding other := by
  rw [removeProjectBinding]
  cases hconfig : store.config with
  | none => exact .inl ⟨rfl, _, rfl⟩
  | some projects =>
    refine .inr ⟨{ store with config := some (projects.erase projectId) }, ?_, rfl, rfl,
      fun other ↦ ?_⟩
    · rw [binding, hconfig, Option.bind_some]
    · by_cases h : projectId = other <;>
        simp [binding, hconfig, Std.TreeMap.getElem?_erase, h]

end Store

/-- It does to the file what the two steps of the source do, the read and the write. -/
theorem removeProjectBinding_alone (store : Store) (projectId : String) :
    (store.removeProjectBinding projectId).2.config.map bindingsOf =
      ((BindingCall.remove projectId).prog.run performConfig (fun _ ↦ ())
        (store.config.map bindingsOf)).2 := by
  rw [BindingCall.prog_run, Store.removeProjectBinding]
  cases hconfig : store.config with
  | none =>
    show Option.map bindingsOf store.config = none
    rw [hconfig]
    rfl
  | some projects =>
    refine congrArg some (Std.ExtTreeMap.ext_getElem? fun other ↦ ?_)
    rw [getElem?_bindingsOf, BindingCall.update, Std.ExtTreeMap.getElem?_erase,
      Std.TreeMap.getElem?_erase, getElem?_bindingsOf]

/-- A change of the stores alone. -/
def onStore {α : Type} (f : Store → Except Error α × Store) : Command Error World α :=
  .act fun w ↦ ((f w.store).1, { w with store := (f w.store).2 })

/-! ## Which project -/

/-- How a command is run. -/
structure Console where
  terminal : Terminal
  hash : HashOrder

variable {F : Type} (site : Site F) (console : Console)

/-- Ask before a command acts on the project of a directory further up. -/
def confirmAncestor (project : LinkedProject) : Except Error Bool :=
  match project.manifestPath with
  | none => .ok true
  | some path =>
    if !console.terminal.interactive then
      .error ("no manifest in this directory, but " ++ display path ++ " exists (project " ++
        project.name ++ "); rerun from its directory to use it")
    else
      console.terminal.confirm ("Use project " ++ project.name ++ " from " ++ display path ++ "?")

/-- The project of the working directory, if whoever is there means it. -/
def confirmedLinkedProject [Float64 F] : Command Error World (Option LinkedProject) := do
  let w ← get
  match ← ofExcept (linkedProject site.text console.hash w.files site.cwd) with
  | none => return none
  | some project =>
    let confirmed ← ofExcept (confirmAncestor console project)
    return if confirmed then some project else none

/-! ## Which server -/

/-- What is known of a project on a server. -/
inductive ProjectPresence
  | present
  | absent
  /-- The server could not tell. -/
  | unknown (reason : String)
deriving DecidableEq

/-- Could the identity of an entry act on the project, and does its server have it? -/
def serverProjectPresence (server : ServerConfig) (project : LinkedProject) :
    Command Error World ProjectPresence := do
  match ← (Http.whoami site server).attempt with
  | .ok (.identity identity _) =>
    match identity.projectId with
    | some scope => return if scope = project.id then .present else .absent
    | none =>
      match ← (Http.listProjects site server).attempt with
      | .ok projects =>
        return if projects.any fun p ↦ p.id = project.id then .present else .absent
      | .error e => return .unknown ("project listing failed: " ++ e)
  | .ok (.rejected reason) => return .unknown ("key rejected " ++ reason)
  | .ok .unreachable => return .unknown "unreachable"
  | .error e => return .unknown e

/-- The servers that have the project, and those that could not tell. -/
def lookForProject (project : LinkedProject) :
    List (String × ServerConfig) →
      Command Error World (List (String × ServerConfig) × List String)
  | [] => return ([], [])
  | (name, server) :: rest => do
    let presence ← serverProjectPresence site server project
    let (candidates, unchecked) ← lookForProject project rest
    match presence with
    | .present => return ((name, server) :: candidates, unchecked)
    | .absent => return (candidates, unchecked)
    | .unknown reason => return (candidates, (name ++ " (" ++ reason ++ ")") :: unchecked)

/-- Record that the project is on a server. -/
def linkProject (project : LinkedProject) (name : String) (server : ServerConfig) :
    Command Error World (String × ServerConfig) := do
  onStore fun store ↦ store.recordProjectBinding project.id name
  return (name, server)

/-- Offer to link the server that has the project, or one of those that do. -/
def offerProjectLink (project : LinkedProject) : Command Error World (String × ServerConfig) := do
  let w ← get
  let (candidates, unchecked) ← lookForProject site project w.store.listServers
  match candidates with
  | [] =>
    if unchecked = [] then
      throw ("this project is not linked to a server on this machine, and none of your servers " ++
        "have project " ++ project.name ++ " (" ++ project.id ++
        "); run `railyard init` to create it")
    else
      throw ("this project is not linked to a server on this machine, and no reachable server " ++
        "has project " ++ project.name ++ " (" ++ project.id ++ "); could not check " ++
        ", ".intercalate unchecked ++ " — restore access there before running " ++
        "`railyard init`, which would create the project anew")
  | [(name, server)] =>
    if !console.terminal.interactive then
      throw ("found project " ++ project.name ++ " (" ++ project.id ++ ") on server " ++ name ++
        ", but this directory is not linked to it; rerun interactively to link")
    else
      let confirmed ← ofExcept (console.terminal.confirm ("Found project " ++ project.name ++
        " on server " ++ name ++ ". Would you like to link it?"))
      if confirmed then linkProject project name server
      else throw "this project is not linked to a server on this machine"
  | candidates =>
    if !console.terminal.interactive then
      throw ("project " ++ project.name ++ " (" ++ project.id ++ ") exists on several servers (" ++
        ", ".intercalate (candidates.map Prod.fst) ++
        "); rerun interactively to choose one to link")
    else
      let choice ← ofExcept (console.terminal.select ("Project " ++ project.name ++
        " exists on several servers; link which one?") (candidates.map serverItem))
      let chosen := candidates.get (choice.cast (List.length_map _))
      linkProject project chosen.1 chosen.2

/-- The server of a linked project: the one it is bound to, or one that turns out to have it. -/
def resolveProjectServer (project : LinkedProject) :
    Command Error World (String × ServerConfig) := do
  let w ← get
  match ← ofExcept (projectBinding site.disk w.store project.id) with
  | .bound name server => return (name, server)
  | .stale _ => offerProjectLink site console project
  | .unbound => offerProjectLink site console project

/-! ## Linking and unlinking -/

/-- `railyard link`; the answer is the server the project is linked to. -/
def Link.run [Float64 F] : Command Error World String := do
  match ← confirmedLinkedProject site console with
  | none =>
    throw ("no project in this directory (" ++ manifestFile ++ " with a project.id); run " ++
      "`railyard init` to create one")
  | some project =>
    let w ← get
    match ← ofExcept (projectBinding site.disk w.store project.id) with
    | .bound name _ => return name
    | _ =>
      let servers := w.store.listServers
      if servers = [] then throw "no servers found; run `railyard login <blob>` first"
      else if !console.terminal.interactive then
        throw ("`railyard link` picks a server interactively; rerun on a TTY (project " ++
          project.name ++ ", " ++ project.id ++ ")")
      else
        let choice ← ofExcept (console.terminal.select ("Link project " ++ project.name ++
          " to which server?") (servers.map serverItem))
        let (name, server) := servers.get (choice.cast (List.length_map _))
        match ← serverProjectPresence site server project with
        | .present =>
          let linked ← linkProject project name server
          return linked.1
        | .absent =>
          throw (name ++ " does not have project " ++ project.name ++ " (" ++ project.id ++
            "); run `railyard init --server " ++ name ++ "` to create it there")
        | .unknown reason =>
          throw ("could not check " ++ name ++ " for project " ++ project.name ++ " (" ++ reason ++
            "); restore access there and retry")

/-- `railyard unlink`; the answer is the server the project was linked to. -/
def Unlink.run [Float64 F] : Command Error World (Option String) := do
  match ← confirmedLinkedProject site console with
  | none =>
    throw ("no project linked in this directory (" ++ manifestFile ++ " with a project.id)")
  | some project => onStore fun store ↦ store.removeProjectBinding project.id

/-! ## Uploading -/

namespace Up

structure Args where
  /-- `--server` -/
  server : Option String
  /-- `--message` -/
  message : Option String

/-- What the tree at a path is packed to, and what `git log` prints of it. -/
structure Tree where
  /-- `pack_repository`, and the archive it leaves. -/
  pack : Path → Except Error Bytes
  gitLog : Path → Option String

variable (tree : Tree)

/-- The subject of the latest commit, if there is a repository. -/
def latestCommitSubject (root : Path) : Option String :=
  ((tree.gitLog root).map trim).filter (· ≠ "")

/-- The project of the nearest manifest, and the directory it is in. -/
def openProject [Float64 F] : Command Error World (Path × LinkedProject) := do
  let w ← get
  match ← ofExcept (findManifest w.files site.cwd) with
  | none =>
    throw ("no " ++ manifestFile ++ " found here or in any ancestor; run `railyard init` first")
  | some (path, raw) =>
    match parseManifest site.text console.hash path raw with
    | .error e => throw (display path ++ " is invalid:\n" ++ parseErrorText e)
    | .ok manifest =>
      match projectOf site.cwd path manifest with
      | none =>
        throw (display path ++
          " has no project.id; run `railyard init` to create the project on a server")
      | some project =>
        let confirmed ← ofExcept (confirmAncestor console project)
        if confirmed then return (path.dropLast, project)
        else throw "up cancelled"

/-- The server of the upload. -/
def resolve (args : Args) (project : LinkedProject) :
    Command Error World (String × ServerConfig) := do
  match args.server with
  | some name =>
    let w ← get
    ofExcept (resolveServer site.disk w.store (some name))
  | none => resolveProjectServer site console project

/-- Upload the tree to a server that has the project. -/
def upload (args : Args) (root : Path) (project : LinkedProject) (serverName : String)
    (server : ServerConfig) : Command Error World Release := do
  match ← serverProjectPresence site server project with
  | .present =>
    let archive ← ofExcept (tree.pack root)
    let message := args.message.or (latestCommitSubject tree root)
    Http.createRelease site server project.id message archive
  | .absent =>
    throw ("server " ++ serverName ++ " (" ++ server.serverUrl ++ ") does not have project " ++
      project.name ++ " (" ++ project.id ++ "); check --server or run `railyard init`")
  | .unknown reason =>
    throw ("could not confirm project " ++ project.name ++ " on " ++ serverName ++ ": " ++ reason)

/-- `railyard up`; the answer is the release the server has made of the upload. -/
def run [Float64 F] (args : Args) : Command Error World Release := do
  let (root, project) ← openProject site console
  let (serverName, server) ← resolve site console args project
  upload site tree args root project serverName server

end Up

/-! ## Users -/

namespace User

/-- Does the key of an entry prove an admin of its server? -/
def isAdminIdentity (server : ServerConfig) : Command Error World Bool := do
  let outcome : Except Error Http.WhoamiOutcome ← (Http.whoami site server).attempt
  match outcome with
  | .ok (.identity identity _) => return identity.projectId.isNone
  | _ => return false

/-- The entries whose identity is an admin. -/
def adminEntries : List (String × ServerConfig) →
    Command Error World (List (String × ServerConfig))
  | [] => return []
  | (name, server) :: rest => do
    let admin ← isAdminIdentity site server
    let candidates ← adminEntries rest
    return if admin then (name, server) :: candidates else candidates

/-- The server of an invite for an admin. -/
def resolveAdminServer (explicit : Option String) :
    Command Error World (String × ServerConfig) := do
  let w ← get
  let servers := w.store.listServers
  if explicit.isSome ∨ servers.length < 2 ∨ console.terminal.interactive = false then
    ofExcept (resolveServer site.disk w.store explicit)
  else
    match ← adminEntries site servers with
    | [] =>
      throw ("none of your servers answered with an admin identity, and only admins can mint " ++
        "invites; check `railyard whoami`")
    | [(name, server)] =>
      let confirmed ← ofExcept (console.terminal.confirm ("Only " ++ name ++ " (" ++
        server.serverUrl ++ ") holds an admin identity here. Create the admin invite there?"))
      if confirmed then return (name, server)
      else throw "no server chosen; pass --server <name> to pick one"
    | candidates =>
      let choice ← ofExcept (console.terminal.select
        "Create the admin invite on which server?" (candidates.map serverItem))
      return candidates.get (choice.cast (List.length_map _))

/-- Invite an admin. -/
def addAdmin (name : String) (serverFlag : Option String) :
    Command Error World Http.CreateUserResponse := do
  let (_, server) ← resolveAdminServer site console serverFlag
  Http.createUser site server name none

/-- `railyard user add`; the answer has the blob of the invite. -/
def add [Float64 F] (name : String) (admin : Bool) (serverFlag : Option String) :
    Command Error World Http.CreateUserResponse := do
  if admin then addAdmin site console name serverFlag
  else
    match ← confirmedLinkedProject site console with
    | none =>
      throw ("no project linked in this directory (" ++ manifestFile ++ " with a project.id); " ++
        "run `railyard init` first, or pass --admin to invite someone to a whole server")
    | some project =>
      let (_, server) ← match serverFlag with
        | some flag => do
          let w ← get
          ofExcept (resolveServer site.disk w.store (some flag))
        | none => resolveProjectServer site console project
      Http.createUser site server name (some project.id)

/-- `railyard user list` -/
def list (serverFlag : Option String) : Command Error World (List Railyard.User) := do
  let w ← get
  let (_, server) ← ofExcept (resolveServer site.disk w.store serverFlag)
  Http.listUsers site server

/-- `railyard user remove`; the answer is whether there was such a user. -/
def remove (name : String) (serverFlag : Option String) : Command Error World Bool := do
  let w ← get
  let (_, server) ← ofExcept (resolveServer site.disk w.store serverFlag)
  Http.removeUser site server name

end User

/-! ## Identities -/

namespace Whoami

/-- The entries that are shown, the one that commands here would use, and why. -/
def selection [Float64 F] (store : Store) (files : Files) (serverFlag : Option String) :
    Except Error (List (String × ServerConfig) × Option String × String) :=
  let servers := store.listServers
  if servers = [] then .error "no servers found; run `railyard login <blob>` first"
  else
    match serverFlag with
    | some flag =>
      let servers := servers.filter fun entry ↦ entry.1 = flag
      if servers = [] then .error ("no server named " ++ flag)
      else .ok (servers, some flag, "selected by --server " ++ flag)
    | none =>
      match linkedProject site.text console.hash files site.cwd with
      | .error e => .error e
      | .ok (some project) =>
        let via := project.manifestPath.elim "" fun path ↦ ", manifest at " ++ display path
        match projectBinding site.disk store project.id with
        | .ok (.bound name _) =>
          .ok (servers, some name, "selected for this directory (project " ++ project.name ++
            ", " ++ project.id ++ via ++ ")")
        | .ok (.stale stale) =>
          .ok (servers, none, "project " ++ project.name ++ " (" ++ project.id ++ via ++
            ") is linked to " ++ stale ++ ", which no longer exists here; any project command " ++
            "re-offers the link, `railyard unlink` forgets it")
        | .ok .unbound =>
          .ok (servers, none, "project " ++ project.name ++ " (" ++ project.id ++ via ++
            ") is not linked here yet")
        | .error e => .ok (servers, none, e)
      | .ok none =>
        match servers with
        | [only] => .ok (servers, some only.1, "selected as the only known server")
        | _ =>
          .ok (servers, none, "no project in this directory; commands here need --server <name>")

def describeIdentity (identity : WhoamiResponse) (projectName : Option String) : String :=
  "user " ++ identity.name ++ " — " ++
    match identity.projectId, projectName with
    | none, _ => "admin"
    | some id, none => "project " ++ id
    | some _, some project => "project " ++ project

/-- A line for each entry, with what its server says. -/
def report (selected : Option String) :
    List (String × ServerConfig) → Command Error World (List String)
  | [] => return []
  | (name, server) :: rest => do
    let marker := if selected = some name then "*" else " "
    let who : Except Error Http.WhoamiOutcome ← (Http.whoami site server).attempt
    let text := match who with
      | .ok (.identity identity projectName) => describeIdentity identity projectName
      | .ok (.rejected reason) => "key rejected " ++ reason
      | .ok .unreachable => "unreachable"
      | .error e => "error: " ++ e
    let lines ← report selected rest
    return (marker ++ " " ++ name ++ "\t" ++ server.serverUrl ++ "\t" ++ text) :: lines

/-- `railyard whoami`; the answer is the lines and the note below them. -/
def run [Float64 F] (serverFlag : Option String) : Command Error World (List String × String) := do
  let w ← get
  let (servers, selected, note) ← ofExcept (selection site console w.store w.files serverFlag)
  let lines ← report site selected servers
  return (lines, note)

end Whoami

end Client
