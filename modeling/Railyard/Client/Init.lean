import Railyard.Client.Discovery
import Railyard.Client.Login
import Railyard.Storage.Confinement

/-!
# Creating a project

`init` links the working directory to a project of a server: it reads or scaffolds a manifest, finds
the server, adopts the project the manifest names or creates one, writes the manifest with the
project's name and id, and records which server the project is on.  Where the project of the
manifest is bound to a server already, it does nothing.

* `Machine` is everything a run reads and changes, the servers included.
* `exchange` is one request and its answer: the handler of the route runs on the server's state.
* `init` is the command, `inits` several runs of it.
-/

set_option autoImplicit false

namespace Client

open Data (Path Float64)
open Manifest (JsonText HashOrder ParseError RailyardManifest Project)
open Railyard (AuthUser Outside Server Response Request Handler
  CreateProjectRequest ProjectRow Wellformed perform)

/-! ## What a run meets -/

/-- The terminal: whether somebody is there to answer, and what they answer. -/
structure Terminal where
  interactive : Bool
  confirm : (prompt : String) → Except Error Bool
  /-- A text, `default` when only the return key is hit. -/
  input : (prompt default : String) → Except Error String
  select : (prompt : String) → (items : List String) → Except Error (Fin items.length)

/-- What happens to a server between two requests.  Every run of its API is such a change. -/
structure Meanwhile where
  change : Server → Server
  wellformed : ∀ s, Wellformed s → Wellformed (change s)

/-- How a request fares. -/
inductive Fate
  /-- It cannot be signed or sent. -/
  | unsent (error : Error)
  /-- It is sent, but refused before it gets to its handler or not answered. -/
  | lost (others : Meanwhile) (error : Error)
  /-- Its handler is run on behalf of a caller, and the answer arrives. -/
  | answered (others : Meanwhile) (caller : AuthUser) (outside : ℕ → Outside)

/-- One run of the command. -/
structure Invocation where
  /-- The name given on the command line. -/
  name : Option String
  /-- `--server` -/
  server : Option String
  terminal : Terminal
  hash : HashOrder
  /-- What becomes of the request for the list of projects. -/
  listing : Fate
  /-- What becomes of the request to create one. -/
  creation : Fate

/-- What is the same for every run in one directory. -/
structure Workspace (F : Type) where
  disk : Disk
  cwd : Path
  text : JsonText F
  /-- The crates of the servers. -/
  crates : Railyard.Crates
  /-- `str::to_lowercase` -/
  toLowercase : String → String
  /-- `serde_json::to_vec` of the body of a request to create a project. -/
  createProjectJson : CreateProjectRequest → Bytes

/-! ## Requests -/

/-- The requests a run may send. -/
inductive ProjectRequest
  | list
  | create (request : CreateProjectRequest)

/-- What a run reads and changes. -/
structure Machine where
  files : Files
  store : Store
  /-- The servers, by the URL of their entries. -/
  servers : String → Server
  /-- The requests sent so far, with the URL each went to. -/
  sent : List (String × ProjectRequest)

variable {F : Type} (ws : Workspace F)

/-- A request as it gets to its handler. -/
def ProjectRequest.arriving (caller : AuthUser) : ProjectRequest → Request
  | .list => { method := "GET", pathAndQuery := some "/api/projects", caller := some caller }
  | .create request =>
    { method := "POST", pathAndQuery := some "/api/projects"
      headers := [("content-type", "application/json")]
      body := [.data (ws.createProjectJson request)], caller := some caller }

/-- The handler of the route. -/
def ProjectRequest.handler : ProjectRequest → Handler
  | .list => Railyard.listProjects
  | .create _ => Railyard.createProject ws.crates

/-- Send a request to the server of an entry. -/
def exchange (server : ServerConfig) (request : ProjectRequest) (fate : Fate) (m : Machine) :
    Except Error Response × Machine :=
  let url := server.serverUrl
  match fate with
  | .unsent e => (.error e, m)
  | .lost others e => (.error e, { m with
      servers := Function.update m.servers url (others.change (m.servers url))
      sent := m.sent ++ [(url, request)] })
  | .answered others caller outside =>
    let answer := (request.handler ws (request.arriving ws caller)).run perform outside
      (others.change (m.servers url))
    (.ok answer.1, { m with
      servers := Function.update m.servers url answer.2
      sent := m.sent ++ [(url, request)] })

/-- The text of a response, with its status. -/
def statusText (response : Response) : String :=
  "(" ++ toString response.status ++ "): " ++
    match response.body with
    | .text s => s
    | _ => ""

/-- `http::list_projects` -/
def listProjects (server : ServerConfig) (fate : Fate) (m : Machine) :
    Except Error (List ProjectRow) × Machine :=
  match exchange ws server .list fate m with
  | (.error e, m) => (.error e, m)
  | (.ok response, m) =>
    if 400 ≤ response.status then (.error ("HTTP status error " ++ statusText response), m)
    else match response.body with
      | .projects projects => (.ok projects, m)
      | _ => (.error "error decoding response body", m)

/-- `http::create_project` -/
def createProject (server : ServerConfig) (name : String) (id : Option String) (fate : Fate)
    (m : Machine) : Except Error ProjectRow × Machine :=
  match exchange ws server (.create ⟨name, id⟩) fate m with
  | (.error e, m) => (.error e, m)
  | (.ok response, m) =>
    if response.status < 200 ∨ 300 ≤ response.status then
      (.error ("project creation failed " ++ statusText response), m)
    else match response.body with
      | .project project => (.ok project, m)
      | _ => (.error "error decoding response body", m)

/-! ## The manifest -/

variable (run : Invocation)

section Manifest

variable [Float64 F]

/-- A manifest and where it is. -/
structure Opened (F : Type) where
  path : Path
  manifest : RailyardManifest F
  /-- Whether there is a file yet. -/
  found : Bool

/-- The texts of the errors.  Those of the JSON crates are left out. -/
def parseErrorText : ParseError → Error
  | .invalidJson => "invalid JSON"
  | .invalidShape => "invalid manifest"
  | .invalid errors => "\n".intercalate (errors.map fun e ↦ e.path ++ ": " ++ e.message)

/-- Ask before a project is created inside another one's tree. -/
def confirmNestedInit (files : Files) : Except Error Unit :=
  if ws.cwd = [] then .ok ()
  else
    match findManifest files ws.cwd.dropLast with
    | .error e => .error e
    | .ok none => .ok ()
    | .ok (some (found, raw)) =>
      -- a broken manifest further up is no obstacle
      let project := match parseManifest ws.text run.hash found raw with
        | .ok manifest => manifest.project.elim "" fun project ↦ " (project " ++ project.name ++ ")"
        | .error _ => ""
      if !run.terminal.interactive then
        .error ("found " ++ display found ++ project ++ " in a parent directory; init here " ++
          "would create a separate nested project — run it from that directory, or rerun " ++
          "interactively to confirm")
      else
        match run.terminal.confirm ("Found " ++ display found ++ project ++ " in a parent " ++
            "directory. Are you sure you want to create a separate project here?") with
        | .error e => .error e
        | .ok true => .ok ()
        | .ok false => .error "init cancelled"

omit [Float64 F] in
/-- Ask before a project is created outside a repository. -/
def confirmInitOutsideGit (files : Files) : Except Error Unit :=
  if ws.cwd.inits.any fun dir ↦ (files (dir ++ [".git"])).exists then .ok ()
  else if !run.terminal.interactive then .ok ()
  else
    match run.terminal.confirm ("This directory is not in a git repository, and Railyard works " ++
        "best in one. Create a project here anyway?") with
    | .error e => .error e
    | .ok true => .ok ()
    | .ok false => .error "init cancelled; run `git init` first, then rerun `railyard init`"

/-- The manifest of the working directory, or a fresh one. -/
def openManifest (files : Files) : Except Error (Opened F) :=
  match manifestIn files ws.cwd with
  | .error e => .error e
  | .ok (some (path, raw)) =>
    match parseManifest ws.text run.hash path raw with
    | .error e => .error (parseErrorText e)
    | .ok manifest => .ok ⟨path, manifest, true⟩
  | .ok none =>
    match confirmNestedInit ws run files with
    | .error e => .error e
    | .ok () =>
      match confirmInitOutsideGit ws run files with
      | .error e => .error e
      | .ok () => .ok ⟨ws.cwd ++ [manifestFile], .default, false⟩

end Manifest

/-! ## Before the first request -/

/-- The server the manifest's project is bound to, which ends the run. -/
def alreadyLinked (store : Store) (manifest : RailyardManifest F) :
    Except Error (Option (String × Project × String)) :=
  match manifest.project with
  | none => .ok none
  | some project =>
    match project.id with
    | none => .ok none
    | some id =>
      match projectBinding ws.disk store id with
      | .error e => .error e
      | .ok (.bound bound _) =>
        if run.server.any (· ≠ bound) then
          .error ("project " ++ project.name ++ " (" ++ id ++ ") is already linked to " ++ bound ++
            "; run `railyard unlink` first to link it to another server")
        else .ok (some (id, project, bound))
      | .ok (.stale _) => .ok none
      | .ok .unbound => .ok none

/-- Take one character more: letters and digits, and one dash for everything between them. -/
def pushNameChar (name : List Char) (c : Char) : List Char :=
  if ('a' ≤ c ∧ c ≤ 'z') ∨ c.isDigit then name ++ [c]
  else if name ≠ [] ∧ name.getLast? ≠ some '-' then name ++ ['-']
  else name

/-- The name of a directory squeezed into a DNS label. -/
def sanitizeProjectName (toLowercase : String → String) (raw : String) : String :=
  String.ofList (trimDashes (((toLowercase raw).toList.foldl pushNameChar []).take 63))

/-- The explicit name, unless the manifest has another one; then the manifest's; then that of the
directory. -/
def resolveProjectName (manifest : RailyardManifest F) (found : Bool) : Except Error String :=
  match run.name, manifest.project.map Project.name with
  | some raw, some existing =>
    if existing ≠ raw then
      .error (manifestFile ++ " already names this project " ++ existing ++
        "; rerun without a name or edit the file")
    else .ok raw
  | some raw, none => .ok raw
  | none, some existing => .ok existing
  | none, none =>
    let name := sanitizeProjectName ws.toLowercase (ws.cwd.getLast?.getD "")
    if name = "" then
      .error "could not derive a project name from this directory; run `railyard init <name>`"
    else if !found && run.terminal.interactive then run.terminal.input "Project name" name
    else .ok name

/-- A server as a menu shows it. -/
def serverItem (server : String × ServerConfig) : String :=
  server.1 ++ " (" ++ server.2.serverUrl ++ ")"

/-- With several servers and no flag, whoever is there picks one. -/
def resolveServerForInit (store : Store) : Except Error (String × ServerConfig) :=
  let servers := store.listServers
  if run.server.isSome ∨ servers.length < 2 ∨ run.terminal.interactive = false then
    resolveServer ws.disk store run.server
  else
    match run.terminal.select "Select a server" (servers.map serverItem) with
    | .error e => .error e
    | .ok choice => .ok (servers.get (choice.cast (List.length_map _)))

/-! ## The project -/

/-- How a run got its project. -/
inductive Way
  | linked
  | created
deriving DecidableEq

/-- The two things that can be done about a project that is on the server already. -/
def adoptChoices (project : ProjectRow) : List String :=
  ["Link this directory to project " ++ project.name,
    "Create a new project and replace the ID in this directory"]

/-- Ask the server for a new project. -/
def newProject (server : ServerConfig) (name : String) (id : Option String) (m : Machine) :
    Except Error (Way × ProjectRow) × Machine :=
  match createProject ws server name id run.creation m with
  | (.error e, m) => (.error e, m)
  | (.ok project, m) => (.ok (.created, project), m)

/-- The id of the manifest is that of a project on the server: adopt it, or create another project
with a new id. -/
def adoptProject (serverName : String) (server : ServerConfig) (name : String)
    (existing : ProjectRow) (m : Machine) : Except Error (Way × ProjectRow) × Machine :=
  if !run.terminal.interactive then
    (.error ("project " ++ existing.name ++ " (" ++ existing.id ++ ") already exists on " ++
      serverName ++ "; rerun `railyard init` interactively to link this directory or create a " ++
      "new project"), m)
  else
    match run.terminal.select ("Project " ++ existing.name ++ " (" ++ existing.id ++
        ") already exists on " ++ serverName ++ ". What would you like to do?")
        (adoptChoices existing) with
    | .error e => (.error e, m)
    | .ok choice =>
      if choice.val = 0 then (.ok (.linked, existing), m)
      else if name = existing.name then
        match run.terminal.input "Name for the new project" (name ++ "-new") with
        | .error e => (.error e, m)
        | .ok name => newProject ws run server name none m
      else newProject ws run server name none m

/-- Adopt the project with the id of the manifest, or create one. -/
def obtainProject (existingId : Option String) (serverName : String) (server : ServerConfig)
    (name : String) (m : Machine) : Except Error (Way × ProjectRow) × Machine :=
  match existingId with
  | none => newProject ws run server name none m
  | some id =>
    match listProjects ws server run.listing m with
    | (.error e, m) => (.error e, m)
    | (.ok projects, m) =>
      match projects.find? fun project ↦ project.id = id with
      | some existing => adoptProject ws run serverName server name existing m
      | none => newProject ws run server name (some id) m

/-! ## The command -/

/-- What a run ends with. -/
inductive Outcome
  /-- The project of the manifest was bound to a server before. -/
  | alreadyLinked (id : String) (project : Project) (serverName : String)
  | obtained (way : Way) (project : ProjectRow) (serverName : String)

variable [Float64 F]

/-- Write the manifest with the project's name and id, and record where the project is. -/
def link (opened : Opened F) (project : ProjectRow) (serverName : String) (m : Machine) :
    Except Error Unit × Machine :=
  let manifest := opened.manifest.linkProject project.name project.id
  let m := { m with
    files := Function.update m.files opened.path (.text (manifest.toJsonString ws.text)) }
  let (result, store) := m.store.recordProjectBinding project.id serverName
  (result, { m with store := store })

/-- `init` -/
def init (m : Machine) : Except Error Outcome × Machine :=
  match openManifest ws run m.files with
  | .error e => (.error e, m)
  | .ok opened =>
  match alreadyLinked ws run m.store opened.manifest with
  | .error e => (.error e, m)
  | .ok (some (id, project, bound)) => (.ok (.alreadyLinked id project bound), m)
  | .ok none =>
  match resolveProjectName ws run opened.manifest opened.found with
  | .error e => (.error e, m)
  | .ok name =>
  match resolveServerForInit ws run m.store with
  | .error e => (.error e, m)
  | .ok (serverName, server) =>
  match obtainProject ws run (opened.manifest.project.bind Project.id) serverName server name m with
  | (.error e, m) => (.error e, m)
  | (.ok (way, project), m) =>
  match link ws opened project serverName m with
  | (.error e, m) => (.error e, m)
  | (.ok (), m) => (.ok (.obtained way project serverName), m)

/-- One run after another. -/
def inits : List Invocation → Machine → List (Except Error Outcome) × Machine
  | [], m => ([], m)
  | run :: runs, m =>
    let (outcome, m) := init ws run m
    let (outcomes, m) := inits runs m
    (outcome :: outcomes, m)

end Client
