import Mathlib.Data.String.Basic
import Mathlib.Logic.Function.Basic
import Mathlib.Order.Compare
import Railyard.Data.Encoding
import Railyard.Data.Path

/-!
# What the client keeps on disk

Under its configuration directory the client keeps one file for each server it knows
(`client/servers/<name>.json`), one file for each private key (`client/keys/<key id>.json`), and
the bindings of projects to servers (`client/config.json`).

The name of an entry never holds a separator, so an entry is found by its name; a key file is found
by its path, which an entry records, and whose name is made from a key id as the server sent it.
Writing a key through such a path can therefore hit an entry or the bindings (`locate`).
-/

set_option autoImplicit false

namespace Client

open Data (Path)

/-! ## Paths -/

/-- The directory of the server entries. -/
def serversDir (root : Path) : Path := root ++ ["client", "servers"]

/-- The directory of the key files. -/
def keysDir (root : Path) : Path := root ++ ["client", "keys"]

/-- The file of the entry with this name. -/
def serverPath (root : Path) (name : String) : Path := (serversDir root).join (name ++ ".json")

/-- The file of the bindings. -/
def globalConfigPath (root : Path) : Path := root ++ ["client", "config.json"]

/-- Where the key with this id is kept. -/
def keyPath (root : Path) (keyId : String) : Path := (keysDir root).join (keyId ++ ".json")

/-- Which of the three stores a path leads into. -/
inductive Location
  | config
  | server (name : String)
  | file

/-- Entries are the files of their directory with a name before the extension `json`. -/
def locate (root path : Path) : Location :=
  if path = globalConfigPath root then .config
  else if path.dropLast = serversDir root then
    match path.getLast?.bind (Encoding.stripSuffix ".json") with
    | some name => if name = "" then .file else .server name
    | none => .file
  else .file

/-- A file directly in the directory of the key files. -/
def AmongKeys (root path : Path) : Prop := ∃ file, path = keysDir root ++ [file]

theorem AmongKeys.locate {root path : Path} (h : AmongKeys root path) :
    Client.locate root path = .file := by
  obtain ⟨file, rfl⟩ := h
  have hconfig : keysDir root ++ [file] ≠ globalConfigPath root := by
    simp [keysDir, globalConfigPath]
  have hserver : (keysDir root ++ [file]).dropLast ≠ serversDir root := by
    simp [keysDir, serversDir]
  rw [Client.locate, if_neg hconfig, if_neg hserver]

/-- A name without a separator, with the extension, is one component. -/
theorem isPlain_append_json {name : String} (h : '/' ∉ name.toList) :
    Data.IsPlain (name ++ ".json") := by
  have hchars : (name ++ ".json").toList = name.toList ++ ['.', 'j', 's', 'o', 'n'] :=
    String.toList_append
  have hlength : 5 ≤ (name ++ ".json").toList.length := by
    rw [hchars, List.length_append, List.length_cons]
    simp
  have hsep : '/' ∉ (name ++ ".json").toList := by
    rw [hchars]
    simpa using h
  have hne : ∀ short : String, short.toList.length < 5 → name ++ ".json" ≠ short := by
    intro short hshort heq
    rw [heq] at hlength
    omega
  exact ⟨hsep, hne "" (by decide), hne "." (by decide), hne ".." (by decide)⟩

/-- A key id without a separator names a file among the key files. -/
theorem keyPath_of_simple (root : Path) {keyId : String} (h : '/' ∉ keyId.toList) :
    keyPath root keyId = keysDir root ++ [keyId ++ ".json"] :=
  Data.Path.join_plain _ (isPlain_append_json h)

theorem keyPath_inj {root : Path} {keyId keyId' : String} (h : '/' ∉ keyId.toList)
    (h' : '/' ∉ keyId'.toList) (hpath : keyPath root keyId = keyPath root keyId') :
    keyId = keyId' := by
  rw [keyPath_of_simple root h, keyPath_of_simple root h'] at hpath
  have hfile : keyId ++ ".json" = keyId' ++ ".json" := by simpa using hpath
  have hchars := congrArg String.toList hfile
  rw [String.toList_append, String.toList_append] at hchars
  exact String.ext (List.append_cancel_right hchars)

/-! ## The stores -/

/-- The private key in a key file. -/
abbrev SigningKey := String

/-- One identity on one server: where it lives and the key that proves who we are to it. -/
structure ServerConfig where
  serverUrl : String
  keyId : String
  privateKeyPath : Path
deriving DecidableEq

/-- What a file among the entries holds. -/
inductive ServerFile
  | entry (server : ServerConfig)
  | unreadable
deriving DecidableEq

/-- The stores of the client. -/
structure Store where
  /-- `client/servers/<name>.json`, by name. -/
  servers : Std.TreeMap String ServerFile
  /-- The private keys in files that are neither entries nor the bindings. -/
  keys : Path → Option SigningKey
  /-- The `projects` of `client/config.json`; `none` when the file cannot be read. -/
  config : Option (Std.TreeMap String String)

/-- Nothing on disk. -/
def Store.empty : Store := ⟨∅, fun _ ↦ none, some ∅⟩

/-- Why an entry could not be read. -/
inductive ReadError
  | notFound
  | invalidData
deriving DecidableEq

abbrev Error := String

namespace Store

/-! ### Server entries -/

def readServer (store : Store) (name : String) : Except ReadError ServerConfig :=
  match store.servers[name]? with
  | none => .error .notFound
  | some .unreadable => .error .invalidData
  | some (.entry server) => .ok server

/-- The entry under a name, if there is one and it can be read. -/
def entry (store : Store) (name : String) : Option ServerConfig := (store.readServer name).toOption

def writeServer (store : Store) (name : String) (server : ServerConfig) : Store :=
  { store with servers := store.servers.insert name (.entry server) }

/-- A file as `list_servers` takes it: an unreadable one is skipped. -/
def readable : String × ServerFile → Option (String × ServerConfig)
  | (name, .entry server) => some (name, server)
  | (_, .unreadable) => none

/-- The readable entries in the order of their names. -/
def listServers (store : Store) : List (String × ServerConfig) :=
  store.servers.toList.filterMap readable

/-! ### Key files -/

variable (root : Path)

def readSigningKey (store : Store) (path : Path) : Option SigningKey :=
  match locate root path with
  | .file => store.keys path
  | _ => none

/-- Write a key file.  Over an entry it leaves an unreadable one, and over the bindings a document
without any. -/
def writeKeyFile (store : Store) (path : Path) (key : SigningKey) : Store :=
  match locate root path with
  | .file => { store with keys := Function.update store.keys path (some key) }
  | .server name => { store with servers := store.servers.insert name .unreadable }
  | .config => { store with config := some ∅ }

/-- Delete a file, unless the disk refuses to.  Whether it does is not asked. -/
def removeFile (refuses : Path → Bool) (store : Store) (path : Path) : Store :=
  if refuses path then store
  else
    match locate root path with
    | .file => { store with keys := Function.update store.keys path none }
    | .server name => { store with servers := store.servers.erase name }
    | .config => { store with config := some ∅ }

def writeSigningKey (store : Store) (keyId : String) (key : SigningKey) : Path × Store :=
  (keyPath root keyId, store.writeKeyFile root (keyPath root keyId) key)

/-- Delete a server entry and its private key file.  The key file may stay. -/
def removeServer (refuses : Path → Bool) (store : Store) (name : String) :
    Except Error Unit × Store :=
  let store := match store.readServer name with
    | .ok server => store.removeFile root refuses server.privateKeyPath
    | .error _ => store
  if !store.servers.contains name then (.error "No such file or directory", store)
  else if refuses (serverPath root name) then (.error "Permission denied", store)
  else (.ok (), { store with servers := store.servers.erase name })

/-! ### Bindings -/

def invalidConfig : Error := "invalid config.json"

def readProjectBinding (store : Store) (projectId : String) : Except Error (Option String) :=
  match store.config with
  | none => .error invalidConfig
  | some projects => .ok projects[projectId]?

/-- The server a project is bound to, if the bindings can be read. -/
def binding (store : Store) (projectId : String) : Option String :=
  store.config.bind fun projects ↦ projects[projectId]?

def recordProjectBinding (store : Store) (projectId name : String) : Except Error Unit × Store :=
  match store.config with
  | none => (.error invalidConfig, store)
  | some projects => (.ok (), { store with config := some (projects.insert projectId name) })

/-- Point every project bound to server `source` at `target`. -/
def rebindProjects (store : Store) (source target : String) : Except Error Unit × Store :=
  match store.config with
  | none => (.error invalidConfig, store)
  | some projects => (.ok (), { store with
      config := some (projects.map fun _ name ↦ if name = source then target else name) })

/-! ### Reading after writing -/

section Reading

variable {root} {store : Store} {name : String} {server : ServerConfig} {path : Path}

theorem entry_eq_some_iff :
    store.entry name = some server ↔ store.servers[name]? = some (.entry server) := by
  rw [entry, readServer]
  split <;> simp_all [Except.toOption]

theorem readable_eq_some_iff {file : String × ServerFile} {found : String × ServerConfig} :
    readable file = some found ↔ file = (found.1, .entry found.2) := by
  rcases file with ⟨name, server | _⟩ <;> simp [readable, Prod.ext_iff]

theorem mem_listServers :
    (name, server) ∈ store.listServers ↔ store.entry name = some server := by
  simp only [entry_eq_some_iff, listServers, List.mem_filterMap, readable_eq_some_iff,
    exists_eq_right, Std.TreeMap.mem_toList_iff_getElem?_eq_some]

theorem listServers_sorted (store : Store) :
    store.listServers.Pairwise fun a b ↦ a.1 < b.1 := by
  have hsorted : store.servers.toList.Pairwise fun a b ↦ a.1 < b.1 :=
    (Std.TreeMap.ordered_keys_toList (t := store.servers)).imp compare_lt_iff_lt.mp
  refine hsorted.filterMap _ fun a b hab a' ha b' hb ↦ ?_
  rw [readable_eq_some_iff] at ha hb
  rw [ha, hb] at hab
  exact hab

theorem listServers_names_nodup (store : Store) : (store.listServers.map Prod.fst).Nodup := by
  rw [List.nodup_iff_pairwise_ne, List.pairwise_map]
  exact store.listServers_sorted.imp ne_of_lt

@[simp]
theorem entry_writeServer (other : String) :
    (store.writeServer name server).entry other =
      if name = other then some server else store.entry other := by
  by_cases h : name = other <;>
    simp [entry, readServer, writeServer, Std.TreeMap.getElem?_insert, h, Except.toOption]

@[simp]
theorem readSigningKey_writeServer :
    (store.writeServer name server).readSigningKey root path = store.readSigningKey root path := rfl

@[simp]
theorem binding_writeServer (projectId : String) :
    (store.writeServer name server).binding projectId = store.binding projectId := rfl

/-! A key file that is neither an entry nor the bindings changes nothing else. -/

theorem entry_writeKeyFile {key : SigningKey} (h : locate root path = .file) (other : String) :
    (store.writeKeyFile root path key).entry other = store.entry other := by
  simp [writeKeyFile, h, entry, readServer]

theorem binding_writeKeyFile {key : SigningKey} (h : locate root path = .file)
    (projectId : String) :
    (store.writeKeyFile root path key).binding projectId = store.binding projectId := by
  simp [writeKeyFile, h, binding]

theorem readSigningKey_writeKeyFile {key : SigningKey} (h : locate root path = .file)
    (other : Path) :
    (store.writeKeyFile root path key).readSigningKey root other =
      if other = path then some key else store.readSigningKey root other := by
  by_cases hother : other = path
  · simp [writeKeyFile, readSigningKey, h, hother]
  · simp [writeKeyFile, readSigningKey, h, hother]

theorem entry_congr {store' : Store} (h : store'.servers = store.servers) (name : String) :
    store'.entry name = store.entry name := by
  rw [entry, readServer, h]
  rfl

theorem readSigningKey_congr {store' : Store} (h : store'.keys = store.keys) (path : Path) :
    store'.readSigningKey root path = store.readSigningKey root path := by
  rw [readSigningKey, h]
  rfl

theorem binding_congr {store' : Store} (h : store'.config = store.config) (projectId : String) :
    store'.binding projectId = store.binding projectId := by
  rw [binding, h]
  rfl

/-! Recording and moving bindings touches nothing else. -/

theorem recordProjectBinding_cases (store : Store) (projectId name : String) :
    (store.config = none ∧ ∃ e, store.recordProjectBinding projectId name = (.error e, store)) ∨
      ∃ store', store.recordProjectBinding projectId name = (.ok (), store') ∧
        store'.config.isSome ∧ store'.servers = store.servers ∧ store'.keys = store.keys ∧
        ∀ other, store'.binding other =
          if projectId = other then some name else store.binding other := by
  rw [recordProjectBinding]
  cases hconfig : store.config with
  | none => exact .inl ⟨rfl, _, rfl⟩
  | some projects =>
    refine .inr ⟨_, rfl, rfl, rfl, rfl, fun other ↦ ?_⟩
    by_cases h : projectId = other <;>
      simp [binding, hconfig, Std.TreeMap.getElem?_insert, h]

theorem rebindProjects_cases (store : Store) (source target : String) :
    (store.config = none ∧ ∃ e, store.rebindProjects source target = (.error e, store)) ∨
      ∃ store', store.rebindProjects source target = (.ok (), store') ∧
        store'.config.isSome ∧ store'.servers = store.servers ∧ store'.keys = store.keys ∧
        ∀ other, store'.binding other =
          (store.binding other).map fun name ↦ if name = source then target else name := by
  rw [rebindProjects]
  cases hconfig : store.config with
  | none => exact .inl ⟨rfl, _, rfl⟩
  | some projects => exact .inr ⟨_, rfl, rfl, rfl, rfl, fun other ↦ by simp [binding, hconfig]⟩

/-- Deleting a key file leaves the entries and the bindings. -/
theorem removeFile_of_file {refuses : Path → Bool} (hfile : locate root path = .file) :
    store.removeFile root refuses path = { store with
      keys := if refuses path then store.keys else Function.update store.keys path none } := by
  rw [removeFile]
  split
  · rfl
  · rw [hfile]

/-- Removing an entry whose key lies in a key file, from a disk that deletes every file. -/
theorem removeServer_ok (hentry : store.entry name = some server)
    (hfile : locate root server.privateKeyPath = .file) :
    ∃ store', store.removeServer root (fun _ ↦ false) name = (.ok (), store') ∧
      (∀ other, store'.entry other = if name = other then none else store.entry other) ∧
      (∀ other, store'.readSigningKey root other =
        if other = server.privateKeyPath then none else store.readSigningKey root other) ∧
      store'.config = store.config := by
  have hget := entry_eq_some_iff.mp hentry
  have hread : store.readServer name = .ok server := by simp [readServer, hget]
  have hcontains : store.servers.contains name = true := by
    rw [Std.TreeMap.contains_eq_isSome_getElem?, hget]
    rfl
  refine ⟨{ store with
      servers := store.servers.erase name
      keys := Function.update store.keys server.privateKeyPath none },
    by simp [removeServer, hread, removeFile, hfile, hcontains], fun other ↦ ?_, fun other ↦ ?_,
    rfl⟩
  · by_cases h : name = other <;> simp [entry, readServer, Std.TreeMap.getElem?_erase, h,
      Except.toOption]
  · by_cases h : other = server.privateKeyPath
    · simp [readSigningKey, h, hfile]
    · simp [readSigningKey, h]

end Reading

end Store

end Client
