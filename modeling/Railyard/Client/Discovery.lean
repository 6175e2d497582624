import Mathlib.Data.List.Infix
import Railyard.Client.Store
import Railyard.Manifest.RoundTrip

/-!
# Which project and which server

How the commands find the manifest of a directory, the server a project is bound to, and the server
a `--server` flag stands for.

* `manifestIn`, `findManifest`: the manifest of a directory, and the nearest one at or above it;
* `projectBinding`: the recorded binding, checked against the entries that still exist;
* `resolveServer`: the flag, then the only known server.
-/

set_option autoImplicit false

namespace Client

open Data (Path Float64)
open Manifest (JsonText HashOrder ParseError RailyardManifest)

/-! ## Files -/

/-- What there is at a path. -/
inductive Contents
  | absent
  | text (raw : String)
  /-- A directory, or a file that does not read as text. -/
  | unreadable (error : Error)

/-- `Path::exists` -/
def Contents.exists : Contents → Bool
  | .absent => false
  | _ => true

/-- What the file system holds apart from the stores of the client. -/
abbrev Files := Path → Contents

/-- `Path::display` -/
def display (path : Path) : String := "/" ++ "/".intercalate path

/-- `Path::extension`: what follows the last dot of the last component, unless nothing comes before
that dot. -/
def extension (path : Path) : Option String :=
  path.getLast?.bind fun name ↦
    match name.toList.reverse.span (· ≠ '.') with
    | (ext, _ :: _ :: _) => some (String.ofList ext.reverse)
    | _ => none

/-! ## Manifests -/

/-- The spelling `init` writes. -/
def manifestFile : String := ".railyard.json"

/-- The spellings that are found. -/
def manifestFiles : List String := [".railyard.json", ".railyard.jsonc", ".railyard.json5"]

/-- The files of a directory that are there under some names. -/
def readFiles (files : Files) (dir : Path) : List String → Except Error (List (Path × String))
  | [] => .ok []
  | name :: names =>
    match files (dir ++ [name]) with
    | .absent => readFiles files dir names
    | .unreadable e => .error e
    | .text raw => (readFiles files dir names).map ((dir ++ [name], raw) :: ·)

/-- The manifest of a directory.  Two spellings side by side are an error, not a pick. -/
def manifestIn (files : Files) (dir : Path) : Except Error (Option (Path × String)) :=
  match readFiles files dir manifestFiles with
  | .error e => .error e
  | .ok [] => .ok none
  | .ok [found] => .ok (some found)
  | .ok found => .error ("multiple manifests in " ++ display dir ++ ": " ++
      ", ".intercalate (found.filterMap fun file ↦ file.1.getLast?) ++
      "; keep one and delete the rest")

section Manifests

variable {files : Files} {dir path : Path} {raw : String}

theorem readFiles_eq_nil_iff {names : List String} :
    readFiles files dir names = .ok [] ↔ ∀ name ∈ names, files (dir ++ [name]) = .absent := by
  induction names with
  | nil => simp [readFiles]
  | cons name names ih =>
    rw [readFiles, List.forall_mem_cons]
    cases hname : files (dir ++ [name]) with
    | absent => simpa using ih
    | unreadable e => simp
    | text raw => cases readFiles files dir names <;> simp [Except.map]

/-- One file is found when one is there and the others are not. -/
theorem readFiles_eq_one_iff {names : List String} (hnodup : names.Nodup) :
    readFiles files dir names = .ok [(path, raw)] ↔
      ∃ name ∈ names, path = dir ++ [name] ∧ files path = .text raw ∧
        ∀ other ∈ names, other ≠ name → files (dir ++ [other]) = .absent := by
  induction names with
  | nil => simp [readFiles]
  | cons first names ih =>
    obtain ⟨hfirst, hnodup⟩ := List.nodup_cons.mp hnodup
    have hne : ∀ other ∈ names, other ≠ first := by
      rintro other hother rfl
      exact hfirst hother
    rw [readFiles]
    cases hfile : files (dir ++ [first]) with
    | absent =>
      refine (ih hnodup).trans ⟨?_, ?_⟩
      · rintro ⟨name, hname, rfl, htext, hothers⟩
        refine ⟨name, List.mem_cons_of_mem _ hname, rfl, htext, ?_⟩
        rw [List.forall_mem_cons]
        exact ⟨fun _ ↦ hfile, hothers⟩
      · rintro ⟨name, hname, rfl, htext, hothers⟩
        rcases List.mem_cons.mp hname with rfl | hname
        · rw [hfile] at htext
          simp at htext
        · exact ⟨name, hname, rfl, htext, (List.forall_mem_cons.mp hothers).2⟩
    | unreadable e =>
      refine ⟨by simp, ?_⟩
      rintro ⟨name, hname, rfl, htext, hothers⟩
      rcases List.mem_cons.mp hname with rfl | hname
      · rw [hfile] at htext
        simp at htext
      · have habsent := (List.forall_mem_cons.mp hothers).1 (hne name hname).symm
        rw [hfile] at habsent
        simp at habsent
    | text raw' =>
      constructor
      · intro h
        obtain ⟨rest, hrest, hcons⟩ : ∃ rest, readFiles files dir names = .ok rest ∧
            (dir ++ [first], raw') :: rest = [(path, raw)] := by
          cases hrest : readFiles files dir names with
          | error e => simp [hrest, Except.map] at h
          | ok rest => exact ⟨rest, rfl, by simpa [hrest, Except.map] using h⟩
        obtain ⟨hpair, rfl⟩ := List.cons.inj hcons
        obtain ⟨rfl, rfl⟩ := Prod.mk.inj hpair
        refine ⟨first, List.mem_cons_self, rfl, hfile, ?_⟩
        rw [List.forall_mem_cons]
        refine ⟨fun h ↦ absurd rfl h, fun other hother _ ↦ ?_⟩
        exact readFiles_eq_nil_iff.mp hrest other hother
      · rintro ⟨name, hname, rfl, htext, hothers⟩
        rcases List.mem_cons.mp hname with rfl | hname
        · rw [hfile] at htext
          have hrest : readFiles files dir names = .ok [] :=
            readFiles_eq_nil_iff.mpr fun other hother ↦
              hothers other (List.mem_cons_of_mem _ hother) (hne other hother)
          rw [hrest, Contents.text.inj htext]
          rfl
        · have habsent := (List.forall_mem_cons.mp hothers).1 (hne name hname).symm
          rw [hfile] at habsent
          simp at habsent

theorem manifestIn_eq_none_iff :
    manifestIn files dir = .ok none ↔ ∀ name ∈ manifestFiles, files (dir ++ [name]) = .absent := by
  rw [← readFiles_eq_nil_iff, manifestIn]
  split <;> simp_all

/-- The manifest of a directory is the only one there. -/
theorem manifestIn_eq_some_iff :
    manifestIn files dir = .ok (some (path, raw)) ↔
      ∃ name ∈ manifestFiles, path = dir ++ [name] ∧ files path = .text raw ∧
        ∀ other ∈ manifestFiles, other ≠ name → files (dir ++ [other]) = .absent := by
  rw [← readFiles_eq_one_iff (by decide), manifestIn]
  split <;> simp_all

end Manifests

/-- The walk of `findManifest`, along the components of a directory from the last to the first. -/
def findManifestUp (files : Files) : List String → Except Error (Option (Path × String))
  | [] => manifestIn files []
  | component :: up =>
    match manifestIn files (component :: up).reverse with
    | .ok none => findManifestUp files up
    | found => found

/-- The nearest manifest at or above a directory. -/
def findManifest (files : Files) (start : Path) : Except Error (Option (Path × String)) :=
  findManifestUp files start.reverse

variable {F : Type} [Float64 F]

/-- `.railyard.json` is strict, the other spellings have the relaxed grammar. -/
def parseManifest (text : JsonText F) (hash : HashOrder) (path : Path) (raw : String) :
    Except ParseError (RailyardManifest F) :=
  if extension path = some "json" then Manifest.parse text hash raw
  else Manifest.parseRelaxed text hash raw

/-! ## Servers -/

/-- Where the client's files are. -/
structure Disk where
  /-- The configuration directory. -/
  root : Path
  /-- What files that are not among the entries read as, for a name with separators in it. -/
  elsewhere : Path → Except ReadError ServerConfig

variable (disk : Disk)

/-- `read_server`: the name of an entry, or any path from the directory of the entries on. -/
def readServer (store : Store) (name : String) : Except ReadError ServerConfig :=
  let path := (serversDir disk.root).join (name ++ ".json")
  match locate disk.root path with
  | .server entry => store.readServer entry
  | .config => .error .invalidData
  | .file => disk.elsewhere path

/-- The text of the error. -/
def ReadError.text : ReadError → String
  | .notFound => "No such file or directory (os error 2)"
  | .invalidData => "invalid data"

/-- What is known of the server of a project. -/
inductive ProjectBinding
  | bound (name : String) (server : ServerConfig)
  /-- A binding to an entry that is gone. -/
  | stale (name : String)
  | unbound
deriving DecidableEq

/-- The binding recorded by `init` or a login for a project, checked against the entries. -/
def projectBinding (store : Store) (projectId : String) : Except Error ProjectBinding :=
  match store.readProjectBinding projectId with
  | .error e => .error e
  | .ok none => .ok .unbound
  | .ok (some name) =>
    match readServer disk store name with
    | .ok server => .ok (.bound name server)
    | .error .notFound => .ok (.stale name)
    | .error .invalidData =>
      .error ("could not read server " ++ name ++ ": " ++ ReadError.invalidData.text)

/-- `--server`, then the only known server. -/
def resolveServer (store : Store) (explicit : Option String) :
    Except Error (String × ServerConfig) :=
  match explicit with
  | some name =>
    match readServer disk store name with
    | .ok server => .ok (name, server)
    | .error e => .error ("could not read server " ++ name ++ ": " ++ e.text)
  | none =>
    match store.listServers with
    | [] => .error "no servers found; run `railyard login <blob>` first"
    | [found] => .ok found
    | servers => .error ("multiple servers exist (" ++ ", ".intercalate (servers.map Prod.fst) ++
        "); pass --server <name>")

/-! ## Reading what was written -/

section Reading

variable {disk} {store : Store} {name : String} {server : ServerConfig}

/-- The names of entries are names of files. -/
def Store.NamesFiles (store : Store) : Prop :=
  ∀ name ∈ store.servers, name ≠ "" ∧ '/' ∉ name.toList

/-- Where an entry is. -/
theorem locate_entry (root : Path) (hname : name ≠ "") (hsep : '/' ∉ name.toList) :
    locate root ((serversDir root).join (name ++ ".json")) = .server name := by
  have hpath : (serversDir root).join (name ++ ".json") = serversDir root ++ [name ++ ".json"] :=
    Data.Path.join_plain _ (isPlain_append_json hsep)
  have hconfig : serversDir root ++ [name ++ ".json"] ≠ globalConfigPath root := by
    simp [serversDir, globalConfigPath]
  have hfile : (serversDir root ++ [name ++ ".json"]).getLast?.bind
      (Encoding.stripSuffix ".json") = some name := by
    rw [List.getLast?_concat, Option.bind_some, Encoding.stripSuffix_append]
  rw [hpath, locate, if_neg hconfig, List.dropLast_concat, if_pos rfl, hfile]
  exact if_neg hname

/-- An entry is read under its name. -/
theorem readServer_of_entry (hstore : store.NamesFiles) (h : store.entry name = some server) :
    readServer disk store name = .ok server := by
  have hget := Store.entry_eq_some_iff.mp h
  obtain ⟨hname, hsep⟩ := hstore name (Std.TreeMap.mem_iff_isSome_getElem?.mpr (by simp [hget]))
  simp only [readServer, locate_entry disk.root hname hsep]
  simp [Store.readServer, hget]

/-- A server that was resolved is the one its name stands for. -/
theorem readServer_of_resolveServer {explicit : Option String} (hstore : store.NamesFiles)
    (h : resolveServer disk store explicit = .ok (name, server)) :
    readServer disk store name = .ok server := by
  cases explicit with
  | some flag =>
    simp only [resolveServer] at h
    split at h
    · rename_i found hread
      obtain ⟨rfl, rfl⟩ : flag = name ∧ found = server := by simpa using h
      exact hread
    · simp at h
  | none =>
    simp only [resolveServer] at h
    split at h
    · simp at h
    · rename_i found hlist
      obtain rfl : found = (name, server) := by simpa using h
      refine readServer_of_entry hstore (Store.mem_listServers.mp ?_)
      rw [hlist]
      exact List.mem_singleton_self _
    · simp at h

theorem readServer_congr {store' : Store} (h : store'.servers = store.servers) (name : String) :
    readServer disk store' name = readServer disk store name := by
  simp only [readServer, Store.readServer, h]

/-- A binding that was recorded is found, where the entry can be read. -/
theorem projectBinding_of_record {store' : Store} {projectId : String}
    (h : store.recordProjectBinding projectId name = (.ok (), store'))
    (hserver : readServer disk store name = .ok server) :
    projectBinding disk store' projectId = .ok (.bound name server) := by
  rw [Store.recordProjectBinding] at h
  split at h
  · simp at h
  · rename_i projects hconfig
    obtain rfl : _ = store' := (Prod.mk.inj h).2
    have hread : readServer disk { store with config := some (projects.insert projectId name) }
        name = .ok server := by
      rw [← hserver]
      exact readServer_congr rfl name
    simp [projectBinding, Store.readProjectBinding, hread]

end Reading

end Client
