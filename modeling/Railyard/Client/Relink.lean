import Railyard.Client.Init

/-!
# Initialising twice

A run of `init` that created or linked a project leaves a manifest that parses, names that project,
and is bound to the server it is on; so every further run finds it linked and does nothing.

* `obtainProject_ok`: the project of a run is stored on the server that was asked, and has a name
  the manifest accepts;
* `init_of_bound`: a run in a directory whose project is bound;
* `init_idempotent` puts them together.
-/

set_option autoImplicit false

/-! ## What the routes answer -/

namespace Railyard

open Effects Prog

variable {w : ℕ → Outside} {s s' : Server} {response : Response}

/-- A request without a caller is answered with a text. -/
theorem callerExtension_rejects {req : Request} {rejection : Response}
    (h : req.callerExtension = .error rejection) : ∃ message, rejection.body = .text message := by
  rw [Request.callerExtension] at h
  split at h
  · cases h
  · exact ⟨_, congrArg Response.body (Except.error.inj h).symm⟩

/-- A list of projects that was answered is a list of stored ones. -/
theorem listProjects_answer {req : Request} {ps : List ProjectRow}
    (h : (listProjects req).run perform w s = (response, s'))
    (hbody : response.body = .projects ps) : s' = s ∧ ∀ p ∈ ps, p ∈ s.projects := by
  cases hcaller : req.callerExtension with
  | error rejection =>
    obtain ⟨rfl, rfl⟩ : rejection = response ∧ s = s' := by
      simpa [listProjects, hcaller] using h
    obtain ⟨message, htext⟩ := callerExtension_rejects hcaller
    simp [htext] at hbody
  | ok caller =>
    rw [listProjects, hcaller, extract_ok, Db.listProjects_run] at h
    cases hf : (w 0).fault with
    | some e =>
      simp only [ret_bind, op_bind, bind_def, run_op, perform_sql_fault hf] at h
      obtain ⟨rfl, rfl⟩ := Prod.mk.inj h
      simp [internalServerError] at hbody
    | none =>
      simp only [ret_bind, op_bind, bind_def, run_op, perform_sql_ok hf] at h
      obtain ⟨rfl, rfl⟩ := Prod.mk.inj h
      refine ⟨rfl, fun p hp ↦ ?_⟩
      obtain rfl := Payload.projects.inj hbody
      exact (List.mem_insertionSort _).mp (List.mem_of_mem_filter hp)

theorem Db.insertProject_stored {name projectId : String} {now : ℕ} {row : ProjectRow}
    (h : (Db.insertProject name now projectId).run perform w s = (.ok (some row), s')) :
    row ∈ s'.projects ∧ row.name = name := by
  rw [Db.insertProject, run_op] at h
  cases hreply : (perform (w 0) (.sql (.insertProject projectId name now)) s).1 with
  | error e =>
    rw [hreply] at h
    simp at h
  | ok n =>
    obtain ⟨hperform, hexec⟩ := perform_sql_eq_ok hreply
    rw [hperform, hexec] at h
    obtain ⟨hrow, rfl⟩ : (⟨projectId, name, now⟩ : ProjectRow) = row ∧
        ((Stmt.insertProject projectId name now).exec s).2 = s' := by simpa using h
    obtain ⟨-, ⟨e, herror⟩, -⟩ | ⟨-, -, hmem⟩ := insertProject_cases s projectId name now
    · rw [herror] at hexec
      simp at hexec
    · exact ⟨(hmem row).mpr (.inr hrow.symm), by rw [← hrow]⟩

theorem Db.createProject_stored {name : String} {id : Option String} {now : ℕ} {row : ProjectRow}
    (h : (Db.createProject name id now).run.run perform w s = (.ok (some row), s')) :
    row ∈ s'.projects ∧ row.name = name := by
  rw [Db.createProject_run, run_op] at h
  generalize hs : (perform (w 0) (.sql (.projectIdByName name)) s).2 = s₁ at h
  rcases hreply : (perform (w 0) (.sql (.projectIdByName name)) s).1 with e | _ | ⟨id', ids⟩
  all_goals rw [hreply] at h
  · simp at h
  · cases id with
    | none =>
      simp only [run_op] at h
      exact Db.insertProject_stored h
    | some id =>
      simp only [run_op] at h
      rcases hrows : (perform (w (0 + 1)) (.sql (.projectById id)) s₁).1 with e | _ | ⟨p, ps⟩
      all_goals rw [hrows] at h
      · simp at h
      · exact Db.insertProject_stored h
      · simp at h
  · simp at h

/-- A project that was answered as created is stored, under a valid name. -/
theorem createProject_answer {crates : Crates} {req : Request} {p : ProjectRow}
    (hreject : ∀ rejection, crates.jsonCreateProject req = .error rejection →
      400 ≤ rejection.status)
    (h : (createProject crates req).run perform w s = (response, s'))
    (hstatus : response.status < 400) (hbody : response.body = .project p) :
    p ∈ s'.projects ∧ isValidProjectName p.name = true := by
  cases hcaller : req.callerExtension with
  | error rejection =>
    obtain ⟨rfl, rfl⟩ : rejection = response ∧ s = s' := by
      simpa [createProject, hcaller] using h
    obtain ⟨message, htext⟩ := callerExtension_rejects hcaller
    simp [htext] at hbody
  | ok caller =>
  cases hrequest : crates.jsonCreateProject req with
  | error rejection =>
    obtain ⟨rfl, rfl⟩ : rejection = response ∧ s = s' := by
      simpa [createProject, hcaller, hrequest] using h
    have := hreject _ hrequest
    omega
  | ok request =>
    rw [createProject, hcaller, extract_ok, hrequest, extract_ok] at h
    split at h
    · obtain ⟨rfl, rfl⟩ := Prod.mk.inj h
      simp [Response.text] at hbody
    split at h
    · obtain ⟨rfl, rfl⟩ := Prod.mk.inj h
      simp [Response.text] at hbody
    rename_i hname
    split at h
    · obtain ⟨rfl, rfl⟩ := Prod.mk.inj h
      simp [Response.text] at hbody
    have hvalid : isValidProjectName request.name = true := by simpa using hname
    change Prog.run perform (Prog.bind (Db.createProject request.name request.id (w 0).now).run _)
      (fun n ↦ w (n + 1)) s = _ at h
    rw [run_bind] at h
    rcases hstored : (Db.createProject request.name request.id (w 0).now).run.run perform
      (fun n ↦ w (n + 1)) s with ⟨e | _ | row, s₁⟩
    all_goals
      rw [hstored] at h
      obtain ⟨rfl, rfl⟩ := Prod.mk.inj h
    · simp [internalServerError] at hbody
    · simp [Response.text] at hbody
    · obtain rfl := Payload.project.inj hbody
      obtain ⟨hrow, hrowName⟩ := Db.createProject_stored hstored
      exact ⟨hrow, hrowName ▸ hvalid⟩

end Railyard

namespace Client

open Data (Path Float64)
open Manifest (JsonText HashOrder RailyardManifest Project)
open Railyard (ProjectRow Wellformed Server Response isValidProjectName perform)

variable {F : Type} {ws : Workspace F} {run : Invocation} {m m' : Machine}
  {server : ServerConfig} {serverName : String}

/-! ## Requests -/

/-- The server and the manifest have the same rule for names. -/
theorem isValidName_of_isValidProjectName {name : String} (h : isValidProjectName name = true) :
    Manifest.isValidName name = true := h

/-- Rejections of a body are errors. -/
def Workspace.Rejects (ws : Workspace F) : Prop :=
  ∀ req rejection, ws.crates.jsonCreateProject req = .error rejection → 400 ≤ rejection.status

/-- A request changes nothing on disk, and its answer is that of the handler. -/
theorem exchange_ok {request : ProjectRequest} {fate : Fate} {response : Response}
    (h : exchange ws server request fate m = (.ok response, m')) :
    m'.files = m.files ∧ m'.store = m.store ∧ ∃ (others : Meanwhile) (req : Railyard.Request)
      (outside : ℕ → Railyard.Outside),
      (request.handler ws req).run perform outside
        (others.change (m.servers server.serverUrl)) = (response, m'.servers server.serverUrl) := by
  cases fate with
  | unsent e => simp [exchange] at h
  | lost others e => simp [exchange] at h
  | answered others caller outside =>
    simp only [exchange, Prod.mk.injEq, Except.ok.injEq] at h
    obtain ⟨hresponse, rfl⟩ := h
    refine ⟨rfl, rfl, others, request.arriving ws caller, outside, ?_⟩
    simp only [Function.update_self]
    rw [← hresponse]

/-- A project as the server of an entry has it. -/
def Machine.Has (m : Machine) (server : ServerConfig) (project : ProjectRow) : Prop :=
  project ∈ (m.servers server.serverUrl).projects ∧ isValidProjectName project.name = true

theorem listProjects_ok {fate : Fate} {projects : List ProjectRow}
    (hservers : ∀ url, Wellformed (m.servers url))
    (h : listProjects ws server fate m = (.ok projects, m')) :
    m'.files = m.files ∧ m'.store = m.store ∧ ∀ project ∈ projects, m'.Has server project := by
  rw [listProjects] at h
  split at h
  · simp at h
  rename_i response m₁ hexchange
  split at h
  · simp at h
  split at h
  · rename_i listed hbody
    obtain ⟨rfl, rfl⟩ : listed = projects ∧ m₁ = m' := by simpa using h
    obtain ⟨hfiles, hstore, others, req, outside, hrun⟩ := exchange_ok hexchange
    obtain ⟨hstate, hstored⟩ := Railyard.listProjects_answer hrun hbody
    have hwf := others.wellformed _ (hservers server.serverUrl)
    refine ⟨hfiles, hstore, fun project hproject ↦ ⟨?_, ?_⟩⟩
    · rw [hstate]
      exact hstored project hproject
    · exact (hwf.project project (hstored project hproject)).2
  · simp at h

theorem newProject_ok {name : String} {id : Option String} {way : Way} {project : ProjectRow}
    (hreject : ws.Rejects) (h : newProject ws run server name id m = (.ok (way, project), m')) :
    m'.files = m.files ∧ m'.store = m.store ∧ m'.Has server project := by
  rw [newProject, createProject] at h
  split at h
  · simp at h
  rename_i created m₁ hcreated
  obtain ⟨⟨rfl, rfl⟩, rfl⟩ : (Way.created = way ∧ created = project) ∧ m₁ = m' := by simpa using h
  split at hcreated
  · simp at hcreated
  rename_i response m₂ hexchange
  split at hcreated
  · simp at hcreated
  rename_i hstatus
  split at hcreated
  · rename_i found hbody
    obtain ⟨rfl, rfl⟩ : found = created ∧ m₂ = m₁ := by simpa using hcreated
    obtain ⟨hfiles, hstore, others, req, outside, hrun⟩ := exchange_ok hexchange
    have hsuccess : response.status < 400 := by omega
    exact ⟨hfiles, hstore, Railyard.createProject_answer (hreject req) hrun hsuccess hbody⟩
  · simp at hcreated

/-- Adopted or created, the project of a run is stored on the server that was asked. -/
theorem obtainProject_ok {existingId : Option String} {name : String} {way : Way}
    {project : ProjectRow} (hreject : ws.Rejects) (hservers : ∀ url, Wellformed (m.servers url))
    (h : obtainProject ws run existingId serverName server name m = (.ok (way, project), m')) :
    m'.files = m.files ∧ m'.store = m.store ∧ m'.Has server project := by
  cases existingId with
  | none => exact newProject_ok hreject h
  | some id =>
    simp only [obtainProject] at h
    split at h
    · simp at h
    rename_i projects m₁ hlist
    obtain ⟨hfiles, hstore, hprojects⟩ := listProjects_ok hservers hlist
    have hnew : ∀ {name id}, newProject ws run server name id m₁ = (.ok (way, project), m') →
        m'.files = m.files ∧ m'.store = m.store ∧ m'.Has server project := by
      intro name id hnew
      obtain ⟨hfiles', hstore', hhas⟩ := newProject_ok hreject hnew
      exact ⟨hfiles'.trans hfiles, hstore'.trans hstore, hhas⟩
    split at h
    · rename_i existing hfind
      rw [adoptProject] at h
      split at h
      · simp at h
      split at h
      · simp at h
      split at h
      · obtain ⟨⟨-, rfl⟩, rfl⟩ : (Way.linked = way ∧ existing = project) ∧ m₁ = m' := by
          simpa using h
        exact ⟨hfiles, hstore, hprojects _ (List.mem_of_find?_eq_some hfind)⟩
      split at h
      · split at h
        · simp at h
        · exact hnew h
      · exact hnew h
    · exact hnew h

/-- The server a run resolved is the one its name stands for. -/
theorem resolveServerForInit_ok (hstore : m.store.NamesFiles)
    (h : resolveServerForInit ws run m.store = .ok (serverName, server)) :
    readServer ws.disk m.store serverName = .ok server := by
  rw [resolveServerForInit] at h
  split at h
  · exact readServer_of_resolveServer hstore h
  · split at h
    · simp at h
    · obtain hchosen := Except.ok.inj h
      refine readServer_of_entry hstore (Store.mem_listServers.mp ?_)
      rw [← hchosen]
      exact List.get_mem ..

/-! ## The manifest on disk -/

section Written

variable [Float64 F] {opened : Opened F} {project : ProjectRow}

/-- The relaxed parser agrees with the strict one on plain JSON. -/
def RelaxedAgrees (text : JsonText F) : Prop :=
  ∀ input document, text.parse input = some document → text.parseRelaxed input = some document

theorem validate_default (hash : HashOrder) :
    Manifest.validate hash (RailyardManifest.default : RailyardManifest F) = [] := by
  refine Manifest.validate_eq_nil_iff.mpr ⟨?_, ?_, ?_, fun name hcycle ↦ ?_⟩
  · simp [RailyardManifest.default]
  · simp [RailyardManifest.default]
  · simp [RailyardManifest.default, IndexMap.empty]
  obtain ⟨next, hedge, -⟩ := Relation.TransGen.head'_iff.mp hcycle
  simp [Manifest.envEdges, RailyardManifest.default, IndexMap.get, IndexMap.empty] at hedge

/-- What is opened is accepted, and the only manifest there will be once it is written. -/
theorem openManifest_ok {files : Files} (h : openManifest ws run files = .ok opened) :
    Manifest.validate run.hash opened.manifest = [] ∧
      ∃ name ∈ manifestFiles, opened.path = ws.cwd ++ [name] ∧
        ∀ other ∈ manifestFiles, other ≠ name → files (ws.cwd ++ [other]) = .absent := by
  rw [openManifest] at h
  split at h
  · simp at h
  · rename_i path raw hfound
    obtain ⟨name, hname, rfl, -, hothers⟩ := manifestIn_eq_some_iff.mp hfound
    split at h
    · simp at h
    rename_i manifest hparse
    obtain rfl := Except.ok.inj h
    have hparsed : Manifest.parse ws.text run.hash raw = .ok manifest ∨
        Manifest.parseRelaxed ws.text run.hash raw = .ok manifest := by
      rw [parseManifest] at hparse
      split at hparse
      · exact .inl hparse
      · exact .inr hparse
    exact ⟨Manifest.validate_of_parse hparsed, name, hname, rfl, hothers⟩
  · rename_i hnone
    have habsent := manifestIn_eq_none_iff.mp hnone
    split at h
    · simp at h
    split at h
    · simp at h
    obtain rfl := Except.ok.inj h
    exact ⟨validate_default run.hash, manifestFile, by decide, rfl,
      fun other hother _ ↦ habsent other hother⟩

/-- The text of an accepted manifest is read as that manifest, under either spelling. -/
theorem parseManifest_toJsonString {text : JsonText F} {hash : HashOrder}
    {manifest : RailyardManifest F} (hrelaxed : RelaxedAgrees text)
    (hvalid : Manifest.validate hash manifest = [])
    (hlossless : text.Lossless (RailyardManifest.codec.encode manifest)) (path : Path) :
    parseManifest text hash path (manifest.toJsonString text) = .ok manifest := by
  have hparsed := hlossless (RailyardManifest.codec.wf manifest)
  rw [parseManifest]
  split
  · exact Manifest.parse_toJsonString hvalid hlossless
  · rw [Manifest.parseRelaxed, RailyardManifest.toJsonString, hrelaxed _ _ hparsed]
    simp [Manifest.parseValue, RailyardManifest.codec.decode_encode, hvalid]

/-- A directory whose manifest names a project that is bound to a server. -/
structure Bound (ws : Workspace F) (m : Machine) (project : ProjectRow) (serverName : String)
    (server : ServerConfig) : Prop where
  manifest : ∃ path raw, manifestIn m.files ws.cwd = .ok (some (path, raw)) ∧
    ∃ manifest : RailyardManifest F, manifest.project = some ⟨some project.id, project.name⟩ ∧
      ∀ hash, parseManifest ws.text hash path raw = .ok manifest
  binding : projectBinding ws.disk m.store project.id = .ok (.bound serverName server)

/-- Linking binds. -/
theorem link_ok (hrelaxed : RelaxedAgrees ws.text)
    (hopened : openManifest ws run m.files = .ok opened)
    (hlossless : ws.text.Lossless
      (RailyardManifest.codec.encode (opened.manifest.linkProject project.name project.id)))
    (hname : Manifest.isValidName project.name = true)
    (hserver : readServer ws.disk m.store serverName = .ok server)
    {m₁ : Machine} (hfiles : m₁.files = m.files) (hstore : m₁.store = m.store)
    (h : link ws opened project serverName m₁ = (.ok (), m')) :
    Bound ws m' project serverName server ∧ m'.servers = m₁.servers := by
  obtain ⟨hvalid, name, hmem, hpath, hothers⟩ := openManifest_ok hopened
  rcases hrecord : m₁.store.recordProjectBinding project.id serverName with ⟨result, store⟩
  simp only [link, hrecord, Prod.mk.injEq] at h
  obtain ⟨rfl, rfl⟩ := h
  refine ⟨⟨⟨opened.path, (opened.manifest.linkProject project.name project.id).toJsonString ws.text,
    manifestIn_eq_some_iff.mpr ⟨name, hmem, hpath, ?_, ?_⟩,
    opened.manifest.linkProject project.name project.id, ?_, fun hash ↦ ?_⟩, ?_⟩, rfl⟩
  · exact Function.update_self ..
  · intro other hother hne
    have hpaths : ws.cwd ++ [other] ≠ opened.path := by simpa [hpath] using hne
    refine (Function.update_of_ne hpaths ..).trans ?_
    rw [hfiles]
    exact hothers other hother hne
  · rw [Manifest.linkProject_eq]
  · exact parseManifest_toJsonString hrelaxed (Manifest.validate_linkProject hvalid hname)
      hlossless _
  · exact projectBinding_of_record hrecord (hstore ▸ hserver)

/-! ## Running again -/

/-- In a directory whose project is bound, a run does nothing, unless it is for another server. -/
theorem init_of_bound (h : Bound ws m project serverName server)
    (hserver : run.server = none ∨ run.server = some serverName) :
    init ws run m =
      (.ok (.alreadyLinked project.id ⟨some project.id, project.name⟩ serverName), m) := by
  obtain ⟨⟨path, raw, hfound, manifest, hproject, hparse⟩, hbinding⟩ := h
  have hopen : openManifest ws run m.files = .ok ⟨path, manifest, true⟩ := by
    simp only [openManifest, hfound, hparse]
  have hflag : (run.server.any fun name ↦ decide (name ≠ serverName)) = false := by
    rcases hserver with hnone | hsome
    · simp [hnone]
    · simp [hsome]
  have hlinked : alreadyLinked ws run m.store manifest =
      .ok (some (project.id, ⟨some project.id, project.name⟩, serverName)) := by
    simp only [alreadyLinked, hproject, hbinding, hflag]
    rfl
  simp only [init, hopen, hlinked]

/-- Nor do any number of runs. -/
theorem inits_of_bound (h : Bound ws m project serverName server) {runs : List Invocation}
    (hserver : ∀ run ∈ runs, run.server = none ∨ run.server = some serverName) :
    inits ws runs m = (runs.map fun _ ↦
      .ok (.alreadyLinked project.id ⟨some project.id, project.name⟩ serverName), m) := by
  induction runs with
  | nil => rfl
  | cons run runs ih =>
    obtain ⟨hfirst, hrest⟩ := List.forall_mem_cons.mp hserver
    simp only [inits, init_of_bound h hfirst, ih hrest, List.map_cons]

/-- **`init` is idempotent.**  After a run that created or linked a project, the manifest in the
directory parses and names a project that is stored on the server the run resolved, and the binding
of that project resolves to this server.  Every sequence of further runs, each with any arguments
but for another server, succeeds and changes nothing: no file, no server, and no request is sent. -/
theorem init_idempotent (ws : Workspace F) (run : Invocation) (m m' : Machine) (way : Way)
    (project : ProjectRow) (serverName : String)
    (hrelaxed : RelaxedAgrees ws.text) (hreject : ws.Rejects)
    (hservers : ∀ url, Wellformed (m.servers url)) (hstore : m.store.NamesFiles)
    (hlossless : ∀ opened, openManifest ws run m.files = .ok opened → ws.text.Lossless
      (RailyardManifest.codec.encode (opened.manifest.linkProject project.name project.id)))
    (h : init ws run m = (.ok (.obtained way project serverName), m')) :
    (∃ path raw, manifestIn m'.files ws.cwd = .ok (some (path, raw)) ∧
      ∃ manifest : RailyardManifest F, manifest.project = some ⟨some project.id, project.name⟩ ∧
        ∀ hash, parseManifest ws.text hash path raw = .ok manifest) ∧
    (∃ server, resolveServerForInit ws run m.store = .ok (serverName, server) ∧
      project ∈ (m'.servers server.serverUrl).projects ∧
      projectBinding ws.disk m'.store project.id = .ok (.bound serverName server)) ∧
    ∀ runs : List Invocation,
      (∀ again ∈ runs, again.server = none ∨ again.server = some serverName) →
        inits ws runs m' = (runs.map fun _ ↦
          .ok (.alreadyLinked project.id ⟨some project.id, project.name⟩ serverName), m') := by
  rw [init] at h
  split at h
  · simp at h
  rename_i opened hopened
  split at h
  · simp at h
  · simp at h
  split at h
  · simp at h
  rename_i name _
  split at h
  · simp at h
  rename_i chosenName server hresolve
  split at h
  · simp at h
  rename_i obtainedWay obtained m₁ hobtain
  split at h
  · simp at h
  rename_i m₂ hlink
  obtain ⟨⟨rfl, rfl, rfl⟩, rfl⟩ :
      (obtainedWay = way ∧ obtained = project ∧ chosenName = serverName) ∧ m₂ = m' := by
    simpa using h
  obtain ⟨hfiles, hkept, hstored, hname⟩ := obtainProject_ok hreject hservers hobtain
  obtain ⟨hbound, hsame⟩ := link_ok hrelaxed hopened (hlossless opened hopened)
    (isValidName_of_isValidProjectName hname) (resolveServerForInit_ok hstore hresolve) hfiles
    hkept hlink
  refine ⟨hbound.manifest, ⟨server, hresolve, ?_, hbound.binding⟩, fun runs ↦ inits_of_bound hbound⟩
  rw [hsame]
  exact hstored

end Written

/-! ## Runs of the API in between -/

/-- What requests on either listener, under some interleaving, make of a server. -/
def Meanwhile.ofRun (config : Railyard.Config) (crates : Railyard.Crates)
    (acts : List (Effects.Act Railyard.Outside Railyard.ApiRequest)) : Meanwhile where
  change s := ((⟨s, []⟩ : Railyard.ApiPool).run? perform (Railyard.ApiRequest.prog config crates)
    acts).elim s Effects.Conf.shared
  wellformed s hs := by
    cases hrun : (⟨s, []⟩ : Railyard.ApiPool).run? perform (Railyard.ApiRequest.prog config crates)
        acts with
    | none => exact hs
    | some c =>
      have hadm : (⟨s, []⟩ : Railyard.ApiPool).Admits perform
          (Railyard.ApiRequest.prog config crates) (fun _ _ ↦ True) acts :=
        Effects.Conf.admits_of_forall (fun _ _ ↦ trivial) acts _
      exact ((Effects.Reaches.of_run? acts hrun hadm).follows
        (Railyard.sound_discipline config) (Railyard.careful_prog config crates) hs).1

/-! ## A fresh directory -/

section Sample

/-- The text of the manifest of the sample. -/
def webOutput : String :=
  "\x7b\n  \"project\": \x7b\n    \"id\": \"prj_0000000000000000\",\n" ++
    "    \"name\": \"web\"\n  \x7d\n\x7d"

/-- Printing and parsing of that text. -/
def webText : JsonText ℤ where
  print _ := webOutput
  parse input := if input = webOutput ++ "\n" then
    some (RailyardManifest.codec.encode
      ((RailyardManifest.default : RailyardManifest ℤ).linkProject "web" "prj_0000000000000000"))
    else none
  parseRelaxed input := if input = webOutput ++ "\n" then
    some (RailyardManifest.codec.encode
      ((RailyardManifest.default : RailyardManifest ℤ).linkProject "web" "prj_0000000000000000"))
    else none

/-- An empty directory of a client that knows one server. -/
def webSpace : Workspace ℤ where
  disk := ⟨["etc", "railyard"], fun _ ↦ .error .notFound⟩
  cwd := ["srv", "web"]
  text := webText
  crates := Railyard.webCrates
  toLowercase := id
  createProjectJson _ := Railyard.webBody

def webMachine : Machine where
  files _ := .absent
  store := Store.empty.writeServer "prod"
    ⟨"https://host", "usr_1", ["etc", "railyard", "client", "keys", "usr_1.json"]⟩
  servers _ := Server.fresh
  sent := []

/-- Nobody is there to answer. -/
def unattended : Terminal :=
  ⟨false, fun _ ↦ .error "not a terminal", fun _ _ ↦ .error "not a terminal",
    fun _ _ ↦ .error "not a terminal"⟩

/-- `railyard init web` -/
def webInit : Invocation :=
  ⟨some "web", none, unattended, .insertion, .unsent "offline",
    .answered ⟨id, fun _ h ↦ h⟩ ⟨"usr_1", "ada", none⟩ fun _ ↦ {}⟩

theorem webSpace_rejects : webSpace.Rejects := by
  intro req rejection h
  dsimp only [webSpace, Railyard.webCrates] at h
  split at h
  · cases h
  · rw [← Except.error.inj h]
    decide

theorem init_idempotent_web :
    ∃ m', init webSpace webInit webMachine =
        (.ok (.obtained .created ⟨"prj_0000000000000000", "web", 0⟩ "prod"), m') ∧
      inits webSpace [webInit, webInit] m' =
        (List.replicate 2 (.ok (.alreadyLinked "prj_0000000000000000"
          ⟨some "prj_0000000000000000", "web"⟩ "prod")), m') := by
  have hstore : webMachine.store.NamesFiles := by
    intro name hname
    have heq : "prod" = name := by
      simpa [webMachine, Store.writeServer, Store.empty, Std.TreeMap.mem_insert,
        Std.LawfulEqOrd.compare_eq_iff_eq] using hname
    rw [← heq]
    decide
  have hlossless : ∀ opened, openManifest webSpace webInit webMachine.files = .ok opened →
      webText.Lossless (RailyardManifest.codec.encode
        (opened.manifest.linkProject "web" "prj_0000000000000000")) := by
    intro opened hopened _
    have hfresh : openManifest webSpace webInit webMachine.files =
        .ok ⟨["srv", "web", manifestFile], .default, false⟩ := rfl
    rw [← Except.ok.inj (hfresh.symm.trans hopened)]
    simp only [webText, if_true]
  obtain ⟨m', hrun⟩ : ∃ m', init webSpace webInit webMachine =
      (.ok (.obtained .created ⟨"prj_0000000000000000", "web", 0⟩ "prod"), m') := ⟨_, rfl⟩
  refine ⟨m', hrun, ?_⟩
  exact (init_idempotent webSpace webInit webMachine m' .created
    ⟨"prj_0000000000000000", "web", 0⟩ "prod" (fun _ _ h ↦ h) webSpace_rejects
    (fun _ ↦ Railyard.wellformed_fresh) hstore hlossless hrun).2.2
    [webInit, webInit] (by simp [webInit])

end Sample

end Client
