import Railyard.Graphs.CycleSearch
import Railyard.Manifest.Model
import Railyard.Manifest.Reference

/-!
# Validation of a manifest

`validate` collects every error of a manifest, in the order of the source: those of the project
and the repository, those of each service, and last a cycle among the references of environment
variables.  A manifest is accepted when there is none.

The cycle search starts from the keys of a hash map, whose iteration order is not determined; it
is an argument of `validate`.
-/

set_option autoImplicit false

namespace Manifest

open Data Encoding

/-- An error and the field it is about. -/
structure ValidationError where
  path : String
  message : String
deriving DecidableEq, Repr

/-- An error where something is wrong. -/
def check (wrong : Bool) (path message : String) : List ValidationError :=
  if wrong then [⟨path, message⟩] else []

@[simp]
theorem check_eq_nil {wrong : Bool} {path message : String} :
    check wrong path message = [] ↔ wrong = false := by
  cases wrong <;> simp [check]

theorem mem_check {wrong : Bool} {path message : String} {error : ValidationError}
    (h : error ∈ check wrong path message) : error = ⟨path, message⟩ := by
  cases wrong
  · simp [check] at h
  · exact List.mem_singleton.mp h

/-- An order in which a hash map may list its keys. -/
structure HashOrder where
  /-- The keys of the map, as they are iterated. -/
  order : List String → List String
  perm : ∀ keys, (order keys).Perm keys

/-- The order in which the keys were inserted. -/
def HashOrder.insertion : HashOrder := ⟨id, fun keys ↦ .refl keys⟩

/-! ## Checks of single values -/

/-- A lowercase DNS label. -/
def isValidName (name : String) : Bool :=
  name ≠ "" ∧ name.utf8ByteSize ≤ 63 ∧
    (name.toList.all fun c ↦ ('a' ≤ c ∧ c ≤ 'z') ∨ c.isDigit ∨ c = '-') ∧
    name.toList.head? ≠ some '-' ∧ name.toList.getLast? ≠ some '-'

/-- Digits with a unit. -/
def isValidMemory (memory : String) : Bool :=
  match ["Mi", "Gi", "M", "G"].findSome? fun suffix ↦ stripSuffix suffix memory with
  | some number => number ≠ "" ∧ number.toList.all Char.isDigit
  | none => false

/-- `owner/name`. -/
def isValidRepo (repo : String) : Bool :=
  match splitOnce ['/'] repo.toList with
  | some (owner, name) => owner ≠ [] ∧ name ≠ [] ∧ '/' ∉ name
  | none => false

/-- A repository is written `owner/name`. -/
def checkRepo (path repo : String) : List ValidationError :=
  check (!isValidRepo repo) path ("`" ++ repo ++ "` is not an `owner/name` GitHub repo")

/-- A path neither starts at the root nor climbs. -/
def checkRelativePath (at_ path : String) : List ValidationError :=
  if path.toList.head? = some '/' then
    [⟨at_, "`" ++ path ++ "` must be relative to the manifest file"⟩]
  else check ((path.toList.splitOn '/').any (· = ['.', '.'])) at_
    ("`" ++ path ++ "` must not escape the manifest file's directory (`..`)")

variable {F : Type}

/-! ## References -/

/-- Whether a reference needs the port of its service. -/
def Reference.needsPort : Reference → Bool
  | .servicePort _ | .serviceUrl _ => true
  | _ => false

/-- A reference names a service, with a port where it needs one. -/
def checkReference (manifest : RailyardManifest F) (path : String) (reference : Reference) :
    List ValidationError :=
  match reference.service with
  | none => []
  | some target =>
    match manifest.services.get target with
    | none => [⟨path, "references unknown service `" ++ target ++ "`"⟩]
    | some service =>
      check (reference.needsPort ∧ service.port.isNone) path
        ("`" ++ target ++ "` must declare `port` to be referenced by port/url")

/-- Every reference of an environment value parses and passes its check. -/
def checkEnv (manifest : RailyardManifest F) (name key value : String) : List ValidationError :=
  let path := "services." ++ name ++ ".env." ++ key
  match parseReferences value with
  | .error invalid => [⟨path, invalid⟩]
  | .ok references => references.flatMap (checkReference manifest path)

/-! ## Services -/

/-- A service does not depend on itself, nor on one that is not declared. -/
def checkDependency (manifest : RailyardManifest F) (name dependency : String) :
    List ValidationError :=
  let path := "services." ++ name ++ ".dependsOn"
  if dependency = name then [⟨path, "a service cannot depend on itself"⟩]
  else check (!manifest.services.containsKey dependency) path
    ("unknown service `" ++ dependency ++ "`")

/-- The checks of `scale`. -/
def checkScale (name : String) (service : Service F) (scale : Scale) : List ValidationError :=
  let root := "services." ++ name ++ ".scale"
  check (scale.replicas.isSome ∧ scale.autoscale.isSome) root
    "`replicas` and `autoscale` are mutually exclusive" ++
  check (scale.replicas = some 0) (root ++ ".replicas") "must be at least 1" ++
  (match scale.autoscale with
  | none => []
  | some autoscale =>
    check (autoscale.min < 1 ∨ autoscale.max < autoscale.min) (root ++ ".autoscale")
      "`min` must be >= 1 and `max` >= `min`" ++
    check (autoscale.targetCpuPercent.any fun target ↦ target < 1 ∨ 100 < target)
      (root ++ ".autoscale.targetCpuPercent") "must be between 1 and 100") ++
  check (((scale.replicas.any fun replicas ↦ 1 < replicas) ∨
      (scale.autoscale.any fun autoscale ↦ 1 < autoscale.max)) ∧ !service.volumes.isEmpty) root
    ("services with volumes are pinned to 1 replica — " ++
      "two containers must never share a volume")

/-- The errors of one service. -/
def validateService [Float64 F] (manifest : RailyardManifest F) (name : String)
    (service : Service F) : List ValidationError :=
  let root := "services." ++ name
  let at_ := fun field ↦ root ++ "." ++ field
  check (!isValidName name) root
    ("service names must be lowercase DNS labels (a-z, 0-9, hyphens; max 63 chars) — " ++
      "the name is the internal hostname") ++
  check (([service.path.isSome, service.image.isSome, service.github.isSome].filter id).length ≠ 1)
    root "a service needs exactly one source: `path`, `image`, or `github`" ++
  service.path.toList.flatMap (checkRelativePath (at_ "path")) ++
  service.github.toList.flatMap (fun github ↦
    checkRepo (at_ "github.repo") github.repo ++
    github.path.toList.flatMap (checkRelativePath (at_ "github.path"))) ++
  check (service.build.isSome ∧ service.image.isSome) (at_ "build")
    "`build` does not apply to `image` services — there is nothing to build" ++
  service.envFiles.flatMap (checkRelativePath (at_ "envFiles")) ++
  check (service.isPublic ∧ service.port.isNone) (at_ "port")
    "`port` is required when a service is public — the proxy needs an upstream" ++
  check (service.port = some 0) (at_ "port") "port cannot be 0" ++
  service.healthcheck.toList.flatMap (fun healthcheck ↦
    check (healthcheck.path.toList.head? ≠ some '/') (at_ "healthcheck.path")
      "must start with `/`" ++
    check (healthcheck.timeout = some 0 ∨ healthcheck.interval = some 0) (at_ "healthcheck")
      "`timeout` and `interval` must be at least 1 second") ++
  check (service.cron.any fun cron ↦ (splitWhitespace cron).length ≠ 5) (at_ "cron")
    "expected a 5-field cron expression (minute hour day month weekday)" ++
  service.dependsOn.flatMap (checkDependency manifest name) ++
  service.volumes.values.flatMap (fun mountPath ↦
    check (mountPath.toList.head? ≠ some '/') (at_ "volumes")
      ("mount path `" ++ mountPath ++ "` must be absolute")) ++
  service.scale.toList.flatMap (checkScale name service) ++
  check (service.strategy = some .rolling ∧ !service.volumes.isEmpty) (at_ "strategy")
    "services with volumes cannot roll — use `recreate` (or omit `strategy`)" ++
  service.resources.toList.flatMap (fun resources ↦
    check (resources.cpu.any Float64.nonpos) (at_ "resources.cpu") "must be greater than 0" ++
    resources.memory.toList.flatMap fun memory ↦
      check (!isValidMemory memory) (at_ "resources.memory")
        ("`" ++ memory ++ "` is not a valid size — use forms like `512Mi` or `1Gi`")) ++
  service.env.entries.flatMap (fun (key, value) ↦ checkEnv manifest name key value)

/-! ## Cycles of references -/

/-- The declared services whose variables the environment of a service refers to. -/
def envTargets (manifest : RailyardManifest F) (service : Service F) : List String :=
  service.env.values.flatMap fun value ↦
    match parseReferences value with
    | .error _ => []
    | .ok references => references.filterMap fun reference ↦
      match reference with
      | .serviceEnv target _ =>
        if manifest.services.containsKey target then some target else none
      | _ => none

/-- The targets of a service's references, as the hash map `edges` lists them. -/
def envEdges (manifest : RailyardManifest F) (name : String) : List String :=
  ((manifest.services.get name).map (envTargets manifest)).getD []

/-- The keys of `edges`: the services with at least one target. -/
def envEdgeKeys (manifest : RailyardManifest F) : List String :=
  manifest.services.keys.filter fun name ↦ envEdges manifest name ≠ []

/-- Search for a cycle of services whose variables refer to each other.  The search meets each
service at most once, so one unit of fuel more than there are services is enough for it. -/
def findEnvReferenceCycle (hash : HashOrder) (manifest : RailyardManifest F) :
    Option (List String) :=
  match CycleSearch.search (envEdges manifest) (manifest.services.keys.length + 1)
      (hash.order (envEdgeKeys manifest)) with
  | some (.error cycle) => some cycle
  | _ => none

/-! ## The manifest as a whole -/

/-- Every error of a manifest. -/
def validate [Float64 F] (hash : HashOrder) (manifest : RailyardManifest F) :
    List ValidationError :=
  manifest.project.toList.flatMap (fun project ↦
    check (!isValidName project.name) "project.name"
      ("must be a lowercase DNS label (a-z, 0-9, hyphens; max 63 chars) — " ++
        "it is used in generated hostnames")) ++
  manifest.github.toList.flatMap (fun github ↦ checkRepo "github.repo" github.repo) ++
  manifest.services.entries.flatMap (fun (name, service) ↦
    validateService manifest name service) ++
  (findEnvReferenceCycle hash manifest).toList.map fun cycle ↦
    ⟨"services", "environment variable references form a cycle: " ++ " -> ".intercalate cycle⟩

/-! ## What the errors are about -/

/-- A path at or below another. -/
def Below (root path : String) : Prop := ∃ rest, path = root ++ rest

/-- Every error is about a field at or below `root`. -/
def AllBelow (root : String) (errors : List ValidationError) : Prop :=
  ∀ error ∈ errors, Below root error.path

section Below

variable {root path message : String} {errors errors' : List ValidationError}

@[simp]
theorem below_self (root : String) : Below root root := ⟨"", by simp⟩

@[simp]
theorem below_append (root rest : String) : Below root (root ++ rest) := ⟨rest, rfl⟩

@[simp]
theorem below_append_append (root rest rest' : String) : Below root (root ++ rest ++ rest') :=
  ⟨rest ++ rest', String.append_assoc ..⟩

@[simp]
theorem allBelow_nil : AllBelow root [] := by simp [AllBelow]

@[simp]
theorem allBelow_singleton : AllBelow root [⟨path, message⟩] ↔ Below root path := by
  simp [AllBelow]

@[simp]
theorem allBelow_append :
    AllBelow root (errors ++ errors') ↔ AllBelow root errors ∧ AllBelow root errors' := by
  simp [AllBelow, or_imp, forall_and]

@[simp]
theorem allBelow_flatMap {A : Type} {l : List A} {f : A → List ValidationError} :
    AllBelow root (l.flatMap f) ↔ ∀ a ∈ l, AllBelow root (f a) := by
  simp only [AllBelow, List.mem_flatMap]
  grind

theorem allBelow_check {wrong : Bool} (h : Below root path) :
    AllBelow root (check wrong path message) := by
  cases wrong <;> simp [check, h]

theorem allBelow_relativePath (h : Below root path) (file : String) :
    AllBelow root (checkRelativePath path file) := by
  rw [checkRelativePath]
  split
  · simpa using h
  · exact allBelow_check h

theorem allBelow_dependency (manifest : RailyardManifest F) (name dependency : String) :
    AllBelow ("services." ++ name) (checkDependency manifest name dependency) := by
  rw [checkDependency]
  split
  · simp
  · exact allBelow_check (below_append ..)

theorem allBelow_scale (name : String) (service : Service F) (scale : Scale) :
    AllBelow ("services." ++ name) (checkScale name service scale) := by
  unfold checkScale
  cases scale.autoscale <;> simp [allBelow_check]

theorem allBelow_env (manifest : RailyardManifest F) (name key value : String) :
    AllBelow ("services." ++ name) (checkEnv manifest name key value) := by
  rw [checkEnv]
  split
  · simp
  · rw [allBelow_flatMap]
    intro reference _
    rw [checkReference]
    split
    · exact allBelow_nil
    · split
      · simp
      · exact allBelow_check (below_append_append ..)

/-- Every error of a service is about the service or one of its fields. -/
theorem validateService_below [Float64 F] (manifest : RailyardManifest F) (name : String)
    (service : Service F) :
    AllBelow ("services." ++ name) (validateService manifest name service) := by
  simp [validateService, allBelow_check, allBelow_relativePath, allBelow_dependency,
    allBelow_scale, allBelow_env, checkRepo]

/-- Only a cycle of references is an error about the services as a whole. -/
theorem mem_validate_services [Float64 F] {hash : HashOrder} {manifest : RailyardManifest F}
    {error : ValidationError} :
    (error ∈ validate hash manifest ∧ error.path = "services") ↔
      ∃ cycle, findEnvReferenceCycle hash manifest = some cycle ∧
        error = ⟨"services", "environment variable references form a cycle: " ++
          " -> ".intercalate cycle⟩ := by
  constructor
  · rintro ⟨hmem, hpath⟩
    simp only [validate, List.mem_append, List.mem_map, Option.mem_toList, List.mem_flatMap] at hmem
    rcases hmem with ((⟨project, -, h⟩ | ⟨github, -, h⟩) | ⟨⟨name, service⟩, -, h⟩) |
      ⟨cycle, hcycle, rfl⟩
    · obtain rfl := mem_check h
      exact absurd hpath (by decide : "project.name" ≠ "services")
    · obtain rfl := mem_check h
      exact absurd hpath (by decide : "github.repo" ≠ "services")
    · obtain ⟨rest, hrest⟩ := validateService_below manifest name service error h
      have hlength := congrArg (fun path : String ↦ path.toList.length) (hpath.symm.trans hrest)
      simp at hlength
    · exact ⟨cycle, hcycle, rfl⟩
  · rintro ⟨cycle, hcycle, rfl⟩
    refine ⟨?_, rfl⟩
    simp only [validate, List.mem_append, List.mem_map, Option.mem_toList]
    exact .inr ⟨cycle, hcycle, rfl⟩

end Below

/-! ## What acceptance says -/

section Accepted

variable [Float64 F] {hash : HashOrder} {manifest : RailyardManifest F}

theorem validateService_eq_nil (h : validate hash manifest = []) {name : String}
    {service : Service F} (hmem : (name, service) ∈ manifest.services.entries) :
    validateService manifest name service = [] := by
  simp only [validate, List.append_eq_nil_iff, List.flatMap_eq_nil_iff] at h
  exact h.1.2 (name, service) hmem

theorem findEnvReferenceCycle_eq_none (h : validate hash manifest = []) :
    findEnvReferenceCycle hash manifest = none := by
  simp only [validate, List.append_eq_nil_iff, List.map_eq_nil_iff] at h
  exact Option.toList_eq_nil_iff.mp h.2

/-- The parts of a service that pass a check of their own. -/
structure ServicePasses (manifest : RailyardManifest F) (name : String) (service : Service F) :
    Prop where
  path : ∀ path ∈ service.path, checkRelativePath ("services." ++ name ++ "." ++ "path") path = []
  github : ∀ github ∈ service.github, ∀ path ∈ github.path,
    checkRelativePath ("services." ++ name ++ "." ++ "github.path") path = []
  envFiles : ∀ file ∈ service.envFiles,
    checkRelativePath ("services." ++ name ++ "." ++ "envFiles") file = []
  dependsOn : ∀ dependency ∈ service.dependsOn, checkDependency manifest name dependency = []
  scale : ∀ scale ∈ service.scale, checkScale name service scale = []
  env : ∀ entry ∈ service.env.entries, checkEnv manifest name entry.1 entry.2 = []

/-- The services of an accepted manifest pass. -/
theorem service_passes (h : validate hash manifest = []) {name : String} {service : Service F}
    (hservice : (name, service) ∈ manifest.services.entries) :
    ServicePasses manifest name service := by
  have hnil := validateService_eq_nil h hservice
  simp only [validateService, List.append_eq_nil_iff, List.flatMap_eq_nil_iff,
    Option.mem_toList] at hnil
  -- the parts in the order in which they are checked, the last one outermost
  obtain ⟨⟨⟨⟨hchecks, hscale⟩, -⟩, -⟩, henv⟩ := hnil
  obtain ⟨⟨⟨⟨⟨⟨hsource, -⟩, -⟩, -⟩, -⟩, hdependsOn⟩, -⟩ := hchecks
  obtain ⟨⟨⟨⟨-, hpath⟩, hgithub⟩, -⟩, henvFiles⟩ := hsource
  exact ⟨hpath, fun github hmem ↦ (hgithub github hmem).2, henvFiles, hdependsOn, hscale, henv⟩

theorem checkEnv_eq_nil (h : validate hash manifest = []) {name key value : String}
    {service : Service F} (hservice : (name, service) ∈ manifest.services.entries)
    (hvalue : (key, value) ∈ service.env.entries) : checkEnv manifest name key value = [] :=
  (service_passes h hservice).env (key, value) hvalue

theorem checkDependency_eq_nil (h : validate hash manifest = []) {name dependency : String}
    {service : Service F} (hservice : (name, service) ∈ manifest.services.entries)
    (hdependency : dependency ∈ service.dependsOn) :
    checkDependency manifest name dependency = [] :=
  (service_passes h hservice).dependsOn dependency hdependency

end Accepted

end Manifest
