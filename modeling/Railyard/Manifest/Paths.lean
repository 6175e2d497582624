import Mathlib.Data.List.Infix
import Railyard.Data.Path
import Railyard.Manifest.References

/-!
# The paths of an accepted manifest

A manifest names files and directories: the directory of a service, in the manifest's own directory
or in a linked repository, the files of its environment, and the Dockerfile it is built from, which
is looked up from the directory of the service.

* `checked_path_stays`: what validation promises of a path it checks.
* `paths_stay_iff`: the paths of an accepted manifest stay inside when the Dockerfiles do, which are
  not checked.
-/

set_option autoImplicit false

namespace Manifest

open Data

variable {F : Type} [Float64 F] {hash : HashOrder} {manifest : RailyardManifest F}

/-! ## Paths that stay inside -/

/-- A relative path that, followed from a directory, does not leave the one the directory is
relative to. -/
def StaysInside (directory path : String) : Prop :=
  path.toList.head? ≠ some '/' ∧ Inside (components directory ++ components path)

/-- The directory of a service, within the manifest's or within the linked repository. -/
def Service.directory (service : Service F) : String :=
  (service.path <|> service.github.bind ServiceGithub.path).getD ""

/-- The paths of a service stay inside. -/
structure Service.PathsStay (service : Service F) : Prop where
  path : ∀ path ∈ service.path, StaysInside "" path
  envFiles : ∀ file ∈ service.envFiles, StaysInside "" file
  github : ∀ github ∈ service.github, ∀ path ∈ github.path, StaysInside "" path
  dockerfile : ∀ build ∈ service.build, ∀ dockerfile ∈ build.dockerfile,
    StaysInside service.directory dockerfile

/-! ## Paths that are checked -/

/-- A path that passes its check is relative and does not climb. -/
theorem checkRelativePath_eq_nil {at_ path : String} (h : checkRelativePath at_ path = []) :
    path.toList.head? ≠ some '/' ∧ ".." ∉ components path := by
  rw [checkRelativePath] at h
  split at h
  · simp at h
  · rename_i hrelative
    refine ⟨hrelative, fun hmem ↦ ?_⟩
    obtain ⟨chars, hchars, htext⟩ := List.mem_map.mp hmem
    obtain rfl : chars = ['.', '.'] := by simpa using congrArg String.toList htext
    rw [check_eq_nil, List.any_eq_false] at h
    exact absurd (decide_eq_true rfl) (h _ hchars)

/-- **A path that is checked stays inside.** -/
theorem checked_path_stays {at_ path : String} (h : checkRelativePath at_ path = []) :
    StaysInside "" path := by
  obtain ⟨hrelative, hclimb⟩ := checkRelativePath_eq_nil h
  refine ⟨hrelative, inside_of_not_mem ?_⟩
  rw [List.mem_append, not_or]
  exact ⟨by decide, hclimb⟩

/-- The directory of a service does not climb. -/
theorem directory_not_climbing (h : validate hash manifest = []) {name : String}
    {service : Service F} (hservice : (name, service) ∈ manifest.services.entries) :
    ".." ∉ components service.directory := by
  have hpasses := service_passes h hservice
  rw [Service.directory]
  cases hp : service.path with
  | some path => exact (checkRelativePath_eq_nil (hpasses.path path hp)).2
  | none =>
    cases hg : service.github.bind ServiceGithub.path with
    | none => decide
    | some path =>
      obtain ⟨github, hgithub, hpath⟩ := Option.bind_eq_some_iff.mp hg
      exact (checkRelativePath_eq_nil (hpasses.github github hgithub path hpath)).2

/-! ## The Dockerfile -/

/-- A Dockerfile that is named relative to the directory of its service, and on no part of the way
to which one climbs more often than one has descended, the way to that directory included. -/
def DockerfileStays (service : Service F) (dockerfile : String) : Prop :=
  dockerfile.toList.head? ≠ some '/' ∧ ∀ before, before <+: components dockerfile →
    ups before ≤ downs (components service.directory) + downs before

omit [Float64 F] in
theorem staysInside_iff {service : Service F} (hclimb : ".." ∉ components service.directory)
    {dockerfile : String} :
    StaysInside service.directory dockerfile ↔ DockerfileStays service dockerfile := by
  have hzero : ∀ {before : List String}, before <+: components service.directory →
      ups before = 0 :=
    fun hbefore ↦ List.count_eq_zero.mpr fun hmem ↦ hclimb (hbefore.mem hmem)
  have hcount : ∀ before, ups (components service.directory ++ before) = ups before ∧
      downs (components service.directory ++ before) =
        downs (components service.directory) + downs before := by
    intro before
    have hdirectory := hzero List.prefix_rfl
    rw [ups] at hdirectory
    simp [ups, downs, hdirectory]
  rw [StaysInside, DockerfileStays, inside_iff, and_congr_right_iff]
  intro _
  constructor
  · intro hinside before hbefore
    have hle := hinside _ ((List.prefix_append_right_inj _).mpr hbefore)
    rwa [(hcount before).1, (hcount before).2] at hle
  · intro hstays before hbefore
    obtain ⟨after, happend⟩ := hbefore
    rcases List.append_eq_append_iff.mp happend with ⟨rest, hwithin, -⟩ | ⟨rest, rfl, hrest⟩
    · rw [hzero ⟨rest, hwithin.symm⟩]
      exact Nat.zero_le _
    · rw [(hcount rest).1, (hcount rest).2]
      exact hstays rest ⟨after, hrest.symm⟩

/-- **When the paths of an accepted manifest stay inside.**  They do exactly when every Dockerfile
does: its path is the only one that is not checked. -/
theorem paths_stay_iff (hash : HashOrder) (manifest : RailyardManifest F)
    (h : validate hash manifest = []) :
    (∀ name service, (name, service) ∈ manifest.services.entries → service.PathsStay) ↔
      ∀ name service, (name, service) ∈ manifest.services.entries → ∀ build ∈ service.build,
        ∀ dockerfile ∈ build.dockerfile, DockerfileStays service dockerfile := by
  refine forall₃_congr fun name service hservice ↦ ?_
  have hclimb := directory_not_climbing h hservice
  constructor
  · intro hpaths build hbuild dockerfile hdockerfile
    exact (staysInside_iff hclimb).mp (hpaths.dockerfile build hbuild dockerfile hdockerfile)
  · intro hdockerfiles
    have hpasses := service_passes h hservice
    refine ⟨fun path hmem ↦ ?_, fun file hmem ↦ ?_, fun github hmem path hmem' ↦ ?_, ?_⟩
    · exact checked_path_stays (hpasses.path path hmem)
    · exact checked_path_stays (hpasses.envFiles file hmem)
    · exact checked_path_stays (hpasses.github github hmem path hmem')
    · intro build hbuild dockerfile hdockerfile
      exact (staysInside_iff hclimb).mpr (hdockerfiles build hbuild dockerfile hdockerfile)

/-- A manifest with one service, built from a directory with a Dockerfile. -/
def built (dockerfile : String) : RailyardManifest ℤ :=
  { (RailyardManifest.default : RailyardManifest ℤ) with
    services := .ofList [("api", { (Service.default : Service ℤ) with
      path := some "services/api", build := some ⟨some dockerfile, .empty, none⟩ })] }

/-- A Dockerfile above the directory of the manifest is accepted. -/
theorem built_accepted :
    validate .insertion (built "../../../other/Dockerfile") = [] ∧
      ¬ ∀ name service, (name, service) ∈ (built "../../../other/Dockerfile").services.entries →
        service.PathsStay := by
  refine ⟨by decide, fun hall ↦ ?_⟩
  have hinside := ((hall "api" _ List.mem_cons_self).dockerfile _ rfl _ rfl).2
  have hle := inside_iff.mp hinside ["services", "api", "..", "..", ".."] (by decide)
  exact absurd hle (by decide)

theorem paths_stay_iff_built :
    validate .insertion (built "../Dockerfile") = [] ∧
      ∀ name service, (name, service) ∈ (built "../Dockerfile").services.entries →
        service.PathsStay := by
  have hvalid : validate .insertion (built "../Dockerfile") = [] := by decide
  refine ⟨hvalid, (paths_stay_iff .insertion (built "../Dockerfile") hvalid).mpr ?_⟩
  intro name service hservice build hbuild dockerfile hdockerfile
  obtain ⟨rfl, rfl⟩ := Prod.mk.inj (List.mem_singleton.mp hservice)
  obtain rfl := Option.some.inj hbuild
  obtain rfl := Option.some.inj hdockerfile
  refine ⟨by decide, fun before hbefore ↦ ?_⟩
  have hall : ∀ before ∈ (components "../Dockerfile").inits,
      ups before ≤ downs (components "services/api") + downs before := by decide
  exact hall before ((List.mem_inits before _).mpr hbefore)

end Manifest
