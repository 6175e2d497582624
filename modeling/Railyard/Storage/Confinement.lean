import Railyard.Data.Path
import Railyard.Storage.Requests

/-!
# What is stored, and where

Runs of the API: requests on either listener, under every interleaving of what they ask for.  Since
they follow the discipline (`Storage.Requests`), what an operation rests on holds when it is done,
whatever other requests do in between.  What is left to show is about texts and paths: an id that
was checked or drawn is a single component, so no path made of ids leaves its directory.

* `join_releaseDir`: where the directory of a release lies;
* `ApiRequest`, `careful_prog`: requests, and that they follow the discipline;
* `stored_ids_confined`: ids and names are well-formed, what is scoped to a project resolves, and
  files are written below the directories of releases only, which lie where they should and
  apart from each other.
-/

set_option autoImplicit false

namespace Railyard

open Data (IsPlain Path)
open Effects Prog

/-! ## Directories of releases -/

/-- Joining a plain component to a path goes one component further. -/
theorem join_joinPath (cwd : Path) (base : String) {component : String} (h : IsPlain component) :
    cwd.join (joinPath base component) = cwd.join base ++ [component] := by
  have hrelative : ¬ component.toList.head? = some '/' := fun hhead ↦ h.1 (List.mem_of_head? hhead)
  have hstart : ∀ cs : List Char, base ≠ "" → (base.toList ++ cs).head? = base.toList.head? := by
    intro cs hempty
    rw [List.head?_append_of_ne_nil]
    simpa using hempty
  rw [joinPath, if_neg hrelative]
  split
  · rename_i hbase
    rcases hbase with rfl | hsep
    · -- joining to nothing starts from where we are
      rw [String.empty_append, Path.join_plain cwd h]
      rfl
    · obtain ⟨cs, hcs⟩ := List.getLast?_eq_some_iff.mp hsep
      have hempty : base ≠ "" := by
        rintro rfl
        simp at hsep
      have hfollow : ∀ dir : Path, dir.follow base.toList = dir.follow cs := by
        intro dir
        rw [hcs, Path.follow_append_sep, Path.follow_nil]
      rw [Path.join, Path.join, String.toList_append, hstart _ hempty, hfollow, hcs,
        List.append_assoc, List.singleton_append, Path.follow_append_sep, Path.follow_plain _ h]
  · rename_i hbase
    have hempty : base ≠ "" := fun heq ↦ hbase (.inl heq)
    have htext : (base ++ "/" ++ component).toList = base.toList ++ '/' :: component.toList := by
      rw [String.toList_append, String.toList_append, List.append_assoc]
      rfl
    rw [Path.join, Path.join, htext, hstart _ hempty, Path.follow_append_sep,
      Path.follow_plain _ h]

/-- A text without separators that is none of the names for directories is one component. -/
theorem isPlain_of_chars {component : String} (hsep : '/' ∉ component.toList)
    (hlength : 2 < component.toList.length) : IsPlain component := by
  have hne : ∀ short : String, short.toList.length ≤ 2 → component ≠ short := by
    rintro short hshort rfl
    omega
  exact ⟨hsep, hne "" (by decide), hne "." (by decide), hne ".." (by decide)⟩

/-- So is a valid project id, whose prefix keeps it from being such a name. -/
theorem isPlain_of_isValidProjectId {id : String} (h : isValidProjectId id = true) :
    IsPlain id := by
  rw [isValidProjectId] at h
  split at h
  · rename_i hex hchars
    simp only [decide_eq_true_eq, Bool.decide_and, Bool.and_eq_true, List.all_eq_true] at h
    refine isPlain_of_chars ?_ ?_
    · rw [hchars]
      simp only [List.mem_cons, not_or]
      refine ⟨by decide, by decide, by decide, by decide, fun hsep ↦ ?_⟩
      exact absurd (h.2 '/' hsep) (by decide)
    · rw [hchars]
      simp
  · simp at h

/-- So is the id of a release. -/
theorem isPlain_of_isReleaseId {id : String} (h : isReleaseId id) : IsPlain id := by
  obtain ⟨bs, -, rfl⟩ := h
  have hchars : ("rel_" ++ Encoding.hexEncode bs).toList =
      'r' :: 'e' :: 'l' :: '_' :: (Encoding.hexEncode bs).toList := String.toList_append
  refine isPlain_of_chars ?_ ?_
  · rw [hchars]
    simp only [List.mem_cons, not_or]
    refine ⟨by decide, by decide, by decide, by decide, fun hsep ↦ ?_⟩
    have hhex := Encoding.mem_hexEncode hsep
    exact absurd hhex (by decide)
  · rw [hchars]
    simp

variable (config : Config) (crates : Crates)

/-- Three components below the directory of all releases. -/
theorem join_releaseDir (cwd : Path) {projectId id : String} (hproject : IsPlain projectId)
    (hid : IsPlain id) :
    cwd.join (releaseDir config projectId id) =
      cwd.join config.dataDir ++ ["releases", projectId, id] := by
  have hreleases : IsPlain "releases" := by
    refine isPlain_of_chars ?_ ?_ <;> decide
  rw [releaseDir, join_joinPath cwd _ hid, join_joinPath cwd _ hproject,
    join_joinPath cwd _ hreleases]
  simp

/-! ## Runs of the API -/

/-- A request, on either listener. -/
inductive ApiRequest
  | signed (req : Request)
  | admin (req : Request)

/-- What the request runs, on the listener it arrives at. -/
def ApiRequest.prog : ApiRequest → Task Response
  | signed req => (signedRoutes config crates).serve req
  | admin req => (adminRoutes config crates).serve req

/-- The API at work on some requests. -/
abbrev ApiPool := Conf Server ApiRequest Op Op.Reply Response

/-- Requests follow the discipline on both listeners. -/
theorem careful_prog (call : ApiRequest) : Careful config ∅ (call.prog config crates) := by
  cases call with
  | signed req => exact careful_signed req
  | admin req => exact careful_admin req

variable {config crates}

/-- The ids of a stored release can stand in its path. -/
theorem Wellformed.isPlain {s : Server} (h : Wellformed s) {release : ReleaseRow}
    (hrelease : release ∈ s.releases) : IsPlain release.projectId ∧ IsPlain release.id := by
  obtain ⟨hminted, p, hp, hid⟩ := h.release release hrelease
  exact ⟨hid ▸ isPlain_of_isValidProjectId (h.project p hp).1, isPlain_of_isReleaseId hminted⟩

/-- **What is stored, and where**, in every state that requests on either listener bring an empty
database to.  Ids and names are well-formed, names are unique, projects that users and releases
are scoped to exist.  Every step on the file system is in the directory of a stored release; that
directory is `releases/<project id>/<release id>` below the data directory, resolved from anywhere,
and those of different releases are not nested. -/
theorem stored_ids_confined (config : Config) (crates : Crates) {c : ApiPool}
    (h : Reaches perform (ApiRequest.prog config crates) (fun _ _ ↦ True) ⟨Server.fresh, []⟩ c) :
    Wellformed c.shared ∧
      (∀ p ∈ c.shared.projects, ∀ p' ∈ c.shared.projects, p.name = p'.name → p = p') ∧
      (∀ i f r, c.Did i ⟨.fs f, r⟩ → ∃ release ∈ c.shared.releases,
        f.In (releaseDir config release.projectId release.id)) ∧
      (∀ release ∈ c.shared.releases, IsPlain release.projectId ∧ IsPlain release.id ∧
        ∀ cwd : Path, cwd.join (releaseDir config release.projectId release.id) =
          cwd.join config.dataDir ++ ["releases", release.projectId, release.id]) ∧
      ∀ release ∈ c.shared.releases, ∀ release' ∈ c.shared.releases, release ≠ release' →
        ∀ cwd : Path, ¬ cwd.join (releaseDir config release.projectId release.id) <+:
          cwd.join (releaseDir config release'.projectId release'.id) := by
  obtain ⟨hwf, hthreads⟩ :=
    h.follows (sound_discipline config) (careful_prog config crates) wellformed_fresh
  have hdir : ∀ release ∈ c.shared.releases, IsPlain release.projectId ∧ IsPlain release.id ∧
      ∀ cwd : Path, cwd.join (releaseDir config release.projectId release.id) =
        cwd.join config.dataDir ++ ["releases", release.projectId, release.id] := by
    intro release hrelease
    obtain ⟨hproject, hid⟩ := hwf.isPlain hrelease
    exact ⟨hproject, hid, fun cwd ↦ join_releaseDir config cwd hproject hid⟩
  refine ⟨hwf, fun p hp p' hp' hname ↦ ?_, fun i f r hdid ↦ ?_, hdir, ?_⟩
  · have hkey : ProjectRow.name ∈ [ProjectRow.id, ProjectRow.name] := by simp
    exact Table.eq_of_key hkey hp hp' hname
  · obtain ⟨t, ht, he⟩ := hdid
    obtain ⟨K, hK, id, projectId, hknown, hin⟩ :=
      (hthreads t (List.mem_of_getElem? ht)).trace _ he
    obtain ⟨release, hrelease, rfl, rfl⟩ := hK _ hknown
    exact ⟨release, hrelease, hin⟩
  · intro release hrelease release' hrelease' hne cwd hnested
    rw [(hdir release hrelease).2.2, (hdir release' hrelease').2.2] at hnested
    have hsame := hnested.eq_of_length (by simp)
    have hkey : ReleaseRow.id ∈ [ReleaseRow.id] := by simp
    refine hne (Table.eq_of_key hkey hrelease hrelease' ?_)
    simpa using congrArg List.getLast? hsame

/-! ## A project with a release -/

section Sample

/-- The configuration of the run below. -/
def webConfig : Config :=
  ⟨"127.0.0.1:80", "127.0.0.1:7300", "https://host", [], "/var/lib/railyard"⟩

/-- The body that asks for a project named `web`. -/
def webBody : Bytes := Encoding.asBytes "\x7b\"name\":\"web\"\x7d"

/-- Of the bodies of requests to create a project, only that one can be read. -/
def webCrates : Crates :=
  { Crates.sample with
    jsonCreateProject := fun req ↦
      if bodyBytes req.body = some webBody then .ok ⟨"web", none⟩
      else .error missingJsonContentType }

/-- The project is created, and then a release of it. -/
def webRun : List (Act Outside ApiRequest) :=
  .spawn (.admin { method := "POST", pathAndQuery := some "/api/projects"
                   body := [.data webBody] }) ::
    List.replicate 4 (.step 0 {}) ++
  .spawn (.admin { method := "POST"
                   pathAndQuery := some "/api/projects/prj_0000000000000000/releases"
                   body := [.data [1]] }) ::
    List.replicate 14 (.step 1 {})

theorem stored_ids_confined_webRun :
    ∃ c ∈ (⟨.fresh, []⟩ : ApiPool).run? perform (ApiRequest.prog webConfig webCrates) webRun,
      c.shared.releases.rows.map ReleaseRow.id = ["rel_0000000000000000"] ∧
        Wellformed c.shared := by
  have hadm : (⟨.fresh, []⟩ : ApiPool).Admits perform (ApiRequest.prog webConfig webCrates)
      (fun _ _ ↦ True) webRun := by decide +kernel
  have hrun : ((⟨.fresh, []⟩ : ApiPool).run? perform (ApiRequest.prog webConfig webCrates)
      webRun).map (fun c ↦ c.shared.releases.rows.map ReleaseRow.id)
        = some ["rel_0000000000000000"] := by decide +kernel
  obtain ⟨c, hc, hids⟩ := Option.map_eq_some_iff.mp hrun
  refine ⟨c, hc, hids, ?_⟩
  exact (stored_ids_confined webConfig webCrates (Reaches.of_run? webRun hc hadm)).1

end Sample

end Railyard
