import Mathlib.Data.List.Infix
import Railyard.Client.Init

/-!
# The nearest manifest

Which manifest the commands act on.  `findManifest` walks up from a directory and stops at the first
one that holds a manifest under any of its spellings; `linkedProject` is the project of that
manifest, whatever lies further up.

* `Nearest`: the directory the walk stops at, said without the walk;
* `findManifest_of_nearest`: the walk answers for that directory alone;
* `picksNearest`: what is found, refused and named.
-/

set_option autoImplicit false

namespace Client

open Data (Path Float64)
open Manifest (JsonText HashOrder RailyardManifest)

/-! ## The linked project -/

/-- The project a directory belongs to. -/
structure LinkedProject where
  id : String
  name : String
  /-- Set when the manifest is in a directory above. -/
  manifestPath : Option Path
deriving DecidableEq

section Linked

variable {F : Type} [Float64 F] (text : JsonText F) (hash : HashOrder)

/-- The project a manifest names, seen from a directory, if it carries an id. -/
def projectOf (cwd path : Path) (manifest : RailyardManifest F) : Option LinkedProject :=
  manifest.project.bind fun project ↦ project.id.map fun id ↦
    ⟨id, project.name, if path.dropLast = cwd then none else some path⟩

/-- The project a directory belongs to, if any. -/
def linkedProject (files : Files) (cwd : Path) : Except Error (Option LinkedProject) :=
  match findManifest files cwd with
  | .error e => .error e
  | .ok none => .ok none
  | .ok (some (path, raw)) =>
    match parseManifest text hash path raw with
    | .error e => .error (parseErrorText e)
    | .ok manifest => .ok (projectOf cwd path manifest)

end Linked

/-! ## One directory -/

/-- Some spelling of the manifest is there. -/
def HasManifest (files : Files) (dir : Path) : Prop :=
  ∃ name ∈ manifestFiles, files (dir ++ [name]) ≠ .absent

/-- One spelling is there, readable, and no other. -/
structure OnlyManifest (files : Files) (dir : Path) (name raw : String) : Prop where
  spelling : name ∈ manifestFiles
  readable : files (dir ++ [name]) = .text raw
  alone : ∀ other ∈ manifestFiles, other ≠ name → files (dir ++ [other]) = .absent

/-- Two spellings are there, or one that cannot be read. -/
def Obstructed (files : Files) (dir : Path) : Prop :=
  (∃ name ∈ manifestFiles, ∃ other ∈ manifestFiles, name ≠ other ∧
    files (dir ++ [name]) ≠ .absent ∧ files (dir ++ [other]) ≠ .absent) ∨
      ∃ name ∈ manifestFiles, ∃ e, files (dir ++ [name]) = .unreadable e

section Directory

variable {files files' : Files} {dir : Path} {name raw : String}

theorem OnlyManifest.manifestIn (h : OnlyManifest files dir name raw) :
    manifestIn files dir = .ok (some (dir ++ [name], raw)) :=
  manifestIn_eq_some_iff.mpr ⟨name, h.spelling, rfl, h.readable, h.alone⟩

theorem not_hasManifest_iff : ¬ HasManifest files dir ↔ manifestIn files dir = .ok none := by
  rw [manifestIn_eq_none_iff, HasManifest]
  push Not
  rfl

/-- A directory with a manifest has a single one, or is no good. -/
theorem HasManifest.cases (h : HasManifest files dir) :
    (∃ name raw, OnlyManifest files dir name raw) ∨ Obstructed files dir := by
  obtain ⟨name, hname, hthere⟩ := h
  by_cases hother : ∃ other ∈ manifestFiles, name ≠ other ∧ files (dir ++ [other]) ≠ .absent
  · obtain ⟨other, hmem, hne, hthere'⟩ := hother
    exact .inr (.inl ⟨name, hname, other, hmem, hne, hthere, hthere'⟩)
  cases hfile : files (dir ++ [name]) with
  | absent => exact absurd hfile hthere
  | unreadable e => exact .inr (.inr ⟨name, hname, e, hfile⟩)
  | text raw =>
    refine .inl ⟨name, raw, hname, hfile, fun other hmem hne ↦ ?_⟩
    by_contra hthere'
    exact hother ⟨other, hmem, hne.symm, hthere'⟩

theorem OnlyManifest.not_obstructed (h : OnlyManifest files dir name raw) :
    ¬ Obstructed files dir := by
  rintro (⟨a, ha, b, hb, hne, hathere, hbthere⟩ | ⟨a, ha, e, hunreadable⟩)
  · have haname : a = name := by
      by_contra hother
      exact hathere (h.alone a ha hother)
    have hbname : b = name := by
      by_contra hother
      exact hbthere (h.alone b hb hother)
    exact hne (haname.trans hbname.symm)
  · by_cases hname : a = name
    · rw [hname, h.readable] at hunreadable
      cases hunreadable
    · rw [h.alone a ha hname] at hunreadable
      cases hunreadable

theorem HasManifest.of_obstructed (h : Obstructed files dir) : HasManifest files dir := by
  rcases h with ⟨a, ha, -, -, -, hthere, -⟩ | ⟨a, ha, e, hunreadable⟩
  · exact ⟨a, ha, hthere⟩
  · refine ⟨a, ha, ?_⟩
    rw [hunreadable]
    nofun

theorem Obstructed.manifestIn (h : Obstructed files dir) :
    ∃ e, manifestIn files dir = .error e := by
  cases hread : Client.manifestIn files dir with
  | error e => exact ⟨e, rfl⟩
  | ok found =>
    rcases found with _ | ⟨path, raw⟩
    · exact absurd (HasManifest.of_obstructed h) (not_hasManifest_iff.mpr hread)
    · obtain ⟨name, hname, rfl, hreadable, halone⟩ := manifestIn_eq_some_iff.mp hread
      exact absurd h (OnlyManifest.not_obstructed ⟨hname, hreadable, halone⟩)

/-- What a directory's manifest is depends on its own files. -/
theorem manifestIn_congr
    (h : ∀ name ∈ manifestFiles, files' (dir ++ [name]) = files (dir ++ [name])) :
    manifestIn files' dir = manifestIn files dir := by
  have hread : ∀ names : List String,
      (∀ name ∈ names, files' (dir ++ [name]) = files (dir ++ [name])) →
        readFiles files' dir names = readFiles files dir names := by
    intro names hnames
    induction names with
    | nil => rfl
    | cons name names ih =>
      obtain ⟨hname, hnames⟩ := List.forall_mem_cons.mp hnames
      simp only [readFiles, hname, ih hnames]
  simp only [manifestIn, hread manifestFiles h]

theorem hasManifest_congr
    (h : ∀ name ∈ manifestFiles, files' (dir ++ [name]) = files (dir ++ [name])) :
    HasManifest files' dir ↔ HasManifest files dir := by
  rw [← not_iff_not, not_hasManifest_iff, not_hasManifest_iff, manifestIn_congr h]

end Directory

/-! ## The walk -/

/-- The nearest directory at or above `start` with a manifest. -/
structure Nearest (files : Files) (start dir : Path) : Prop where
  above : dir <+: start
  hasManifest : HasManifest files dir
  nearest : ∀ other, other <+: start → dir.length < other.length → ¬ HasManifest files other

section Walk

variable {files files' : Files} {start up dir : Path} {component : String}

theorem findManifest_concat : findManifest files (up ++ [component]) =
    findManifestUp files (component :: up.reverse) := by
  rw [findManifest, List.reverse_append, List.reverse_singleton, List.singleton_append]

/-- Where there is no manifest, the walk goes on. -/
theorem findManifest_concat_of_not (h : ¬ HasManifest files (up ++ [component])) :
    findManifest files (up ++ [component]) = findManifest files up := by
  have hread := not_hasManifest_iff.mp h
  rw [findManifest_concat, findManifestUp, List.reverse_cons, List.reverse_reverse, hread]
  rfl

/-- Where there is one, it stops. -/
theorem findManifest_concat_of_hasManifest (h : HasManifest files (up ++ [component])) :
    findManifest files (up ++ [component]) = manifestIn files (up ++ [component]) := by
  rw [findManifest_concat, findManifestUp, List.reverse_cons, List.reverse_reverse]
  cases hread : manifestIn files (up ++ [component]) with
  | error e => rfl
  | ok found =>
    cases found with
    | none => exact absurd h (not_hasManifest_iff.mpr hread)
    | some found => rfl

/-- A directory at or above another is that one, or at or above the one it is in. -/
theorem nearest_concat_iff : Nearest files (up ++ [component]) dir ↔
    (dir = up ++ [component] ∧ HasManifest files dir) ∨
      (¬ HasManifest files (up ++ [component]) ∧ Nearest files up dir) := by
  have hlength : ∀ other : Path, other <+: up → other.length < (up ++ [component]).length := by
    intro other hother
    have hle := hother.length_le
    rw [List.length_append, List.length_singleton]
    omega
  constructor
  · rintro ⟨habove, hhas, hnearest⟩
    rcases List.prefix_concat_iff.mp habove with rfl | habove
    · exact .inl ⟨rfl, hhas⟩
    · refine .inr ⟨hnearest _ List.prefix_rfl (hlength dir habove), habove, hhas, ?_⟩
      exact fun other hother ↦ hnearest other (hother.trans (List.prefix_append _ _))
  · rintro (⟨rfl, hhas⟩ | ⟨hnone, habove, hhas, hnearest⟩)
    · refine ⟨List.prefix_rfl, hhas, fun other hother hlt ↦ ?_⟩
      exact absurd hother.length_le (Nat.not_le.mpr hlt)
    · refine ⟨habove.trans (List.prefix_append _ _), hhas, fun other hother hlt ↦ ?_⟩
      rcases List.prefix_concat_iff.mp hother with rfl | hother
      · exact hnone
      · exact hnearest other hother hlt

/-- **The walk answers for the nearest directory alone.** -/
theorem findManifest_of_nearest (h : Nearest files start dir) :
    findManifest files start = manifestIn files dir := by
  induction start using List.reverseRecOn with
  | nil =>
    rw [List.prefix_nil.mp h.above]
    rfl
  | append_singleton up component ih =>
    rcases nearest_concat_iff.mp h with ⟨rfl, hhas⟩ | ⟨hnone, hnearest⟩
    · exact findManifest_concat_of_hasManifest hhas
    · rw [findManifest_concat_of_not hnone]
      exact ih hnearest

theorem exists_nearest (habove : dir <+: start) (h : HasManifest files dir) :
    ∃ dir, Nearest files start dir := by
  induction start using List.reverseRecOn with
  | nil =>
    obtain rfl := List.prefix_nil.mp habove
    refine ⟨[], List.prefix_rfl, h, fun other hother hlt ↦ ?_⟩
    exact absurd hother.length_le (Nat.not_le.mpr hlt)
  | append_singleton up component ih =>
    by_cases hhas : HasManifest files (up ++ [component])
    · exact ⟨_, nearest_concat_iff.mpr (.inl ⟨rfl, hhas⟩)⟩
    · rcases List.prefix_concat_iff.mp habove with rfl | habove
      · exact absurd h hhas
      · obtain ⟨dir, hdir⟩ := ih habove
        exact ⟨dir, nearest_concat_iff.mpr (.inr ⟨hhas, hdir⟩)⟩

theorem findManifest_eq_none_iff :
    findManifest files start = .ok none ↔ ∀ dir, dir <+: start → ¬ HasManifest files dir := by
  constructor
  · intro hfound dir habove hhas
    obtain ⟨dir, hdir⟩ := exists_nearest habove hhas
    rw [findManifest_of_nearest hdir] at hfound
    exact not_hasManifest_iff.mpr hfound hdir.hasManifest
  · intro hnone
    induction start using List.reverseRecOn with
    | nil => exact not_hasManifest_iff.mp (hnone [] List.prefix_rfl)
    | append_singleton up component ih =>
      rw [findManifest_concat_of_not (hnone _ List.prefix_rfl)]
      exact ih fun dir habove ↦ hnone dir (habove.trans (List.prefix_append _ _))

/-- The nearest directory is told by the files at or below it. -/
theorem Nearest.congr (h : Nearest files start dir)
    (hsame : ∀ other, dir <+: other → other <+: start → ∀ name ∈ manifestFiles,
      files' (other ++ [name]) = files (other ++ [name])) : Nearest files' start dir := by
  refine ⟨h.above, (hasManifest_congr (hsame dir List.prefix_rfl h.above)).mpr h.hasManifest,
    fun other hother hlt ↦ ?_⟩
  have hbelow : dir <+: other := List.prefix_of_prefix_length_le h.above hother hlt.le
  rw [hasManifest_congr (hsame other hbelow hother)]
  exact h.nearest other hother hlt

end Walk

/-! ## What the commands act on -/

/-- What is found from `start`, and which project it is. -/
structure PicksNearest {F : Type} [Float64 F] (text : JsonText F) (hash : HashOrder) (files : Files)
    (start : Path) : Prop where
  /-- Where there is a manifest at or above, there is a nearest directory with one. -/
  exists_nearest : ∀ above, above <+: start → HasManifest files above →
    ∃ dir, Nearest files start dir
  /-- It has a single manifest or is no good. -/
  cases : ∀ dir, Nearest files start dir →
    (∃ name raw, OnlyManifest files dir name raw) ∨ Obstructed files dir
  found : ∀ dir name raw, Nearest files start dir → OnlyManifest files dir name raw →
    findManifest files start = .ok (some (dir ++ [name], raw))
  refused : ∀ dir, Nearest files start dir → Obstructed files dir →
    ∃ e, findManifest files start = .error e
  /-- Nothing further up matters. -/
  unaffected : ∀ dir, Nearest files start dir → ∀ files' : Files,
    (∀ other, dir <+: other → other <+: start → ∀ name ∈ manifestFiles,
      files' (other ++ [name]) = files (other ++ [name])) →
    findManifest files' start = findManifest files start ∧
      linkedProject text hash files' start = linkedProject text hash files start
  none_iff : findManifest files start = .ok none ↔
    ∀ above, above <+: start → ¬ HasManifest files above
  /-- The project is that of the manifest found, also where this one names none. -/
  linked : ∀ dir name raw manifest, Nearest files start dir → OnlyManifest files dir name raw →
    parseManifest text hash (dir ++ [name]) raw = .ok manifest →
    linkedProject text hash files start = .ok (projectOf start (dir ++ [name]) manifest)
  /-- There is no other way to a project. -/
  linked_only : ∀ project, linkedProject text hash files start = .ok (some project) →
    ∃ dir name raw manifest, Nearest files start dir ∧ OnlyManifest files dir name raw ∧
      parseManifest text hash (dir ++ [name]) raw = .ok manifest ∧
      projectOf start (dir ++ [name]) manifest = some project

section Picks

variable {F : Type} [Float64 F] {files : Files} {start dir path : Path} {name raw : String}

theorem findManifest_eq_some (h : findManifest files start = .ok (some (path, raw))) :
    ∃ dir name, path = dir ++ [name] ∧ Nearest files start dir ∧
      OnlyManifest files dir name raw := by
  have hhas : ∃ above, above <+: start ∧ HasManifest files above := by
    by_contra hnone
    push Not at hnone
    rw [findManifest_eq_none_iff.mpr hnone] at h
    cases h
  obtain ⟨above, habove, hhas⟩ := hhas
  obtain ⟨dir, hdir⟩ := Client.exists_nearest habove hhas
  rw [findManifest_of_nearest hdir] at h
  obtain ⟨name, hname, rfl, hreadable, halone⟩ := manifestIn_eq_some_iff.mp h
  exact ⟨dir, name, rfl, hdir, hname, hreadable, halone⟩

/-- **Discovery picks the nearest manifest and nothing else**, from every directory of every file
system. -/
theorem picksNearest (text : JsonText F) (hash : HashOrder) (files : Files) (start : Path) :
    PicksNearest text hash files start where
  exists_nearest _ habove hhas := Client.exists_nearest habove hhas
  cases _ hdir := hdir.hasManifest.cases
  found _ _ _ hdir honly := (findManifest_of_nearest hdir).trans honly.manifestIn
  refused dir hdir hobstructed := by
    rw [findManifest_of_nearest hdir]
    exact hobstructed.manifestIn
  unaffected dir hdir files' hsame := by
    have hfound : findManifest files' start = findManifest files start := by
      rw [findManifest_of_nearest hdir, findManifest_of_nearest (hdir.congr hsame),
        manifestIn_congr (hsame dir List.prefix_rfl hdir.above)]
    exact ⟨hfound, by simp only [linkedProject, hfound]⟩
  none_iff := findManifest_eq_none_iff
  linked dir name raw manifest hdir honly hparse := by
    have hfound := (findManifest_of_nearest hdir).trans honly.manifestIn
    simp only [linkedProject, hfound, hparse]
  linked_only project hlinked := by
    rw [linkedProject] at hlinked
    split at hlinked
    · cases hlinked
    · cases hlinked
    · rename_i path raw hfound
      split at hlinked
      · cases hlinked
      · rename_i manifest hparse
        obtain ⟨dir, name, rfl, hdir, honly⟩ := findManifest_eq_some hfound
        exact ⟨dir, name, raw, manifest, hdir, honly, hparse, Except.ok.inj hlinked⟩

end Picks

end Client
