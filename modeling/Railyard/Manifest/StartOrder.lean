import Railyard.Manifest.Validate

/-!
# Starting the services of an accepted manifest in order

A service is started after the services in its `dependsOn`.  Validation looks at one dependency
at a time: it must not be the service itself and must be declared.  It does not search for longer
cycles, as it does for the references of variables.

* `start_order_iff`: an accepted manifest can be started in order exactly when that search, made
  over `dependsOn`, reports nothing.
* `mutual_accepted`: two services that depend on each other are accepted.
-/

set_option autoImplicit false

namespace Manifest

open Data

variable {F : Type}

/-- The first service waits for the second. -/
def DependsOn (manifest : RailyardManifest F) (name dependency : String) : Prop :=
  ∃ service, manifest.services.get name = some service ∧ dependency ∈ service.dependsOn

/-- The services a service waits for. -/
def dependencies (manifest : RailyardManifest F) (name : String) : List String :=
  ((manifest.services.get name).map Service.dependsOn).getD []

theorem mem_dependencies {manifest : RailyardManifest F} {name dependency : String} :
    dependency ∈ dependencies manifest name ↔ DependsOn manifest name dependency := by
  cases hget : manifest.services.get name <;> simp [dependencies, DependsOn, hget]

/-- The cycle search of the references, made over the dependencies. -/
def findDependencyCycle (manifest : RailyardManifest F) : Option (List String) :=
  match CycleSearch.search (dependencies manifest) (manifest.services.keys.length + 1)
      manifest.services.keys with
  | some (.error cycle) => some cycle
  | _ => none

/-- An order of all services in which each comes after everything it depends on. -/
def StartOrder (manifest : RailyardManifest F) (order : List String) : Prop :=
  order.Perm manifest.services.keys ∧
    ∀ before name after, order = before ++ name :: after →
      ∀ dependency, DependsOn manifest name dependency → dependency ∈ before

section Accepted

variable [Float64 F] {hash : HashOrder} {manifest : RailyardManifest F}

/-- What validation does check of a dependency. -/
theorem dependsOn_accepted (h : validate hash manifest = []) {name dependency : String}
    (hdepends : DependsOn manifest name dependency) :
    dependency ≠ name ∧ dependency ∈ manifest.services.keys := by
  obtain ⟨service, hget, hmem⟩ := hdepends
  have hnil := checkDependency_eq_nil h (IndexMap.get_eq_some_iff.mp hget) hmem
  rw [checkDependency] at hnil
  split at hnil
  · simp at hnil
  · rename_i hne
    exact ⟨hne, IndexMap.containsKey_iff.mp (by simpa using hnil)⟩

theorem exists_startOrder (h : validate hash manifest = [])
    (hwf : WellFounded fun dependency name ↦ dependency ∈ dependencies manifest name) :
    ∃ order, StartOrder manifest order := by
  obtain ⟨order, hperm, hpair⟩ := CycleSearch.exists_order hwf manifest.services.keys
  refine ⟨order, hperm, fun before name after heq dependency hdepends ↦ ?_⟩
  obtain ⟨hne, hkey⟩ := dependsOn_accepted h hdepends
  have hmem := hperm.mem_iff.mpr hkey
  rw [heq, List.mem_append, List.mem_cons] at hmem
  rw [heq, List.pairwise_append, List.pairwise_cons] at hpair
  rcases hmem with hbefore | hself | hafter
  · exact hbefore
  · exact absurd hself hne
  · exact absurd (mem_dependencies.mpr hdepends) (hpair.2.1.1 dependency hafter)

theorem search_ok_iff_findDependencyCycle (h : validate hash manifest = []) :
    (∃ s, CycleSearch.search (dependencies manifest) (manifest.services.keys.length + 1)
      manifest.services.keys = some (.ok s)) ↔ findDependencyCycle manifest = none := by
  have hclosed : ∀ name ∈ manifest.services.keys, ∀ dependency ∈ dependencies manifest name,
      dependency ∈ manifest.services.keys :=
    fun _ _ _ hmem ↦ (dependsOn_accepted h (mem_dependencies.mp hmem)).2
  have hsome := CycleSearch.search_isSome hclosed (fun _ ↦ id) (Nat.lt_succ_self _)
  obtain ⟨outcome, houtcome⟩ := Option.isSome_iff_exists.mp hsome
  rw [findDependencyCycle, houtcome]
  cases outcome <;> simp

end Accepted

/-- **An accepted manifest can be started in order exactly when the depth-first search finds no
cycle among its `dependsOn` lists.** -/
theorem start_order_iff [Float64 F] (hash : HashOrder) (manifest : RailyardManifest F)
    (h : validate hash manifest = []) :
    ((∀ name, ¬ Relation.TransGen (DependsOn manifest) name name) ∧
      ∃ order, StartOrder manifest order) ↔ findDependencyCycle manifest = none := by
  have hrel : (fun a b ↦ b ∈ dependencies manifest a) = DependsOn manifest :=
    funext₂ fun _ _ ↦ propext mem_dependencies
  have hroots : ∀ name, dependencies manifest name ≠ [] → name ∈ manifest.services.keys := by
    intro name hne
    cases hget : manifest.services.get name with
    | none => simp [dependencies, hget] at hne
    | some service => exact IndexMap.mem_keys_of_get hget
  have hclosed : ∀ name ∈ manifest.services.keys, ∀ dependency ∈ dependencies manifest name,
      dependency ∈ manifest.services.keys :=
    fun _ _ _ hmem ↦ (dependsOn_accepted h (mem_dependencies.mp hmem)).2
  have hsearch := CycleSearch.search_ok_iff hclosed (fun _ ↦ id) hroots (Nat.lt_succ_self _)
  rw [hrel, search_ok_iff_findDependencyCycle h] at hsearch
  constructor
  · rintro ⟨hacyclic, -⟩
    exact hsearch.mpr hacyclic
  · intro hnone
    obtain ⟨s, hok⟩ := (search_ok_iff_findDependencyCycle h).mpr hnone
    exact ⟨hsearch.mp hnone, exists_startOrder h (CycleSearch.search_wellFounded hroots hok)⟩

/-! ## Two services that wait for each other -/

/-- An image service that waits for others. -/
def waitingService (dependsOn : List String) : Service ℤ :=
  { (Service.default : Service ℤ) with image := some "img", dependsOn := dependsOn }

/-- A manifest of two services, the first of which depends on the given ones. -/
def pair (dependsOn : List String) : RailyardManifest ℤ :=
  { (RailyardManifest.default : RailyardManifest ℤ) with
    services := .ofList [("api", waitingService dependsOn), ("db", waitingService ["api"])] }

/-- The manifest whose two services depend on each other is accepted. -/
theorem mutual_accepted :
    validate .insertion (pair ["db"]) = [] ∧
      ¬ ((∀ name, ¬ Relation.TransGen (DependsOn (pair ["db"])) name name) ∧
        ∃ order, StartOrder (pair ["db"]) order) := by
  refine ⟨by decide, fun h ↦ h.1 "api" ?_⟩
  have hapi : DependsOn (pair ["db"]) "api" "db" := ⟨waitingService ["db"], rfl, by decide⟩
  have hdb : DependsOn (pair ["db"]) "db" "api" := ⟨waitingService ["api"], rfl, by decide⟩
  exact .tail (.single hapi) hdb

theorem start_order_iff_pair :
    validate .insertion (pair []) = [] ∧ ∃ order, StartOrder (pair []) order :=
  ⟨by decide,
    ((start_order_iff .insertion (pair []) (by decide)).mpr (by decide)).2⟩

end Manifest
