import Railyard.Manifest.References

/-!
# Cycles among the references of a manifest

* `cycle_search_exact`: the cycle search finds a cycle exactly when the services refer to each other
  in one, and what it reports is such a cycle.
* `cycles_reported_iff`: a report says something about the variables exactly when they have a cycle
  of their own.
* `crossed_reported`: two services whose variables refer to each other without a cycle.
-/

set_option autoImplicit false

namespace Manifest

open Data Encoding Relation

variable {F : Type} {hash : HashOrder} {manifest : RailyardManifest F}

/-! ## Services -/

/-- The environment of the first service refers to a variable of the second, a declared one. -/
def EnvEdge (manifest : RailyardManifest F) (name target : String) : Prop :=
  ∃ service key, manifest.services.get name = some service ∧
    service.References (.serviceEnv target key) ∧ manifest.services.containsKey target

theorem envEdges_eq : (fun name target ↦ target ∈ envEdges manifest name) = EnvEdge manifest :=
  funext₂ fun _ _ ↦ propext mem_envEdges

theorem search_of_find {cycle : List String}
    (h : findEnvReferenceCycle hash manifest = some cycle) :
    CycleSearch.search (envEdges manifest) (manifest.services.keys.length + 1)
      (hash.order (envEdgeKeys manifest)) = some (.error cycle) := by
  rw [findEnvReferenceCycle] at h
  split at h
  · rename_i found hfound
    rw [hfound, Option.some.inj h]
  · simp at h

/-- What is reported is a cycle of services. -/
theorem find_isCycle {cycle : List String} (h : findEnvReferenceCycle hash manifest = some cycle) :
    2 ≤ cycle.length ∧ cycle.head? = cycle.getLast? ∧ cycle.dropLast.Nodup ∧
      cycle.IsChain (EnvEdge manifest) := by
  have hsearch := search_of_find h
  obtain ⟨name, rest, rfl, hchain⟩ := CycleSearch.search_error hsearch
  refine ⟨?_, ?_, CycleSearch.search_error_nodup hsearch, envEdges_eq ▸ hchain⟩
  · simp only [List.length_cons, List.length_append, List.length_nil]
    omega
  · rw [List.head?_cons, ← List.cons_append, List.getLast?_concat]

/-- A cycle is reported exactly when there is one. -/
theorem find_isSome_iff :
    (findEnvReferenceCycle hash manifest).isSome ↔
      ∃ name, TransGen (EnvEdge manifest) name name := by
  rw [← Option.ne_none_iff_isSome, ne_eq, findEnvReferenceCycle_eq_none_iff, envEdges_eq]
  exact not_forall_not

/-- **The cycle search is exact.**  It returns, in whatever order the hash map lists its keys; it
reports something exactly when the graph of the services has a cycle; and it reports a cycle of
that graph, through distinct services. -/
theorem cycle_search_exact (hash : HashOrder) (manifest : RailyardManifest F) :
    (CycleSearch.search (envEdges manifest) (manifest.services.keys.length + 1)
        (hash.order (envEdgeKeys manifest))).isSome ∧
      ((findEnvReferenceCycle hash manifest).isSome ↔
        ∃ name, TransGen (EnvEdge manifest) name name) ∧
      ∀ cycle, findEnvReferenceCycle hash manifest = some cycle →
        2 ≤ cycle.length ∧ cycle.head? = cycle.getLast? ∧ cycle.dropLast.Nodup ∧
          cycle.IsChain (EnvEdge manifest) :=
  ⟨envSearch_isSome hash manifest, find_isSome_iff, fun _ ↦ find_isCycle⟩

/-! ## Variables -/

/-- A text whose references have been replaced: all of them had images. -/
theorem image_of_substitute {image : Reference → Option String} {rest text : List Char}
    {references : List Reference} (hparse : parseRest rest = .ok references)
    (h : substitute image rest = some text) :
    ∀ reference ∈ references, (image reference).isSome := by
  induction rest using parseRest.induct generalizing text references with
  | case1 rest hopen =>
    rw [parseRest_noOpen hopen] at hparse
    obtain rfl := Except.ok.inj hparse
    simp
  | case2 rest before afterOpen hopen hclose =>
    exact absurd hparse (parseRest_noClose hopen hclose references)
  | case3 rest before afterOpen hopen token rest' hclose ih =>
    rw [parseRest_brackets hopen hclose] at hparse
    obtain ⟨reference, htoken, hparse⟩ := bind_eq_ok hparse
    obtain ⟨later, hlater, hparse⟩ := bind_eq_ok hparse
    obtain rfl := Except.ok.inj hparse
    rw [substitute_brackets hopen hclose, htoken] at h
    obtain ⟨found, hfound, h⟩ := Option.bind_eq_some_iff.mp h
    obtain rfl : reference = found := Option.some.inj hfound
    obtain ⟨replaced, hreplaced, h⟩ := Option.bind_eq_some_iff.mp h
    obtain ⟨after, hafter, -⟩ := Option.bind_eq_some_iff.mp h
    intro r hr
    rcases List.mem_cons.mp hr with rfl | hr
    · exact Option.isSome_iff_exists.mpr ⟨replaced, hreplaced⟩
    · exact ih hlater hafter r hr

/-- The references of a variable on a cycle are never replaced. -/
theorem expand_of_cycle (other : Reference → String) (unset : Variable → String) {fuel : ℕ}
    {v : Variable} (hcycle : TransGen (Refers manifest) v v) :
    expand manifest other unset fuel v = none := by
  induction fuel generalizing v with
  | zero => rfl
  | succ fuel ih =>
    obtain ⟨w, hrefers, hback⟩ := TransGen.head'_iff.mp hcycle
    have hnext := ih (TransGen.tail' hback hrefers)
    obtain ⟨value, references, hvalue, hparse, hmem⟩ := hrefers
    rw [expand_succ_of_value other unset hvalue, Option.map_eq_none_iff]
    by_contra hsome
    obtain ⟨text, htext⟩ := Option.ne_none_iff_exists'.mp hsome
    have himage := image_of_substitute hparse htext _ hmem
    rw [imageOf, hnext] at himage
    simp at himage

/-! ## Reports -/

section Reports

variable [Float64 F]

/-- Validation reports a cycle of references, the only error about the services as a whole. -/
def CycleReported (hash : HashOrder) (manifest : RailyardManifest F) : Prop :=
  ∃ error ∈ validate hash manifest, error.path = "services"

theorem cycleReported_iff :
    CycleReported hash manifest ↔ ∃ name, TransGen (EnvEdge manifest) name name := by
  rw [← @find_isSome_iff _ hash, Option.isSome_iff_exists]
  constructor
  · rintro ⟨error, herror⟩
    obtain ⟨cycle, hcycle, -⟩ := mem_validate_services.mp herror
    exact ⟨cycle, hcycle⟩
  · rintro ⟨cycle, hcycle⟩
    exact ⟨_, mem_validate_services.mpr ⟨cycle, hcycle, rfl⟩⟩

/-- **When a report is about the variables.**  A cycle is only reported when the variables have one,
and never when all their references can be replaced: this holds exactly of the manifests whose
variables have a cycle if their services do.  The search looks at which service a variable
refers to, not at which of its variables. -/
theorem cycles_reported_iff (hash : HashOrder) (manifest : RailyardManifest F) :
    ((CycleReported hash manifest → ∃ v, TransGen (Refers manifest) v v) ∧
        ∀ other unset, (∀ v, ∃ fuel, (expand manifest other unset fuel v).isSome) →
          ¬ CycleReported hash manifest) ↔
      ((∃ name, TransGen (EnvEdge manifest) name name) → ∃ v, TransGen (Refers manifest) v v) := by
  rw [cycleReported_iff]
  constructor
  · exact And.left
  · intro hcycle
    refine ⟨hcycle, fun other unset hexpand hservices ↦ ?_⟩
    obtain ⟨v, hv⟩ := hcycle hservices
    obtain ⟨fuel, hfuel⟩ := hexpand v
    simp [expand_of_cycle other unset hv] at hfuel

end Reports

/-! ## A cycle of services without a cycle of variables -/

/-- Two services, each of which has a variable that refers to a variable of the other. -/
def crossed : RailyardManifest ℤ :=
  { (RailyardManifest.default : RailyardManifest ℤ) with
    services := .ofList
      [("api", imageService none
        [("HOST", "api.internal"), ("DB", "$\x7b\x7b services.db.env.NAME \x7d\x7d")]),
       ("db", imageService none
        [("NAME", "acme"), ("ALLOW", "$\x7b\x7b services.api.env.HOST \x7d\x7d")])] }

/-- All their references can be replaced. -/
theorem expand_crossed (v : Variable) :
    ∃ fuel, (expand crossed (fun _ ↦ "") (fun _ ↦ "") fuel v).isSome := by
  cases hvalue : valueOf crossed v with
  | none => exact ⟨1, by rw [expand, hvalue]; rfl⟩
  | some value =>
    have hall : ∀ entry ∈ crossed.services.entries, ∀ pair ∈ entry.2.env.entries,
        (expand crossed (fun _ ↦ "") (fun _ ↦ "") 2 (entry.1, pair.1)).isSome := by
      decide +kernel
    obtain ⟨service, hget, henv⟩ := Option.bind_eq_some_iff.mp hvalue
    exact ⟨2, hall _ (IndexMap.get_eq_some_iff.mp hget) _ (IndexMap.get_eq_some_iff.mp henv)⟩

/-- They are reported as a cycle. -/
theorem crossed_reported :
    CycleReported .insertion crossed ∧ (¬ ∃ v, TransGen (Refers crossed) v v) ∧
      ∀ v, ∃ fuel, (expand crossed (fun _ ↦ "") (fun _ ↦ "") fuel v).isSome := by
  refine ⟨?_, ?_, expand_crossed⟩
  · have hcycle : findEnvReferenceCycle .insertion crossed = some ["api", "db", "api"] := by
      decide +kernel
    exact ⟨_, mem_validate_services.mpr ⟨_, hcycle, rfl⟩⟩
  · rintro ⟨v, hv⟩
    obtain ⟨fuel, hfuel⟩ := expand_crossed v
    simp [expand_of_cycle _ _ hv] at hfuel

end Manifest
