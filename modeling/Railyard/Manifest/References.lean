import Railyard.Manifest.Validate

/-!
# References of an accepted manifest

What validation promises about the references in the environments of an accepted manifest.

* `reference_resolves`: every reference that names a service names a declared one, with a port
  where the reference needs it.
* `envEdges_wellFounded`: the cycle search reported nothing, so no infinite walk follows the
  references from service to service.
* `refers_wellFounded`: nor from variable to variable, since each such step is a step between the
  services of the variables.
* `expand_isSome`: so replacing references by the values of the variables they name, and the
  references in these in turn, comes to an end.
* `env_reference_checked`: of a reference to a variable it is the service that is checked.
-/

set_option autoImplicit false

namespace Manifest

open Data Encoding

variable {F : Type} [Float64 F] {hash : HashOrder} {manifest : RailyardManifest F}

/-! ## References resolve -/

/-- The references of the environment of a service. -/
def Service.References (service : Service F) (reference : Reference) : Prop :=
  ∃ key value references, (key, value) ∈ service.env.entries ∧
    parseReferences value = .ok references ∧ reference ∈ references

theorem checkReference_eq_nil (h : validate hash manifest = []) {name : String}
    {service : Service F} (hservice : (name, service) ∈ manifest.services.entries)
    {reference : Reference} (hreference : service.References reference) :
    ∃ path, checkReference manifest path reference = [] := by
  obtain ⟨key, value, references, hvalue, hparse, hmem⟩ := hreference
  have hnil := checkEnv_eq_nil h hservice hvalue
  simp only [checkEnv, hparse, List.flatMap_eq_nil_iff] at hnil
  exact ⟨_, hnil reference hmem⟩

theorem reference_resolves (h : validate hash manifest = []) {name target : String}
    {service : Service F} (hservice : (name, service) ∈ manifest.services.entries)
    {reference : Reference} (hreference : service.References reference)
    (htarget : reference.service = some target) :
    ∃ targeted, manifest.services.get target = some targeted ∧
      (reference.needsPort = true → targeted.port.isSome) := by
  obtain ⟨path, hnil⟩ := checkReference_eq_nil h hservice hreference
  rw [checkReference, htarget] at hnil
  cases hget : manifest.services.get target with
  | none => simp [hget] at hnil
  | some targeted =>
    refine ⟨targeted, rfl, fun hport ↦ ?_⟩
    simp only [hget, check_eq_nil, hport, true_and, decide_eq_false_iff_not] at hnil
    exact Option.isSome_iff_ne_none.mpr (by simpa using hnil)

/-! ## The walk from service to service -/

omit [Float64 F] in
theorem mem_envEdges {name target : String} :
    target ∈ envEdges manifest name ↔ ∃ service key, manifest.services.get name = some service ∧
      service.References (.serviceEnv target key) ∧ manifest.services.containsKey target := by
  constructor
  · intro h
    cases hget : manifest.services.get name with
    | none => simp [envEdges, hget] at h
    | some service =>
      simp only [envEdges, hget, Option.map_some, Option.getD_some, envTargets,
        List.mem_flatMap] at h
      obtain ⟨value, hvalue, h⟩ := h
      obtain ⟨⟨key', value⟩, hentry, rfl⟩ := List.mem_map.mp hvalue
      cases hparse : parseReferences value with
      | error invalid => simp [hparse] at h
      | ok references =>
        simp only [hparse, List.mem_filterMap] at h
        obtain ⟨reference, hreference, h⟩ := h
        split at h
        · rename_i target' key
          obtain ⟨hcontains, rfl⟩ : manifest.services.containsKey target' ∧ target' = target := by
            simpa using h
          exact ⟨service, key, rfl, ⟨key', value, references, hentry, hparse, hreference⟩,
            hcontains⟩
        · simp at h
  · rintro ⟨service, key, hget, ⟨key', value, references, hentry, hparse, hmem⟩, hcontains⟩
    simp only [envEdges, hget, Option.map_some, Option.getD_some, envTargets, List.mem_flatMap]
    refine ⟨value, List.mem_map.mpr ⟨_, hentry, rfl⟩, ?_⟩
    simp only [hparse, List.mem_filterMap]
    exact ⟨_, hmem, by simp [hcontains]⟩

omit [Float64 F] in
theorem mem_keys_of_mem_envEdges {name target : String} (h : target ∈ envEdges manifest name) :
    target ∈ manifest.services.keys := by
  obtain ⟨_, _, -, -, hcontains⟩ := mem_envEdges.mp h
  exact IndexMap.containsKey_iff.mp hcontains

omit [Float64 F] in
theorem mem_envEdgeKeys {name : String} (h : envEdges manifest name ≠ []) :
    name ∈ envEdgeKeys manifest := by
  obtain ⟨target, htarget⟩ := List.exists_mem_of_ne_nil _ h
  obtain ⟨service, _, hget, -⟩ := mem_envEdges.mp htarget
  exact List.mem_filter.mpr ⟨IndexMap.mem_keys_of_get hget, by simpa using h⟩

omit [Float64 F] in
/-- The search has fuel enough. -/
theorem envSearch_isSome (hash : HashOrder) (manifest : RailyardManifest F) :
    (CycleSearch.search (envEdges manifest) (manifest.services.keys.length + 1)
      (hash.order (envEdgeKeys manifest))).isSome := by
  have hroots : ∀ name ∈ hash.order (envEdgeKeys manifest), name ∈ manifest.services.keys :=
    fun name hname ↦ List.mem_of_mem_filter ((hash.perm _).mem_iff.mp hname)
  have hclosed : ∀ name ∈ manifest.services.keys, ∀ target ∈ envEdges manifest name,
      target ∈ manifest.services.keys := fun _ _ _ ↦ mem_keys_of_mem_envEdges
  exact CycleSearch.search_isSome hclosed hroots (Nat.lt_succ_self _)

omit [Float64 F] in
/-- So without a cycle it completes. -/
theorem search_ok_of_eq_none (h : findEnvReferenceCycle hash manifest = none) :
    ∃ s, CycleSearch.search (envEdges manifest) (manifest.services.keys.length + 1)
      (hash.order (envEdgeKeys manifest)) = some (.ok s) := by
  obtain ⟨outcome, houtcome⟩ := Option.isSome_iff_exists.mp (envSearch_isSome hash manifest)
  cases outcome with
  | ok s => exact ⟨s, houtcome⟩
  | error cycle => simp [findEnvReferenceCycle, houtcome] at h

omit [Float64 F] in
/-- The cycle search reports nothing exactly when the references are acyclic. -/
theorem findEnvReferenceCycle_eq_none_iff (hash : HashOrder) :
    findEnvReferenceCycle hash manifest = none ↔
      ∀ name, ¬ Relation.TransGen (fun a b ↦ b ∈ envEdges manifest a) name name := by
  have hclosed : ∀ name ∈ manifest.services.keys, ∀ target ∈ envEdges manifest name,
      target ∈ manifest.services.keys := fun _ _ _ ↦ mem_keys_of_mem_envEdges
  have hvertices : ∀ name ∈ hash.order (envEdgeKeys manifest), name ∈ manifest.services.keys :=
    fun name hname ↦ List.mem_of_mem_filter ((hash.perm _).mem_iff.mp hname)
  have hroots : ∀ name, envEdges manifest name ≠ [] → name ∈ hash.order (envEdgeKeys manifest) :=
    fun name hne ↦ (hash.perm _).mem_iff.mpr (mem_envEdgeKeys hne)
  rw [← CycleSearch.search_ok_iff hclosed hvertices hroots (Nat.lt_succ_self _)]
  constructor
  · exact search_ok_of_eq_none
  · rintro ⟨s, hsearch⟩
    rw [findEnvReferenceCycle, hsearch]

theorem envEdges_wellFounded (h : validate hash manifest = []) :
    WellFounded fun target name ↦ target ∈ envEdges manifest name := by
  obtain ⟨s, hsearch⟩ := search_ok_of_eq_none (findEnvReferenceCycle_eq_none h)
  exact CycleSearch.search_wellFounded
    (fun name hne ↦ (hash.perm _).mem_iff.mpr (mem_envEdgeKeys hne)) hsearch

/-! ## The walk from variable to variable -/

/-- A variable: a service and a key of its environment. -/
abbrev Variable := String × String

/-- The value of a variable. -/
def valueOf (manifest : RailyardManifest F) (v : Variable) : Option String :=
  (manifest.services.get v.1).bind fun service ↦ service.env.get v.2

/-- The value of the first variable holds a reference to the second. -/
def Refers (manifest : RailyardManifest F) (v w : Variable) : Prop :=
  ∃ value references, valueOf manifest v = some value ∧
    parseReferences value = .ok references ∧ .serviceEnv w.1 w.2 ∈ references

/-- A step between variables is a step between their services. -/
theorem Refers.mem_envEdges (h : validate hash manifest = []) {v w : Variable}
    (hrefers : Refers manifest v w) : w.1 ∈ envEdges manifest v.1 := by
  obtain ⟨value, references, hvalue, hparse, hmem⟩ := hrefers
  obtain ⟨service, hget, henv⟩ := Option.bind_eq_some_iff.mp hvalue
  have hreferences : service.References (.serviceEnv w.1 w.2) :=
    ⟨v.2, value, references, IndexMap.get_eq_some_iff.mp henv, hparse, hmem⟩
  obtain ⟨targeted, htargeted, -⟩ :=
    reference_resolves h (IndexMap.get_eq_some_iff.mp hget) hreferences rfl
  exact Manifest.mem_envEdges.mpr ⟨service, w.2, hget, hreferences, by
    simp [IndexMap.containsKey, htargeted]⟩

/-- The values of an accepted manifest parse. -/
theorem parseReferences_ok (h : validate hash manifest = []) {v : Variable} {value : String}
    (hvalue : valueOf manifest v = some value) :
    ∃ references, parseReferences value = .ok references := by
  obtain ⟨service, hget, henv⟩ := Option.bind_eq_some_iff.mp hvalue
  have hnil := checkEnv_eq_nil h (IndexMap.get_eq_some_iff.mp hget)
    (IndexMap.get_eq_some_iff.mp henv)
  cases hparse : parseReferences value with
  | ok references => exact ⟨references, rfl⟩
  | error invalid => simp [checkEnv, hparse] at hnil

theorem refers_wellFounded (h : validate hash manifest = []) :
    WellFounded fun w v ↦ Refers manifest v w :=
  Subrelation.wf (fun hrefers ↦ hrefers.mem_envEdges h)
    (InvImage.wf Prod.fst (envEdges_wellFounded h))

/-! ## Replacing references

The substitution the manifest's documentation describes: every reference is replaced by what it
stands for, a reference to a variable by the value of that variable after its own references have
been replaced.  What the other references stand for, and what stands for a variable that is not
set, plays no part and is a parameter. -/

/-- A text with every reference replaced by its image; `none` where a reference does not parse or
has no image. -/
def substitute (image : Reference → Option String) (rest : List Char) : Option (List Char) :=
  match _hopen : splitOnce openBracket rest with
  | none => some rest
  | some (before, afterOpen) =>
    match _hclose : splitOnce closeBracket afterOpen with
    | none => none
    | some (token, rest') => do
      let reference ← (parseToken (trim (String.ofList token))).toOption
      let text ← image reference
      let after ← substitute image rest'
      return before ++ text.toList ++ after
termination_by rest.length
decreasing_by
  have hafter := splitOnce_length (by decide) _hopen
  have hrest := splitOnce_length (by decide) _hclose
  omega

/-- The value of a variable with every reference replaced, in turn; `none` when the fuel runs
out. -/
def expand (manifest : RailyardManifest F) (other : Reference → String)
    (unset : Variable → String) : ℕ → Variable → Option String
  | 0, _ => none
  | fuel + 1, v =>
    match valueOf manifest v with
    | none => some (unset v)
    | some value =>
      let image := fun
        | .serviceEnv name key => expand manifest other unset fuel (name, key)
        | reference => some (other reference)
      (substitute image value.toList).map String.ofList

theorem parseRest_noOpen {rest : List Char} (hopen : splitOnce openBracket rest = none) :
    parseRest rest = .ok [] := by
  rw [parseRest]
  grind

theorem parseRest_noClose {rest before afterOpen : List Char}
    (hopen : splitOnce openBracket rest = some (before, afterOpen))
    (hclose : splitOnce closeBracket afterOpen = none) (references : List Reference) :
    parseRest rest ≠ .ok references := by
  rw [parseRest]
  grind

theorem parseRest_brackets {rest before afterOpen token rest' : List Char}
    (hopen : splitOnce openBracket rest = some (before, afterOpen))
    (hclose : splitOnce closeBracket afterOpen = some (token, rest')) :
    parseRest rest = do
      let reference ← parseToken (trim (String.ofList token))
      let references ← parseRest rest'
      return reference :: references := by
  rw [parseRest]
  grind

theorem substitute_noOpen {image : Reference → Option String} {rest : List Char}
    (hopen : splitOnce openBracket rest = none) : substitute image rest = some rest := by
  rw [substitute]
  grind

theorem substitute_noClose {image : Reference → Option String} {rest before afterOpen : List Char}
    (hopen : splitOnce openBracket rest = some (before, afterOpen))
    (hclose : splitOnce closeBracket afterOpen = none) : substitute image rest = none := by
  rw [substitute]
  grind

theorem substitute_brackets {image : Reference → Option String}
    {rest before afterOpen token rest' : List Char}
    (hopen : splitOnce openBracket rest = some (before, afterOpen))
    (hclose : splitOnce closeBracket afterOpen = some (token, rest')) :
    substitute image rest = do
      let reference ← (parseToken (trim (String.ofList token))).toOption
      let text ← image reference
      let after ← substitute image rest'
      return before ++ text.toList ++ after := by
  rw [substitute]
  grind

/-- A text whose references parse and have images has a text with the images in their place. -/
theorem substitute_isSome {image : Reference → Option String} {rest : List Char}
    {references : List Reference} (hparse : parseRest rest = .ok references)
    (himage : ∀ reference ∈ references, (image reference).isSome) :
    (substitute image rest).isSome := by
  induction rest using parseRest.induct generalizing references with
  | case1 rest hopen =>
    rw [substitute_noOpen hopen]
    rfl
  | case2 rest before afterOpen hopen hclose =>
    exact absurd hparse (parseRest_noClose hopen hclose references)
  | case3 rest before afterOpen hopen token rest' hclose ih =>
    rw [parseRest_brackets hopen hclose] at hparse
    obtain ⟨reference, htoken, hparse⟩ := bind_eq_ok hparse
    obtain ⟨later, hrest, hparse⟩ := bind_eq_ok hparse
    obtain rfl := Except.ok.inj hparse
    obtain ⟨text, htext⟩ :=
      Option.isSome_iff_exists.mp (himage reference (List.mem_cons_self ..))
    obtain ⟨after, hafter⟩ := Option.isSome_iff_exists.mp
      (ih hrest fun r hr ↦ himage r (List.mem_cons_of_mem _ hr))
    rw [substitute_brackets hopen hclose, htoken]
    simp [Except.toOption, htext, hafter]

/-- With more images the text stays the same. -/
theorem substitute_mono {image image' : Reference → Option String}
    (himage : ∀ reference text, image reference = some text → image' reference = some text)
    {rest text : List Char} (h : substitute image rest = some text) :
    substitute image' rest = some text := by
  induction rest using parseRest.induct generalizing text with
  | case1 rest hopen => rwa [substitute_noOpen hopen] at h ⊢
  | case2 rest before afterOpen hopen hclose => simp [substitute_noClose hopen hclose] at h
  | case3 rest before afterOpen hopen token rest' hclose ih =>
    rw [substitute_brackets hopen hclose] at h ⊢
    obtain ⟨reference, hreference, h⟩ := Option.bind_eq_some_iff.mp h
    obtain ⟨image, hsome, h⟩ := Option.bind_eq_some_iff.mp h
    obtain ⟨after, hafter, h⟩ := Option.bind_eq_some_iff.mp h
    simpa [hreference, himage reference image hsome, ih hafter] using h

section Expand

variable (other : Reference → String) (unset : Variable → String)

/-- What a reference stands for, with some fuel left for the variables it names. -/
def imageOf (manifest : RailyardManifest F) (fuel : ℕ) : Reference → Option String
  | .serviceEnv name key => expand manifest other unset fuel (name, key)
  | reference => some (other reference)

omit [Float64 F] in
theorem expand_succ_of_value {fuel : ℕ} {v : Variable} {value : String}
    (hvalue : valueOf manifest v = some value) :
    expand manifest other unset (fuel + 1) v =
      (substitute (imageOf other unset manifest fuel) value.toList).map String.ofList := by
  rw [expand, hvalue]
  rfl

omit [Float64 F] in
theorem expand_mono {fuel : ℕ} {v : Variable} {text : String}
    (h : expand manifest other unset fuel v = some text) {fuel' : ℕ} (hle : fuel ≤ fuel') :
    expand manifest other unset fuel' v = some text := by
  induction fuel generalizing v text fuel' with
  | zero => simp [expand] at h
  | succ fuel ih =>
    obtain ⟨n, rfl⟩ : ∃ n, fuel' = n + 1 := ⟨fuel' - 1, by omega⟩
    cases hvalue : valueOf manifest v with
    | none =>
      rw [expand, hvalue] at h ⊢
      exact h
    | some value =>
      rw [expand_succ_of_value other unset hvalue] at h ⊢
      obtain ⟨chars, hchars, rfl⟩ := Option.map_eq_some_iff.mp h
      have himage : ∀ reference image, imageOf other unset manifest fuel reference = some image →
          imageOf other unset manifest n reference = some image := by
        intro reference image himage
        cases reference with
        | serviceEnv name key => exact ih himage (by omega)
        | _ => exact himage
      rw [substitute_mono himage hchars]
      rfl

omit [Float64 F] in
theorem imageOf_mono {fuel fuel' : ℕ} (hle : fuel ≤ fuel') {reference : Reference}
    (h : (imageOf other unset manifest fuel reference).isSome) :
    (imageOf other unset manifest fuel' reference).isSome := by
  cases reference with
  | serviceEnv name key =>
    obtain ⟨text, htext⟩ := Option.isSome_iff_exists.mp h
    exact Option.isSome_iff_exists.mpr ⟨text, expand_mono other unset htext hle⟩
  | _ => exact h

omit [Float64 F] in
/-- References that each have an image with some fuel all have one with some fuel. -/
theorem exists_common_fuel {references : List Reference}
    (h : ∀ reference ∈ references,
      ∃ fuel, (imageOf other unset manifest fuel reference).isSome) :
    ∃ fuel, ∀ reference ∈ references, (imageOf other unset manifest fuel reference).isSome := by
  induction references with
  | nil => exact ⟨0, by simp⟩
  | cons reference references ih =>
    obtain ⟨fuel, hfuel⟩ := h reference (List.mem_cons_self ..)
    obtain ⟨fuel', hfuel'⟩ := ih fun r hr ↦ h r (List.mem_cons_of_mem _ hr)
    refine ⟨max fuel fuel', fun r hr ↦ ?_⟩
    rcases List.mem_cons.mp hr with rfl | hr
    · exact imageOf_mono other unset (le_max_left ..) hfuel
    · exact imageOf_mono other unset (le_max_right ..) (hfuel' r hr)

/-- **Replacing references comes to an end**, for every variable of an accepted manifest. -/
theorem expand_isSome (h : validate hash manifest = []) (v : Variable) :
    ∃ fuel, (expand manifest other unset fuel v).isSome := by
  induction v using (refers_wellFounded h).induction with
  | _ v ih =>
  cases hvalue : valueOf manifest v with
  | none => exact ⟨1, by rw [expand, hvalue]; rfl⟩
  | some value =>
    obtain ⟨references, hparse⟩ := parseReferences_ok h hvalue
    have himages : ∀ reference ∈ references,
        ∃ fuel, (imageOf other unset manifest fuel reference).isSome := by
      intro reference hmem
      cases reference with
      | serviceEnv name key => exact ih (name, key) ⟨value, references, hvalue, hparse, hmem⟩
      | _ => exact ⟨0, rfl⟩
    obtain ⟨fuel, hfuel⟩ := exists_common_fuel other unset himages
    refine ⟨fuel + 1, ?_⟩
    rw [expand_succ_of_value other unset hvalue, Option.isSome_map]
    exact substitute_isSome hparse hfuel

end Expand

/-! ## Everything together -/

/-- **References of an accepted manifest resolve and terminate.**  A reference that names a
service names a declared one, and a port or url reference one with a port; no infinite chain of
variables refers each to the next; and replacing references by the values they name comes to an
end for every variable, whatever the other references stand for. -/
theorem references_resolve_and_terminate (hash : HashOrder) (manifest : RailyardManifest F)
    (h : validate hash manifest = []) :
    (∀ name service reference target, (name, service) ∈ manifest.services.entries →
      service.References reference → reference.service = some target →
        ∃ targeted, manifest.services.get target = some targeted ∧
          (reference = .servicePort target ∨ reference = .serviceUrl target →
            targeted.port.isSome)) ∧
      (¬ ∃ chain : ℕ → Variable, ∀ n, Refers manifest (chain n) (chain (n + 1))) ∧
      ∀ (other : Reference → String) (unset : Variable → String) (v : Variable),
        ∃ fuel, (expand manifest other unset fuel v).isSome := by
  refine ⟨fun name service reference target hservice hreference htarget ↦ ?_, ?_,
    fun other unset v ↦ expand_isSome other unset h v⟩
  · obtain ⟨targeted, hget, hport⟩ := reference_resolves h hservice hreference htarget
    exact ⟨targeted, hget, by rintro (rfl | rfl) <;> exact hport rfl⟩
  · rintro ⟨chain, hchain⟩
    have hempty := wellFounded_iff_isEmpty_descending_chain.mp (refers_wellFounded h)
    exact hempty.false ⟨chain, hchain⟩

/-- An image service with an environment. -/
def imageService (port : Option U16) (env : List (String × String)) : Service ℤ :=
  { Service.default with image := some "img", port := port, env := .ofList env }

/-- A service whose variable is built from a variable and the url of another. -/
def shared : RailyardManifest ℤ :=
  { (RailyardManifest.default : RailyardManifest ℤ) with
    services := .ofList
      [("api", imageService none
        [("DB", "$\x7b\x7b services.db.env.NAME \x7d\x7d at $\x7b\x7bservices.db.url\x7d\x7d")]),
       ("db", imageService (some 5432) [("NAME", "acme")])] }

theorem validate_shared : validate .insertion shared = [] := by decide +kernel

theorem references_resolve_and_terminate_shared :
    validate .insertion shared = [] ∧
      ∃ fuel, (expand shared (fun _ ↦ "") (fun _ ↦ "") fuel ("api", "DB")).isSome :=
  ⟨validate_shared, (references_resolve_and_terminate .insertion shared validate_shared).2.2 _ _ _⟩

/-! ## Variables that are not declared -/

omit [Float64 F] in
theorem checkReference_unknown {path target key : String}
    (hunknown : manifest.services.get target = none) :
    checkReference manifest path (.serviceEnv target key) =
      [⟨path, "references unknown service `" ++ target ++ "`"⟩] := by
  rw [checkReference]
  simp only [Reference.service, hunknown]

theorem mem_validate_of_env {name key value : String} {service : Service F}
    {error : ValidationError} (hservice : (name, service) ∈ manifest.services.entries)
    (hvalue : (key, value) ∈ service.env.entries)
    (herror : error ∈ checkEnv manifest name key value) : error ∈ validate hash manifest := by
  simp only [validate, List.mem_append, List.mem_flatMap]
  refine .inl (.inr ⟨(name, service), hservice, ?_⟩)
  simp only [validateService, List.mem_append, List.mem_flatMap]
  exact .inr ⟨(key, value), hvalue, herror⟩

/-- **What is checked of a reference to a variable.**  A reference to a variable of a service that
is not declared is an error of the variable it stands in; so in an accepted manifest the service is
declared.  Whether that service sets the variable is not asked, as it may be one of the secrets the
server keeps. -/
theorem env_reference_checked (hash : HashOrder) (manifest : RailyardManifest F)
    {name key value target wanted : String} {service : Service F} {references : List Reference}
    (hservice : (name, service) ∈ manifest.services.entries)
    (hvalue : (key, value) ∈ service.env.entries)
    (hparse : parseReferences value = .ok references)
    (hreference : .serviceEnv target wanted ∈ references) :
    (manifest.services.get target = none →
        ⟨"services." ++ name ++ ".env." ++ key, "references unknown service `" ++ target ++ "`"⟩ ∈
          validate hash manifest) ∧
      (validate hash manifest = [] → ∃ targeted, manifest.services.get target = some targeted) := by
  have herror : manifest.services.get target = none →
      ⟨"services." ++ name ++ ".env." ++ key, "references unknown service `" ++ target ++ "`"⟩ ∈
        validate hash manifest := by
    intro hunknown
    refine mem_validate_of_env hservice hvalue ?_
    simp only [checkEnv, hparse, List.mem_flatMap]
    exact ⟨_, hreference, by rw [checkReference_unknown hunknown]; exact List.mem_singleton_self _⟩
  refine ⟨herror, fun hnil ↦ Option.ne_none_iff_exists'.mp fun hunknown ↦ ?_⟩
  have hmem := herror hunknown
  rw [hnil] at hmem
  exact absurd hmem (List.not_mem_nil)

theorem env_reference_checked_shared :
    ∃ targeted, shared.services.get "db" = some targeted := by
  obtain ⟨service, hget, henv⟩ : ∃ service, shared.services.get "api" = some service ∧
      service.env.get "DB" =
        some "$\x7b\x7b services.db.env.NAME \x7d\x7d at $\x7b\x7bservices.db.url\x7d\x7d" :=
    ⟨_, rfl, rfl⟩
  have hparse : parseReferences
      "$\x7b\x7b services.db.env.NAME \x7d\x7d at $\x7b\x7bservices.db.url\x7d\x7d" =
        .ok [.serviceEnv "db" "NAME", .serviceUrl "db"] := by
    decide +kernel
  exact (env_reference_checked .insertion shared (IndexMap.get_eq_some_iff.mp hget)
    (IndexMap.get_eq_some_iff.mp henv) hparse List.mem_cons_self).2 validate_shared

/-- A service that refers to a variable of another that has none. -/
def undeclared : RailyardManifest ℤ :=
  { (RailyardManifest.default : RailyardManifest ℤ) with
    services := .ofList
      [("api", imageService none [("DB", "$\x7b\x7b services.db.env.NAME \x7d\x7d")]),
       ("db", imageService none [])] }

/-- It is accepted. -/
theorem undeclared_accepted :
    validate .insertion undeclared = [] ∧
      ∃ service targeted key, undeclared.services.get "api" = some service ∧
        service.References (.serviceEnv "db" key) ∧ undeclared.services.get "db" = some targeted ∧
          targeted.env.get key = none ∧ targeted.envFiles = [] := by
  refine ⟨by decide +kernel, _, _, "NAME", rfl, ?_, rfl, rfl, rfl⟩
  exact ⟨"DB", "$\x7b\x7b services.db.env.NAME \x7d\x7d", [.serviceEnv "db" "NAME"], by decide,
    by decide +kernel, List.mem_singleton_self _⟩

end Manifest
