import Railyard.Manifest.References

/-!
# The volumes of an accepted manifest

* `maxContainers_eq_one`: a service with volumes never has a second container.
* `volumes_unshared_iff`: two containers never share a volume exactly when no two services name the
  same one.
-/

set_option autoImplicit false

namespace Manifest

open Data

variable {F : Type} [Float64 F] {hash : HashOrder} {manifest : RailyardManifest F}

/-! ## Containers -/

/-- The strategy in effect: services with volumes never roll. -/
def Service.effectiveStrategy (service : Service F) : Strategy :=
  if !service.volumes.isEmpty then .recreate else service.strategy.getD .rolling

/-- How many replicas a service can have: the fixed number, the upper bound of automatic scaling,
or one. -/
def Service.maxReplicas (service : Service F) : ℕ :=
  match service.scale with
  | none => 1
  | some scale =>
    match scale.replicas, scale.autoscale with
    | some replicas, _ => replicas.val
    | none, some autoscale => autoscale.max.val
    | none, none => 1

/-- How many containers a service can have at a time: a rollout that rolls adds one. -/
def Service.maxContainers (service : Service F) : ℕ :=
  service.maxReplicas + if service.effectiveStrategy = .rolling then 1 else 0

/-- Whether the containers of a service mount a volume. -/
def Service.mounts (service : Service F) (volume : String) : Bool :=
  service.volumes.containsKey volume

/-- How many containers of a project can mount a volume at a time. -/
def containersMounting (manifest : RailyardManifest F) (volume : String) : ℕ :=
  ((manifest.services.entries.filter fun (_, service) ↦ service.mounts volume).map
    fun (_, service) ↦ service.maxContainers).sum

/-! ## One service -/

omit [Float64 F] in
theorem isEmpty_eq_false_of_mounts {service : Service F} {volume : String}
    (hmounts : service.mounts volume = true) : service.volumes.isEmpty = false := by
  have hkey := IndexMap.containsKey_iff.mp hmounts
  rw [IndexMap.keys] at hkey
  cases hentries : service.volumes.entries with
  | nil => simp [hentries] at hkey
  | cons entry entries => simp [IndexMap.isEmpty, hentries]

omit [Float64 F] in
/-- What the checks of `scale` leave to a service with volumes. -/
theorem one_of_checkScale {name : String} {service : Service F} {scale : Scale}
    (hvolumes : service.volumes.isEmpty = false) (h : checkScale name service scale = []) :
    (∀ replicas ∈ scale.replicas, replicas.val = 1) ∧
      ∀ autoscale ∈ scale.autoscale, autoscale.max.val = 1 := by
  simp only [checkScale, List.append_eq_nil_iff, check_eq_nil, hvolumes, Bool.not_false,
    and_true, decide_eq_false_iff_not, not_or] at h
  obtain ⟨⟨⟨-, hzero⟩, hautoscale⟩, hreplicas, hmax⟩ := h
  constructor
  · intro replicas hmem
    have hsome : scale.replicas = some replicas := hmem
    have hone : replicas ≤ 1 := by simpa [hsome] using hreplicas
    have hne : replicas ≠ 0 := by simpa [hsome] using hzero
    have hle : replicas.val ≤ 1 := hone
    have hpos : replicas.val ≠ 0 := fun hval ↦ hne (Fin.ext hval)
    omega
  · intro autoscale hmem
    have hsome : scale.autoscale = some autoscale := hmem
    have hone : autoscale.max ≤ 1 := by simpa [hsome] using hmax
    simp only [hsome, List.append_eq_nil_iff, check_eq_nil, decide_eq_false_iff_not,
      not_or] at hautoscale
    have hle : autoscale.max.val ≤ 1 := hone
    have hmin : 1 ≤ autoscale.min.val := Nat.le_of_not_lt hautoscale.1.1
    have hbounds : autoscale.min.val ≤ autoscale.max.val := Nat.le_of_not_lt hautoscale.1.2
    omega

/-- A service with volumes never has a second container. -/
theorem maxContainers_eq_one (h : validate hash manifest = []) {name : String}
    {service : Service F} (hservice : (name, service) ∈ manifest.services.entries)
    {volume : String} (hmounts : service.mounts volume = true) : service.maxContainers = 1 := by
  have hvolumes := isEmpty_eq_false_of_mounts hmounts
  have hstrategy : service.effectiveStrategy = .recreate := by
    simp [Service.effectiveStrategy, hvolumes]
  have hreplicas : service.maxReplicas = 1 := by
    rw [Service.maxReplicas]
    split
    · rfl
    · rename_i scale hscale
      have hpasses := (service_passes h hservice).scale scale hscale
      obtain ⟨hfixed, hbound⟩ := one_of_checkScale hvolumes hpasses
      split
      · exact hfixed _ ‹_›
      · exact hbound _ ‹_›
      · rfl
  rw [Service.maxContainers, hreplicas, hstrategy]
  rfl

/-! ## All services -/

section Sum

variable {A : Type} {l : List A} {f : A → ℕ}

theorem sum_map_eq_length (h : ∀ a ∈ l, f a = 1) : (l.map f).sum = l.length := by
  induction l with
  | nil => rfl
  | cons a l ih =>
    rw [List.map_cons, List.sum_cons, h a List.mem_cons_self,
      ih fun b hb ↦ h b (List.mem_cons_of_mem _ hb), List.length_cons, Nat.add_comm]

theorem length_le_one_iff (h : l.Nodup) : l.length ≤ 1 ↔ ∀ a ∈ l, ∀ b ∈ l, a = b := by
  match l with
  | [] => simp
  | [a] => simp
  | a :: b :: l =>
    have hne : a ≠ b := fun heq ↦ (List.nodup_cons.mp h).1 (heq ▸ List.mem_cons_self)
    constructor
    · intro hlength
      simp at hlength
    · intro heq
      exact absurd (heq a List.mem_cons_self b (List.mem_cons_of_mem _ List.mem_cons_self)) hne

end Sum

/-- The containers that can mount a volume are counted by the services that do. -/
theorem containersMounting_eq (h : validate hash manifest = []) (volume : String) :
    containersMounting manifest volume =
      (manifest.services.entries.filter fun (_, service) ↦ service.mounts volume).length := by
  refine sum_map_eq_length fun entry hentry ↦ ?_
  obtain ⟨hmem, hmounts⟩ := List.mem_filter.mp hentry
  exact maxContainers_eq_one h hmem hmounts

/-- **When two containers never share a volume.**  In an accepted manifest they do not exactly when
no two services name the same volume: each service is checked by itself. -/
theorem volumes_unshared_iff (hash : HashOrder) (manifest : RailyardManifest F)
    (h : validate hash manifest = []) :
    (∀ volume, containersMounting manifest volume ≤ 1) ↔
      ∀ volume name service name' service', (name, service) ∈ manifest.services.entries →
        (name', service') ∈ manifest.services.entries → service.mounts volume →
          service'.mounts volume → name = name' := by
  refine forall_congr' fun volume ↦ ?_
  have hnodup : (manifest.services.entries.filter fun (_, service) ↦ service.mounts volume).Nodup :=
    manifest.services.nodup.of_map.filter _
  rw [containersMounting_eq h, length_le_one_iff hnodup]
  constructor
  · intro hone name service name' service' hservice hservice' hmounts hmounts'
    have heq := hone (name, service) (List.mem_filter.mpr ⟨hservice, hmounts⟩) (name', service')
      (List.mem_filter.mpr ⟨hservice', hmounts'⟩)
    exact (Prod.mk.inj heq).1
  · rintro hname ⟨name, service⟩ hentry ⟨name', service'⟩ hentry'
    obtain ⟨hservice, hmounts⟩ := List.mem_filter.mp hentry
    obtain ⟨hservice', hmounts'⟩ := List.mem_filter.mp hentry'
    obtain rfl := hname name service name' service' hservice hservice' hmounts hmounts'
    have hget := IndexMap.get_eq_some_iff.mpr hservice
    rw [IndexMap.get_eq_some_iff.mpr hservice'] at hget
    rw [Option.some.inj hget]

/-- Two services that may mount the same volume. -/
def mounting (volume volume' : String) : RailyardManifest ℤ :=
  { (RailyardManifest.default : RailyardManifest ℤ) with
    services := .ofList
      [("db", { imageService none [] with volumes := .ofList [(volume, "/data")] }),
       ("backup", { imageService none [] with volumes := .ofList [(volume', "/backup")] })] }

/-- A volume of two services is accepted. -/
theorem mounting_accepted :
    validate .insertion (mounting "data" "data") = [] ∧
      ¬ ∀ volume, containersMounting (mounting "data" "data") volume ≤ 1 := by
  refine ⟨by decide, fun hall ↦ ?_⟩
  exact absurd (hall "data") (by decide)

theorem volumes_unshared_iff_mounting :
    validate .insertion (mounting "data" "spare") = [] ∧
      ∀ volume, containersMounting (mounting "data" "spare") volume ≤ 1 := by
  have hvalid : validate .insertion (mounting "data" "spare") = [] := by decide
  refine ⟨hvalid, (volumes_unshared_iff .insertion (mounting "data" "spare") hvalid).mpr ?_⟩
  intro volume name service name' service' hservice hservice' hmounts hmounts'
  have hkey := IndexMap.containsKey_iff.mp hmounts
  have hkey' := IndexMap.containsKey_iff.mp hmounts'
  have hnames : ∀ entry ∈ (mounting "data" "spare").services.entries,
      ∀ entry' ∈ (mounting "data" "spare").services.entries, ∀ key ∈ entry.2.volumes.keys,
        key ∈ entry'.2.volumes.keys → entry.1 = entry'.1 := by
    decide
  exact hnames _ hservice _ hservice' volume hkey hkey'

end Manifest
