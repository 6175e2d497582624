import Railyard.Client.Login

/-!
# What superseding entries does

`supersedeEntries` goes through the entries as they were listed and asks for each one whether its
identity is scoped to a project, with the key files as they are by then: an entry removed earlier
took its key file with it, so that an entry sharing that file is left alone.

* `superseded`: the entries that are removed, read off the list alone;
* `supersedeEntries_cases`: the call removes exactly these with their key files and points their
  bindings at the admin entry (`Drops`), unless the bindings cannot be read.
-/

set_option autoImplicit false

namespace Client

open Data (Path)

variable {W : Type} (env : Env) (net : Net W)

/-- Whether the live identity of an entry is scoped to a project. -/
def projectScoped (store : Store) (w : W) (server : ServerConfig) : Bool :=
  (liveIdentity env net store w server).any fun identity ↦ identity.projectId.isSome

/-- The entries of a list that are for a server, not the admin entry, and pass a test that fails
once the key file is gone. -/
def superseded (serverUrl adminEntry : String) :
    (ServerConfig → Bool) → List (String × ServerConfig) → List (String × ServerConfig)
  | _, [] => []
  | test, (name, server) :: rest =>
    if (name ≠ adminEntry ∧ server.serverUrl = serverUrl) ∧ test server then
      (name, server) :: superseded serverUrl adminEntry
        (fun other ↦ test other ∧ other.privateKeyPath ≠ server.privateKeyPath) rest
    else superseded serverUrl adminEntry test rest

variable {serverUrl adminEntry : String}

theorem of_mem_superseded {test : ServerConfig → Bool} {l : List (String × ServerConfig)}
    {found : String × ServerConfig} (h : found ∈ superseded serverUrl adminEntry test l) :
    (found.1 ≠ adminEntry ∧ found.2.serverUrl = serverUrl) ∧ test found.2 = true := by
  induction l generalizing test with
  | nil => simp [superseded] at h
  | cons head rest ih =>
    rw [superseded] at h
    split at h
    · rename_i hhead
      rcases List.mem_cons.mp h with rfl | hrest
      · exact hhead
      · have hfound := ih hrest
        simp only [Bool.decide_and, Bool.decide_eq_true, Bool.and_eq_true] at hfound
        exact ⟨hfound.1, hfound.2.1⟩
    · exact ih h

theorem exists_superseded {test : ServerConfig → Bool} {l : List (String × ServerConfig)}
    {found : String × ServerConfig} (hfound : found ∈ l)
    (hcond : (found.1 ≠ adminEntry ∧ found.2.serverUrl = serverUrl) ∧ test found.2 = true) :
    found.2.privateKeyPath ∈
      (superseded serverUrl adminEntry test l).map fun e ↦ e.2.privateKeyPath := by
  induction l generalizing test with
  | nil => simp at hfound
  | cons head rest ih =>
    rw [superseded]
    split
    · rw [List.map_cons, List.mem_cons]
      by_cases hpath : found.2.privateKeyPath = head.2.privateKeyPath
      · exact .inl hpath
      · refine .inr (ih ?_ ⟨hcond.1, by simp [hcond.2, hpath]⟩)
        exact (List.mem_cons.mp hfound).resolve_left fun heq ↦ hpath (heq ▸ rfl)
    · rename_i hhead
      refine ih ?_ hcond
      exact (List.mem_cons.mp hfound).resolve_left fun heq ↦ hhead (heq ▸ hcond)

/-- An entry is dropped unless an earlier one that is dropped shares its key file. -/
theorem mem_superseded_iff {test : ServerConfig → Bool} {l : List (String × ServerConfig)}
    (hsorted : l.Pairwise fun a b ↦ a.1 < b.1) {found : String × ServerConfig} :
    found ∈ superseded serverUrl adminEntry test l ↔
      found ∈ l ∧ ((found.1 ≠ adminEntry ∧ found.2.serverUrl = serverUrl) ∧ test found.2 = true) ∧
        ∀ other ∈ l, other.1 < found.1 →
          (other.1 ≠ adminEntry ∧ other.2.serverUrl = serverUrl) ∧ test other.2 = true →
            other.2.privateKeyPath ≠ found.2.privateKeyPath := by
  induction l generalizing test with
  | nil => simp [superseded]
  | cons head rest ih =>
    rw [List.pairwise_cons] at hsorted
    have hmin : ∀ other ∈ head :: rest, ¬ other.1 < head.1 := by
      intro other hother hlt
      rcases List.mem_cons.mp hother with rfl | hrest
      · exact lt_irrefl _ hlt
      · exact lt_asymm hlt (hsorted.1 other hrest)
    have hne : ∀ other ∈ rest, other ≠ head := fun other hother heq ↦
      lt_irrefl _ (heq ▸ hsorted.1 other hother)
    rw [superseded]
    split
    · rename_i hhead
      rw [List.mem_cons, ih hsorted.2]
      constructor
      · rintro (rfl | ⟨hrest, hcond, hothers⟩)
        · exact ⟨List.mem_cons_self .., hhead, fun other hother hlt ↦
            absurd hlt (hmin other hother)⟩
        · simp only [Bool.decide_and, Bool.decide_eq_true, Bool.and_eq_true,
            decide_eq_true_eq] at hcond hothers
          refine ⟨List.mem_cons_of_mem _ hrest, ⟨hcond.1, hcond.2.1⟩, ?_⟩
          intro other hother hlt hcond' hpath
          rcases List.mem_cons.mp hother with rfl | hother
          · exact hcond.2.2 hpath.symm
          · refine hothers other hother hlt ⟨hcond'.1, hcond'.2, fun heq ↦ ?_⟩ hpath
            exact hcond.2.2 (hpath ▸ heq)
      · rintro ⟨hmem, hcond, hothers⟩
        rcases List.mem_cons.mp hmem with rfl | hrest
        · exact .inl rfl
        · have hpath := hothers head (List.mem_cons_self ..) (hsorted.1 found hrest) hhead
          refine .inr ⟨hrest, ⟨hcond.1, by simp [hcond.2, hpath.symm]⟩, ?_⟩
          intro other hother hlt hcond'
          simp only [Bool.decide_and, Bool.decide_eq_true, Bool.and_eq_true] at hcond'
          exact hothers other (List.mem_cons_of_mem _ hother) hlt ⟨hcond'.1, hcond'.2.1⟩
    · rename_i hhead
      rw [ih hsorted.2]
      constructor
      · rintro ⟨hrest, hcond, hothers⟩
        refine ⟨List.mem_cons_of_mem _ hrest, hcond, fun other hother hlt hcond' ↦ ?_⟩
        rcases List.mem_cons.mp hother with rfl | hother
        · exact absurd hcond' hhead
        · exact hothers other hother hlt hcond'
      · rintro ⟨hmem, hcond, hothers⟩
        rcases List.mem_cons.mp hmem with rfl | hrest
        · exact absurd hcond hhead
        · exact ⟨hrest, hcond, fun other hother ↦
            hothers other (List.mem_cons_of_mem _ hother)⟩

/-! ## What is dropped -/

/-- From `store` to `store'` some entries were dropped with their key files, and their bindings
moved to the admin entry. -/
structure Drops (root : Path) (adminEntry : String) (gone : List (String × ServerConfig))
    (store store' : Store) : Prop where
  entry : ∀ name, store'.entry name =
    if name ∈ gone.map Prod.fst then none else store.entry name
  key : ∀ path, store'.readSigningKey root path =
    if path ∈ gone.map (fun e ↦ e.2.privateKeyPath) then none else store.readSigningKey root path
  binding : ∀ projectId, store'.binding projectId = (store.binding projectId).map fun name ↦
    if name ∈ gone.map Prod.fst then adminEntry else name
  config : store.config.isSome → store'.config.isSome

/-- Erasing some more erases all of them. -/
theorem erased_cons {α β γ : Type} [BEq β] [LawfulBEq β] (f : α → β) (head : α) (gone : List α)
    (b : β) (found : Option γ) :
    (if b ∈ gone.map f then none else if b ∈ [head].map f then none else found)
      = if b ∈ (head :: gone).map f then none else found := by
  by_cases hmem : b ∈ gone.map f <;> by_cases hhead : b = f head <;> simp [hmem, hhead]

/-- Moving the bindings of some more moves those of all of them, where the admin entry stays. -/
theorem moved_cons {head : String × ServerConfig} {gone : List (String × ServerConfig)}
    (hadmin : adminEntry ∉ gone.map Prod.fst) (bound : Option String) :
    ((bound.map fun name ↦ if name ∈ [head].map Prod.fst then adminEntry else name).map fun name ↦
        if name ∈ gone.map Prod.fst then adminEntry else name)
      = bound.map fun name ↦ if name ∈ (head :: gone).map Prod.fst then adminEntry else name := by
  rw [Option.map_map]
  refine congrArg (Option.map · _) (funext fun name ↦ ?_)
  by_cases hname : name = head.1
  · simp [hname, hadmin]
  · simp only [Function.comp_apply, List.map_cons, List.map_nil, List.mem_cons, hname,
      List.not_mem_nil, or_self, if_false, false_or]

theorem Drops.refl (root : Path) (store : Store) : Drops root adminEntry [] store store :=
  ⟨fun _ ↦ by simp, fun _ ↦ by simp, fun _ ↦ by simp, fun h ↦ h⟩

theorem Drops.cons {root : Path} {head : String × ServerConfig}
    {gone : List (String × ServerConfig)} {store store₁ store' : Store}
    (hhead : Drops root adminEntry [head] store store₁)
    (hgone : Drops root adminEntry gone store₁ store') (hadmin : adminEntry ∉ gone.map Prod.fst) :
    Drops root adminEntry (head :: gone) store store' where
  entry name := by rw [hgone.entry, hhead.entry, erased_cons]
  key path := by
    rw [hgone.key, hhead.key]
    exact erased_cons _ head gone path _
  binding projectId := by rw [hgone.binding, hhead.binding, moved_cons hadmin]
  config h := hgone.config (hhead.config h)

variable {env net} {w : W}

theorem locate_of_liveIdentity {store : Store} {server : ServerConfig} {identity : WhoamiResponse}
    (h : liveIdentity env net store w server = some identity) :
    locate env.root server.privateKeyPath = .file := by
  rw [liveIdentity, Store.readSigningKey] at h
  split at h
  · assumption
  · simp at h

/-- An identity depends on the stores through the key in its file only. -/
theorem liveIdentity_congr {store store' : Store} {server : ServerConfig}
    (h : store'.readSigningKey env.root server.privateKeyPath =
      store.readSigningKey env.root server.privateKeyPath) :
    liveIdentity env net store' w server = liveIdentity env net store w server := by
  rw [liveIdentity, liveIdentity, h]

/-- The test of the entries that are left, once one was dropped. -/
theorem Drops.projectScoped {head : String × ServerConfig} {store store₁ : Store}
    (h : Drops env.root adminEntry [head] store store₁) :
    Client.projectScoped env net store₁ w = fun server ↦
      Client.projectScoped env net store w server ∧
        server.privateKeyPath ≠ head.2.privateKeyPath := by
  funext server
  have hkey := h.key server.privateKeyPath
  by_cases hpath : server.privateKeyPath = head.2.privateKeyPath
  · have hnone : store₁.readSigningKey env.root server.privateKeyPath = none := by
      simpa [hpath] using hkey
    have hdead : liveIdentity env net store₁ w server = none := by
      rw [liveIdentity, hnone]
      rfl
    simp [Client.projectScoped, hdead, hpath]
  · have hsame : store₁.readSigningKey env.root server.privateKeyPath =
        store.readSigningKey env.root server.privateKeyPath := by
      simpa [hpath] using hkey
    simp [Client.projectScoped, liveIdentity_congr hsame, hpath]

/-- Rebinding and removing one entry drops it. -/
theorem drops_one (adminEntry : String) {store : Store} {name : String} {server : ServerConfig}
    (hentry : store.entry name = some server)
    (hfile : locate env.root server.privateKeyPath = .file) :
    (store.config = none ∧ ∃ e, store.rebindProjects name adminEntry = (.error e, store)) ∨
      ∃ store₁ store₂, store.rebindProjects name adminEntry = (.ok (), store₁) ∧
        store₁.removeServer env.root (fun _ ↦ false) name = (.ok (), store₂) ∧
        store₂.config.isSome ∧
        Drops env.root adminEntry [(name, server)] store store₂ := by
  rcases store.rebindProjects_cases name adminEntry with
    herror | ⟨store₁, hrebind, hconfig, hservers, hkeys, hbinding⟩
  · exact .inl herror
  · obtain ⟨store₂, hremove, hentry₂, hkey₂, hconfig₂⟩ :=
      Store.removeServer_ok ((Store.entry_congr hservers name).trans hentry) hfile
    refine .inr ⟨store₁, store₂, hrebind, hremove, hconfig₂ ▸ hconfig, ?_, ?_, ?_,
      fun _ ↦ hconfig₂ ▸ hconfig⟩
    · intro other
      rw [hentry₂, Store.entry_congr hservers]
      simp [eq_comm]
    · intro path
      rw [hkey₂, Store.readSigningKey_congr hkeys]
      simp
    · intro projectId
      rw [Store.binding_congr hconfig₂, hbinding]
      simp

theorem supersedeEntries_cases {l : List (String × ServerConfig)} {store : Store}
    (hentries : ∀ found ∈ l, store.entry found.1 = some found.2)
    (hnodup : (l.map Prod.fst).Nodup) :
    (∃ store', supersedeEntries env net w serverUrl adminEntry l store = (.ok (), store') ∧
      Drops env.root adminEntry
        (superseded serverUrl adminEntry (projectScoped env net store w) l) store store') ∨
      (store.config = none ∧
        ∃ e, supersedeEntries env net w serverUrl adminEntry l store = (.error e, store)) := by
  induction l generalizing store with
  | nil => exact .inl ⟨store, rfl, Drops.refl env.root store⟩
  | cons head rest ih =>
    obtain ⟨name, server⟩ := head
    have hhead := hentries (name, server) (List.mem_cons_self ..)
    have hrest := fun found hfound ↦ hentries found (List.mem_cons_of_mem _ hfound)
    rw [List.map_cons, List.nodup_cons] at hnodup
    rw [supersedeEntries, superseded]
    by_cases hskip : name = adminEntry ∨ server.serverUrl ≠ serverUrl
    · have hcond : ¬ (name ≠ adminEntry ∧ server.serverUrl = serverUrl) := by tauto
      rw [if_pos hskip, if_neg fun h ↦ hcond h.1]
      exact ih hrest hnodup.2
    have hcond : name ≠ adminEntry ∧ server.serverUrl = serverUrl := by tauto
    rw [if_neg hskip]
    by_cases hscoped : Client.projectScoped env net store w server = true
    · rw [if_neg (by simpa [Client.projectScoped] using hscoped), if_pos ⟨hcond, hscoped⟩]
      obtain ⟨identity, hidentity, -⟩ := (Option.any_eq_true _ _).mp hscoped
      have hfile := locate_of_liveIdentity hidentity
      rcases drops_one adminEntry hhead hfile with
        ⟨hconfig, e, herror⟩ | ⟨store₁, store₂, hrebind, hremove, hconfig, hdrop⟩
      · exact .inr ⟨hconfig, e, by rw [herror]⟩
      · have hentries₂ : ∀ found ∈ rest, store₂.entry found.1 = some found.2 := by
          intro found hfound
          have hne : found.1 ≠ name := fun heq ↦
            hnodup.1 (List.mem_map.mpr ⟨found, hfound, heq⟩)
          rw [hdrop.entry]
          simpa [hne] using hrest found hfound
        rw [hrebind]
        simp only
        rw [hremove]
        simp only
        rcases ih hentries₂ hnodup.2 with ⟨store', hrun, hdrops⟩ | ⟨hnone, -⟩
        · refine .inl ⟨store', hrun, ?_⟩
          rw [hdrop.projectScoped] at hdrops
          refine hdrop.cons hdrops fun hmem ↦ ?_
          obtain ⟨found, hfound, heq⟩ := List.mem_map.mp hmem
          exact (of_mem_superseded hfound).1.1 heq
        · rw [hnone] at hconfig
          exact absurd hconfig (by simp)
    · rw [if_pos (by simpa [Client.projectScoped] using hscoped), if_neg fun h ↦ hscoped h.2]
      exact ih hrest hnodup.2

/-! ## Over all entries -/

section All

variable (env net) (store : Store) (w : W) (serverUrl adminEntry : String)

/-- An entry the new admin entry makes redundant. -/
def Redundant (name : String) (server : ServerConfig) : Prop :=
  store.entry name = some server ∧ (name ≠ adminEntry ∧ server.serverUrl = serverUrl) ∧
    projectScoped env net store w server = true

/-- The key file of an entry is also that of a redundant one, which is dropped before it. -/
def KeyTaken (name : String) (server : ServerConfig) : Prop :=
  ∃ name' server', Redundant env net store w serverUrl adminEntry name' server' ∧ name' ≠ name ∧
    server'.privateKeyPath = server.privateKeyPath ∧
      (Redundant env net store w serverUrl adminEntry name server → name' < name)

/-- The entries that are dropped. -/
def dropped : List (String × ServerConfig) :=
  superseded serverUrl adminEntry (projectScoped env net store w) store.listServers

end All

variable {store : Store} {name : String} {server : ServerConfig}

theorem mem_dropped_iff : (name, server) ∈ dropped env net store w serverUrl adminEntry ↔
    Redundant env net store w serverUrl adminEntry name server ∧
      ∀ name' server', Redundant env net store w serverUrl adminEntry name' server' →
        name' < name → server'.privateKeyPath ≠ server.privateKeyPath := by
  rw [dropped, mem_superseded_iff store.listServers_sorted, Store.mem_listServers]
  constructor
  · rintro ⟨hentry, hcond, hfirst⟩
    refine ⟨⟨hentry, hcond⟩, fun name' server' hred hlt ↦ ?_⟩
    exact hfirst (name', server') (Store.mem_listServers.mpr hred.1) hlt hred.2
  · rintro ⟨⟨hentry, hcond⟩, hfirst⟩
    refine ⟨hentry, hcond, fun other hother hlt hother' ↦ ?_⟩
    exact hfirst other.1 other.2 ⟨Store.mem_listServers.mp hother, hother'⟩ hlt

theorem mem_dropped_names_iff (hentry : store.entry name = some server) :
    name ∈ (dropped env net store w serverUrl adminEntry).map Prod.fst ↔
      (name, server) ∈ dropped env net store w serverUrl adminEntry := by
  rw [List.mem_map]
  constructor
  · rintro ⟨⟨name', server'⟩, hmem, rfl⟩
    have hsame := (mem_dropped_iff.mp hmem).1.1
    obtain rfl : server = server' := Option.some.inj (hentry.symm.trans hsame)
    exact hmem
  · exact fun hmem ↦ ⟨_, hmem, rfl⟩

theorem mem_dropped_paths_iff {path : Path} :
    path ∈ (dropped env net store w serverUrl adminEntry).map (fun e ↦ e.2.privateKeyPath) ↔
      ∃ name server, Redundant env net store w serverUrl adminEntry name server ∧
        server.privateKeyPath = path := by
  constructor
  · intro hmem
    obtain ⟨⟨name, server⟩, hdropped, rfl⟩ := List.mem_map.mp hmem
    exact ⟨name, server, (mem_dropped_iff.mp hdropped).1, rfl⟩
  · rintro ⟨name, server, ⟨hentry, hcond⟩, rfl⟩
    have hmem : (name, server) ∈ store.listServers := Store.mem_listServers.mpr hentry
    exact exists_superseded hmem hcond

/-- A redundant entry is dropped unless its key file was taken before. -/
theorem mem_dropped_iff_not_keyTaken
    (hred : Redundant env net store w serverUrl adminEntry name server) :
    (name, server) ∈ dropped env net store w serverUrl adminEntry ↔
      ¬ KeyTaken env net store w serverUrl adminEntry name server := by
  rw [mem_dropped_iff]
  constructor
  · rintro ⟨-, hfirst⟩ ⟨name', server', hred', -, hpath, hlt⟩
    exact hfirst name' server' hred' (hlt hred) hpath
  · intro hfree
    refine ⟨hred, fun name' server' hred' hlt hpath ↦ hfree ?_⟩
    exact ⟨name', server', hred', ne_of_lt hlt, hpath, fun _ ↦ hlt⟩

/-- **What superseding does**, for all stores and whatever the servers answer. -/
theorem supersedeProjectEntries_cases (store : Store) (w : W) (serverUrl adminEntry : String) :
    (∃ store', supersedeProjectEntries env net store w serverUrl adminEntry = (.ok (), store') ∧
      Drops env.root adminEntry (dropped env net store w serverUrl adminEntry) store store') ∨
      (store.config = none ∧
        ∃ e, supersedeProjectEntries env net store w serverUrl adminEntry = (.error e, store)) := by
  exact supersedeEntries_cases (fun found hfound ↦ Store.mem_listServers.mp hfound)
    store.listServers_names_nodup

end Client
