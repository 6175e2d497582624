import Railyard.Client.Supersede

/-!
# Superseding, whatever the servers answer

The entries that a new admin entry makes redundant are found by asking about each of them once, and
each answer may be any: a server may be gone for one question and back for the next.  So the answers
are given for each entry here, and only the key file has to be there for an entry to have one.  The
disk may refuse to delete a file.  For an entry that is an error, and for a key file it goes unseen.

* `supersedeAll`: superseding with these answers on such a disk, of which that of a login is an
  instance (`supersedeProjectEntries_eq`);
* `SupersedesExactly`: what a call that succeeds is to change, and that it changes nothing else;
* `supersedeAll_exact_iff`: where no two entries share a key file, it does just that if and only if
  the key files of the entries it removes can be deleted.
-/

set_option autoImplicit false

namespace Client

open Data (Path)

/-- What is answered for an entry and the key in its file. -/
abbrev Answers := String → ServerConfig → SigningKey → Option WhoamiResponse

variable (root : Path) (refuses : Path → Bool) (answers : Answers)

/-- Who the client is by an entry. -/
def outcome (store : Store) (name : String) (server : ServerConfig) : Option WhoamiResponse :=
  (store.readSigningKey root server.privateKeyPath).bind (answers name server)

/-- Whether that is an identity scoped to a project. -/
def projectIdentity (store : Store) (name : String) (server : ServerConfig) : Bool :=
  (outcome root answers store name server).any fun identity ↦ identity.projectId.isSome

/-- `supersedeEntries` with an answer for each entry, on a disk that may refuse to delete. -/
def supersedeEach (serverUrl adminEntry : String) :
    List (String × ServerConfig) → Store → Except Error Unit × Store
  | [], store => (.ok (), store)
  | (name, server) :: rest, store =>
    if name = adminEntry ∨ server.serverUrl ≠ serverUrl then
      supersedeEach serverUrl adminEntry rest store
    else if !projectIdentity root answers store name server then
      supersedeEach serverUrl adminEntry rest store
    else
      match store.rebindProjects name adminEntry with
      | (.error e, store) => (.error e, store)
      | (.ok (), store) =>
        match store.removeServer root refuses name with
        | (.error e, store) => (.error e, store)
        | (.ok (), store) => supersedeEach serverUrl adminEntry rest store

/-- `supersedeProjectEntries` with an answer for each entry, on such a disk. -/
def supersedeAll (store : Store) (serverUrl adminEntry : String) : Except Error Unit × Store :=
  supersedeEach root refuses answers serverUrl adminEntry store.listServers store

variable {root refuses answers} {serverUrl adminEntry : String}

theorem supersedeEntries_eq {W : Type} (env : Env) (net : Net W) (w : W)
    (l : List (String × ServerConfig)) (store : Store) :
    supersedeEntries env net w serverUrl adminEntry l store = supersedeEach env.root
      (fun _ ↦ false) (fun _ server key ↦ net.whoami server.serverUrl server.keyId key w) serverUrl
      adminEntry l store := by
  induction l generalizing store with
  | nil => rfl
  | cons head rest ih =>
    obtain ⟨name, server⟩ := head
    rw [supersedeEntries, supersedeEach, ih]
    refine congrArg (ite _ _) (congrArg (ite _ _) ?_)
    rcases store.rebindProjects name adminEntry with ⟨e | _, store₁⟩
    · rfl
    · rcases hremove : store₁.removeServer env.root (fun _ ↦ false) name with
        ⟨e | _, store₂⟩
      · simp only [hremove]
      · simp only [hremove]
        exact ih store₂

/-- A login supersedes with the answers it gets, and its disk deletes every file. -/
theorem supersedeProjectEntries_eq {W : Type} (env : Env) (net : Net W) (store : Store) (w : W) :
    supersedeProjectEntries env net store w serverUrl adminEntry = supersedeAll env.root
      (fun _ ↦ false) (fun _ server key ↦ net.whoami server.serverUrl server.keyId key w) store
      serverUrl adminEntry :=
  supersedeEntries_eq env net w store.listServers store

/-! ## What one removal changes -/

/-- From `store` to `store'` these entries went, with those of their key files that can be deleted,
and their bindings moved to the admin entry.  Nothing else changed, unreadable files included. -/
structure Removes (refuses : Path → Bool) (adminEntry : String)
    (gone : List (String × ServerConfig)) (store store' : Store) : Prop where
  servers : ∀ name, store'.servers[name]? =
    if name ∈ gone.map Prod.fst then none else store.servers[name]?
  keys : ∀ path, store'.keys path =
    if path ∈ gone.map (fun e ↦ e.2.privateKeyPath) ∧ refuses path = false then none
    else store.keys path
  binding : ∀ projectId, store'.binding projectId = (store.binding projectId).map fun name ↦
    if name ∈ gone.map Prod.fst then adminEntry else name
  readable : store'.config.isSome = store.config.isSome

theorem Removes.refl (refuses : Path → Bool) (adminEntry : String) (store : Store) :
    Removes refuses adminEntry [] store store :=
  ⟨fun _ ↦ by simp, fun _ ↦ by simp, fun _ ↦ by simp, rfl⟩

theorem Removes.cons {head : String × ServerConfig} {gone : List (String × ServerConfig)}
    {store store₁ store' : Store} (hhead : Removes refuses adminEntry [head] store store₁)
    (hgone : Removes refuses adminEntry gone store₁ store')
    (hadmin : adminEntry ∉ gone.map Prod.fst) :
    Removes refuses adminEntry (head :: gone) store store' where
  servers name := by rw [hgone.servers, hhead.servers, erased_cons]
  keys path := by
    rw [hgone.keys, hhead.keys]
    cases hrefuses : refuses path with
    | true => simp
    | false =>
      simp only [and_true]
      exact erased_cons _ head gone path _
  binding projectId := by rw [hgone.binding, hhead.binding, moved_cons hadmin]
  readable := hgone.readable.trans hhead.readable

theorem locate_of_outcome {store : Store} {name : String} {server : ServerConfig}
    (h : projectIdentity root answers store name server = true) :
    locate root server.privateKeyPath = .file := by
  obtain ⟨identity, hidentity, -⟩ := (Option.any_eq_true _ _).mp h
  obtain ⟨key, hkey, -⟩ := Option.bind_eq_some_iff.mp hidentity
  rw [Store.readSigningKey] at hkey
  split at hkey
  · assumption
  · cases hkey

theorem readSigningKey_of_keys {store store' : Store} {path : Path}
    (h : store'.keys path = store.keys path) :
    store'.readSigningKey root path = store.readSigningKey root path := by
  rw [Store.readSigningKey, Store.readSigningKey]
  split
  · exact h
  · rfl

/-- Rebinding and removing one entry removes it. -/
theorem removes_one {store store₁ store₂ : Store} {name : String} {server : ServerConfig}
    (hentry : store.entry name = some server) (hfile : locate root server.privateKeyPath = .file)
    (hrebind : store.rebindProjects name adminEntry = (.ok (), store₁))
    (hremove : store₁.removeServer root refuses name = (.ok (), store₂)) :
    Removes refuses adminEntry [(name, server)] store store₂ := by
  rw [Store.rebindProjects] at hrebind
  cases hconfig : store.config with
  | none => simp [hconfig] at hrebind
  | some projects =>
    have hget := Store.entry_eq_some_iff.mp hentry
    simp only [hconfig, Prod.mk.injEq, true_and] at hrebind
    subst hrebind
    simp only [Store.removeServer, Store.readServer, hget] at hremove
    split at hremove
    · cases hremove
    split at hremove
    · cases hremove
    obtain rfl := (Prod.mk.inj hremove).2
    refine ⟨fun other ↦ ?_, fun path ↦ ?_, fun projectId ↦ ?_, ?_⟩
    all_goals rw [Store.removeFile_of_file hfile]
    · rw [Std.TreeMap.getElem?_erase]
      by_cases h : name = other
      · simp [h]
      · rw [if_neg (h ∘ Std.LawfulEqCmp.eq_of_compare)]
        simp [Ne.symm h]
    · by_cases h : path = server.privateKeyPath
      · subst h
        cases refuses server.privateKeyPath <;> simp
      · cases refuses server.privateKeyPath <;> simp [h]
    · simp [Store.binding, hconfig]
    · rw [hconfig]
      rfl

/-! ## Over all entries -/

/-- The entries among these that are removed. -/
def redundant (root : Path) (answers : Answers) (store : Store) (serverUrl adminEntry : String)
    (entry : String × ServerConfig) : Bool :=
  (entry.1 ≠ adminEntry ∧ entry.2.serverUrl = serverUrl) ∧
    projectIdentity root answers store entry.1 entry.2

theorem supersedeEach_removes {l : List (String × ServerConfig)} {store store' : Store}
    (hentries : ∀ found ∈ l, store.entry found.1 = some found.2)
    (hnames : (l.map Prod.fst).Nodup) (hkeys : (l.map fun e ↦ e.2.privateKeyPath).Nodup)
    (h : supersedeEach root refuses answers serverUrl adminEntry l store = (.ok (), store')) :
    Removes refuses adminEntry (l.filter (redundant root answers store serverUrl adminEntry)) store
      store' := by
  induction l generalizing store with
  | nil =>
    obtain rfl : store = store' := congrArg Prod.snd h
    exact .refl refuses adminEntry store
  | cons head rest ih =>
    obtain ⟨name, server⟩ := head
    have hhead := hentries (name, server) (List.mem_cons_self ..)
    have hrest := fun found hfound ↦ hentries found (List.mem_cons_of_mem _ hfound)
    rw [List.map_cons, List.nodup_cons] at hnames hkeys
    rw [supersedeEach] at h
    by_cases hskip : name = adminEntry ∨ server.serverUrl ≠ serverUrl
    · rw [if_pos hskip] at h
      rw [List.filter_cons_of_neg (by simp only [redundant, decide_eq_true_eq]; tauto)]
      exact ih hrest hnames.2 hkeys.2 h
    rw [if_neg hskip] at h
    by_cases hidentity : projectIdentity root answers store name server = true
    · rw [if_neg (by simpa using hidentity)] at h
      rw [List.filter_cons_of_pos (by simp only [redundant, decide_eq_true_eq]; tauto)]
      have hfile := locate_of_outcome hidentity
      rcases hrebind : store.rebindProjects name adminEntry with ⟨e | _, store₁⟩
      · simp [hrebind] at h
      rcases hremove : store₁.removeServer root refuses name with ⟨e | _, store₂⟩
      · simp [hrebind, hremove] at h
      have hone := removes_one hhead hfile hrebind hremove
      simp only [hrebind, hremove] at h
      have hentries₂ : ∀ found ∈ rest, store₂.entry found.1 = some found.2 := by
        intro found hfound
        have hne : found.1 ≠ name := fun heq ↦
          hnames.1 (List.mem_map.mpr ⟨found, hfound, heq⟩)
        rw [Store.entry_eq_some_iff, hone.servers]
        simpa [hne] using Store.entry_eq_some_iff.mp (hrest found hfound)
      -- the key files of the others are still there
      have hsame : rest.filter (redundant root answers store₂ serverUrl adminEntry) =
          rest.filter (redundant root answers store serverUrl adminEntry) := by
        refine List.filter_congr fun found hfound ↦ ?_
        have hne : found.2.privateKeyPath ≠ server.privateKeyPath := fun heq ↦
          hkeys.1 (List.mem_map.mpr ⟨found, hfound, heq⟩)
        have hkey : store₂.readSigningKey root found.2.privateKeyPath =
            store.readSigningKey root found.2.privateKeyPath :=
          readSigningKey_of_keys (by simpa [hne] using hone.keys found.2.privateKeyPath)
        rw [redundant, redundant, decide_eq_decide, projectIdentity, projectIdentity, outcome,
          outcome, hkey]
      have hmore := ih hentries₂ hnames.2 hkeys.2 h
      rw [hsame] at hmore
      refine hone.cons hmore fun hmem ↦ ?_
      obtain ⟨found, hfound, heq⟩ := List.mem_map.mp hmem
      have hred := (List.mem_filter.mp hfound).2
      simp only [redundant, decide_eq_true_eq] at hred
      exact hred.1.1 heq
    · rw [if_pos (by simpa using hidentity)] at h
      rw [List.filter_cons_of_neg (by simp only [redundant, decide_eq_true_eq]; tauto)]
      exact ih hrest hnames.2 hkeys.2 h

section Exact

variable (root answers) (store : Store) (serverUrl adminEntry : String)

/-- An entry for a server, other than the admin entry, whose answer is a live identity that is
scoped to a project. -/
structure LiveProjectEntry (name : String) (server : ServerConfig) : Prop where
  entry : store.entry name = some server
  notAdmin : name ≠ adminEntry
  sameServer : server.serverUrl = serverUrl
  live : ∃ identity, outcome root answers store name server = some identity ∧
    identity.projectId.isSome

/-- No two entries have one key file. -/
def DistinctKeyFiles : Prop :=
  ∀ name server name' server', store.entry name = some server → store.entry name' = some server' →
    server.privateKeyPath = server'.privateKeyPath → name = name'

/-- What superseding is to change: the entries that are live and scoped to a project go with their
key files, and their bindings point at the admin entry.  No binding points at a removed entry, and
all other entries, files and bindings are as they were. -/
structure SupersedesExactly (store' : Store) : Prop where
  entries : ∀ name server, LiveProjectEntry root answers store serverUrl adminEntry name server →
    store'.servers[name]? = none
  keyFiles : ∀ name server, LiveProjectEntry root answers store serverUrl adminEntry name server →
    store'.keys server.privateKeyPath = none
  otherEntries : ∀ name,
    (∀ server, ¬ LiveProjectEntry root answers store serverUrl adminEntry name server) →
      store'.servers[name]? = store.servers[name]?
  otherKeyFiles : ∀ path,
    (∀ name server, LiveProjectEntry root answers store serverUrl adminEntry name server →
      server.privateKeyPath ≠ path) → store'.keys path = store.keys path
  bindings : ∀ projectId name server, store.binding projectId = some name →
    LiveProjectEntry root answers store serverUrl adminEntry name server →
      store'.binding projectId = some adminEntry
  otherBindings : ∀ projectId, (∀ name server, store.binding projectId = some name →
    ¬ LiveProjectEntry root answers store serverUrl adminEntry name server) →
      store'.binding projectId = store.binding projectId
  noneLeft : ∀ projectId name server, store'.binding projectId = some name →
    ¬ LiveProjectEntry root answers store serverUrl adminEntry name server
  readable : store'.config.isSome = store.config.isSome

end Exact

variable {store store' : Store}

theorem mem_filter_redundant {name : String} {server : ServerConfig} :
    (name, server) ∈ store.listServers.filter
        (redundant root answers store serverUrl adminEntry) ↔
      LiveProjectEntry root answers store serverUrl adminEntry name server := by
  rw [List.mem_filter, Store.mem_listServers, redundant, decide_eq_true_eq, projectIdentity,
    Option.any_eq_true]
  exact ⟨fun ⟨hentry, ⟨hadmin, hurl⟩, hlive⟩ ↦ ⟨hentry, hadmin, hurl, hlive⟩,
    fun h ↦ ⟨h.entry, ⟨h.notAdmin, h.sameServer⟩, h.live⟩⟩

theorem listServers_keys_nodup (hdistinct : DistinctKeyFiles store) :
    (store.listServers.map fun e ↦ e.2.privateKeyPath).Nodup := by
  refine (store.listServers_names_nodup.of_map _).map_on fun e he e' he' hpath ↦ ?_
  have hentry := Store.mem_listServers.mp he
  have hentry' := Store.mem_listServers.mp he'
  have hname := hdistinct _ _ _ _ hentry hentry' hpath
  rw [hname, hentry'] at hentry
  exact Prod.ext hname (Option.some.inj hentry).symm

/-- The key file of an entry that is live is there. -/
theorem LiveProjectEntry.key {name : String} {server : ServerConfig}
    (h : LiveProjectEntry root answers store serverUrl adminEntry name server) :
    store.keys server.privateKeyPath ≠ none := by
  obtain ⟨identity, hidentity, -⟩ := h.live
  obtain ⟨key, hkey, -⟩ := Option.bind_eq_some_iff.mp hidentity
  rw [Store.readSigningKey] at hkey
  split at hkey
  · rw [hkey]
    exact Option.some_ne_none key
  · cases hkey

/-- **What superseding changes.**  Whatever is answered for each entry and whatever files the disk
refuses to delete: a call that succeeds where no two entries share a key file changes what it is to
change and nothing else, if and only if the key files of the entries it removes can be deleted. -/
theorem supersedeAll_exact_iff (hdistinct : DistinctKeyFiles store)
    (h : supersedeAll root refuses answers store serverUrl adminEntry = (.ok (), store')) :
    SupersedesExactly root answers store serverUrl adminEntry store' ↔
      ∀ name server, LiveProjectEntry root answers store serverUrl adminEntry name server →
        refuses server.privateKeyPath = false := by
  have hremoves := supersedeEach_removes (fun found hfound ↦ Store.mem_listServers.mp hfound)
    store.listServers_names_nodup (listServers_keys_nodup hdistinct) h
  have hname : ∀ name, name ∈ (store.listServers.filter
      (redundant root answers store serverUrl adminEntry)).map Prod.fst ↔
        ∃ server, LiveProjectEntry root answers store serverUrl adminEntry name server := by
    intro name
    simp only [List.mem_map, Prod.exists, exists_and_right, exists_eq_right, mem_filter_redundant]
  have hpath : ∀ path, path ∈ (store.listServers.filter
      (redundant root answers store serverUrl adminEntry)).map (fun e ↦ e.2.privateKeyPath) ↔
        ∃ name server, LiveProjectEntry root answers store serverUrl adminEntry name server ∧
          server.privateKeyPath = path := by
    intro path
    simp only [List.mem_map, Prod.exists, mem_filter_redundant]
  constructor
  · intro hexact name server hlive
    have hgone := hexact.keyFiles name server hlive
    rw [hremoves.keys] at hgone
    split at hgone
    · rename_i hdeleted
      exact hdeleted.2
    · exact absurd hgone hlive.key
  intro hdeletes
  exact {
    entries := fun name server hlive ↦ by
      rw [hremoves.servers, if_pos ((hname name).mpr ⟨server, hlive⟩)]
    keyFiles := fun name server hlive ↦ by
      rw [hremoves.keys,
        if_pos ⟨(hpath _).mpr ⟨name, server, hlive, rfl⟩, hdeletes name server hlive⟩]
    otherEntries := fun name hnot ↦ by
      rw [hremoves.servers, if_neg fun hmem ↦ ((hname name).mp hmem).elim hnot]
    otherKeyFiles := fun path hnot ↦ by
      rw [hremoves.keys, if_neg fun hmem ↦ ?_]
      obtain ⟨name, server, hlive, hsame⟩ := (hpath path).mp hmem.1
      exact hnot name server hlive hsame
    bindings := fun projectId name server hbinding hlive ↦ by
      rw [hremoves.binding, hbinding, Option.map_some, if_pos ((hname name).mpr ⟨server, hlive⟩)]
    otherBindings := fun projectId hnot ↦ by
      rw [hremoves.binding]
      cases hbinding : store.binding projectId with
      | none => rfl
      | some name =>
        rw [Option.map_some, if_neg fun hmem ↦ ?_]
        obtain ⟨server, hlive⟩ := (hname name).mp hmem
        exact hnot name server hbinding hlive
    noneLeft := fun projectId name server hbinding hlive ↦ by
      rw [hremoves.binding] at hbinding
      obtain ⟨bound, -, hmoved⟩ := Option.map_eq_some_iff.mp hbinding
      split at hmoved
      · exact hlive.notAdmin hmoved.symm
      · rename_i hkept
        rw [hmoved] at hkept
        exact hkept ((hname name).mpr ⟨server, hlive⟩)
    readable := hremoves.readable }

/-- Three entries for one server: the new admin entry, one that answers for a project and one whose
key is refused. -/
def teamStore : Store where
  servers := Std.TreeMap.ofList
    [("host", ServerFile.entry ⟨"https://host", "usr_1", ["home", "1.json"]⟩),
      ("shop", ServerFile.entry ⟨"https://host", "usr_2", ["home", "2.json"]⟩),
      ("web", ServerFile.entry ⟨"https://host", "usr_3", ["home", "3.json"]⟩)]
  keys path := if path.dropLast = ["home"] then some "secret" else none
  config := some (Std.TreeMap.ofList [("prj_2", "shop"), ("prj_3", "web")])

/-- The answers of their server. -/
def teamAnswers : Answers := fun name _ _ ↦
  if name = "host" then some ⟨"usr_1", "ann", none⟩
  else if name = "shop" then some ⟨"usr_2", "ann", some "prj_2"⟩
  else none

theorem distinctKeyFiles_team : DistinctKeyFiles teamStore := by
  have hlist : teamStore.listServers =
      [("host", ⟨"https://host", "usr_1", ["home", "1.json"]⟩),
        ("shop", ⟨"https://host", "usr_2", ["home", "2.json"]⟩),
        ("web", ⟨"https://host", "usr_3", ["home", "3.json"]⟩)] := by rfl
  intro name server name' server' hentry hentry' hpath
  have hmem := Store.mem_listServers.mpr hentry
  have hmem' := Store.mem_listServers.mpr hentry'
  rw [hlist] at hmem hmem'
  simp only [List.mem_cons, Prod.mk.injEq, List.not_mem_nil, or_false] at hmem hmem'
  rcases hmem with ⟨rfl, rfl⟩ | ⟨rfl, rfl⟩ | ⟨rfl, rfl⟩ <;>
    rcases hmem' with ⟨rfl, rfl⟩ | ⟨rfl, rfl⟩ | ⟨rfl, rfl⟩ <;>
      first | rfl | exact absurd hpath (by decide)

theorem liveProjectEntry_shop : LiveProjectEntry ["home"] teamAnswers teamStore "https://host"
    "host" "shop" ⟨"https://host", "usr_2", ["home", "2.json"]⟩ :=
  ⟨by rfl, by decide, rfl, ⟨_, by rfl, rfl⟩⟩

/-- The disk refuses to delete the key file of the entry that stays. -/
theorem supersedeAll_exact_iff_team : ∃ store',
    supersedeAll ["home"] (· = ["home", "3.json"]) teamAnswers teamStore "https://host" "host" =
        (.ok (), store') ∧
      SupersedesExactly ["home"] teamAnswers teamStore "https://host" "host" store' ∧
        store'.keys ["home", "2.json"] = none ∧ store'.keys ["home", "3.json"] = some "secret" := by
  have hok : supersedeAll ["home"] (· = ["home", "3.json"]) teamAnswers teamStore "https://host"
      "host" = (.ok (), (supersedeAll ["home"] (· = ["home", "3.json"]) teamAnswers teamStore
        "https://host" "host").2) := by rfl
  have hexact := (supersedeAll_exact_iff distinctKeyFiles_team hok).mpr fun name server hlive ↦ by
    -- the only entry with that key file is not live
    refine decide_eq_false fun hpath ↦ ?_
    obtain ⟨identity, hidentity, -⟩ := hlive.live
    obtain ⟨key, -, hanswer⟩ := Option.bind_eq_some_iff.mp hidentity
    obtain rfl : name = "web" := distinctKeyFiles_team _ _ _ _ hlive.entry
      (by rfl : teamStore.entry "web" = some ⟨"https://host", "usr_3", ["home", "3.json"]⟩) hpath
    cases hanswer
  refine ⟨_, hok, hexact, hexact.keyFiles _ _ liveProjectEntry_shop, by rfl⟩

/-- The disk refuses to delete a key file: its entry goes, the call succeeds and the key stays. -/
theorem keyFile_left_behind : ∃ store',
    supersedeAll ["home"] (· = ["home", "2.json"]) teamAnswers teamStore "https://host" "host" =
        (.ok (), store') ∧ DistinctKeyFiles teamStore ∧
      store'.servers["shop"]? = none ∧ store'.keys ["home", "2.json"] = some "secret" ∧
        ¬ SupersedesExactly ["home"] teamAnswers teamStore "https://host" "host" store' := by
  refine ⟨_, by rfl, distinctKeyFiles_team, by rfl, by rfl, fun hexact ↦ ?_⟩
  have hgone := hexact.keyFiles _ _ liveProjectEntry_shop
  have hstays : some "secret" = (none : Option SigningKey) := hgone
  cases hstays

end Client
