import Railyard.Client.Servers
import Railyard.Client.Supersede

/-!
# What a login does to access already held

A project is within reach when its binding names an entry whose live identity covers it: an
admin, or a user scoped to that project.  Logging in may replace the entry under a name, and
removes entries that a new admin entry makes redundant.

* `KeepsAccess`: the condition, on the stores and the servers before, under which no project gets
  out of reach;
* `login_keeps_access_iff`: a login that returns successfully keeps every project within reach
  exactly then;
* `overwritten`: logging in to a second project under the name of the first one's entry.
-/

set_option autoImplicit false

namespace Client

open Railyard (InvitePayload InviteProject)

variable (env : Env) (hosts : Servers.Hosts)

/-! ## Projects within reach -/

/-- An admin, or a user scoped to the project. -/
def Covers (scope : Option String) (projectId : String) : Prop :=
  scope = none ∨ scope = some projectId

/-- The servers, asked with this client's keys. -/
abbrev servers : Net Servers := Servers.net hosts env.publicKeyBase64

/-- An entry with its live identity covers a project that is bound to it. -/
structure Reaches (store : Store) (w : Servers) (projectId name : String) (server : ServerConfig)
    (identity : WhoamiResponse) : Prop where
  binding : store.binding projectId = some name
  entry : store.entry name = some server
  live : liveIdentity env (servers env hosts) store w server = some identity
  covers : Covers identity.projectId projectId

/-- The project is within reach. -/
def HasAccess (store : Store) (w : Servers) (projectId : String) : Prop :=
  ∃ name server identity, Reaches env hosts store w projectId name server identity

/-- A key id is fresh: its key file is a file of its own, and no entry has the id or the file. -/
structure Fresh (store : Store) (keyId : String) : Prop where
  file : locate env.root (keyPath env.root keyId) = .file
  unusedId : ∀ name server, store.entry name = some server → server.keyId ≠ keyId
  unusedFile : ∀ name server, store.entry name = some server →
    server.privateKeyPath ≠ keyPath env.root keyId

/-- What a login needs of the stores and the servers to keep every project within reach.  Either
an entry covers the invite's project and the login only links it; or the new identity covers every
project that is bound to the entry it replaces, to an entry it makes redundant, or that is the
invite's, and no entry within reach shares its key file with a redundant one. -/
def KeepsAccess (store : Store) (w : Servers) (invite : InvitePayload) (name : Option String) :
    Prop :=
  (∃ project, invite.project = some project ∧
    (existingAccess env (servers env hosts) store w invite.serverUrl project.id).isSome) ∨
  ∀ serverName id account, resolveServerName env name invite = .ok serverName →
    Servers.invitee hosts w invite = some (id, account) →
      ∀ projectId bound server identity,
        Reaches env hosts store w projectId bound server identity →
          ((bound = serverName ∨
              (∃ project, invite.project = some project ∧ project.id = projectId) ∨
              (invite.project = none ∧ Redundant env (servers env hosts) store w
                invite.serverUrl serverName bound server)) →
            Covers account.projectId projectId) ∧
          (invite.project = none → bound ≠ serverName →
            ¬ KeyTaken env (servers env hosts) store w invite.serverUrl serverName bound server)

/-! ## The new identity -/

section Written

variable {env hosts} {store : Store} {w : Servers} {invite : InvitePayload}
  {serverName id : String} {key : SigningKey} {account : Account}

/-- The servers after the redemption. -/
def enrolled (env : Env) (w : Servers) (id : String) (account : Account) (key : SigningKey) :
    Servers :=
  w.insert id { account with credential := .enrolled (env.publicKeyBase64 key) }

/-- The identities of the other entries stay what they were. -/
theorem liveIdentity_written (hfresh : Fresh env store id) {name : String} {server : ServerConfig}
    (hentry : store.entry name = some server) :
    liveIdentity env (servers env hosts) (written env invite serverName id key store)
        (enrolled env w id account key) server =
      liveIdentity env (servers env hosts) store w server := by
  have hkey : (written env invite serverName id key store).readSigningKey env.root
      server.privateKeyPath = store.readSigningKey env.root server.privateKeyPath := by
    rw [readSigningKey_written hfresh.file, if_neg (hfresh.unusedFile name server hentry)]
  rw [liveIdentity, liveIdentity, hkey]
  refine congrArg _ (funext fun key' ↦ ?_)
  exact Servers.whoami_insert_of_ne (hfresh.unusedId name server hentry)

/-- The new key proves the invited user's identity wherever its file is intact. -/
theorem liveIdentity_newServer {store' : Store} (haccount : account.host = hosts invite.serverUrl)
    (hkey : store'.readSigningKey env.root (keyPath env.root id) = some key) :
    liveIdentity env (servers env hosts) store' (enrolled env w id account key)
      (newServer env invite id) = some (Servers.Account.identity account id) := by
  show (store'.readSigningKey env.root (keyPath env.root id)).bind _ = _
  rw [hkey, Option.bind_some, Servers.whoami_eq_some]
  exact ⟨{ account with credential := .enrolled (env.publicKeyBase64 key) },
    Std.TreeMap.getElem?_insert_self, haccount, rfl, rfl⟩

theorem redundant_written_iff (hfresh : Fresh env store id) {name : String}
    {server : ServerConfig} :
    Redundant env (servers env hosts) (written env invite serverName id key store)
        (enrolled env w id account key) invite.serverUrl serverName name server ↔
      Redundant env (servers env hosts) store w invite.serverUrl serverName name server := by
  rw [Redundant, Redundant, entry_written hfresh.file]
  constructor
  · rintro ⟨hentry, hcond, hscoped⟩
    rw [if_neg (Ne.symm hcond.1)] at hentry
    rw [projectScoped, liveIdentity_written hfresh hentry] at hscoped
    exact ⟨hentry, hcond, hscoped⟩
  · rintro ⟨hentry, hcond, hscoped⟩
    refine ⟨by rw [if_neg (Ne.symm hcond.1), hentry], hcond, ?_⟩
    rw [projectScoped, liveIdentity_written hfresh hentry]
    exact hscoped

theorem keyTaken_written_iff (hfresh : Fresh env store id) {name : String}
    {server : ServerConfig} :
    KeyTaken env (servers env hosts) (written env invite serverName id key store)
        (enrolled env w id account key) invite.serverUrl serverName name server ↔
      KeyTaken env (servers env hosts) store w invite.serverUrl serverName name server := by
  simp only [KeyTaken, redundant_written_iff hfresh]

/-! ## After the login -/

/-- A project bound to the intact new entry is within reach when the new identity covers it. -/
theorem hasAccess_new_iff (haccount : account.host = hosts invite.serverUrl) {store' : Store}
    {projectId : String} (hbinding : store'.binding projectId = some serverName)
    (hentry : store'.entry serverName = some (newServer env invite id))
    (hkey : store'.readSigningKey env.root (keyPath env.root id) = some key) :
    HasAccess env hosts store' (enrolled env w id account key) projectId ↔
      Covers account.projectId projectId := by
  have hlive : liveIdentity env (servers env hosts) store' (enrolled env w id account key)
      (newServer env invite id) = some (Servers.Account.identity account id) :=
    liveIdentity_newServer haccount hkey
  constructor
  · rintro ⟨name, server, identity, hreaches⟩
    obtain rfl : serverName = name := Option.some.inj (hbinding.symm.trans hreaches.binding)
    obtain rfl : newServer env invite id = server :=
      Option.some.inj (hentry.symm.trans hreaches.entry)
    obtain rfl : Servers.Account.identity account id = identity :=
      Option.some.inj (hlive.symm.trans hreaches.live)
    exact hreaches.covers
  · intro hcovers
    exact ⟨serverName, _, _, hbinding, hentry, hlive, hcovers⟩

/-- A project stays within reach of an entry that is as it was, with its key. -/
theorem hasAccess_old (hfresh : Fresh env store id) {store' : Store} {projectId bound : String}
    {server : ServerConfig} {identity : WhoamiResponse}
    (hreaches : Reaches env hosts store w projectId bound server identity)
    (hbinding : store'.binding projectId = some bound)
    (hentry : store'.entry bound = some server)
    (hkey : store'.readSigningKey env.root server.privateKeyPath =
      (written env invite serverName id key store).readSigningKey env.root
        server.privateKeyPath) :
    HasAccess env hosts store' (enrolled env w id account key) projectId := by
  refine ⟨bound, server, identity, hbinding, hentry, ?_, hreaches.covers⟩
  rw [liveIdentity_congr hkey, liveIdentity_written hfresh hreaches.entry]
  exact hreaches.live

/-- After a login to a project. -/
theorem hasAccess_linked_iff (hfresh : Fresh env store id)
    (haccount : account.host = hosts invite.serverUrl) {project : InviteProject}
    {store' : Store} (hservers : store'.servers =
      (written env invite serverName id key store).servers)
    (hkeys : store'.keys = (written env invite serverName id key store).keys)
    (hbinding : ∀ other, store'.binding other = if project.id = other then some serverName
      else (written env invite serverName id key store).binding other) {projectId bound : String}
    {server : ServerConfig} {identity : WhoamiResponse}
    (hreaches : Reaches env hosts store w projectId bound server identity) :
    HasAccess env hosts store' (enrolled env w id account key) projectId ↔
      (bound = serverName ∨ project.id = projectId → Covers account.projectId projectId) := by
  have hbound := hbinding projectId
  rw [binding_written hfresh.file, hreaches.binding] at hbound
  by_cases hmoved : bound = serverName ∨ project.id = projectId
  · have hbinding' : store'.binding projectId = some serverName := by
      rcases hmoved with rfl | hproject
      · rw [hbound, ite_self]
      · rw [hbound, if_pos hproject]
    have hentry : store'.entry serverName = some (newServer env invite id) := by
      rw [Store.entry_congr hservers, entry_written hfresh.file, if_pos rfl]
    have hkey : store'.readSigningKey env.root (keyPath env.root id) = some key := by
      rw [Store.readSigningKey_congr hkeys, readSigningKey_written hfresh.file, if_pos rfl]
    rw [hasAccess_new_iff haccount hbinding' hentry hkey]
    exact ⟨fun h _ ↦ h, fun h ↦ h hmoved⟩
  · obtain ⟨hname, hproject⟩ := not_or.mp hmoved
    have hsame : store'.binding projectId = some bound := by rw [hbound, if_neg hproject]
    have hentry : store'.entry bound = some server := by
      rw [Store.entry_congr hservers, entry_written hfresh.file, if_neg (Ne.symm hname),
        hreaches.entry]
    have hkey : store'.readSigningKey env.root server.privateKeyPath =
        (written env invite serverName id key store).readSigningKey env.root
          server.privateKeyPath := Store.readSigningKey_congr hkeys _
    exact iff_of_true (hasAccess_old hfresh hreaches hsame hentry hkey) fun h ↦ absurd h hmoved

/-- After a login as an admin. -/
theorem hasAccess_dropped_iff (hfresh : Fresh env store id)
    (haccount : account.host = hosts invite.serverUrl) {store' : Store}
    (hdrops : Drops env.root serverName
      (dropped env (servers env hosts) (written env invite serverName id key store)
        (enrolled env w id account key) invite.serverUrl serverName)
      (written env invite serverName id key store) store') {projectId bound : String}
    {server : ServerConfig} {identity : WhoamiResponse}
    (hreaches : Reaches env hosts store w projectId bound server identity) :
    HasAccess env hosts store' (enrolled env w id account key) projectId ↔
      (bound = serverName ∨ Redundant env (servers env hosts) store w invite.serverUrl serverName
          bound server → Covers account.projectId projectId) ∧
        (bound ≠ serverName →
          ¬ KeyTaken env (servers env hosts) store w invite.serverUrl serverName bound server) := by
  -- the new entry is never dropped, nor its key file
  have hnotdropped : serverName ∉ (dropped env (servers env hosts)
      (written env invite serverName id key store) (enrolled env w id account key)
      invite.serverUrl serverName).map Prod.fst := by
    intro hmem
    obtain ⟨⟨name, other⟩, hdropped, rfl⟩ := List.mem_map.mp hmem
    exact (mem_dropped_iff.mp hdropped).1.2.1.1 rfl
  have hnewentry : store'.entry serverName = some (newServer env invite id) := by
    rw [hdrops.entry, if_neg hnotdropped, entry_written hfresh.file, if_pos rfl]
  have hnewkey : store'.readSigningKey env.root (keyPath env.root id) = some key := by
    rw [hdrops.key, if_neg, readSigningKey_written hfresh.file, if_pos rfl]
    rw [mem_dropped_paths_iff]
    rintro ⟨name, other, hred, hpath⟩
    exact hfresh.unusedFile name other ((redundant_written_iff hfresh).mp hred).1 hpath
  have hbound := hdrops.binding projectId
  rw [binding_written hfresh.file, hreaches.binding, Option.map_some] at hbound
  by_cases hname : bound = serverName
  · rw [hasAccess_new_iff haccount (by rw [hbound, hname, ite_self]) hnewentry hnewkey]
    simp [hname]
  have hentry : (written env invite serverName id key store).entry bound = some server := by
    rw [entry_written hfresh.file, if_neg (Ne.symm hname), hreaches.entry]
  have hnames : bound ∈ (dropped env (servers env hosts)
      (written env invite serverName id key store) (enrolled env w id account key)
      invite.serverUrl serverName).map Prod.fst ↔
        (bound, server) ∈ dropped env (servers env hosts)
          (written env invite serverName id key store) (enrolled env w id account key)
          invite.serverUrl serverName := mem_dropped_names_iff hentry
  by_cases hdropped : (bound, server) ∈ dropped env (servers env hosts)
      (written env invite serverName id key store) (enrolled env w id account key)
      invite.serverUrl serverName
  · -- the entry was made redundant and its bindings moved to the new one
    have hred := (mem_dropped_iff.mp hdropped).1
    have hfree := (mem_dropped_iff_not_keyTaken hred).mp hdropped
    rw [redundant_written_iff hfresh] at hred
    rw [keyTaken_written_iff hfresh] at hfree
    rw [hasAccess_new_iff haccount (by rw [hbound, if_pos (hnames.mpr hdropped)]) hnewentry hnewkey]
    exact ⟨fun h ↦ ⟨fun _ ↦ h, fun _ ↦ hfree⟩, fun h ↦ h.1 (.inr hred)⟩
  have hsame : store'.binding projectId = some bound := by
    rw [hbound, if_neg (mt hnames.mp hdropped)]
  have hentry' : store'.entry bound = some server := by
    rw [hdrops.entry, if_neg (mt hnames.mp hdropped), hentry]
  by_cases htaken : KeyTaken env (servers env hosts) store w invite.serverUrl serverName bound
      server
  · -- the key file went with a redundant entry
    refine iff_of_false ?_ fun h ↦ h.2 hname htaken
    rintro ⟨name, other, identity', hreaches'⟩
    obtain rfl : bound = name := Option.some.inj (hsame.symm.trans hreaches'.binding)
    obtain rfl : server = other := Option.some.inj (hentry'.symm.trans hreaches'.entry)
    obtain ⟨name', server', hred', -, hpath, -⟩ := (keyTaken_written_iff hfresh).mpr htaken
    have hgone : store'.readSigningKey env.root server.privateKeyPath = none := by
      rw [hdrops.key, if_pos (mem_dropped_paths_iff.mpr ⟨name', server', hred', hpath⟩)]
    have hlive := hreaches'.live
    rw [liveIdentity, hgone] at hlive
    simp at hlive
  · have hnotred : ¬ Redundant env (servers env hosts) store w invite.serverUrl serverName bound
        server := by
      intro hred
      rw [← redundant_written_iff hfresh] at hred
      rw [mem_dropped_iff_not_keyTaken hred, keyTaken_written_iff hfresh] at hdropped
      exact hdropped htaken
    have hkey : store'.readSigningKey env.root server.privateKeyPath =
        (written env invite serverName id key store).readSigningKey env.root
          server.privateKeyPath := by
      rw [hdrops.key, if_neg]
      rw [mem_dropped_paths_iff]
      rintro ⟨name', server', hred', hpath⟩
      rw [redundant_written_iff hfresh] at hred'
      refine htaken ⟨name', server', hred', ?_, hpath, fun hred ↦ absurd hred hnotred⟩
      rintro rfl
      obtain rfl : server = server' := Option.some.inj (hreaches.entry.symm.trans hred'.1)
      exact hnotred hred'
    have hkept : HasAccess env hosts store' (enrolled env w id account key) projectId :=
      hasAccess_old hfresh hreaches hsame hentry' hkey
    exact iff_of_true hkept ⟨fun h ↦ absurd h (not_or.mpr ⟨hname, hnotred⟩), fun _ ↦ htaken⟩

/-- A login that only links a project to an entry keeps everything. -/
theorem hasAccess_linked {project : InviteProject} {entryName : String}
    {found : WhoamiResponse} {store' : Store} {projectId : String}
    (haccess : existingAccess env (servers env hosts) store w invite.serverUrl project.id =
      some (entryName, found))
    (hrecord : store.recordProjectBinding project.id entryName = (.ok (), store'))
    (h : HasAccess env hosts store w projectId) : HasAccess env hosts store' w projectId := by
  obtain ⟨bound, server, identity, hreaches⟩ := h
  rcases store.recordProjectBinding_cases project.id entryName with
    ⟨-, e, herror⟩ | ⟨store₁, hrun, -, hservers, hkeys, hbinding⟩
  · rw [hrecord] at herror
    simp at herror
  obtain rfl : store' = store₁ := by simpa [hrecord] using hrun
  have hlive : ∀ other, liveIdentity env (servers env hosts) store' w other =
      liveIdentity env (servers env hosts) store w other :=
    fun other ↦ liveIdentity_congr (Store.readSigningKey_congr hkeys _)
  by_cases hproject : project.id = projectId
  · obtain ⟨covering, hentry, -, hidentity, hcovers⟩ := findIdentity_eq_some haccess
    refine ⟨entryName, covering, found, ?_, ?_, (hlive covering).trans hidentity, ?_⟩
    · rw [hbinding, if_pos hproject]
    · exact (Store.entry_congr hservers entryName).trans hentry
    · simpa [Covers, hproject] using hcovers
  · refine ⟨bound, server, identity, ?_, ?_, (hlive server).trans hreaches.live,
      hreaches.covers⟩
    · rw [hbinding, if_neg hproject, hreaches.binding]
    · exact (Store.entry_congr hservers bound).trans hreaches.entry

/-- Keeping access project by project, once the new identity is known. -/
theorem keepsAccess_redeemed_iff {name : Option String} {now : ℕ} {w' : Servers}
    (hredeems : Redeems env (servers env hosts) invite name now key store w serverName id w')
    (hinvitee : Servers.invitee hosts w invite = some (id, account)) :
    KeepsAccess env hosts store w invite name ↔
      ∀ projectId bound server identity, Reaches env hosts store w projectId bound server identity →
        ((bound = serverName ∨
            (∃ project, invite.project = some project ∧ project.id = projectId) ∨
            (invite.project = none ∧ Redundant env (servers env hosts) store w
              invite.serverUrl serverName bound server)) →
          Covers account.projectId projectId) ∧
        (invite.project = none → bound ≠ serverName →
          ¬ KeyTaken env (servers env hosts) store w invite.serverUrl serverName bound server) := by
  rw [KeepsAccess, or_iff_right]
  · constructor
    · intro h
      exact h serverName id account hredeems.name hinvitee
    · intro h serverName' id' account' hname' hinvitee'
      obtain rfl : serverName = serverName' := Except.ok.inj (hredeems.name.symm.trans hname')
      obtain ⟨-, rfl⟩ : id = id' ∧ account = account' := by simpa [hinvitee] using hinvitee'
      exact h
  · rintro ⟨project, hproject, hsome⟩
    rw [hredeems.notCovered project hproject] at hsome
    simp at hsome

end Written

/-- **Access held before a login**, for all stores, invites and names, and servers that answer
truthfully and draw fresh ids: a login that returns successfully keeps every project within reach
that was so exactly when the stores and the servers satisfied `KeepsAccess` before. -/
theorem login_keeps_access_iff (invite : InvitePayload) (name : Option String) (now : ℕ)
    (key : SigningKey) (store store' : Store) (w w' : Servers)
    (hfresh : ∀ id account, Servers.invitee hosts w invite = some (id, account) →
      Fresh env store id)
    (hok : login env (servers env hosts) invite name now key store w = (.ok (), store', w')) :
    (∀ projectId, HasAccess env hosts store w projectId →
      HasAccess env hosts store' w' projectId) ↔ KeepsAccess env hosts store w invite name := by
  have hcases := login_cases env (servers env hosts) invite name now key store w
  rw [hok] at hcases
  cases hcases with
  | linked hproject haccess hrecord =>
    refine iff_of_true (fun projectId ↦ hasAccess_linked haccess hrecord) (.inl ⟨_, hproject, ?_⟩)
    rw [haccess]
    rfl
  | redeemed hredeems hrecord =>
    rename_i serverName id
    obtain ⟨account, hinvitee, rfl⟩ := Servers.redeemInvite_ok hredeems.reply
    have haccount := (Servers.invitee_eq_some hinvitee).2.1
    have hid := hfresh id account hinvitee
    rw [keepsAccess_redeemed_iff hredeems hinvitee]
    have hpointwise : (∀ projectId, HasAccess env hosts store w projectId →
        HasAccess env hosts store' (enrolled env w id account key) projectId) ↔
        ∀ projectId bound server identity,
          Reaches env hosts store w projectId bound server identity →
            HasAccess env hosts store' (enrolled env w id account key) projectId := by
      simp only [HasAccess, forall_exists_index]
    refine hpointwise.trans (forall_congr' fun projectId ↦ forall_congr' fun bound ↦
      forall_congr' fun server ↦ forall_congr' fun identity ↦ forall_congr' fun hreaches ↦ ?_)
    rw [recordIdentity_eq] at hrecord
    cases hproject : invite.project with
    | some project =>
      rw [hproject] at hrecord
      rcases (written env invite serverName id key store).recordProjectBinding_cases project.id
        serverName with ⟨-, e, herror⟩ | ⟨store₁, hrun, -, hservers, hkeys, hbinding⟩
      · simp [herror] at hrecord
      obtain rfl : store₁ = store' := by simpa [hrun] using hrecord
      rw [hasAccess_linked_iff hid haccount hservers hkeys hbinding hreaches]
      simp
    | none =>
      rw [hproject] at hrecord
      rcases supersedeProjectEntries_cases (written env invite serverName id key store) _
        invite.serverUrl serverName with ⟨store₁, hrun, hdrops⟩ | ⟨-, e, herror⟩
      · obtain rfl : store₁ = store' := by
          have hstep := hrun.symm.trans hrecord
          simpa using hstep
        rw [hasAccess_dropped_iff hid haccount hdrops hreaches]
        simp
      · have hstep := herror.symm.trans hrecord
        simp at hstep

/-! ## A second project under one name

Ann is logged in to a project, under the name `acme`.  An invite to another project on the same
server is redeemed under that name. -/

section Sample

def sampleEnv : Env := ⟨["home"], id, fun _ ↦ none⟩

def sampleStore : Store where
  servers := Std.TreeMap.ofList
    [("acme", ServerFile.entry ⟨"https://host", "usr_1", keyPath sampleEnv.root "usr_1"⟩)]
  keys path := if path = keyPath sampleEnv.root "usr_1" then some "secret" else none
  config := some (Std.TreeMap.ofList [("prj_1", "acme")])

def sampleServers : Servers := Std.TreeMap.ofList
  [("usr_1", Account.mk "https://host" "ann" (some "prj_1") (.enrolled "secret")),
    ("usr_2", Account.mk "https://host" "ann2" (some "prj_2") (.invited "token"))]

def sampleInvite : InvitePayload where
  serverUrl := "https://host"
  serverName := "host"
  userId := "usr_2"
  userName := "ann2"
  project := some ⟨"prj_2", "shop"⟩
  inviteToken := "token"
  expiresAt := 100

/-- Redeeming the invite. -/
def sampleLogin : Except Error Unit × Store × Servers :=
  login sampleEnv (servers sampleEnv id) sampleInvite (some "acme") 0 "fresh" sampleStore
    sampleServers

theorem sample_fresh (id : String) (account : Account)
    (h : Servers.invitee (fun url ↦ url) sampleServers sampleInvite = some (id, account)) :
    Fresh sampleEnv sampleStore id := by
  have hinvitee : Servers.invitee (fun url ↦ url) sampleServers sampleInvite =
      some ("usr_2", ⟨"https://host", "ann2", some "prj_2", .invited "token"⟩) := by rfl
  have hentries : sampleStore.listServers =
      [("acme", ⟨"https://host", "usr_1", keyPath sampleEnv.root "usr_1"⟩)] := by rfl
  obtain ⟨rfl, -⟩ : "usr_2" = id ∧ _ = account := by simpa using hinvitee.symm.trans h
  have honly : ∀ name server, sampleStore.entry name = some server →
      server = ⟨"https://host", "usr_1", keyPath sampleEnv.root "usr_1"⟩ := by
    intro name server hentry
    have hmem := Store.mem_listServers.mpr hentry
    rw [hentries] at hmem
    simpa using congrArg Prod.snd (List.mem_singleton.mp hmem)
  refine ⟨by rfl, fun name server hentry ↦ ?_, fun name server hentry ↦ ?_⟩ <;>
    rw [honly name server hentry] <;> decide

/-- The entry is replaced by the second identity, which does not cover the first project. -/
theorem overwritten :
    (∀ id account, Servers.invitee (fun url ↦ url) sampleServers sampleInvite = some (id, account) →
      Fresh sampleEnv sampleStore id) ∧
    sampleLogin.1 = .ok () ∧ HasAccess sampleEnv id sampleStore sampleServers "prj_1" ∧
      ¬ HasAccess sampleEnv id sampleLogin.2.1 sampleLogin.2.2 "prj_1" := by
  refine ⟨sample_fresh, by rfl, ?_, ?_⟩
  · refine ⟨"acme", ⟨"https://host", "usr_1", keyPath sampleEnv.root "usr_1"⟩,
      ⟨"usr_1", "ann", some "prj_1"⟩, by rfl, by rfl, by rfl, .inr rfl⟩
  · have hbinding : sampleLogin.2.1.binding "prj_1" = some "acme" := by rfl
    have hentry : sampleLogin.2.1.entry "acme" =
        some ⟨"https://host", "usr_2", keyPath sampleEnv.root "usr_2"⟩ := by rfl
    have hlive : liveIdentity sampleEnv (servers sampleEnv id) sampleLogin.2.1 sampleLogin.2.2
        ⟨"https://host", "usr_2", keyPath sampleEnv.root "usr_2"⟩ =
          some ⟨"usr_2", "ann2", some "prj_2"⟩ := by rfl
    rintro ⟨name, server, identity, hreaches⟩
    obtain rfl : "acme" = name := Option.some.inj (hbinding.symm.trans hreaches.binding)
    obtain rfl : _ = server := Option.some.inj (hentry.symm.trans hreaches.entry)
    obtain rfl : _ = identity := Option.some.inj (hlive.symm.trans hreaches.live)
    have hcovers := hreaches.covers
    simp [Covers] at hcovers

/-- The login of the second project does not meet the condition, and the first one is lost. -/
theorem login_keeps_access_iff_sample :
    (∀ projectId, HasAccess sampleEnv id sampleStore sampleServers projectId →
      HasAccess sampleEnv id sampleLogin.2.1 sampleLogin.2.2 projectId) ↔
        KeepsAccess sampleEnv id sampleStore sampleServers sampleInvite (some "acme") :=
  login_keeps_access_iff sampleEnv id sampleInvite (some "acme") 0 "fresh" sampleStore
    sampleLogin.2.1 sampleServers sampleLogin.2.2 sample_fresh (by rfl)

end Sample

end Client
