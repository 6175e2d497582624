import Railyard.Client.Access

/-!
# Identities a client collects

Runs of a client: logins with any invites and names, between which servers create and remove users
and invites are redeemed elsewhere or expire.

* `OneUseful`: an admin identity alone, or identities for different projects;
* `Consistent`: the invariant of the runs;
* `one_useful_of_reachable`: at every URL the live identities are `OneUseful`, as long as invites
  name the user and the project they were minted for;
* `two_admins`: an invite that names another user gives a second admin identity.
-/

set_option autoImplicit false

namespace Client

open Railyard (InvitePayload InviteProject)

variable (env : Env) (hosts : Servers.Hosts)

/-! ## Live identities -/

/-- An entry for a URL whose key proves an identity. -/
structure LiveAt (store : Store) (w : Servers) (url name : String) (server : ServerConfig)
    (identity : WhoamiResponse) : Prop where
  entry : store.entry name = some server
  url : server.serverUrl = url
  identity : liveIdentity env (servers env hosts) store w server = some identity

/-- At most one identity, an admin's. -/
structure OneAdmin (store : Store) (w : Servers) (url : String) : Prop where
  admin : ∀ name server identity, LiveAt env hosts store w url name server identity →
    identity.projectId = none
  one : ∀ name server identity name' server' identity',
    LiveAt env hosts store w url name server identity →
      LiveAt env hosts store w url name' server' identity' → name = name'

/-- At most one identity for each project, and no admin's. -/
structure OnePerProject (store : Store) (w : Servers) (url : String) : Prop where
  project : ∀ name server identity, LiveAt env hosts store w url name server identity →
    identity.projectId ≠ none
  one : ∀ name server identity name' server' identity',
    LiveAt env hosts store w url name server identity →
      LiveAt env hosts store w url name' server' identity' →
        identity.projectId = identity'.projectId → name = name'

/-- At most one useful identity for each scope. -/
def OneUseful (store : Store) (w : Servers) (url : String) : Prop :=
  OneAdmin env hosts store w url ∨ OnePerProject env hosts store w url

/-! ## Runs -/

/-- The payload names the user that the invite's token was minted for, and its project. -/
def Genuine (w : Servers) (invite : InvitePayload) : Prop :=
  ∀ id account, Servers.invitee hosts w invite = some (id, account) →
    invite.userId = id ∧ invite.project.map InviteProject.id = account.projectId

/-- The states of a client that started with nothing on disk, when its invites are `allowed`.  An
id is made of a prefix and hexadecimal digits; a new one is neither that of a user nor known to
the client. -/
inductive Reachable (allowed : Servers → InvitePayload → Prop) : Store → Servers → Prop
  | start (w : Servers) (hids : ∀ (id : String) (account : Account), w[id]? = some account →
      '/' ∉ id.toList) : Reachable allowed .empty w
  | login {store store' : Store} {w w' : Servers} {result : Except Error Unit}
      (h : Reachable allowed store w) (invite : InvitePayload) (name : Option String) (now : ℕ)
      (key : SigningKey) (hallowed : allowed w invite)
      (hlogin : login env (servers env hosts) invite name now key store w =
        (result, store', w')) : Reachable allowed store' w'
  | create {store : Store} {w : Servers} (h : Reachable allowed store w) (id : String)
      (host name : String) (projectId : Option String) (token : String)
      (hid : '/' ∉ id.toList) (hfree : w[id]? = none)
      (hunused : ∀ name server, store.entry name = some server → server.keyId ≠ id) :
      Reachable allowed store (w.insert id ⟨host, name, projectId, .invited token⟩)
  | remove {store : Store} {w : Servers} (h : Reachable allowed store w) (id : String) :
      Reachable allowed store (w.erase id)
  | settle {store : Store} {w : Servers} (h : Reachable allowed store w) {id token : String}
      {account : Account} (haccount : w[id]? = some account)
      (hinvited : account.credential = .invited token) (credential : Credential)
      (hsettled : ∀ token, credential ≠ .invited token) :
      Reachable allowed store (w.insert id { account with credential := credential })

/-! ## The invariant -/

/-- Key files and ids belong together, entries have different ids, none of which is that of a
user still invited, and live identities are useful. -/
structure Consistent (store : Store) (w : Servers) : Prop where
  config : store.config.isSome
  keyFile : ∀ name server, store.entry name = some server →
    server.privateKeyPath = keyPath env.root server.keyId ∧ '/' ∉ server.keyId.toList
  settled : ∀ name server, store.entry name = some server → ∀ (account : Account) (token : String),
    w[server.keyId]? = some account → account.credential ≠ .invited token
  distinct : ∀ name server name' server', store.entry name = some server →
    store.entry name' = some server' → server.keyId = server'.keyId → name = name'
  ids : ∀ (id : String) (account : Account), w[id]? = some account → '/' ∉ id.toList
  useful : ∀ url, OneUseful env hosts store w url

variable {env hosts} {store store' : Store} {w w' : Servers} {url : String}

/-- Fewer live identities are still useful. -/
theorem OneUseful.mono (h : OneUseful env hosts store w url)
    (hlive : ∀ name server identity, LiveAt env hosts store' w' url name server identity →
      LiveAt env hosts store w url name server identity) :
    OneUseful env hosts store' w' url := by
  rcases h with hadmin | hproject
  · refine .inl ⟨fun name server identity h ↦ hadmin.admin _ _ _ (hlive _ _ _ h), ?_⟩
    intro name server identity name' server' identity' h h'
    exact hadmin.one _ _ _ _ _ _ (hlive _ _ _ h) (hlive _ _ _ h')
  · refine .inr ⟨fun name server identity h ↦ hproject.project _ _ _ (hlive _ _ _ h), ?_⟩
    intro name server identity name' server' identity' h h'
    exact hproject.one _ _ _ _ _ _ (hlive _ _ _ h) (hlive _ _ _ h')

/-- A live identity is that of a user enrolled with the entry's key. -/
theorem LiveAt.account {name : String} {server : ServerConfig} {identity : WhoamiResponse}
    (h : LiveAt env hosts store w url name server identity) :
    ∃ key account, store.readSigningKey env.root server.privateKeyPath = some key ∧
      w[server.keyId]? = some account ∧ account.host = hosts server.serverUrl ∧
        account.credential = .enrolled (env.publicKeyBase64 key) ∧
          identity = Servers.Account.identity account server.keyId := by
  obtain ⟨key, hkey, hwhoami⟩ := Option.bind_eq_some_iff.mp h.identity
  obtain ⟨account, haccount⟩ := Servers.whoami_eq_some.mp hwhoami
  exact ⟨key, account, hkey, haccount⟩

/-! ## What servers do -/

/-- A change of the servers that leaves enrolled users as they were, or removes them. -/
theorem Consistent.change (h : Consistent env hosts store w)
    (hids : ∀ (id : String) (account : Account), w'[id]? = some account → '/' ∉ id.toList)
    (hsame : ∀ name server, store.entry name = some server →
      w'[server.keyId]? = none ∨ w'[server.keyId]? = w[server.keyId]?) :
    Consistent env hosts store w' where
  config := h.config
  keyFile := h.keyFile
  settled name server hentry account token haccount := by
    rcases hsame name server hentry with hnone | hsame
    · rw [hnone] at haccount
      simp at haccount
    · exact h.settled name server hentry account token (hsame ▸ haccount)
  distinct := h.distinct
  ids := hids
  useful url := by
    refine (h.useful url).mono fun name server identity hlive ↦ ⟨hlive.entry, hlive.url, ?_⟩
    obtain ⟨key, account, hkey, haccount, hhost, henrolled, rfl⟩ := hlive.account
    rcases hsame name server hlive.entry with hnone | hsame
    · rw [hnone] at haccount
      simp at haccount
    · rw [hsame] at haccount
      rw [liveIdentity, hkey, Option.bind_some, Servers.whoami_eq_some]
      exact ⟨account, haccount, hhost, henrolled, rfl⟩

theorem Consistent.start (hids : ∀ (id : String) (account : Account), w[id]? = some account →
    '/' ∉ id.toList) : Consistent env hosts .empty w := by
  have hnone : ∀ name server, ¬ Store.empty.entry name = some server := by
    intro name server hentry
    rw [Store.entry_eq_some_iff] at hentry
    simp [Store.empty] at hentry
  refine ⟨rfl, fun _ _ h ↦ absurd h (hnone _ _), fun _ _ h ↦ absurd h (hnone _ _),
    fun _ _ _ _ h ↦ absurd h (hnone _ _), hids, fun url ↦ .inl ⟨?_, ?_⟩⟩
  · exact fun _ _ _ h ↦ absurd h.entry (hnone _ _)
  · exact fun _ _ _ _ _ _ h ↦ absurd h.entry (hnone _ _)

/-! ## What a login does -/

/-- The bindings play no part. -/
theorem Consistent.rebind (h : Consistent env hosts store w) (hconfig : store'.config.isSome)
    (hservers : store'.servers = store.servers) (hkeys : store'.keys = store.keys) :
    Consistent env hosts store' w := by
  have hentry : ∀ name, store'.entry name = store.entry name := Store.entry_congr hservers
  refine ⟨hconfig, fun name server hname ↦ h.keyFile name server (hentry name ▸ hname),
    fun name server hname ↦ h.settled name server (hentry name ▸ hname), ?_, h.ids,
    fun url ↦ (h.useful url).mono fun name server identity hlive ↦ ⟨?_, hlive.url, ?_⟩⟩
  · intro name server name' server' hname hname'
    exact h.distinct name server name' server' (hentry name ▸ hname) (hentry name' ▸ hname')
  · exact hentry name ▸ hlive.entry
  · rw [← hlive.identity]
    exact (liveIdentity_congr (Store.readSigningKey_congr hkeys _)).symm

section Redeemed

variable {invite : InvitePayload} {serverName id : String} {account : Account} {key : SigningKey}
  {name : Option String} {now : ℕ}

/-- The id of a user still invited is fresh. -/
theorem Consistent.fresh (h : Consistent env hosts store w)
    (hinvitee : Servers.invitee hosts w invite = some (id, account)) : Fresh env store id := by
  obtain ⟨haccount, -, hinvited⟩ := Servers.invitee_eq_some hinvitee
  have hid := h.ids id account haccount
  have hunused : ∀ name server, store.entry name = some server → server.keyId ≠ id := by
    rintro name server hentry rfl
    exact h.settled name server hentry account _ haccount hinvited
  refine ⟨AmongKeys.locate ⟨_, keyPath_of_simple env.root hid⟩, hunused, ?_⟩
  intro name server hentry hpath
  obtain ⟨hfile, hsimple⟩ := h.keyFile name server hentry
  exact hunused name server hentry (keyPath_inj hsimple hid (hfile ▸ hpath))

/-- The stores once the new identity is recorded: the other entries are old ones, and those still
live were so before; after an admin's login none of them is scoped to a project. -/
structure Recorded (env : Env) (hosts : Servers.Hosts) (invite : InvitePayload)
    (serverName id : String) (account : Account) (key : SigningKey) (store : Store) (w : Servers)
    (store' : Store) : Prop where
  config : store'.config.isSome
  new : ∀ server, store'.entry serverName = some server → server = newServer env invite id
  old : ∀ name server, store'.entry name = some server → name ≠ serverName →
    store.entry name = some server
  live : ∀ url name server identity, name ≠ serverName →
    LiveAt env hosts store' (enrolled env w id account key) url name server identity →
      LiveAt env hosts store w url name server identity
  superseded : ∀ name server identity, name ≠ serverName → invite.project = none →
    LiveAt env hosts store' (enrolled env w id account key) invite.serverUrl name server identity →
      identity.projectId = none

theorem recorded_linked (hfresh : Fresh env store id) {project : InviteProject}
    (hproject : invite.project = some project) (hconfig : store'.config.isSome)
    (hservers : store'.servers = (written env invite serverName id key store).servers)
    (hkeys : store'.keys = (written env invite serverName id key store).keys) :
    Recorded env hosts invite serverName id account key store w store' := by
  have hentry : ∀ name, store'.entry name =
      if serverName = name then some (newServer env invite id) else store.entry name := by
    intro name
    rw [Store.entry_congr hservers, entry_written hfresh.file]
  have hold : ∀ name server, store'.entry name = some server → name ≠ serverName →
      store.entry name = some server := by
    intro name server h hne
    rwa [hentry, if_neg (Ne.symm hne)] at h
  refine ⟨hconfig, fun server h ↦ ?_, hold, fun url name server identity hne h ↦ ?_,
    fun _ _ _ _ hnone ↦ ?_⟩
  · rw [hentry, if_pos rfl] at h
    exact (Option.some.inj h).symm
  · have hbefore := hold name server h.entry hne
    refine ⟨hbefore, h.url, ?_⟩
    rw [← h.identity, liveIdentity_congr (Store.readSigningKey_congr hkeys _),
      liveIdentity_written hfresh hbefore]
  · rw [hproject] at hnone
    simp at hnone

theorem recorded_dropped (hfresh : Fresh env store id)
    (hconfig : store'.config.isSome)
    (hdrops : Drops env.root serverName
      (dropped env (servers env hosts) (written env invite serverName id key store)
        (enrolled env w id account key) invite.serverUrl serverName)
      (written env invite serverName id key store) store') :
    Recorded env hosts invite serverName id account key store w store' := by
  have hentry : ∀ name server, store'.entry name = some server →
      (written env invite serverName id key store).entry name = some server := by
    intro name server h
    rw [hdrops.entry] at h
    exact (Option.ite_none_left_eq_some.mp h).2
  have hold : ∀ name server, store'.entry name = some server → name ≠ serverName →
      store.entry name = some server := by
    intro name server h hne
    have hbefore := hentry name server h
    rwa [entry_written hfresh.file, if_neg (Ne.symm hne)] at hbefore
  -- a key that is still there was not dropped
  have hkept : ∀ url name server identity,
      LiveAt env hosts store' (enrolled env w id account key) url name server identity →
        server.privateKeyPath ∉ (dropped env (servers env hosts)
          (written env invite serverName id key store) (enrolled env w id account key)
          invite.serverUrl serverName).map (fun e ↦ e.2.privateKeyPath) ∧
        liveIdentity env (servers env hosts) (written env invite serverName id key store)
          (enrolled env w id account key) server = some identity := by
    intro url name server identity h
    obtain ⟨key', -, hkey, -⟩ := h.account
    have hsame := hdrops.key server.privateKeyPath
    rw [hkey] at hsame
    have hnotgone := (Option.ite_none_left_eq_some.mp hsame.symm).1
    refine ⟨hnotgone, ?_⟩
    rw [← h.identity]
    refine (liveIdentity_congr ?_).symm
    rw [hdrops.key, if_neg hnotgone]
  refine ⟨hconfig, fun server h ↦ ?_, hold, fun url name server identity hne h ↦ ?_,
    fun name server identity hne _ h ↦ ?_⟩
  · have hnew := hentry serverName server h
    rw [entry_written hfresh.file, if_pos rfl] at hnew
    exact (Option.some.inj hnew).symm
  · have hbefore := hold name server h.entry hne
    refine ⟨hbefore, h.url, ?_⟩
    rw [← liveIdentity_written hfresh hbefore]
    exact (hkept url name server identity h).2
  · obtain ⟨hnotgone, hlive⟩ := hkept _ name server identity h
    by_contra hscoped
    refine hnotgone (mem_dropped_paths_iff.mpr ⟨name, server, ?_, rfl⟩)
    refine ⟨hentry name server h.entry, ⟨hne, h.url⟩, ?_⟩
    simpa [projectScoped, hlive, Option.isSome_iff_ne_none] using hscoped

/-- At the invite's URL no other live identity has the scope of the new one. -/
theorem Redeems.noneWithScope (h : Consistent env hosts store w)
    (hinvitee : Servers.invitee hosts w invite = some (id, account))
    (hgenuine : Genuine hosts w invite)
    (hredeems : Redeems env (servers env hosts) invite name now key store w serverName id w')
    {other : String} {server : ServerConfig} {identity : WhoamiResponse}
    (hlive : LiveAt env hosts store w invite.serverUrl other server identity) :
    identity.projectId ≠ account.projectId := by
  intro hscope
  obtain ⟨huser, hproject⟩ := hgenuine id account hinvitee
  have hwanted := findIdentity_eq_none.mp hredeems.noOther other server identity hlive.entry
    hlive.url hlive.identity
  obtain ⟨key', account', -, -, -, -, hidentity⟩ := hlive.account
  have hid : identity.userId ≠ invite.userId := by
    rw [huser, hidentity]
    exact (h.fresh hinvitee).unusedId other server hlive.entry
  rw [← hproject] at hscope
  simp [hscope, hid] at hwanted

/-- Where an invite for a project is redeemed, no live identity is an admin's. -/
theorem Redeems.noAdmin {project : InviteProject} (hproject : invite.project = some project)
    (hredeems : Redeems env (servers env hosts) invite name now key store w serverName id w')
    {other : String} {server : ServerConfig} {identity : WhoamiResponse}
    (hlive : LiveAt env hosts store w invite.serverUrl other server identity) :
    identity.projectId ≠ none := by
  intro hnone
  have hwanted := findIdentity_eq_none.mp (hredeems.notCovered project hproject) other server
    identity hlive.entry hlive.url hlive.identity
  simp [hnone] at hwanted

theorem Recorded.useful (h : Consistent env hosts store w)
    (hinvitee : Servers.invitee hosts w invite = some (id, account))
    (hgenuine : Genuine hosts w invite)
    (hredeems : Redeems env (servers env hosts) invite name now key store w serverName id w')
    (hrecorded : Recorded env hosts invite serverName id account key store w store') :
    OneUseful env hosts store' (enrolled env w id account key) invite.serverUrl := by
  have hscope := (hgenuine id account hinvitee).2
  have hnew : ∀ server identity, LiveAt env hosts store' (enrolled env w id account key)
      invite.serverUrl serverName server identity → identity.projectId = account.projectId := by
    intro server identity hlive
    obtain ⟨key', account', -, haccount', -, -, rfl⟩ := hlive.account
    rw [hrecorded.new server hlive.entry, newServer, enrolled,
      Std.TreeMap.getElem?_insert_self] at haccount'
    rw [← Option.some.inj haccount']
    rfl
  have hother : ∀ other server identity, other ≠ serverName →
      LiveAt env hosts store' (enrolled env w id account key) invite.serverUrl other server
        identity → identity.projectId ≠ account.projectId := by
    intro other server identity hne hlive
    exact hredeems.noneWithScope h hinvitee hgenuine (hrecorded.live _ _ _ _ hne hlive)
  cases hproject : invite.project with
  | none =>
    -- whatever is live is the new identity
    have hnone : account.projectId = none := by rw [← hscope, hproject]; rfl
    have honly : ∀ other server identity, LiveAt env hosts store' (enrolled env w id account key)
        invite.serverUrl other server identity → other = serverName := by
      intro other server identity hlive
      by_contra hne
      refine hother other server identity hne hlive ?_
      rw [hnone]
      exact hrecorded.superseded other server identity hne hproject hlive
    refine .inl ⟨fun other server identity hlive ↦ ?_, ?_⟩
    · obtain rfl := honly other server identity hlive
      rw [hnew server identity hlive, hnone]
    · intro other server identity other' server' identity' hlive hlive'
      rw [honly other server identity hlive, honly other' server' identity' hlive']
  | some project =>
    have hsome : account.projectId = some project.id := by rw [← hscope, hproject]; rfl
    refine .inr ⟨fun other server identity hlive ↦ ?_, ?_⟩
    · by_cases hne : other = serverName
      · subst hne
        rw [hnew server identity hlive, hsome]
        simp
      · exact hredeems.noAdmin hproject (hrecorded.live _ _ _ _ hne hlive)
    · intro other server identity other' server' identity' hlive hlive' hsame
      by_cases hne : other = serverName <;> by_cases hne' : other' = serverName
      · rw [hne, hne']
      · refine absurd ?_ (hother other' server' identity' hne' hlive')
        rw [← hsame]
        exact hnew server identity (hne ▸ hlive)
      · refine absurd ?_ (hother other server identity hne hlive)
        rw [hsame]
        exact hnew server' identity' (hne' ▸ hlive')
      · have hold := hrecorded.live _ _ _ _ hne hlive
        have hold' := hrecorded.live _ _ _ _ hne' hlive'
        rcases h.useful invite.serverUrl with hadmin | hprojects
        · exact hadmin.one _ _ _ _ _ _ hold hold'
        · exact hprojects.one _ _ _ _ _ _ hold hold' hsame

/-- Recording a genuine identity keeps the invariant. -/
theorem Recorded.consistent (h : Consistent env hosts store w)
    (hinvitee : Servers.invitee hosts w invite = some (id, account))
    (hgenuine : Genuine hosts w invite)
    (hredeems : Redeems env (servers env hosts) invite name now key store w serverName id w')
    (hrecorded : Recorded env hosts invite serverName id account key store w store') :
    Consistent env hosts store' (enrolled env w id account key) := by
  have hfresh := h.fresh hinvitee
  obtain ⟨haccount, hhost, -⟩ := Servers.invitee_eq_some hinvitee
  have hid := h.ids id account haccount
  have hget : ∀ id' : String, (enrolled env w id account key)[id']? =
      if id = id' then some { account with credential := .enrolled (env.publicKeyBase64 key) }
      else w[id']? := by
    intro id'
    rw [enrolled, Std.TreeMap.getElem?_insert]
    simp
  refine ⟨hrecorded.config, ?_, ?_, ?_, ?_, ?_⟩
  · intro name server hentry
    by_cases hname : name = serverName
    · rw [hrecorded.new server (hname ▸ hentry)]
      exact ⟨rfl, hid⟩
    · exact h.keyFile name server (hrecorded.old name server hentry hname)
  · intro name server hentry account' token haccount'
    by_cases hname : name = serverName
    · rw [hrecorded.new server (hname ▸ hentry)] at haccount'
      rw [hget, newServer, if_pos rfl] at haccount'
      rw [← Option.some.inj haccount']
      simp
    · have hold := hrecorded.old name server hentry hname
      rw [hget, if_neg (Ne.symm (hfresh.unusedId name server hold))] at haccount'
      exact h.settled name server hold account' token haccount'
  · intro name server name' server' hentry hentry' hkeyId
    by_cases hname : name = serverName <;> by_cases hname' : name' = serverName
    · rw [hname, hname']
    · rw [hrecorded.new server (hname ▸ hentry)] at hkeyId
      have hold := hrecorded.old name' server' hentry' hname'
      exact absurd hkeyId.symm (hfresh.unusedId name' server' hold)
    · rw [hrecorded.new server' (hname' ▸ hentry')] at hkeyId
      have hold := hrecorded.old name server hentry hname
      exact absurd hkeyId (hfresh.unusedId name server hold)
    · exact h.distinct name server name' server' (hrecorded.old name server hentry hname)
        (hrecorded.old name' server' hentry' hname') hkeyId
  · intro id' account' haccount'
    rw [hget] at haccount'
    by_cases heq : id = id'
    · exact heq ▸ hid
    · rw [if_neg heq] at haccount'
      exact h.ids id' account' haccount'
  · intro url
    by_cases hurl : url = invite.serverUrl
    · exact hurl ▸ hrecorded.useful h hinvitee hgenuine hredeems
    · refine (h.useful url).mono fun name server identity hlive ↦ ?_
      refine hrecorded.live url name server identity ?_ hlive
      rintro rfl
      rw [hrecorded.new server hlive.entry] at hlive
      exact hurl hlive.url.symm

theorem Consistent.login (h : Consistent env hosts store w) {result : Except Error Unit}
    (hgenuine : Genuine hosts w invite)
    (hlogin : login env (servers env hosts) invite name now key store w = (result, store', w')) :
    Consistent env hosts store' w' := by
  have hcases := login_cases env (servers env hosts) invite name now key store w
  rw [hlogin] at hcases
  cases hcases with
  | refused e => exact h
  | linked hproject haccess hrecord =>
    rename_i project entryName identity
    rcases store.recordProjectBinding_cases project.id entryName with
      ⟨hnone, -⟩ | ⟨store₁, hrun, hconfig, hservers, hkeys, -⟩
    · have hconfig := h.config
      rw [hnone] at hconfig
      simp at hconfig
    · obtain rfl : store₁ = store' := congrArg Prod.snd (hrun.symm.trans hrecord)
      exact h.rebind hconfig hservers hkeys
  | rejected hredeem =>
    rw [Servers.redeemInvite_error hredeem]
    exact h
  | redeemed hredeems hrecord =>
    rename_i serverName id
    obtain ⟨account, hinvitee, hw'⟩ := Servers.redeemInvite_ok hredeems.reply
    subst hw'
    have hfresh := h.fresh hinvitee
    have hconfig : (written env invite serverName id key store).config.isSome := by
      rw [config_written hfresh.file]
      exact h.config
    refine Recorded.consistent h hinvitee hgenuine hredeems ?_
    rw [recordIdentity_eq] at hrecord
    cases hproject : invite.project with
    | some project =>
      rw [hproject] at hrecord
      rcases (written env invite serverName id key store).recordProjectBinding_cases project.id
        serverName with ⟨hnone, -⟩ | ⟨store₁, hrun, hsome, hservers, hkeys, -⟩
      · rw [hnone] at hconfig
        simp at hconfig
      · obtain rfl : store₁ = store' := congrArg Prod.snd (hrun.symm.trans hrecord)
        exact recorded_linked hfresh hproject hsome hservers hkeys
    | none =>
      rw [hproject] at hrecord
      rcases supersedeProjectEntries_cases (written env invite serverName id key store) _
        invite.serverUrl serverName with ⟨store₁, hrun, hdrops⟩ | ⟨hnone, -⟩
      · obtain rfl : store₁ = store' := congrArg Prod.snd (hrun.symm.trans hrecord)
        exact recorded_dropped hfresh (hdrops.config hconfig) hdrops
      · rw [hnone] at hconfig
        simp at hconfig

end Redeemed

/-! ## Every run -/

theorem Reachable.consistent (h : Reachable env hosts (Genuine hosts) store w) :
    Consistent env hosts store w := by
  induction h with
  | start w hids => exact .start hids
  | login h invite name now key hgenuine hlogin ih => exact ih.login hgenuine hlogin
  | create h id host name projectId token hid hfree hunused ih =>
    refine ih.change (fun id' account haccount ↦ ?_) fun other server hentry ↦ .inr ?_
    · rw [Std.TreeMap.getElem?_insert] at haccount
      split at haccount
      · rename_i heq
        exact compare_eq_iff_eq.mp heq ▸ hid
      · exact ih.ids id' account haccount
    · rw [Std.TreeMap.getElem?_insert, if_neg]
      rw [compare_eq_iff_eq]
      exact Ne.symm (hunused other server hentry)
  | remove h id ih =>
    refine ih.change (fun id' account haccount ↦ ?_) fun other server hentry ↦ ?_
    · rw [Std.TreeMap.getElem?_erase] at haccount
      exact ih.ids id' account (Option.ite_none_left_eq_some.mp haccount).2
    · rw [Std.TreeMap.getElem?_erase]
      split
      · exact .inl rfl
      · exact .inr rfl
  | @settle store w h id token account haccount hinvited credential hsettled ih =>
    refine ih.change (fun id' account' haccount' ↦ ?_) fun other server hentry ↦ .inr ?_
    · rw [Std.TreeMap.getElem?_insert] at haccount'
      split at haccount'
      · rename_i heq
        exact compare_eq_iff_eq.mp heq ▸ ih.ids id account haccount
      · exact ih.ids id' account' haccount'
    · rw [Std.TreeMap.getElem?_insert, if_neg]
      rw [compare_eq_iff_eq]
      rintro rfl
      exact ih.settled other server hentry account token haccount hinvited

/-- **At most one useful identity for each scope**, at every URL and in every state a client comes
to with invites that name the user and the project they were minted for. -/
theorem one_useful_of_reachable (env : Env) (hosts : Servers.Hosts) (store : Store) (w : Servers)
    (h : Reachable env hosts (Genuine hosts) store w) (url : String) :
    OneUseful env hosts store w url :=
  h.consistent.useful url

/-! ## An altered invite

Ann and Bob are both invited as admins.  An invite that names Ann but holds Bob's token passes the
check for another user with the same scope, because Ann is the user already logged in. -/

section Sample

def bothInvited : Servers := Std.TreeMap.ofList
  [("usr_1", Account.mk "https://host" "ann" none (.invited "token1")),
    ("usr_2", Account.mk "https://host" "bob" none (.invited "token2"))]

def annInvite : InvitePayload where
  serverUrl := "https://host"
  serverName := "host"
  userId := "usr_1"
  userName := "ann"
  project := none
  inviteToken := "token1"
  expiresAt := 100

def annLogin : Except Error Unit × Store × Servers :=
  login sampleEnv (servers sampleEnv id) annInvite none 0 "key1" .empty bothInvited

def alteredLogin : Except Error Unit × Store × Servers :=
  login sampleEnv (servers sampleEnv id) { annInvite with inviteToken := "token2" } (some "b") 0
    "key2" annLogin.2.1 annLogin.2.2

theorem bothInvited_simple (id : String) (account : Account)
    (h : bothInvited[id]? = some account) : '/' ∉ id.toList := by
  have hlist : bothInvited.toList =
      [("usr_1", Account.mk "https://host" "ann" none (.invited "token1")),
        ("usr_2", Account.mk "https://host" "bob" none (.invited "token2"))] := by rfl
  have hmem := Std.TreeMap.mem_toList_iff_getElem?_eq_some.mpr h
  rw [hlist, List.mem_pair] at hmem
  rcases hmem with heq | heq
  · rw [show id = "usr_1" from congrArg Prod.fst heq]
    decide
  · rw [show id = "usr_2" from congrArg Prod.fst heq]
    decide

theorem two_admins :
    Reachable sampleEnv id (fun _ _ ↦ True) alteredLogin.2.1 alteredLogin.2.2 ∧
      ¬ OneUseful sampleEnv id alteredLogin.2.1 alteredLogin.2.2 "https://host" := by
  have hann : LiveAt sampleEnv id alteredLogin.2.1 alteredLogin.2.2 "https://host" "host"
      ⟨"https://host", "usr_1", keyPath sampleEnv.root "usr_1"⟩ ⟨"usr_1", "ann", none⟩ :=
    ⟨by rfl, rfl, by rfl⟩
  have hbob : LiveAt sampleEnv id alteredLogin.2.1 alteredLogin.2.2 "https://host" "b"
      ⟨"https://host", "usr_2", keyPath sampleEnv.root "usr_2"⟩ ⟨"usr_2", "bob", none⟩ :=
    ⟨by rfl, rfl, by rfl⟩
  refine ⟨.login (.login (.start bothInvited bothInvited_simple) annInvite none 0 "key1" trivial
    rfl) { annInvite with inviteToken := "token2" } (some "b") 0 "key2" trivial rfl, ?_⟩
  rintro (hadmin | hproject)
  · have hsame := hadmin.one _ _ _ _ _ _ hann hbob
    exact absurd hsame (by decide)
  · exact hproject.project _ _ _ hann rfl

/-- Bob's own invite, which is refused where Ann is logged in. -/
def refusedLogin : Except Error Unit × Store × Servers :=
  login sampleEnv (servers sampleEnv id)
    { annInvite with userId := "usr_2", userName := "bob", inviteToken := "token2" } (some "b") 0
    "key2" annLogin.2.1 annLogin.2.2

theorem one_useful_of_reachable_refused :
    (∃ e, refusedLogin.1 = .error e) ∧
      OneUseful sampleEnv id refusedLogin.2.1 refusedLogin.2.2 "https://host" := by
  refine ⟨⟨_, by rfl⟩, one_useful_of_reachable sampleEnv id refusedLogin.2.1 refusedLogin.2.2
    (.login (.login (.start bothInvited bothInvited_simple) annInvite none 0 "key1" ?_ rfl)
      { annInvite with userId := "usr_2", userName := "bob", inviteToken := "token2" } (some "b")
      0 "key2" ?_ rfl) "https://host"⟩
  · intro id account h
    have hinvitee : Servers.invitee (fun url ↦ url) bothInvited annInvite =
        some ("usr_1", Account.mk "https://host" "ann" none (.invited "token1")) := by rfl
    obtain ⟨rfl, rfl⟩ : "usr_1" = id ∧ _ = account := by simpa using hinvitee.symm.trans h
    exact ⟨rfl, rfl⟩
  · intro id account h
    have hinvitee : Servers.invitee (fun url ↦ url) annLogin.2.2
        { annInvite with userId := "usr_2", userName := "bob", inviteToken := "token2" } =
        some ("usr_2", Account.mk "https://host" "bob" none (.invited "token2")) := by rfl
    obtain ⟨rfl, rfl⟩ : "usr_2" = id ∧ _ = account := by simpa using hinvitee.symm.trans h
    exact ⟨rfl, rfl⟩

end Sample

end Client
