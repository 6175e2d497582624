import Railyard.Client.Identities

/-!
# Logins that are told the same

What a login does depends on the network through the identities of its entries and the answer to
the redemption alone.  Two networks that agree on these lead the client the same way, whatever the
states are that stand behind them.

* `beforeRedeeming` is a login up to the redemption, `login_eq` the rest of it;
* `Store.Within`: entries and keys are among those of other stores, as they are after some were
  dropped;
* `beforeRedeeming_congr` and `recordIdentity_congr`: the two halves of a login that are told the
  same;
* `Reachable.knows`: a key that is still there is the one its user is enrolled with.
-/

set_option autoImplicit false

namespace Client

open Data (Path)
open Railyard (InvitePayload InviteProject)

variable {W W' : Type} {env : Env} {net : Net W} {net' : Net W'} {store store₀ store₁ : Store}
  {w : W} {w' : W'} {invite : InvitePayload} {name : Option String} {now : ℕ} {key : SigningKey}

/-! ## Up to the redemption -/

variable (env net) in
/-- A login before it redeems: it is over, or goes on under this name. -/
def beforeRedeeming (invite : InvitePayload) (name : Option String) (now : ℕ) (store : Store)
    (w : W) : Sum (Except Error Unit × Store) String :=
  if invite.expiresAt ≤ now then
    .inl (.error "this invite has expired; ask for a new one", store)
  else
  match existingDifferentUserWithSameScope env net store w invite with
  | some (entryName, identity) =>
    .inl (.error ("already logged in to " ++ invite.serverUrl ++ " as user " ++ identity.name ++
      " with the same permissions (server " ++ entryName ++ "); this invite is for user " ++
      invite.userName ++ ". Log out of " ++ entryName ++ " first"), store)
  | none =>
  match invite.project.bind fun project ↦
      (existingAccess env net store w invite.serverUrl project.id).map fun found ↦
        (project.id, found.1) with
  | some (projectId, entryName) => .inl (store.recordProjectBinding projectId entryName)
  | none =>
  match resolveServerName env name invite with
  | .error e => .inl (.error e, store)
  | .ok serverName =>
  match squatter store serverName invite with
  | some existing =>
    .inl (.error ("server " ++ serverName ++ " already points at " ++ existing.serverUrl ++
      "; pass --name <name> to pick another name"), store)
  | none => .inr serverName

/-- A login is over before it redeems, or is decided by the answer. -/
theorem login_eq : login env net invite name now key store w =
    match beforeRedeeming env net invite name now store w with
    | .inl (result, store) => (result, store, w)
    | .inr serverName =>
      match net.redeemInvite invite (env.publicKeyBase64 key) w with
      | (.error e, w) => (.error e, store, w)
      | (.ok keyId, w) =>
        let (result, store) := recordIdentity env net invite serverName keyId key store w
        (result, store, w) := by
  unfold login beforeRedeeming
  by_cases hexpired : invite.expiresAt ≤ now
  · rw [if_pos hexpired, if_pos hexpired]
  rw [if_neg hexpired, if_neg hexpired]
  cases existingDifferentUserWithSameScope env net store w invite with
  | some found => rfl
  | none =>
  cases invite.project.bind fun project ↦
      (existingAccess env net store w invite.serverUrl project.id).map fun found ↦
        (project.id, found.1) with
  | some found => rfl
  | none =>
  cases resolveServerName env name invite with
  | error e => rfl
  | ok serverName =>
  dsimp only
  cases squatter store serverName invite <;> rfl

theorem findIdentity_congr {serverUrl : String} (hsame : ∀ name server,
      store.entry name = some server → server.serverUrl = serverUrl →
        liveIdentity env net store w server = liveIdentity env net' store w' server)
    (wanted : WhoamiResponse → Bool) :
    findIdentity env net store w serverUrl wanted =
      findIdentity env net' store w' serverUrl wanted := by
  have hlist : ∀ found ∈ store.listServers, found.2.serverUrl = serverUrl →
      liveIdentity env net store w found.2 = liveIdentity env net' store w' found.2 :=
    fun found hfound ↦ hsame found.1 found.2 (Store.mem_listServers.mp hfound)
  rw [findIdentity, findIdentity]
  generalize store.listServers = l at hlist ⊢
  induction l with
  | nil => rfl
  | cons found rest ih =>
    obtain ⟨name, server⟩ := found
    rw [List.findSome?_cons, List.findSome?_cons,
      ih fun found hfound ↦ hlist found (List.mem_cons_of_mem _ hfound)]
    by_cases hurl : server.serverUrl = serverUrl
    · simp only [hlist (name, server) List.mem_cons_self hurl]
    · simp only [ne_eq, hurl, not_false_eq_true, if_true]

/-- Where the entries for the invite's server have the same identities, a login comes to the
same. -/
theorem beforeRedeeming_congr (hsame : ∀ name server, store.entry name = some server →
      server.serverUrl = invite.serverUrl →
        liveIdentity env net store w server = liveIdentity env net' store w' server) :
    beforeRedeeming env net invite name now store w =
      beforeRedeeming env net' invite name now store w' := by
  simp only [beforeRedeeming, existingDifferentUserWithSameScope, existingAccess,
    findIdentity_congr hsame]

/-! ## Entries and keys that are left -/

/-- Every entry and every key is one of `store₀`. -/
structure Store.Within (root : Path) (store store₀ : Store) : Prop where
  entry : ∀ name server, store.entry name = some server → store₀.entry name = some server
  key : ∀ path key, store.readSigningKey root path = some key →
    store₀.readSigningKey root path = some key

theorem Store.Within.refl (root : Path) (store : Store) : store.Within root store :=
  ⟨fun _ _ h ↦ h, fun _ _ h ↦ h⟩

theorem Store.Within.trans {root : Path} (h : store₁.Within root store)
    (h' : store.Within root store₀) : store₁.Within root store₀ :=
  ⟨fun _ _ hentry ↦ h'.entry _ _ (h.entry _ _ hentry), fun _ _ hkey ↦ h'.key _ _ (h.key _ _ hkey)⟩

theorem Store.Within.of_eq {root : Path} (hservers : store.servers = store₀.servers)
    (hkeys : store.keys = store₀.keys) : store.Within root store₀ :=
  ⟨fun name _ h ↦ by rwa [Store.entry_congr hservers name] at h,
    fun path _ h ↦ by rwa [Store.readSigningKey_congr hkeys path] at h⟩

theorem Store.recordProjectBinding_within (store : Store) (root : Path)
    (projectId entryName : String) :
    (store.recordProjectBinding projectId entryName).2.Within root store := by
  rcases store.recordProjectBinding_cases projectId entryName with
    ⟨-, e, hrun⟩ | ⟨store₁, hrun, -, hservers, hkeys, -⟩
  · rw [hrun]
    exact .refl root store
  · rw [hrun]
    exact .of_eq hservers hkeys

theorem Store.rebindProjects_within (store : Store) (root : Path) (source target : String) :
    (store.rebindProjects source target).2.Within root store := by
  rcases store.rebindProjects_cases source target with
    ⟨-, e, hrun⟩ | ⟨store₁, hrun, -, hservers, hkeys, -⟩
  · rw [hrun]
    exact .refl root store
  · rw [hrun]
    exact .of_eq hservers hkeys

/-- Erasing an entry leaves those it leaves. -/
theorem Store.Within.erase (root : Path) (store : Store) (name : String) :
    ({ store with servers := store.servers.erase name } : Store).Within root store := by
  refine ⟨fun other server hentry ↦ ?_, fun _ _ h ↦ h⟩
  rw [Store.entry_eq_some_iff, Std.TreeMap.getElem?_erase, Option.ite_none_left_eq_some] at hentry
  exact Store.entry_eq_some_iff.mpr hentry.2

theorem Store.removeFile_within (store : Store) (root : Path) (refuses : Path → Bool)
    (path : Path) : (store.removeFile root refuses path).Within root store := by
  rw [Store.removeFile]
  split
  · exact .refl root store
  split
  · refine ⟨fun _ _ h ↦ h, fun other key hkey ↦ ?_⟩
    rw [Store.readSigningKey] at hkey ⊢
    split at hkey
    · by_cases hother : other = path
      · subst hother
        simp at hkey
      · simpa [hother] using hkey
    · cases hkey
  · exact .erase root store _
  · exact ⟨fun _ _ h ↦ h, fun _ _ h ↦ h⟩

theorem Store.removeServer_within (store : Store) (root : Path) (refuses : Path → Bool)
    (name : String) : (store.removeServer root refuses name).2.Within root store := by
  rw [Store.removeServer]
  cases store.readServer name with
  | error e =>
    dsimp only
    split_ifs
    · exact .refl root store
    · exact .refl root store
    · exact .erase root store name
  | ok server =>
    have hkey := store.removeFile_within root refuses server.privateKeyPath
    dsimp only
    split_ifs
    · exact hkey
    · exact hkey
    · exact (Store.Within.erase root _ name).trans hkey

/-! ## Dropping entries -/

variable (env net) in
theorem supersedeEntries_within (w : W) (serverUrl adminEntry : String)
    (l : List (String × ServerConfig)) (store : Store) :
    (supersedeEntries env net w serverUrl adminEntry l store).2.Within env.root store := by
  induction l generalizing store with
  | nil => exact .refl _ store
  | cons found rest ih =>
    obtain ⟨name, server⟩ := found
    rw [supersedeEntries]
    split
    · exact ih store
    split
    · exact ih store
    have hrebind := store.rebindProjects_within env.root name adminEntry
    split
    · rename_i e store₁ hrun
      rwa [hrun] at hrebind
    rename_i store₁ hrun
    rw [hrun] at hrebind
    have hremove := store₁.removeServer_within env.root (fun _ ↦ false) name
    split
    · rename_i e store₂ hrun₂
      rw [hrun₂] at hremove
      exact hremove.trans hrebind
    · rename_i store₂ hrun₂
      rw [hrun₂] at hremove
      exact ((ih store₂).trans hremove).trans hrebind

/-- Where the entries that may be dropped have the same identities, the same are dropped. -/
theorem supersedeEntries_congr {serverUrl adminEntry : String} {l : List (String × ServerConfig)}
    (hsame : ∀ found ∈ l, found.1 ≠ adminEntry → found.2.serverUrl = serverUrl →
      ∀ store : Store, store.Within env.root store₀ →
        liveIdentity env net store w found.2 = liveIdentity env net' store w' found.2)
    (hstore : store.Within env.root store₀) :
    supersedeEntries env net w serverUrl adminEntry l store =
      supersedeEntries env net' w' serverUrl adminEntry l store := by
  induction l generalizing store with
  | nil => rfl
  | cons found rest ih =>
    obtain ⟨name, server⟩ := found
    have hrest := fun found hfound ↦ hsame found (List.mem_cons_of_mem _ hfound)
    rw [supersedeEntries, supersedeEntries]
    by_cases hskip : name = adminEntry ∨ server.serverUrl ≠ serverUrl
    · rw [if_pos hskip, if_pos hskip, ih hrest hstore]
    obtain ⟨hname, hurl⟩ := not_or.mp hskip
    rw [if_neg hskip, if_neg hskip,
      hsame (name, server) List.mem_cons_self hname (not_not.mp hurl) store hstore,
      ih hrest hstore]
    split
    · rfl
    have hrebind := store.rebindProjects_within env.root name adminEntry
    split
    · rfl
    rename_i store₁ hrun
    rw [hrun] at hrebind
    have hremove := store₁.removeServer_within env.root (fun _ ↦ false) name
    split
    · rfl
    · rename_i store₂ hrun₂
      rw [hrun₂] at hremove
      exact ih hrest ((hremove.trans hrebind).trans hstore)

section Recording

variable {serverName keyId : String}

/-- What is recorded are the new entry and key, and old ones. -/
theorem recordIdentity_within (w : W) :
    (recordIdentity env net invite serverName keyId key store w).2.Within env.root
      (written env invite serverName keyId key store) := by
  rw [recordIdentity_eq]
  cases invite.project with
  | none => exact supersedeEntries_within env net w _ _ _ _
  | some project => exact Store.recordProjectBinding_within _ _ _ _

/-- Where the other entries have the same identities, the same is recorded. -/
theorem recordIdentity_congr (hsame : ∀ name server, name ≠ serverName →
      server.serverUrl = invite.serverUrl →
      (written env invite serverName keyId key store).entry name = some server →
      ∀ store' : Store, store'.Within env.root (written env invite serverName keyId key store) →
        liveIdentity env net store' w server = liveIdentity env net' store' w' server) :
    recordIdentity env net invite serverName keyId key store w =
      recordIdentity env net' invite serverName keyId key store w' := by
  rw [recordIdentity_eq, recordIdentity_eq]
  cases invite.project with
  | none =>
    refine supersedeEntries_congr (fun found hfound hname hurl store' hstore' ↦ ?_) (.refl _ _)
    exact hsame found.1 found.2 hname hurl (Store.mem_listServers.mp hfound) store' hstore'
  | some project => rfl

end Recording

/-- A login that does not redeem drops nothing and adds nothing. -/
theorem beforeRedeeming_within {result : Except Error Unit}
    (h : beforeRedeeming env net invite name now store w = .inl (result, store₁)) :
    store₁.Within env.root store := by
  have hrefl : ∀ {e : Error}, ((.error e, store) : Except Error Unit × Store) = (result, store₁) →
      store₁.Within env.root store := by
    rintro e ⟨⟩
    exact .refl env.root store
  rw [beforeRedeeming] at h
  split at h
  · exact hrefl (Sum.inl.inj h)
  split at h
  · exact hrefl (Sum.inl.inj h)
  split at h
  · rename_i projectId entryName hlinked
    have hwithin := store.recordProjectBinding_within env.root projectId entryName
    rwa [Sum.inl.inj h] at hwithin
  split at h
  · exact hrefl (Sum.inl.inj h)
  split at h
  · exact hrefl (Sum.inl.inj h)
  · cases h

/-! ## Keys that are still there -/

section Knows

variable {hosts : Servers.Hosts} {w w' : Servers} {id : String} {account : Account}
  {serverName : String}

variable (env hosts) in
/-- The key in an entry's file, if it is there, is the one its user is enrolled with. -/
def Knows (store : Store) (w : Servers) : Prop :=
  ∀ name server, store.entry name = some server →
    ∀ key, store.readSigningKey env.root server.privateKeyPath = some key →
      ∀ account, w[server.keyId]? = some account → account.host = hosts server.serverUrl →
        account.credential = .enrolled (env.publicKeyBase64 key)

theorem Knows.change (h : Knows env hosts store w) (hsame : ∀ name server,
    store.entry name = some server → ∀ account : Account, w'[server.keyId]? = some account →
      w[server.keyId]? = some account) : Knows env hosts store w' :=
  fun name server hentry key hkey account haccount ↦
    h name server hentry key hkey account (hsame name server hentry account haccount)

theorem Knows.within (h : Knows env hosts store w) (hwithin : store₁.Within env.root store) :
    Knows env hosts store₁ w :=
  fun name server hentry key hkey ↦
    h name server (hwithin.entry name server hentry) key (hwithin.key _ key hkey)

/-- The new identity is known, and the others are what they were. -/
theorem Knows.written (h : Knows env hosts store w) (hfresh : Fresh env store id) :
    Knows env hosts (written env invite serverName id key store)
      (enrolled env w id account key) := by
  intro name server hentry key' hkey account' haccount _
  rw [entry_written hfresh.file] at hentry
  rw [readSigningKey_written hfresh.file] at hkey
  rw [enrolled, Std.TreeMap.getElem?_insert] at haccount
  by_cases hname : serverName = name
  · rw [if_pos hname] at hentry
    obtain rfl := Option.some.inj hentry
    rw [newServer, if_pos rfl] at hkey
    obtain rfl := Option.some.inj hkey
    rw [newServer, if_pos (compare_eq_iff_eq.mpr rfl)] at haccount
    rw [← Option.some.inj haccount]
  · rw [if_neg hname] at hentry
    rw [if_neg (hfresh.unusedFile name server hentry)] at hkey
    rw [if_neg fun heq ↦ hfresh.unusedId name server hentry (compare_eq_iff_eq.mp heq).symm]
      at haccount
    exact h name server hentry key' hkey account' haccount ‹_›

theorem Reachable.knows (h : Reachable env hosts (Genuine hosts) store w) :
    Knows env hosts store w := by
  induction h with
  | start w hids =>
    intro name server hentry
    rw [Store.entry_eq_some_iff] at hentry
    simp [Store.empty] at hentry
  | @login store store' w w' result h invite name now key hgenuine hlogin ih =>
    have hcases := login_cases env (servers env hosts) invite name now key store w
    rw [hlogin] at hcases
    cases hcases with
    | refused e => exact ih
    | @linked project entryName _ _ _ _ _ hrecord =>
      have hwithin := store.recordProjectBinding_within env.root project.id entryName
      rw [hrecord] at hwithin
      exact ih.within hwithin
    | rejected hredeem =>
      rw [Servers.redeemInvite_error hredeem]
      exact ih
    | @redeemed serverName id _ _ _ hredeems hrecord =>
      obtain ⟨account, hinvitee, rfl⟩ := Servers.redeemInvite_ok hredeems.reply
      have hwithin : (recordIdentity env (servers env hosts) invite serverName id key store
          (enrolled env w id account key)).2.Within env.root
            (written env invite serverName id key store) := recordIdentity_within _
      rw [enrolled, hrecord] at hwithin
      exact (ih.written (h.consistent.fresh hinvitee)).within hwithin
  | @create store w h id host name projectId token hid hfree hunused ih =>
    refine ih.change fun other server hentry account haccount ↦ ?_
    rwa [Std.TreeMap.getElem?_insert, if_neg] at haccount
    rw [compare_eq_iff_eq]
    exact Ne.symm (hunused other server hentry)
  | remove h id ih =>
    refine ih.change fun other server hentry account haccount ↦ ?_
    rw [Std.TreeMap.getElem?_erase] at haccount
    exact (Option.ite_none_left_eq_some.mp haccount).2
  | @settle store w h id token account haccount hinvited credential hsettled ih =>
    refine ih.change fun other server hentry account' haccount' ↦ ?_
    rwa [Std.TreeMap.getElem?_insert, if_neg] at haccount'
    rw [compare_eq_iff_eq]
    rintro rfl
    exact h.consistent.settled other server hentry account token haccount hinvited

/-! ## Redeeming for a user of its own -/

theorem Servers.invitee_of_unique (haccount : w[id]? = some account)
    (hhost : account.host = hosts invite.serverUrl)
    (htoken : account.credential = .invited invite.inviteToken)
    (hunique : ∀ (id' : String) (account' : Account), w[id']? = some account' →
      account'.host = hosts invite.serverUrl →
        account'.credential = .invited invite.inviteToken → id' = id) :
    Servers.invitee hosts w invite = some (id, account) := by
  cases hinvitee : Servers.invitee hosts w invite with
  | none =>
    have hnone := List.find?_eq_none.mp hinvitee (id, account)
      (Std.TreeMap.mem_toList_iff_getElem?_eq_some.mpr haccount)
    simp [hhost, htoken] at hnone
  | some found =>
    obtain ⟨id', account'⟩ := found
    obtain ⟨haccount', hhost', htoken'⟩ := Servers.invitee_eq_some hinvitee
    obtain rfl := hunique id' account' haccount' hhost' htoken'
    rw [Option.some.inj (haccount'.symm.trans haccount)]

/-- A login that comes to redeem, when a user has the invite's token. -/
theorem Reachable.redeemed (h : Reachable env hosts (Genuine hosts) store w)
    (hgenuine : Genuine hosts w invite)
    (hinvitee : Servers.invitee hosts w invite = some (id, account))
    (hbefore : beforeRedeeming env (servers env hosts) invite name now store w = .inr serverName) :
    Reachable env hosts (Genuine hosts) (recordIdentity env (servers env hosts) invite serverName id
      key store (enrolled env w id account key)).2 (enrolled env w id account key) := by
  have hlogin : Client.login env (servers env hosts) invite name now key store w =
      ((recordIdentity env (servers env hosts) invite serverName id key store
          (enrolled env w id account key)).1,
        (recordIdentity env (servers env hosts) invite serverName id key store
          (enrolled env w id account key)).2, enrolled env w id account key) := by
    rw [login_eq, hbefore]
    simp only [Servers.net, hinvitee, enrolled]
  exact h.login invite name now key hgenuine hlogin

/-- What happens to other users plays no part. -/
theorem Servers.whoami_congr {pub : SigningKey → String} {url keyId : String}
    (h : w[keyId]? = w'[keyId]?) :
    (Servers.net hosts pub).whoami url keyId key w =
      (Servers.net hosts pub).whoami url keyId key w' := by
  simp only [Servers.net, h]

end Knows

end Client
