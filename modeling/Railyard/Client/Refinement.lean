import Railyard.Client.Alike
import Railyard.Client.Mirror

/-!
# A client among servers follows `Servers`

The client logs in with invites that the servers handed out, while the servers go on enrolling and
removing users.  Whatever it comes to have on disk, it comes to among the `Servers` that answer
truthfully: every state is matched by one of the abstract run, with the same stores, whose accounts
are the rows of the tables.

* `Mirrors.liveIdentity_eq`: the client is told the same by both, where nothing is in the way;
* `Mirrors.genuine`: invites that were handed out are the ones the abstract run asks for;
* `Tracks` is the invariant, `Tracks.login` the step that carries it over a login;
* `servers_refined` and `one_useful_identity` are what follows for every run.
-/

set_option autoImplicit false

namespace Client

open Effects Prog
open Railyard (Call Pool Op Outside UserRow InvitePayload InviteProject perform Enrolling Enrolled
  Invited Issued Minted Spent drawnUserId drawnToken)

variable {P : Platform} {d d' : Deployment} {w w' : Servers} {store store' : Store} {host : String}
  {invite : InvitePayload} {key : SigningKey}

/-! ## Who somebody is -/

section Whoami

variable {visit : Visit} {url keyId : String} {identity : WhoamiResponse}

/-- Who a server confirms is who `Servers` confirms, if the key is the one on record. -/
theorem Mirrors.whoami_some (hP : P.Agrees) (hm : Mirrors P d w)
    (hvisible : Encoding.headerText keyId = some keyId)
    (hknows : ∀ account : Account, w[keyId]? = some account → account.host = P.hosts url →
      account.credential = .enrolled (P.env.publicKeyBase64 key))
    (h : P.whoami visit url keyId key d = some identity) :
    (servers P.env P.hosts).whoami url keyId key w = some identity := by
  obtain ⟨u, hu, rfl, -, rfl⟩ := Platform.whoami_some hP hvisible h
  obtain ⟨account, haccount, hshows⟩ := (hm _).user u hu
  rw [Servers.whoami_eq_some]
  refine ⟨account, haccount, hshows.host, hknows account haccount hshows.host, ?_⟩
  rw [Servers.Account.identity, hshows.name, hshows.projectId]

/-- And the other way around, where nothing is in the way. -/
theorem Mirrors.whoami_online (hP : P.Agrees) (hm : Mirrors P d w)
    (hvisible : Encoding.headerText keyId = some keyId)
    (honline : visit.Online P url (d (P.hosts url)).shared)
    (h : (servers P.env P.hosts).whoami url keyId key w = some identity) :
    P.whoami visit url keyId key d = some identity := by
  obtain ⟨account, haccount, hhost, henrolled, rfl⟩ := Servers.whoami_eq_some.mp h
  obtain ⟨u, hu, rfl⟩ := (hm _).account keyId account haccount hhost
  obtain ⟨account', haccount', hshows⟩ := (hm _).user u hu
  obtain rfl := Option.some.inj (haccount.symm.trans haccount')
  rw [Platform.whoami_online hP hvisible honline hu rfl (hshows.publicKey henrolled),
    Servers.Account.identity, hshows.name, hshows.projectId]

theorem Mirrors.whoami_eq (hP : P.Agrees) (hm : Mirrors P d w)
    (hvisible : Encoding.headerText keyId = some keyId)
    (hknows : ∀ account : Account, w[keyId]? = some account → account.host = P.hosts url →
      account.credential = .enrolled (P.env.publicKeyBase64 key))
    (honline : visit.Online P url (d (P.hosts url)).shared) :
    P.whoami visit url keyId key d = (servers P.env P.hosts).whoami url keyId key w := by
  cases h : (servers P.env P.hosts).whoami url keyId key w with
  | some identity => exact hm.whoami_online hP hvisible honline h
  | none =>
    rw [Option.eq_none_iff_forall_ne_some]
    intro identity hidentity
    rw [hm.whoami_some hP hvisible hknows hidentity] at h
    cases h

/-- The requests for an entry's identity meet nothing in the way. -/
abbrev Visits.Online (visits : Visits) (P : Platform) (d : Deployment) (server : ServerConfig) :
    Prop :=
  (visits.whoami server.serverUrl server.keyId).Online P server.serverUrl
    (d (P.hosts server.serverUrl)).shared

/-- Who the client is confirmed as by a server, it is by `Servers`. -/
theorem Mirrors.liveIdentity_some (hP : P.Agrees) (hm : Mirrors P d w) {visits : Visits}
    {server : ServerConfig} (hvisible : Encoding.headerText server.keyId = some server.keyId)
    (hknows : ∀ key, store.readSigningKey P.env.root server.privateKeyPath = some key →
      ∀ account : Account, w[server.keyId]? = some account →
        account.host = P.hosts server.serverUrl →
          account.credential = .enrolled (P.env.publicKeyBase64 key))
    (h : liveIdentity P.env (P.net visits) store d server = some identity) :
    liveIdentity P.env (servers P.env P.hosts) store w server = some identity := by
  obtain ⟨key, hkey, hwhoami⟩ := Option.bind_eq_some_iff.mp h
  exact Option.bind_eq_some_iff.mpr
    ⟨key, hkey, hm.whoami_some hP hvisible (hknows key hkey) hwhoami⟩

/-- **The client is told the same.** -/
theorem Mirrors.liveIdentity_eq (hP : P.Agrees) (hm : Mirrors P d w) {visits : Visits}
    {server : ServerConfig} (hvisible : Encoding.headerText server.keyId = some server.keyId)
    (hknows : ∀ key, store.readSigningKey P.env.root server.privateKeyPath = some key →
      ∀ account : Account, w[server.keyId]? = some account →
        account.host = P.hosts server.serverUrl →
          account.credential = .enrolled (P.env.publicKeyBase64 key))
    (honline : visits.Online P d server) :
    liveIdentity P.env (P.net visits) store d server =
      liveIdentity P.env (servers P.env P.hosts) store w server := by
  rw [liveIdentity, liveIdentity]
  cases hkey : store.readSigningKey P.env.root server.privateKeyPath with
  | none => rfl
  | some key => exact hm.whoami_eq hP hvisible (hknows key hkey) honline

end Whoami

/-! ## Whose invite it is -/

/-- Who has the token of an invite that was handed out is who the invite names. -/
theorem Mirrors.holder (hP : P.Agrees) (hd : Deployed P d) (hm : Mirrors P d w)
    (hissued : Issued (d host) invite) {id : String} {account : Account}
    (haccount : w[id]? = some account) (hhost : account.host = P.hosts invite.serverUrl)
    (htoken : account.credential = .invited invite.inviteToken) :
    invite.userId = id ∧ invite.project.map InviteProject.id = account.projectId := by
  obtain ⟨rfl, i, now, n, hinvited, hins⟩ :=
    hissued.invited (hd.enrolled host) hP.blobs (hd.handled host)
  obtain ⟨j, hj⟩ := (hm _).token id account _ haccount hhost htoken
  have hid : invite.userId = id := hinvited.user_eq (hd.enrolled _) hj
  refine ⟨hid, ?_⟩
  obtain ⟨u, hu, hrow⟩ := (hm _).account id account haccount hhost
  obtain ⟨account', haccount', hshows⟩ := (hm _).user u hu
  rw [hrow] at haccount'
  obtain rfl := Option.some.inj (haccount.symm.trans haccount')
  obtain ⟨l, hl⟩ := Railyard.users_inserted (hd.enrolled _) u hu
  rw [hid, ← hrow] at hins
  obtain ⟨-, hsame⟩ := Railyard.insertUser_unique (hd.enrolled _) Enrolling.ids hins hl
  have hstmt := Railyard.Stmt.insertUser.inj (Op.sql.inj (congrArg Sigma.fst hsame))
  exact hstmt.2.2.1.trans hshows.projectId.symm

theorem Mirrors.genuine (hP : P.Agrees) (hd : Deployed P d) (hm : Mirrors P d w)
    (hissued : Issued (d host) invite) : Genuine P.hosts w invite := by
  intro id account hinvitee
  obtain ⟨haccount, hhost, htoken⟩ := Servers.invitee_eq_some hinvitee
  exact hm.holder hP hd hissued haccount hhost htoken

/-! ## The redemption as a run of the server -/

/-- What draws nothing may happen at any time. -/
theorem Serves.of_quiet {a : Act Outside Call}
    (hquiet : ∀ e ∈ (d host).event? perform a, drawnUserId e = none ∧
      drawnToken P.server e = none)
    (hwhole : a.Starts Call.Whole)
    (hhandled : a.Starts (Call.Handled fun url ↦ P.hosts url = host)) :
    Serves P d host a where
  enrolling := ⟨fun e he _ _ _ _ ↦ .inl (hquiet e he).1, fun e he _ _ _ _ ↦ .inl (hquiet e he).2,
    hwhole⟩
  handled := hhandled
  apart e he id hid := by
    rw [(hquiet e he).1] at hid
    cases hid

/-- Where the other hosts have done nothing, what a host does is its own business. -/
theorem Serves.of_only {a : Act Outside Call} (hothers : ∀ host', host' ≠ host →
    (d host').threads = []) (henrolling : Enrolling P.server (d host) a)
    (hhandled : a.Starts (Call.Handled fun url ↦ P.hosts url = host)) : Serves P d host a where
  enrolling := henrolling
  handled := hhandled
  apart e _ id _ host' hne j e' hd' := by
    obtain ⟨t, ht, -⟩ := hd'
    rw [hothers host' hne] at ht
    cases ht

section Redeeming

variable {outside : ℕ → Outside} {publicKey keyId : String}

/-- A redemption asks the database only. -/
theorem pending_redemption {τ : List (Event Op Op.Reply)} {q : Op}
    {k : q.Reply → Railyard.Task Railyard.Outcome}
    (h : After ((P.redemption outside invite publicKey).prog P.server) τ (.op q k)) :
    ∃ st, q = .sql st := by
  cases Call.pending h with
  | redeemConsume => exact ⟨_, rfl⟩
  | redeemSelect => exact ⟨_, rfl⟩
  | redeemSetKey => exact ⟨_, rfl⟩

/-- The redemption is one of the things that happen at its host. -/
theorem Platform.redemption_steps (P : Platform) (outside : ℕ → Outside) (invite : InvitePayload)
    (publicKey : String) (d : Deployment) : d.Steps P (Function.update d (P.hosts invite.serverUrl)
      (P.afterRedemption outside invite publicKey d)) := by
  refine Deployment.steps_of_reaches (Effects.Reaches.alone ?_ ?_ _)
  · exact .of_quiet (fun e he ↦ by cases he) trivial trivial
  · intro τ q k s o hafter
    obtain ⟨st, rfl⟩ := pending_redemption hafter
    refine .of_quiet (fun e he ↦ ?_) trivial trivial
    rw [Function.update_self, Conf.event?_step (List.getElem?_concat_length ..) rfl,
      Option.mem_some_iff] at he
    subst he
    exact ⟨rfl, rfl⟩

/-- What a redemption has done whose answer is a key id. -/
structure Platform.Redeems (P : Platform) (outside : ℕ → Outside) (invite : InvitePayload)
    (publicKey keyId : String) (d : Deployment) : Prop where
  redeemed : Railyard.Redeemed (P.afterRedemption outside invite publicKey d)
    (d (P.hosts invite.serverUrl)).threads.length
    (Railyard.tokenHash P.server invite.inviteToken) publicKey (outside 0).now keyId
  users : ∀ u, u ∈ (P.afterRedemption outside invite publicKey d).shared.users ↔
    ∃ u₀ ∈ (d (P.hosts invite.serverUrl)).shared.users,
      (if u₀.id = keyId then { u₀ with publicKey := some publicKey } else u₀) = u
  seenNonces : (P.afterRedemption outside invite publicKey d).shared.seenNonces =
    (d (P.hosts invite.serverUrl)).shared.seenNonces

/-- The redemption fails before it gets to the server, or there. -/
theorem Platform.redeemInvite_cases (P : Platform) (outside : ℕ → Outside) (invite : InvitePayload)
    (publicKey : String) (d : Deployment) :
    (∃ e, P.redeemInvite outside invite publicKey d = (.error e, d)) ∨
      (∃ e, P.redeemInvite outside invite publicKey d =
        (.error e, Function.update d (P.hosts invite.serverUrl)
          (P.afterRedemption outside invite publicKey d))) ∨
      ∃ keyId, P.redeemInvite outside invite publicKey d =
          (.ok keyId, Function.update d (P.hosts invite.serverUrl)
            (P.afterRedemption outside invite publicKey d)) ∧
        P.Redeems outside invite publicKey keyId d := by
  rw [redeemInvite]
  split
  · exact .inl ⟨_, rfl⟩
  split
  · exact .inl ⟨_, rfl⟩
  split
  · exact .inl ⟨_, rfl⟩
  have hshared : (P.afterRedemption outside invite publicKey d).shared = _ :=
    P.afterRedemption_shared
  dsimp only
  rw [redeemResponse]
  cases hrun : (Railyard.redemption P.server ⟨invite.inviteToken, publicKey⟩ outside
    (d (P.hosts invite.serverUrl)).shared).1 with
  | error e => exact .inr (.inl ⟨_, rfl⟩)
  | ok found =>
  cases found with
  | none => exact .inr (.inl ⟨_, rfl⟩)
  | some keyId =>
  refine .inr (.inr ⟨keyId, rfl, ⟨_, Conf.alone_thread _, rfl, ?_⟩, ?_, ?_⟩)
  · have hreturned := congrArg Prod.fst (Effects.Prog.run_bind_ret perform
      (Railyard.Db.redeemInvite (Railyard.tokenHash P.server invite.inviteToken) publicKey
        (outside 0).now).run Railyard.Outcome.redeemInvite (fun n ↦ outside (n + 1))
        (d (P.hosts invite.serverUrl)).shared)
    exact congrArg Prog.ret (hreturned.trans (congrArg Railyard.Outcome.redeemInvite hrun))
  · obtain ⟨i, -, -, rfl, honly⟩ := Railyard.redeemInvite_onlyRedeemed hrun
    intro u
    rw [hshared, Table.mem_def, honly.users, List.mem_map]
    rfl
  · obtain ⟨i, -, -, rfl, honly⟩ := Railyard.redeemInvite_onlyRedeemed hrun
    rw [hshared]
    exact honly.seenNonces

/-- The redemption spends the invite, which nobody had before. -/
theorem Platform.Redeems.spends (hr : P.Redeems outside invite publicKey keyId d)
    (hd : Deployed P d) {i : ℕ} (hinvited : Invited P.server (d (P.hosts invite.serverUrl)) i
      invite.inviteToken invite.userId) :
    keyId = invite.userId ∧ ¬ Spent (d (P.hosts invite.serverUrl)) keyId ∧
      Spent (P.afterRedemption outside invite publicKey d) keyId := by
  have hsteps := P.redemption_steps outside invite publicKey d
  have hdid : ∀ i e, (d (P.hosts invite.serverUrl)).Did i e →
      (P.afterRedemption outside invite publicKey d).Did i e := by
    intro i e hdone
    have hlater := hsteps.did hdone
    rwa [Function.update_self] at hlater
  have henrolled := (hd.steps hsteps).enrolled (P.hosts invite.serverUrl)
  rw [Function.update_self] at henrolled
  obtain ⟨n, rest, m, hconsume, hselect, -⟩ := hr.redeemed.told henrolled
  obtain ⟨l, expiresAt, created, hminted⟩ := Railyard.inviteUserId_minted henrolled hselect
  refine ⟨(hinvited.mono hdid).user_of_minted henrolled hminted, fun hspent ↦ ?_,
    ⟨_, _, _, _, _, _, _, hconsume, hminted⟩⟩
  -- who had spent it would be the thread of this redemption
  obtain ⟨e, t, ht, -⟩ := Spent.did henrolled hminted hconsume hdid hspent
  rw [List.getElem?_eq_none (Nat.le_refl _)] at ht
  cases ht

end Redeeming

/-! ## Who redeems -/

section Recording

variable {visits : Visits} {name : Option String} {now : ℕ} {serverName : String}

/-- The abstract run comes to where the user has the token, nothing else being different.  Where the
user has been removed in the meantime, it is created once more. -/
theorem Mirrors.invited (hP : P.Agrees) (hd : Deployed P d) (hknown : Known P store d)
    (hw : Reachable P.env P.hosts (Genuine P.hosts) store w) (hm : Mirrors P d w)
    (hissued : Issued (d host) invite)
    (hunspent : ¬ Spent (d (P.hosts invite.serverUrl)) invite.userId) :
    ∃ (w₁ : Servers) (account : Account), Reachable P.env P.hosts (Genuine P.hosts) store w₁ ∧
      Servers.invitee P.hosts w₁ invite = some (invite.userId, account) ∧
      Genuine P.hosts w₁ invite ∧ (∀ id, id ≠ invite.userId → w₁[id]? = w[id]?) ∧
      (w₁ = w ∨ w[invite.userId]? = none ∧
        ∀ u ∈ (d (P.hosts invite.serverUrl)).shared.users, u.id ≠ invite.userId) := by
  obtain ⟨rfl, i, created, n, hinvited, hins⟩ :=
    hissued.invited (hd.enrolled host) hP.blobs (hd.handled host)
  have hholder : ∀ (id : String) (account : Account), w[id]? = some account →
      account.host = P.hosts invite.serverUrl →
        account.credential = .invited invite.inviteToken → id = invite.userId :=
    fun id account haccount hhost htoken ↦ (hm.holder hP hd hissued haccount hhost htoken).1.symm
  by_cases hrow : ∃ u ∈ (d (P.hosts invite.serverUrl)).shared.users, u.id = invite.userId
  · obtain ⟨u, hu, hid⟩ := hrow
    obtain ⟨account, haccount, hshows⟩ := (hm _).user u hu
    have hnokey : u.publicKey = none := by
      by_contra hkey
      obtain ⟨publicKey, hkey⟩ := Option.ne_none_iff_exists'.mp hkey
      exact hunspent (hid ▸ Railyard.spent_of_key (hd.enrolled _) hu hkey)
    obtain ⟨token, htoken⟩ := hshows.invited hnokey
    obtain ⟨j, hj⟩ := (hm _).token u.id account token haccount hshows.host htoken
    rw [hid] at haccount hj
    obtain rfl := hinvited.token_eq (hd.enrolled _) hj
    have hinvitee := Servers.invitee_of_unique haccount hshows.host htoken hholder
    exact ⟨w, account, hw, hinvitee, hm.genuine hP hd hissued, fun _ _ ↦ rfl, .inl rfl⟩
  have hgone : ∀ u ∈ (d (P.hosts invite.serverUrl)).shared.users, u.id ≠ invite.userId :=
    fun u hu hid ↦ hrow ⟨u, hu, hid⟩
  have hnobody : w[invite.userId]? = none := by
    by_contra hsome
    obtain ⟨account, haccount⟩ := Option.ne_none_iff_exists'.mp hsome
    obtain ⟨u, hu, hid⟩ := (hm account.host).account _ account haccount rfl
    obtain ⟨j, hj⟩ := Railyard.users_inserted (hd.enrolled _) u hu
    rw [hid] at hj
    exact hgone u (hd.host_eq hj hins ▸ hu) hid
  have hunused : ∀ name server, store.entry name = some server → server.keyId ≠ invite.userId := by
    intro name server hentry hid
    obtain ⟨j, _, _, _, _, hj⟩ := hknown.inserted hd hentry
    have hspent := hknown name server hentry
    rw [hid] at hj hspent
    exact hunspent (hd.host_eq hj hins ▸ hspent)
  let account : Account := ⟨P.hosts invite.serverUrl, invite.userName,
    invite.project.map InviteProject.id, .invited invite.inviteToken⟩
  have hget : ∀ id : String, (w.insert invite.userId account)[id]? =
      if invite.userId = id then some account else w[id]? := by
    intro id
    rw [Std.TreeMap.getElem?_insert]
    simp
  have hinvitee : Servers.invitee P.hosts (w.insert invite.userId account) invite =
      some (invite.userId, account) := by
    refine Servers.invitee_of_unique (by rw [hget, if_pos rfl]) rfl rfl ?_
    intro id other hother hhost htoken
    rw [hget] at hother
    by_cases hid : invite.userId = id
    · exact hid.symm
    · rw [if_neg hid] at hother
      exact hholder id other hother hhost htoken
  refine ⟨w.insert invite.userId account, account, hw.create _ _ _ _ _ (hd.simple hins) hnobody
    hunused, hinvitee, fun id other hother ↦ ?_, fun id hid ↦ ?_, .inr ⟨hnobody, hgone⟩⟩
  · obtain ⟨rfl, rfl⟩ : invite.userId = id ∧ account = other := by
      simpa using hinvitee.symm.trans hother
    exact ⟨rfl, rfl⟩
  · rw [hget, if_neg (Ne.symm hid)]

/-- **A redemption is one of the abstract run.**  The new identity is recorded from the same
answers, and the tables say of the user what `Servers` says. -/
theorem Mirrors.redeemed (hP : P.Agrees) (hd : Deployed P d) (hknown : Known P store d)
    (hw : Reachable P.env P.hosts (Genuine P.hosts) store w) (hm : Mirrors P d w)
    (hissued : Issued (d host) invite) {keyId : String}
    (hr : P.Redeems visits.redeem invite (P.env.publicKeyBase64 key) keyId d)
    (honline : ∀ name server, store.entry name = some server →
      server.serverUrl = invite.serverUrl → visits.Online P d server)
    (hbefore : beforeRedeeming P.env (servers P.env P.hosts) invite name now store w
      = .inr serverName)
    (hd' : d' = Function.update d (P.hosts invite.serverUrl)
      (P.afterRedemption visits.redeem invite (P.env.publicKeyBase64 key) d)) :
    Known P (recordIdentity P.env (P.net visits) invite serverName keyId key store d').2 d' ∧
      Matched P (recordIdentity P.env (P.net visits) invite serverName keyId key store d').2
        d' := by
  have hsteps : d.Steps P d' := hd' ▸ P.redemption_steps ..
  have hafter : d' (P.hosts invite.serverUrl) = _ := hd' ▸ Function.update_self ..
  obtain ⟨hleads, i, created, n, hinvited, hins⟩ :=
    hissued.invited (hd.enrolled host) hP.blobs (hd.handled host)
  rw [← hleads] at hinvited hins
  obtain ⟨rfl, hunspent, hspent⟩ := hr.spends hd hinvited
  obtain ⟨w₁, account, hw₁, hinvitee, hgenuine, hsame₁, hcase⟩ :=
    hm.invited hP hd hknown hw hissued hunspent
  obtain ⟨haccount, hhost, -⟩ := Servers.invitee_eq_some hinvitee
  have hfresh := hw₁.consistent.fresh hinvitee
  have hsame₂ : ∀ id, id ≠ invite.userId →
      (enrolled P.env w₁ invite.userId account key)[id]? = w[id]? := by
    intro id hid
    rw [enrolled, Std.TreeMap.getElem?_insert, if_neg, hsame₁ id hid]
    rw [compare_eq_iff_eq]
    exact Ne.symm hid
  -- the state that goes with the tables after the redemption
  obtain ⟨w₃, hm₃, hsame₃, hreach₃⟩ : ∃ w₃ : Servers, Mirrors P d' w₃ ∧
      (∀ id, id ≠ invite.userId → w₃[id]? = w[id]?) ∧
      ∀ store', Reachable P.env P.hosts (Genuine P.hosts) store'
          (enrolled P.env w₁ invite.userId account key) →
        Reachable P.env P.hosts (Genuine P.hosts) store' w₃ := by
    have hdid : ∀ i e, (d (P.hosts invite.serverUrl)).Did i e →
        (P.afterRedemption visits.redeem invite (P.env.publicKeyBase64 key) d).Did i e := by
      intro i e hdone
      rw [← hafter]
      exact hsteps.did hdone
    subst hd'
    rcases hcase with rfl | ⟨hnone, hgone⟩
    · refine ⟨_, hm.update ((hm _).keyed hdid hr.users haccount)
        (getElem?_insert_of_host hhost fun old hold ↦ ?_), hsame₂, fun _ h ↦ h⟩
      rw [← Option.some.inj (haccount.symm.trans hold)]
      exact hhost
    · have husers : ∀ u, u ∈ (P.afterRedemption visits.redeem invite (P.env.publicKeyBase64 key)
          d).shared.users ↔ u ∈ (d (P.hosts invite.serverUrl)).shared.users :=
        fun u ↦ (hr.users u).trans (mem_keyed_iff hgone)
      have herase : ∀ id : String,
          ((enrolled P.env w₁ invite.userId account key).erase invite.userId)[id]? = w[id]? := by
        intro id
        rw [Std.TreeMap.getElem?_erase]
        by_cases hid : id = invite.userId
        · rw [if_pos (compare_eq_iff_eq.mpr hid.symm), hid, hnone]
        · rw [if_neg fun heq ↦ hid (compare_eq_iff_eq.mp heq).symm, hsame₂ id hid]
      have hmirror := (hm (P.hosts invite.serverUrl)).same hdid husers
      refine ⟨_, hm.update (hmirror.frame fun id other _ ↦ ?_) fun id other _ ↦ ?_,
        fun id _ ↦ herase id, fun _ h ↦ h.remove invite.userId⟩
      · rw [herase]
      · rw [herase]
  -- what the client asks for has not changed
  have hagree : ∀ name' server, name' ≠ serverName → server.serverUrl = invite.serverUrl →
      (written P.env invite serverName invite.userId key store).entry name' = some server →
      ∀ store' : Store,
        store'.Within P.env.root (written P.env invite serverName invite.userId key store) →
        liveIdentity P.env (P.net visits) store' d' server =
          liveIdentity P.env (servers P.env P.hosts) store'
            (enrolled P.env w₁ invite.userId account key) server := by
    intro name' server hname hurl hentry store' hwithin
    rw [entry_written hfresh.file, if_neg (Ne.symm hname)] at hentry
    have hkeyId := hfresh.unusedId name' server hentry
    have hsame : liveIdentity P.env (servers P.env P.hosts) store' w₃ server =
        liveIdentity P.env (servers P.env P.hosts) store'
          (enrolled P.env w₁ invite.userId account key) server := by
      rw [liveIdentity, liveIdentity]
      refine congrArg _ (funext fun key' ↦ Servers.whoami_congr ?_)
      rw [hsame₃ _ hkeyId, hsame₂ _ hkeyId]
    rw [← hsame]
    refine hm₃.liveIdentity_eq hP (hknown.visible hd hentry) ?_ ?_
    · intro key' hkey' other hother hotherHost
      have hkept := hwithin.key _ _ hkey'
      rw [readSigningKey_written hfresh.file,
        if_neg (hfresh.unusedFile name' server hentry)] at hkept
      rw [hsame₃ _ hkeyId] at hother
      exact hw.knows name' server hentry key' hkept other hother hotherHost
    · refine (honline name' server hentry hurl).of_seenNonces ?_
      rw [hurl, hafter]
      exact hr.seenNonces
  have hbefore₁ : beforeRedeeming P.env (servers P.env P.hosts) invite name now store w₁
      = .inr serverName := by
    rw [← hbefore]
    refine beforeRedeeming_congr fun name' server hentry _ ↦ ?_
    rw [liveIdentity, liveIdentity]
    exact congrArg _ (funext fun key' ↦
      Servers.whoami_congr (hsame₁ _ (hfresh.unusedId name' server hentry)))
  refine ⟨fun name' server hentry ↦ ?_, w₃, hreach₃ _ ?_, hm₃⟩
  · have hin := (recordIdentity_within d').entry name' server hentry
    rw [entry_written hfresh.file] at hin
    split at hin
    · obtain rfl := Option.some.inj hin
      rw [newServer, hafter]
      exact hspent
    · exact (hknown name' server hin).mono fun _ _ ↦ hsteps.did
  · rw [recordIdentity_congr hagree]
    exact hw₁.redeemed hgenuine hinvitee hbefore₁

end Recording

/-! ## Runs -/

variable (P) in
/-- The states of a client and servers that started with nothing.  Servers do what calls ask of
them, and the client logs in with invites that they handed out; its requests to the invite's server
get through. -/
inductive Runs : Store → Deployment → Prop
  | start : Runs .empty fun _ ↦ ⟨.fresh, []⟩
  | serve {store : Store} {d d' : Deployment} (h : Runs store d) (hs : d.Step P d') : Runs store d'
  | login {store store' : Store} {d d' : Deployment} {result : Except Error Unit}
      (h : Runs store d) (visits : Visits) (invite : InvitePayload) (name : Option String) (now : ℕ)
      (key : SigningKey) {host : String} (hissued : Issued (d host) invite)
      (honline : ∀ name server, store.entry name = some server →
        server.serverUrl = invite.serverUrl → visits.Online P d server)
      (hlogin : login P.env (P.net visits) invite name now key store d = (result, store', d')) :
      Runs store' d'

variable (P) in
/-- The invariant of the runs. -/
structure Tracks (store : Store) (d : Deployment) : Prop where
  deployed : Deployed P d
  known : Known P store d
  matched : Matched P store d

theorem Tracks.start : Tracks P .empty fun _ ↦ ⟨.fresh, []⟩ where
  deployed := .start
  known name server hentry := by
    rw [Store.entry_eq_some_iff] at hentry
    simp [Store.empty] at hentry
  matched := by
    refine ⟨∅, .start _ fun id account haccount ↦ ?_, fun host ↦ ⟨?_, ?_, ?_⟩⟩
    · simp at haccount
    · exact fun u hu ↦ absurd hu List.not_mem_nil
    · intro id account haccount
      simp at haccount
    · intro id account token haccount
      simp at haccount

theorem Tracks.steps (h : Tracks P store d) (hs : d.Steps P d') : Tracks P store d' :=
  have hmatched := h.matched.steps h.deployed h.known hs
  ⟨h.deployed.steps hs, hmatched.1, hmatched.2⟩

/-- **A login is one of the abstract run**, or something that happens at a server. -/
theorem Tracks.login (hP : P.Agrees) (h : Tracks P store d) {visits : Visits}
    {name : Option String} {now : ℕ} {result : Except Error Unit}
    (hissued : Issued (d host) invite)
    (honline : ∀ name server, store.entry name = some server →
      server.serverUrl = invite.serverUrl → visits.Online P d server)
    (hlogin : login P.env (P.net visits) invite name now key store d = (result, store', d')) :
    Tracks P store' d' := by
  obtain ⟨w, hw, hm⟩ := h.matched
  have hsame : beforeRedeeming P.env (P.net visits) invite name now store d =
      beforeRedeeming P.env (servers P.env P.hosts) invite name now store w :=
    beforeRedeeming_congr fun name server hentry hurl ↦
      hm.liveIdentity_eq hP (h.known.visible h.deployed hentry) (hw.knows name server hentry)
        (honline name server hentry hurl)
  rw [login_eq, hsame] at hlogin
  cases hbefore : beforeRedeeming P.env (servers P.env P.hosts) invite name now store w with
  | inl early =>
    rw [hbefore] at hlogin
    obtain ⟨result, store₁⟩ := early
    cases hlogin
    have hwithin := beforeRedeeming_within hbefore
    refine ⟨h.deployed, fun name server hentry ↦ h.known name server (hwithin.entry _ _ hentry),
      w, ?_, hm⟩
    have habstract : Client.login P.env (servers P.env P.hosts) invite name now key store w =
        (result, store', w) := by
      rw [login_eq, hbefore]
    exact hw.login invite name now key (hm.genuine hP h.deployed hissued) habstract
  | inr serverName =>
    rw [hbefore] at hlogin
    have hsteps := P.redemption_steps visits.redeem invite (P.env.publicKeyBase64 key) d
    rcases P.redeemInvite_cases visits.redeem invite (P.env.publicKeyBase64 key) d with
      ⟨e, hrun⟩ | ⟨e, hrun⟩ | ⟨keyId, hrun, hr⟩
    · simp only [Platform.net, hrun] at hlogin
      cases hlogin
      exact h
    · simp only [Platform.net, hrun] at hlogin
      cases hlogin
      exact h.steps hsteps
    · simp only [Platform.net, hrun] at hlogin
      cases hlogin
      obtain ⟨hknown, hmatched⟩ :=
        hm.redeemed hP h.deployed h.known hw hissued hr honline hbefore rfl
      exact ⟨h.deployed.steps hsteps, hknown, hmatched⟩

theorem Runs.steps (h : Runs P store d) (hs : d.Steps P d') : Runs P store d' := by
  induction hs with
  | refl => exact h
  | tail _ hs ih => exact ih.serve hs

theorem Runs.tracks (hP : P.Agrees) (h : Runs P store d) : Tracks P store d := by
  induction h with
  | start => exact .start
  | serve _ hs ih => exact ih.steps (.single hs)
  | login _ visits invite name now key hissued honline hlogin ih =>
    exact ih.login hP hissued honline hlogin

/-! ### Bob logs in

A server mints an invite for Bob, and he logs in with it. -/

section Sample

/-- SHA-256 of the bytes that are hashed here: no bytes, and the token. -/
def bobDigest (bs : Bytes) : Bytes :=
  if bs = [] then (removalCrates whoamiSigned).sha256 [] else Railyard.zeroTokenDigest

def bobPlatform : Platform where
  env := ⟨[], fun _ ↦ samplePublicKeyBase64, fun _ ↦ none⟩
  crates := { removalCrates whoamiSigned with sha256 := bobDigest }
  server := { whoamiSigned.serverCrates with
    sha256 := bobDigest
    urlSafeNoPad := Data.Base64.encode
    inviteJson := InvitePayload.toVec }
  config _ := ⟨"[::1]:7300", "[::1]:7301", "https://[::1]:7300", [], "data"⟩
  hosts url := url

theorem bobPlatform_agrees : bobPlatform.Agrees := by
  have hagree : CratesAgree (.sample "https://[::1]:7300" (sampleUrl none) whoamiSigned)
      whoamiSigned.serverCrates :=
    whoamiSigned.agrees rfl (by decide) (by decide +kernel) (by decide +kernel)
      (sampleUrl_host none)
  exact {
    crates := { hagree with }
    publicKey := fun _ ↦ rfl
    sha256 := fun _ ↦ rfl
    segments := ⟨_, { removalCrates_pushes whoamiSigned with }⟩
    blobs := ⟨rfl, rfl⟩ }

def bobMint : List (Act Outside Call) :=
  Railyard.callAlone 0 (.mintInvite "https://[::1]:7300" "bob" none) 8 {}

def bobMinted : Pool :=
  ((⟨.fresh, []⟩ : Pool).run? perform (Call.prog bobPlatform.server) bobMint).getD ⟨.fresh, []⟩

def bobServers : Deployment :=
  Function.update (fun _ ↦ ⟨.fresh, []⟩) "https://[::1]:7300" bobMinted

def bobInvite : InvitePayload where
  serverUrl := "https://[::1]:7300"
  serverName := "localhost"
  userId := "usr_0000000000000000"
  userName := "bob"
  project := none
  inviteToken := Data.Base64.encode (List.replicate 32 0)
  expiresAt := Railyard.inviteTtlSeconds

def bobVisits : Visits := ⟨fun _ _ ↦ ⟨sampleMoment, fun _ ↦ { now := 61 }⟩, fun _ ↦ { now := 60 }⟩

def bobLogin : Except Error Unit × Store × Deployment :=
  login bobPlatform.env (bobPlatform.net bobVisits) bobInvite none 0 sampleSecret .empty bobServers

theorem bobMint_admitted : (⟨.fresh, []⟩ : Pool).Admits perform (Call.prog bobPlatform.server)
    (fun c a ↦ Enrolling bobPlatform.server c a ∧
      a.Starts (Call.Handled fun url ↦ url = "https://[::1]:7300")) bobMint := by
  decide +kernel

theorem bobServers_runs : Runs bobPlatform .empty bobServers := by
  have hreaches : Effects.Reaches perform (Call.prog bobPlatform.server)
      (fun c a ↦ Enrolling bobPlatform.server c a ∧
        a.Starts (Call.Handled fun url ↦ url = "https://[::1]:7300")) ⟨.fresh, []⟩ bobMinted :=
    .of_run? bobMint rfl bobMint_admitted
  refine Runs.start.steps (Deployment.steps_of_reaches (hreaches.mono ?_))
  rintro c a ⟨henrolling, hhandled⟩
  refine .of_only (fun host' hne ↦ ?_) ?_ hhandled
  · rw [Function.update_of_ne hne]
  · rw [Function.update_self]
    exact henrolling

theorem bobInvite_issued : Issued (bobServers "https://[::1]:7300") bobInvite := by
  rw [bobServers, Function.update_self]
  refine ⟨0, _, "https://[::1]:7300", "bob", none,
    ⟨"usr_0000000000000000", bobInvite.encode bobPlatform.server, Railyard.inviteTtlSeconds⟩, rfl,
    rfl, rfl, "", "", by simp, by simp, ?_⟩
  exact InvitePayload.parse_blob bobPlatform_agrees.blobs bobInvite (by simp) (by simp)

theorem bobLogin_runs : Runs bobPlatform bobLogin.2.1 bobLogin.2.2 := by
  refine bobServers_runs.login bobVisits bobInvite none 0 sampleSecret bobInvite_issued ?_ rfl
  intro name server hentry
  rw [Store.entry_eq_some_iff] at hentry
  simp [Store.empty] at hentry

/-- Bob's entry. -/
def bobEntry : ServerConfig :=
  ⟨"https://[::1]:7300", "usr_0000000000000000", keyPath [] "usr_0000000000000000"⟩

theorem bobLogin_entry : bobLogin.2.1.entry "localhost" = some bobEntry := by decide +kernel

theorem bobLogin_live : liveIdentity bobPlatform.env (bobPlatform.net bobVisits) bobLogin.2.1
    bobLogin.2.2 bobEntry = some ⟨"usr_0000000000000000", "bob", none⟩ := by
  decide +kernel

end Sample

/-! ## The results -/

/-- **The client and the servers refine `Servers`.**  In every state of a run, there is a state of
the abstract run with the same stores whose accounts are the rows of the tables.  An identity that a
server confirms is confirmed there, and where nothing is in the way of the requests for an entry, so
is the other way around. -/
theorem servers_refined (hP : P.Agrees) (h : Runs P store d) :
    ∃ w, Reachable P.env P.hosts (Genuine P.hosts) store w ∧ Mirrors P d w ∧
      ∀ (visits : Visits) name server, store.entry name = some server →
        (∀ identity, liveIdentity P.env (P.net visits) store d server = some identity →
          liveIdentity P.env (servers P.env P.hosts) store w server = some identity) ∧
        (visits.Online P d server → liveIdentity P.env (P.net visits) store d server =
          liveIdentity P.env (servers P.env P.hosts) store w server) := by
  obtain ⟨hdeployed, hknown, w, hw, hm⟩ := h.tracks hP
  refine ⟨w, hw, hm, fun visits name server hentry ↦ ⟨fun identity ↦ ?_, ?_⟩⟩
  · exact hm.liveIdentity_some hP (hknown.visible hdeployed hentry) (hw.knows name server hentry)
  · exact hm.liveIdentity_eq hP (hknown.visible hdeployed hentry) (hw.knows name server hentry)

theorem servers_refined_bobLogin :
    ∃ w, Reachable bobPlatform.env bobPlatform.hosts (Genuine bobPlatform.hosts) bobLogin.2.1 w ∧
      Mirrors bobPlatform bobLogin.2.2 w ∧
        liveIdentity bobPlatform.env (servers bobPlatform.env bobPlatform.hosts) bobLogin.2.1 w
          bobEntry = some ⟨"usr_0000000000000000", "bob", none⟩ := by
  obtain ⟨w, hw, hm, hlive⟩ := servers_refined bobPlatform_agrees bobLogin_runs
  exact ⟨w, hw, hm, (hlive bobVisits "localhost" bobEntry bobLogin_entry).1 _ bobLogin_live⟩

/-- The server at a URL confirms an identity for the key of an entry. -/
structure ConfirmedAt (P : Platform) (visits : Visits) (store : Store) (d : Deployment)
    (url name : String) (server : ServerConfig) (identity : WhoamiResponse) : Prop where
  entry : store.entry name = some server
  url : server.serverUrl = url
  identity : liveIdentity P.env (P.net visits) store d server = some identity

/-- The identities confirmed at a URL are one admin's, or one for each project. -/
def OneConfirmed (P : Platform) (visits : Visits) (store : Store) (d : Deployment) (url : String) :
    Prop :=
  (∀ name server identity, ConfirmedAt P visits store d url name server identity →
    identity.projectId = none ∧ ∀ name' server' identity',
      ConfirmedAt P visits store d url name' server' identity' → name = name') ∨
  ∀ name server identity, ConfirmedAt P visits store d url name server identity →
    identity.projectId ≠ none ∧ ∀ name' server' identity',
      ConfirmedAt P visits store d url name' server' identity' →
        identity.projectId = identity'.projectId → name = name'

/-- **At most one useful identity for each scope**, whatever the servers are asked and however they
answer.  Whoever is confirmed is a user of the server that is enrolled with the key in the entry's
file. -/
theorem one_useful_identity (hP : P.Agrees) (h : Runs P store d) (visits : Visits) (url : String) :
    OneConfirmed P visits store d url ∧
      ∀ name server identity, ConfirmedAt P visits store d url name server identity →
        ∃ key, store.readSigningKey P.env.root server.privateKeyPath = some key ∧
          ∃ u ∈ (d (P.hosts url)).shared.users,
            u.publicKey = some (P.env.publicKeyBase64 key) ∧
              identity = ⟨u.id, u.name, u.projectId⟩ := by
  obtain ⟨hdeployed, hknown, w, hw, hm⟩ := h.tracks hP
  have hlive : ∀ name server identity, ConfirmedAt P visits store d url name server identity →
      LiveAt P.env P.hosts store w url name server identity := fun name server identity hc ↦
    ⟨hc.entry, hc.url, hm.liveIdentity_some hP (hknown.visible hdeployed hc.entry)
      (hw.knows name server hc.entry) hc.identity⟩
  constructor
  · rcases hw.consistent.useful url with hadmin | hproject
    · exact .inl fun name server identity hc ↦ ⟨hadmin.admin _ _ _ (hlive _ _ _ hc),
        fun name' server' identity' hc' ↦
          hadmin.one _ _ _ _ _ _ (hlive _ _ _ hc) (hlive _ _ _ hc')⟩
    · exact .inr fun name server identity hc ↦ ⟨hproject.project _ _ _ (hlive _ _ _ hc),
        fun name' server' identity' hc' ↦
          hproject.one _ _ _ _ _ _ (hlive _ _ _ hc) (hlive _ _ _ hc')⟩
  · intro name server identity hc
    obtain ⟨key, account, hkey, haccount, hhost, henrolled, rfl⟩ := (hlive _ _ _ hc).account
    rw [hc.url] at hhost
    obtain ⟨u, hu, hid⟩ := (hm _).account _ account haccount hhost
    obtain ⟨account', haccount', hshows⟩ := (hm _).user u hu
    rw [hid] at haccount'
    obtain rfl := Option.some.inj (haccount.symm.trans haccount')
    refine ⟨key, hkey, u, hu, hshows.publicKey henrolled, ?_⟩
    rw [Servers.Account.identity, hshows.name, hshows.projectId, hid]

theorem one_useful_identity_bobLogin :
    OneConfirmed bobPlatform bobVisits bobLogin.2.1 bobLogin.2.2 "https://[::1]:7300" ∧
      ∃ u ∈ (bobLogin.2.2 "https://[::1]:7300").shared.users,
        u.publicKey = some samplePublicKeyBase64 := by
  obtain ⟨hone, henrolled⟩ := one_useful_identity bobPlatform_agrees bobLogin_runs bobVisits
    "https://[::1]:7300"
  obtain ⟨key, -, u, hu, hkey, -⟩ :=
    henrolled "localhost" bobEntry _ ⟨bobLogin_entry, rfl, bobLogin_live⟩
  exact ⟨hone, u, hu, hkey⟩

end Client
