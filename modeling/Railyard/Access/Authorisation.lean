import Railyard.Access.Upload
import Railyard.Enrolment.Atomicity

/-!
# Who may change what

The frame of one request on the signed router, for every route, caller and early exit
(`state_changes_authorised`).  A request ends up in one of three places (`served_cases`), and what
each leaves alone is proved there:

* behind the signature layer, `checkedRequest_cases` says what the check itself does and
  `protected_sameOutside` what a caller scoped to a project leaves alone;
* at the redeem-invite endpoint, `redeemed_of_success` and `unchanged_of_not_redeemsLive`;
* anywhere else nothing happens.
-/

set_option autoImplicit false

namespace Railyard

open Effects Prog

variable (config : Config) (crates : Crates)

/-- The request carries a signature that verifies under the public key stored for its key id. -/
def Authentic (s : Server) (req : Request) : Prop :=
  ∃ head, req.signedHead = .ok head ∧ ∃ u ∈ s.users, u.id = head.keyId ∧
    ∃ publicKey, u.publicKey = some publicKey ∧ verifyHead crates req head publicKey = .ok ()

/-- The request redeems an invite: a valid public key, for a token that is neither redeemed nor
expired at `now`. -/
def RedeemsLive (s : Server) (now : ℕ) (req : Request) : Prop :=
  req.RedeemsInvite ∧ ∃ request, crates.jsonRedeemInvite req = .ok request ∧
    (parsePublicKey crates request.publicKey).isSome ∧
      Invites.Redeemable s.invites (tokenHash crates request.inviteToken) now

/-- The signature layer accepts the request as one of `caller`. -/
def AuthenticatedAs (req : Request) (w : ℕ → Outside) (s : Server) (caller : AuthUser) : Prop :=
  ((protectedRoutes config crates).find req).isSome ∧
    ∃ req', ((checkedRequest crates req).run.run perform w s).1 = .ok req' ∧
      req'.caller = some caller

/-- What the signed router answers, and the state it leaves behind. -/
def served (req : Request) (w : ℕ → Outside) (s : Server) : Response × Server :=
  ((signedRoutes config crates).serve req).run perform w s

variable {crates} {req : Request} {w : ℕ → Outside} {s : Server}

/-- What a check does: it fails and leaves everything alone, or it has verified the signature of
an existing user and has recorded the nonce, whether or not it accepts it. -/
theorem checkedRequest_cases (crates : Crates) (req : Request) (w : ℕ → Outside) (s : Server) :
    (∃ reason, (checkedRequest crates req).run.run perform w s = (.error reason, s)) ∨
      Authentic crates s req ∧ ∃ seen,
        ((∃ reason, (checkedRequest crates req).run.run perform w s
            = (.error reason, { s with seenNonces := seen })) ∨
          ∃ head user, (checkedRequest crates req).run.run perform w s
            = (.ok (req.authenticated head user), { s with seenNonces := seen })) := by
  rw [checkedRequest_exec]
  cases hh : req.signedHead with
  | error e => exact .inl ⟨_, rfl⟩
  | ok head =>
    dsimp only
    split
    · exact .inl ⟨_, rfl⟩
    rcases hr : (perform (w 1) (.sql (.keyOwner head.keyId)) s).1 with e | _ | ⟨row, rows⟩
    · exact .inl ⟨_, rfl⟩
    · exact .inl ⟨_, rfl⟩
    obtain ⟨u, hu, hid, hkey, -⟩ := mem_keyOwner_reply (perform_sql_eq_ok hr).2 List.mem_cons_self
    dsimp only
    cases hv : verifyHead crates req head row.1 with
    | error e => exact .inl ⟨_, rfl⟩
    | ok _ =>
      refine .inr ⟨⟨head, hh, u, hu, hid, row.1, hkey, hv⟩, (ReplayWindow.record
        timestampWindowSeconds (w 0).now head.nonce s.seenNonces).2, ?_⟩
      dsimp only
      split
      · exact .inl ⟨_, rfl⟩
      · exact .inr ⟨_, _, rfl⟩

/-! ## Redeeming -/

/-- Between `s` and `s'`, nothing has happened but that the invite `i` was redeemed at `now` and its
user was given `publicKey`. -/
structure OnlyRedeemed (s s' : Server) (i : InviteRow) (publicKey : String) (now : ℕ) : Prop where
  invites : s'.invites.rows = s.invites.rows.map fun i' ↦
    if i' = i then { i with redeemedAt := some now } else i'
  users : s'.users.rows = s.users.rows.map fun u ↦
    if u.id = i.userId then { u with publicKey := some publicKey } else u
  projects : s'.projects = s.projects
  releases : s'.releases = s.releases
  seenNonces : s'.seenNonces = s.seenNonces
  files : s'.files = s.files
  unpacked : s'.unpacked = s.unpacked

/-- A redemption that returns a user has found an invite to consume, and that user on it. -/
theorem redeemInvite_ok {tokenHash publicKey userId : String} {now : ℕ}
    (h : ((Db.redeemInvite tokenHash publicKey now).run.run perform w s).1 = .ok (some userId)) :
    (∃ n, ((Stmt.consumeInvite tokenHash now).exec s).1 = .ok (n + 1)) ∧
      (∃ rest, ((Stmt.inviteUserId tokenHash).exec (s.consume tokenHash now)).1
        = .ok (userId :: rest)) ∧
      ((Db.redeemInvite tokenHash publicKey now).run.run perform w s).2
        = ((Stmt.setPublicKey publicKey userId).exec (s.consume tokenHash now)).2 := by
  rw [Db.redeemInvite] at h ⊢
  obtain ⟨consumed, hc, hrun⟩ := Db.sql_bind_ok h
  rw [hrun] at h ⊢
  split at h
  · cases h
  rename_i hne
  rw [if_neg hne]
  obtain ⟨rows, hu, hrun⟩ := Db.sql_bind_ok h
  rw [hrun] at h ⊢
  rcases rows with _ | ⟨userId', rest⟩
  · cases h
  dsimp only [List.head?_cons] at h ⊢
  obtain ⟨m, -, hrun⟩ := Db.sql_bind_ok h
  rw [hrun] at h ⊢
  cases h
  obtain ⟨n, rfl⟩ := Nat.exists_eq_succ_of_ne_zero hne
  exact ⟨⟨n, hc⟩, ⟨rest, hu⟩, rfl⟩

theorem redeemInvite_onlyRedeemed {tokenHash publicKey userId : String} {now : ℕ}
    (h : ((Db.redeemInvite tokenHash publicKey now).run.run perform w s).1 = .ok (some userId)) :
    ∃ i ∈ s.invites, i.Redeemable tokenHash now ∧ i.userId = userId ∧
      OnlyRedeemed s ((Db.redeemInvite tokenHash publicKey now).run.run perform w s).2 i publicKey
        now := by
  obtain ⟨⟨n, hn⟩, ⟨rest, hu⟩, hrun⟩ := redeemInvite_ok h
  obtain ⟨i, hi, hlive⟩ := exists_redeemable hn
  have hsame : ∀ i' ∈ s.invites, i'.tokenHash = tokenHash → i' = i := fun i' hi' htok ↦
    Table.eq_of_key (List.mem_singleton.mpr rfl) hi' hi (htok.trans hlive.1.symm)
  have huser : i.userId = userId := by
    obtain ⟨i₁, hi₁, htok, rfl⟩ := (mem_inviteUserId_reply hu).mp List.mem_cons_self
    obtain ⟨i₀, hi₀, rfl⟩ := mem_invites_consumeInvite.mp hi₁
    split at htok <;> rw [← hsame i₀ hi₀ htok] <;> split <;> rfl
  refine ⟨i, hi, hlive, huser, ?_⟩
  rw [hrun, ← huser]
  refine ⟨List.map_congr_left fun i' hi' ↦ ?_, ?_, rfl, rfl, rfl, rfl, rfl⟩
  · by_cases hlive' : i'.Redeemable tokenHash now
    · simp [hlive, hsame i' hi' hlive'.1]
    · have hne : i' ≠ i := by rintro rfl; exact hlive' hlive
      simp [hlive', hne]
  · simp only [Stmt.exec, Table.update, decide_eq_true_eq, Server.consume]

/-! ## What a caller scoped to a project leaves alone -/

/-- Between `s` and `s'`, no row has changed but those of the releases of `P`. -/
structure SameOutside (P : String) (s s' : Server) : Prop where
  users : s'.users = s.users
  invites : s'.invites = s.invites
  projects : s'.projects = s.projects
  releases : ∀ r : ReleaseRow, r.projectId ≠ P → (r ∈ s'.releases ↔ r ∈ s.releases)

variable {P : String} {s' s'' : Server}

theorem SameOutside.refl (P : String) (s : Server) : SameOutside P s s :=
  ⟨rfl, rfl, rfl, fun _ _ ↦ Iff.rfl⟩

theorem SameOutside.seen (P : String) (s : Server) (seen : ReplayWindow.Seen String) :
    SameOutside P s { s with seenNonces := seen } :=
  ⟨rfl, rfl, rfl, fun _ _ ↦ Iff.rfl⟩

theorem SameOutside.trans (h : SameOutside P s s') (h' : SameOutside P s' s'') :
    SameOutside P s s'' :=
  ⟨h'.users.trans h.users, h'.invites.trans h.invites, h'.projects.trans h.projects,
    fun r hr ↦ (h'.releases r hr).trans (h.releases r hr)⟩

/-- Every release under this id is one of `P`. -/
def Owns (P releaseId : String) (s : Server) : Prop :=
  ∀ r ∈ s.releases, r.id = releaseId → r.projectId = P

theorem perform_sameOutside {o : Outside} {q : Op} (hq : ∀ st, q ≠ .sql st) (P : String)
    (s : Server) : SameOutside P s (perform o q s).2 := by
  obtain ⟨hu, hi, hp, hr⟩ := perform_tables (o := o) hq s
  exact ⟨hu, hi, hp, fun r _ ↦ by rw [hr]⟩

theorem Stores.sameOutside {dir releaseId : String} {verified : Prop} {o : Outside} {q : Op}
    (h : Stores dir releaseId verified q) (hown : Owns P releaseId s) :
    SameOutside P s (perform o q s).2 ∧ Owns P releaseId (perform o q s).2 := by
  -- the one statement sets the status of the release
  have hset : ∀ status error now, SameOutside P s
        (perform o (.sql (.setReleaseStatus releaseId status error now)) s).2 ∧
      Owns P releaseId (perform o (.sql (.setReleaseStatus releaseId status error now)) s).2 := by
    intro status error now
    cases hf : o.fault with
    | some e => rw [perform_sql_fault hf]; exact ⟨.refl P s, hown⟩
    | none =>
      rw [perform_sql_ok hf]
      refine ⟨⟨rfl, rfl, rfl, fun r hr ↦ ?_⟩, fun r hr hid ↦ ?_⟩
      · rw [mem_releases_setReleaseStatus]
        constructor
        · rintro ⟨r₀, hr₀, rfl⟩
          by_cases hid : r₀.id = releaseId
          · rw [if_pos hid] at hr
            exact absurd (hown r₀ hr₀ hid) hr
          · rw [if_neg hid]
            exact hr₀
        · intro hmem
          exact ⟨r, hmem, if_neg fun hid ↦ hr (hown r hmem hid)⟩
      · obtain ⟨r₀, hr₀, rfl⟩ := mem_releases_setReleaseStatus.mp hr
        by_cases hid₀ : r₀.id = releaseId
        · rw [if_pos hid₀]
          exact hown r₀ hr₀ hid₀
        · rw [if_neg hid₀] at hid
          exact absurd hid hid₀
  have hother : ∀ q : Op, (∀ st, q ≠ .sql st) → SameOutside P s (perform o q s).2 ∧
      Owns P releaseId (perform o q s).2 := fun q hq ↦ by
    refine ⟨perform_sameOutside hq P s, ?_⟩
    rw [Owns, (perform_tables hq s).2.2.2]
    exact hown
  cases h with
  | failed error now => exact hset _ _ _
  | ready h now => exact hset _ _ _
  | _ => exact hother _ (by simp)

variable {config}

theorem uploadRelease_sameOutside (P : String) (message : Option String) (req : Request)
    (w : ℕ → Outside) (s : Server) :
    SameOutside P s ((uploadRelease config crates P message req).run perform w s).2 := by
  rw [uploadRelease, Prog.run_op, perform_read rfl]
  rcases (perform (w 0) (.sql (.projectById P)) s).1 with e | _ | ⟨p, ps⟩
  · exact .refl P s
  · exact .refl P s
  simp only [Prog.run_op, perform_unixTimestamp, perform_fillBytes]
  generalize "rel_" ++ Encoding.hexEncode _ = id
  cases hf : (w (0 + 1 + 1 + 1)).fault with
  | some e => rw [perform_sql_fault hf]; exact .refl P s
  | none =>
    rw [perform_sql_ok hf]
    obtain ⟨-, ⟨e, he⟩, hs⟩ | ⟨hnew, hok, hmem⟩ :=
      insertRelease_cases s id P "unpacking" message (w (0 + 1)).now
    · rw [he, hs]; exact .refl P s
    · rw [hok]
      have hins : SameOutside P s
          ((Stmt.insertRelease id P "unpacking" message (w (0 + 1)).now).exec s).2 :=
        ⟨rfl, rfl, rfl, fun r hr ↦ (hmem r).trans
          (or_iff_left fun h ↦ hr (by rw [h]))⟩
      have hown : Owns P id
          ((Stmt.insertRelease id P "unpacking" message (w (0 + 1)).now).exec s).2 := by
        intro r hr hid
        rcases (hmem r).mp hr with hr | rfl
        · exact absurd hid (hnew r hr)
        · rfl
      refine hins.trans ((storeRelease_does config P _ req).run
        (I := fun s' ↦ SameOutside P _ s' ∧ Owns P id s') (fun o q s' hq hs' ↦ ?_) _
        ⟨.refl P _, hown⟩).2.1
      obtain ⟨hsame, hown'⟩ := hq.sameOutside hs'.2
      exact ⟨hs'.1.trans hsame, hown'⟩

theorem listProjects_state (req : Request) (w : ℕ → Outside) (s : Server) :
    ((listProjects req).run perform w s).2 = s := by
  rw [listProjects]
  cases req.callerExtension with
  | error response => rfl
  | ok caller =>
    rw [extract_ok, Db.listProjects_run]
    simp only [bind_def, op_bind, run_op, perform_read (q := .listProjects) rfl]
    cases (perform (w 0) (.sql .listProjects) s).1 <;> rfl

/-- **What a caller scoped to `P` changes**: the rows of the releases of `P`. -/
theorem protected_sameOutside {req₀ : Request} {handler : Handler}
    (h : (protectedRoutes config crates).find req₀ = some handler) (hreq : req.ScopedTo P)
    (w : ℕ → Outside) (s : Server) : SameOutside P s ((handler req).run perform w s).2 := by
  obtain ⟨next, hnext, rfl⟩ | hstream := protectedRoutes_cases h
  · obtain ⟨response, hret⟩ | ⟨body, hret⟩ := verifyBodyHash_cases crates next req
    · rw [hret]; exact .refl P s
    rw [hret]
    have hreq' : Request.ScopedTo { req with body := body } P := hreq
    rcases buffered_scoped hnext hreq' with rfl | hdoes
    · rw [listProjects_state]; exact .refl P s
    · refine (hdoes.run (I := SameOutside P s) (fun o q s' hq hs' ↦ ?_) w (.refl P s)).2
      rw [hq, perform_read rfl]
      exact hs'
  · cases hstream with
    | methodNotAllowed => exact .refl P s
    | listReleases raw =>
      refine ((listReleases_scoped hreq raw).run (I := SameOutside P s) (fun o q s' hq hs' ↦ ?_) w
        (.refl P s)).2
      rcases hq with rfl | rfl
      · rw [perform_read rfl]; exact hs'
      · rw [perform_read rfl]; exact hs'
    | createRelease raw =>
      obtain ⟨response, hret⟩ | ⟨message, hret⟩ := createRelease_scoped hreq raw
      · rw [hret]; exact .refl P s
      · rw [hret]; exact uploadRelease_sameOutside P message req w s

/-! ## Requests on the signed router -/

/-- Where a request on the signed router ends up. -/
theorem served_cases (config : Config) (crates : Crates) (req : Request) (w : ℕ → Outside)
    (s : Server) :
    (∃ handler, (protectedRoutes config crates).find req = some handler ∧
        ¬ req.RedeemsInvite ∧ (served config crates req w s).2
          = ((verifySignature crates handler req).run perform w s).2) ∨
      (protectedRoutes config crates).find req = none ∧
        (req.RedeemsInvite ∧
            served config crates req w s
              = (stripBody req.method ((redeemInvite crates req).run perform w s).1,
                ((redeemInvite crates req).run perform w s).2) ∨
          ¬ req.RedeemsInvite ∧ (served config crates req w s).2 = s) := by
  have hserved : served config crates req w s =
      (((protectedRoutes config crates).find req).map (verifySignature crates) |>.or
        ((publicRoutes crates).find req)).elim (⟨404, .empty⟩, s) fun handler ↦
          (stripBody req.method ((handler req).run perform w s).1,
            ((handler req).run perform w s).2) := by
    rw [served, Router.serve, signedRoutes, Router.find_append, Router.find_routeLayer]
    cases ((protectedRoutes config crates).find req).map (verifySignature crates) |>.or
      ((publicRoutes crates).find req) with
    | none => rfl
    | some handler => exact run_bind_ret perform _ _ w s
  rw [hserved]
  by_cases hr : req.RedeemsInvite
  · obtain ⟨hprotected, hpublic⟩ := find_of_redeemsInvite config crates hr
    rw [hprotected, hpublic]
    exact .inr ⟨rfl, .inl ⟨hr, rfl⟩⟩
  cases hf : (protectedRoutes config crates).find req with
  | some handler => exact .inl ⟨handler, rfl, hr, rfl⟩
  | none =>
    refine .inr ⟨rfl, .inr ⟨hr, ?_⟩⟩
    rw [Option.map_none, Option.none_or]
    cases hp : (publicRoutes crates).find req with
    | none => rfl
    | some handler =>
      obtain ⟨h, -⟩ | rfl | rfl := publicRoutes_cases hp
      · exact absurd h hr
      · rfl
      · rfl

/-! ## The redeem-invite endpoint -/

/-- The run of `Db.redeemInvite` in a redeem-invite request, which starts after the clock is
read. -/
abbrev redemption (crates : Crates) (request : RedeemInviteRequest) (w : ℕ → Outside)
    (s : Server) : Except Error (Option String) × Server :=
  (Db.redeemInvite (tokenHash crates request.inviteToken) request.publicKey
    (w 0).now).run.run perform (fun n ↦ w (n + 1)) s

/-- A request to redeem-invite, run to its end. -/
theorem redeemInvite_exec {request : RedeemInviteRequest}
    (h : crates.jsonRedeemInvite req = .ok request) (w : ℕ → Outside) (s : Server) :
    (redeemInvite crates req).run perform w s =
      if (parsePublicKey crates request.publicKey).isNone then
        (.text 400 "public_key must be a base64 ed25519 public key", s)
      else
        (redeemResponse (redemption crates request w s).1, (redemption crates request w s).2) := by
  rw [redeemInvite_eq, h, extract_ok]
  split
  · rfl
  · exact run_bind_ret perform _ _ _ s

/-- Where there is nothing to redeem, nothing changes. -/
theorem redeemInvite_state {tokenHash : String} {now : ℕ} (publicKey : String) (w : ℕ → Outside)
    (h : ¬ Invites.Redeemable s.invites tokenHash now) :
    ((Db.redeemInvite tokenHash publicKey now).run.run perform w s).2 = s := by
  rw [Db.redeemInvite_run, Prog.run_op]
  cases hf : (w 0).fault with
  | some e => rw [perform_sql_fault hf]; rfl
  | none =>
    rw [perform_sql_ok hf, consumeInvite_reply_eq_zero.mpr fun i hi hr ↦ h ⟨i, hi, hr⟩]
    exact consume_eq_self h

theorem unchanged_of_not_redeemsLive (hpath : req.RedeemsInvite)
    (h : ¬ RedeemsLive crates s (w 0).now req) :
    ((redeemInvite crates req).run perform w s).2 = s := by
  cases hjson : crates.jsonRedeemInvite req with
  | error response => rw [redeemInvite_eq, hjson]; rfl
  | ok request =>
    rw [redeemInvite_exec hjson]
    split
    · rfl
    · rename_i hkey
      refine redeemInvite_state _ _ fun hr ↦ h ⟨hpath, request, hjson, ?_, hr⟩
      rwa [Option.isSome_iff_ne_none, ne_eq, ← Option.isNone_iff_eq_none]

theorem redeemed_of_success {request : RedeemInviteRequest}
    (hjson : crates.jsonRedeemInvite req = .ok request)
    (h : ((redeemInvite crates req).run perform w s).1.status = 200) :
    ∃ i ∈ s.invites, i.Redeemable (tokenHash crates request.inviteToken) (w 0).now ∧
      OnlyRedeemed s ((redeemInvite crates req).run perform w s).2 i request.publicKey
        (w 0).now := by
  rw [redeemInvite_exec hjson] at h ⊢
  split at h
  · cases h
  rename_i hkey
  rw [if_neg hkey]
  obtain ⟨userId, hr⟩ : ∃ userId, (redemption crates request w s).1 = .ok (some userId) :=
    redeemResponse_status h
  obtain ⟨i, hi, hlive, -, honly⟩ := redeemInvite_onlyRedeemed hr
  exact ⟨i, hi, hlive, honly⟩

/-! ## Rows created and removed -/

/-- No row of `users`, `invites` or `projects` has been created or removed. -/
structure SameRows (s s' : Server) : Prop where
  users : s'.users.rows.map UserRow.id = s.users.rows.map UserRow.id
  invites : s'.invites.rows.map InviteRow.tokenHash = s.invites.rows.map InviteRow.tokenHash
  projects : s'.projects.rows.map ProjectRow.id = s.projects.rows.map ProjectRow.id

theorem SameOutside.sameRows (h : SameOutside P s s') : SameRows s s' :=
  ⟨by rw [h.users], by rw [h.invites], by rw [h.projects]⟩

/-- The statements of a redemption update rows. -/
theorem redeemInvite_does (tokenHash publicKey : String) (now : ℕ) :
    (Db.redeemInvite tokenHash publicKey now).run.Does
      (fun q ↦ q = .sql (.consumeInvite tokenHash now) ∨ q = .sql (.inviteUserId tokenHash) ∨
        ∃ userId, q = .sql (.setPublicKey publicKey userId)) fun _ ↦ True := by
  rw [Db.redeemInvite_run]
  refine ⟨.inl rfl, fun r ↦ ?_⟩
  rcases r with e | _ | n
  · exact trivial
  · exact trivial
  refine ⟨.inr (.inl rfl), fun r ↦ ?_⟩
  rcases r with e | _ | ⟨userId, rest⟩
  · exact trivial
  · exact trivial
  refine ⟨.inr (.inr ⟨userId, rfl⟩), fun r ↦ ?_⟩
  cases r <;> exact trivial

theorem redeemInvite_sameRows (req : Request) (w : ℕ → Outside) (s : Server) :
    SameRows s ((redeemInvite crates req).run perform w s).2 := by
  cases hjson : crates.jsonRedeemInvite req with
  | error response => rw [redeemInvite_eq, hjson]; exact ⟨rfl, rfl, rfl⟩
  | ok request =>
    rw [redeemInvite_exec hjson]
    split
    · exact ⟨rfl, rfl, rfl⟩
    refine ((redeemInvite_does _ _ _).run (I := SameRows s) (fun o q s' hq hs' ↦ ?_) _
      ⟨rfl, rfl, rfl⟩).2
    cases hf : o.fault with
    | some e => rcases hq with rfl | rfl | ⟨userId, rfl⟩ <;> rwa [perform_sql_fault hf]
    | none =>
      rcases hq with rfl | rfl | ⟨userId, rfl⟩ <;> rw [perform_sql_ok hf]
      · exact ⟨hs'.users, map_tokenHash_consumeInvite.trans hs'.invites, hs'.projects⟩
      · exact hs'
      · exact ⟨map_id_setPublicKey.trans hs'.users, hs'.invites, hs'.projects⟩

/-! ## The result -/

variable (config crates)

/-- **Every state change is authorised.**  For every request on the signed router, from any state:

* without a verifying signature, and unless it redeems a live invite with a valid key, nothing
  changes at all;
* a redemption that succeeds changes that invite and the key of that invite's user only;
* a caller scoped to a project changes no row but those of that project's releases;
* rows of `users`, `invites` and `projects` are created and removed for admins only. -/
theorem state_changes_authorised (req : Request) (w : ℕ → Outside) (s : Server) :
    (¬ Authentic crates s req → ¬ RedeemsLive crates s (w 0).now req →
      (served config crates req w s).2 = s) ∧
    (∀ request, req.RedeemsInvite → crates.jsonRedeemInvite req = .ok request →
      (served config crates req w s).1.status = 200 →
      ∃ i ∈ s.invites, i.Redeemable (tokenHash crates request.inviteToken) (w 0).now ∧
        OnlyRedeemed s (served config crates req w s).2 i request.publicKey (w 0).now) ∧
    (∀ caller P, AuthenticatedAs config crates req w s caller → caller.projectId = some P →
      SameOutside P s (served config crates req w s).2) ∧
    (¬ SameRows s (served config crates req w s).2 →
      ∃ caller, AuthenticatedAs config crates req w s caller ∧ caller.projectId = none) := by
  obtain ⟨handler, hfind, hpath, hstate⟩ | ⟨hfind, ⟨hpath, hserved⟩ | ⟨hpath, hstate⟩⟩ :=
    served_cases config crates req w s
  · -- behind the signature layer
    rw [hstate, verifySignature_run]
    refine ⟨fun hauth _ ↦ ?_, fun _ h ↦ absurd h hpath, ?_⟩
    · obtain ⟨reason, hrun⟩ | ⟨h, -⟩ := checkedRequest_cases crates req w s
      · rw [hrun]
      · exact absurd h hauth
    obtain ⟨reason, hrun⟩ | ⟨-, seen, ⟨reason, hrun⟩ | ⟨head, user, hrun⟩⟩ :=
      checkedRequest_cases crates req w s
    · rw [hrun]
      exact ⟨fun _ P _ _ ↦ .refl P s, fun h ↦ absurd ⟨rfl, rfl, rfl⟩ h⟩
    · rw [hrun]
      exact ⟨fun _ P _ _ ↦ .seen P s seen, fun h ↦ absurd ⟨rfl, rfl, rfl⟩ h⟩
    · have hcaller : AuthenticatedAs config crates req w s user :=
        ⟨by rw [hfind, Option.isSome_some], _, by rw [hrun], rfl⟩
      have hsame : ∀ P, user.projectId = some P → SameOutside P s
          ((handler (req.authenticated head user)).run perform
            (fun n ↦ w (n + (checkedRequest crates req).run.steps perform w s))
            { s with seenNonces := seen }).2 := fun P hP ↦
        (SameOutside.seen P s seen).trans (protected_sameOutside hfind ⟨user, rfl, hP⟩ _ _)
      rw [hrun]
      refine ⟨fun caller P hauth hP ↦ ?_, fun h ↦ ⟨user, hcaller, ?_⟩⟩
      · obtain ⟨-, req', hreq', hcaller'⟩ := hauth
        rw [hrun] at hreq'
        cases hreq'
        cases hcaller'
        exact hsame P hP
      · cases hP : user.projectId with
        | none => rfl
        | some P => exact absurd (hsame P hP).sameRows h
  · -- redeem-invite
    rw [hserved]
    refine ⟨fun _ hlive ↦ unchanged_of_not_redeemsLive hpath hlive, fun request _ hjson h ↦ ?_,
      fun caller P h ↦ ?_, fun h ↦ absurd (redeemInvite_sameRows req w s) h⟩
    · refine redeemed_of_success hjson ?_
      rwa [stripBody_status] at h
    · rw [AuthenticatedAs, hfind] at h
      cases h.1
  · -- to an endpoint that does nothing, or to none
    rw [hstate]
    exact ⟨fun _ _ ↦ rfl, fun _ h ↦ absurd h hpath, fun _ P _ _ ↦ .refl P s,
      fun h ↦ absurd ⟨rfl, rfl, rfl⟩ h⟩

end Railyard
