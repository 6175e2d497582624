import Railyard.Access.Authorisation

/-!
# Whom a removal removes

`DELETE /api/users/{name}` removes one user.  Which one is decided by the target of the request: the
third segment of its path, percent-decoded.

* `Request.removes` reads the name off the target, and `RemovesOnly` is what a removal by name is
  for.
* `removesOnly_locally_iff`, `removesOnly_signed_iff`: on either listener the request removes only
  the user that was meant, unless its target names another user there is.
-/

set_option autoImplicit false

namespace Railyard

open Effects Prog

/-- From `s` to `s'` no user but the one of this name is deleted, and where there is none, nothing
is. -/
structure RemovesOnly (name : String) (s s' : Server) : Prop where
  users : ∀ u ∈ s.users, u ∉ s'.users → u.name = name
  nobody : (∀ u ∈ s.users, u.name ≠ name) → ∃ seen, s' = { s with seenNonces := seen }

section RemovesOnly

variable {name other : String} {s s' : Server}

theorem RemovesOnly.seen (name : String) (s : Server) (seen : ReplayWindow.Seen String) :
    RemovesOnly name s { s with seenNonces := seen } :=
  ⟨fun _ hu hdeleted ↦ absurd hu hdeleted, fun _ ↦ ⟨seen, rfl⟩⟩

theorem RemovesOnly.refl (name : String) (s : Server) : RemovesOnly name s s :=
  .seen name s s.seenNonces

theorem RemovesOnly.of_seen {seen : ReplayWindow.Seen String}
    (h : RemovesOnly name { s with seenNonces := seen } s') : RemovesOnly name s s' :=
  ⟨h.users, h.nobody⟩

/-- Who is removed under another name is removed under this one, where no user has the other one
alone. -/
theorem RemovesOnly.rename (h : RemovesOnly other s s')
    (hname : ∀ u ∈ s.users, u.name = other → u.name = name) : RemovesOnly name s s' :=
  ⟨fun u hu hdeleted ↦ hname u hu (h.users u hu hdeleted),
    fun hnobody ↦ h.nobody fun u hu heq ↦ hnobody u hu (hname u hu heq)⟩

end RemovesOnly

/-! ## The statements -/

section Statements

variable {name : String} {w : ℕ → Outside} {s : Server}

/-- A removal does nothing, or it has found a user of this name. -/
theorem Db.removeUser_cases (name : String) (w : ℕ → Outside) (s : Server) :
    ((Db.removeUser name).run.run perform w s).2 = s ∨ ∃ u ∈ s.users, u.name = name ∧
      (((Db.removeUser name).run.run perform w s).2 = ((Stmt.deleteInvitesOf u.id).exec s).2 ∨
        ((Db.removeUser name).run.run perform w s).2
          = ((Stmt.deleteUser u.id).exec ((Stmt.deleteInvitesOf u.id).exec s).2).2) := by
  rw [Db.removeUser_run, run_op, perform_read rfl]
  rcases hr : (perform (w 0) (.sql (.userIdByName name)) s).1 with e | _ | ⟨userId, rest⟩
  · exact .inl rfl
  · exact .inl rfl
  obtain ⟨u, hu, hname, rfl⟩ := (mem_userIdByName_reply (perform_sql_eq_ok hr).2).mp
    List.mem_cons_self
  simp only [run_op]
  cases hf : (w (0 + 1)).fault with
  | some e => rw [perform_sql_fault hf]; exact .inl rfl
  | none =>
    rw [perform_sql_ok hf]
    refine .inr ⟨u, hu, hname, ?_⟩
    simp only [Stmt.exec, run_op]
    cases hf : (w (0 + 1 + 1)).fault with
    | some e => rw [perform_sql_fault hf]; exact .inl rfl
    | none => rw [perform_sql_ok hf]; exact .inr rfl

theorem Db.removeUser_removesOnly (name : String) (w : ℕ → Outside) (s : Server) :
    RemovesOnly name s ((Db.removeUser name).run.run perform w s).2 := by
  obtain hsame | ⟨u, hu, hname, hstate⟩ := Db.removeUser_cases name w s
  · rw [hsame]
    exact .refl name s
  refine ⟨fun u' hu' hdeleted ↦ ?_, fun hnobody ↦ absurd hname (hnobody u hu)⟩
  obtain hstate | hstate := hstate <;> rw [hstate] at hdeleted
  · exact absurd hu' hdeleted
  · have hid : u'.id = u.id := by
      by_contra hne
      exact hdeleted (mem_users_deleteUser.mpr ⟨hu', hne⟩)
    rw [s.users.eq_of_key List.mem_cons_self hu' hu hid, hname]

/-- Where no statement fails, the user of this name is deleted. -/
theorem Db.removeUser_deletes {u : UserRow} (hu : u ∈ s.users) (hw : ∀ n, (w n).fault = none) :
    u ∉ ((Db.removeUser u.name).run.run perform w s).2.users := by
  have hfound : ((Stmt.userIdByName u.name).exec s).1 = .ok [u.id] := by
    simp only [Stmt.exec, Table.select_key (by simp : UserRow.name ∈ [UserRow.id, UserRow.name]) hu,
      List.map_cons, List.map_nil]
  have hstate : ((Db.removeUser u.name).run.run perform w s).2
      = ((Stmt.deleteUser u.id).exec ((Stmt.deleteInvitesOf u.id).exec s).2).2 := by
    rw [Db.removeUser_run, run_op, perform_sql_ok (hw 0), hfound]
    simp only [run_op, perform_sql_ok (hw _), Stmt.exec, run_ret]
  rw [hstate]
  exact fun hmem ↦ (mem_users_deleteUser.mp hmem).2 rfl

end Statements

/-! ## The target -/

/-- The name a `DELETE` on the target of the request is about. -/
def Request.removes (req : Request) : Option String :=
  match Encoding.pathSegments req.target with
  | ["api", "users", raw] => if raw = "" then none else Encoding.percentDecode raw
  | _ => none

section Routing

variable {config : Config} {crates : Crates} {req : Request} {handler : Handler}

/-- A path that ends in a parameter matches one segment more, unless that is empty. -/
theorem matchPath_lits_param (ss : List String) {ts params : List String}
    (h : matchPath (ss.map Segment.lit ++ [.param]) ts = some params) :
    ∃ t, t ≠ "" ∧ ts = ss ++ [t] ∧ params = [t] := by
  induction ss generalizing ts with
  | nil =>
    cases ts with
    | nil => cases h
    | cons t ts =>
      rw [List.map_nil, List.nil_append, matchPath] at h
      split at h
      · cases h
      rename_i ht
      obtain ⟨rest, hrest, rfl⟩ := Option.map_eq_some_iff.mp h
      cases ts with
      | nil =>
        cases hrest
        exact ⟨t, ht, rfl, rfl⟩
      | cons t' ts => cases hrest
  | cons s ss ih =>
    cases ts with
    | nil => cases h
    | cons t ts =>
      rw [List.map_cons, List.cons_append, matchPath] at h
      split at h
      · rename_i hst
        obtain ⟨t', ht', rfl, hparams⟩ := ih h
        exact ⟨t', ht', by rw [hst, List.cons_append], hparams⟩
      · cases h

/-- What answers a `DELETE`. -/
inductive Removal (req : Request) : Handler → Prop
  | methodNotAllowed : Removal req methodNotAllowed
  | removeUser {raw : String} (hraw : raw ≠ "")
      (hpath : Encoding.pathSegments req.target = ["api", "users", raw]) :
      Removal req (removeUser raw)

/-- A route that has nothing for `DELETE`. -/
theorem Route.handler_delete {path : List Segment} {methods : List (String × Handler)}
    (h : ∀ m ∈ methods, m.1 ≠ "DELETE") (params : List String) :
    (route path methods).handler "DELETE" params = methodNotAllowed := by
  obtain ⟨m, hm, hans, -⟩ | he := Route.handler_cases (route path methods) "DELETE" params
  · obtain ⟨m', hm', rfl⟩ := List.mem_map.mp hm
    rcases of_decide_eq_true hans with hans | ⟨-, hans⟩
    · exact absurd hans (h m' hm')
    · exact absurd hans (by decide)
  · exact he

/-- A `DELETE` is answered behind `verifyBodyHash`, or turned away by the releases route. -/
theorem removal_of_find (hmethod : req.method = "DELETE")
    (h : (protectedRoutes config crates).find req = some handler) :
    (∃ next, Removal req next ∧ handler = verifyBodyHash crates next) ∨
      handler = methodNotAllowed := by
  rw [protectedRoutes_find] at h
  rcases Option.or_eq_some_iff.mp h with h | ⟨-, h⟩
  · obtain ⟨next, hnext, rfl⟩ := Option.map_eq_some_iff.mp h
    obtain ⟨route, hroute, params, hpath, rfl⟩ := Router.find_eq_some hnext
    refine .inl ⟨_, ?_, rfl⟩
    rw [hmethod]
    simp only [bufferedRoutes, List.mem_cons, List.not_mem_nil, or_false] at hroute
    rcases hroute with rfl | rfl | rfl | rfl | rfl
    · rw [Route.handler_delete (by simp)]; exact .methodNotAllowed
    · rw [Route.handler_delete (by simp)]; exact .methodNotAllowed
    · rw [Route.handler_delete (by simp)]; exact .methodNotAllowed
    · obtain ⟨raw, hraw, hsegments, rfl⟩ := matchPath_lits_param ["api", "users"] hpath
      exact .removeUser hraw hsegments
    · rw [Route.handler_delete (by simp)]; exact .methodNotAllowed
  · obtain ⟨route, hroute, params, -, rfl⟩ := Router.find_eq_some h
    obtain rfl := List.mem_singleton.mp hroute
    rw [hmethod]
    exact .inr rfl

theorem find_of_removes (config : Config) (crates : Crates) {name : String}
    (hmethod : req.method = "DELETE") (h : req.removes = some name) :
    ∃ raw, Encoding.percentDecode raw = some name ∧
      (protectedRoutes config crates).find req = some (verifyBodyHash crates (removeUser raw)) := by
  rw [Request.removes] at h
  split at h
  · rename_i raw hpath
    split at h
    · cases h
    rename_i hraw
    refine ⟨raw, h, ?_⟩
    simp [protectedRoutes, Router.find, Router.routeLayer, bufferedRoutes, route, routeParam,
      matchPath, projectsPath, usersPath, Route.handler, answers, hpath, hraw, hmethod]
  · cases h

end Routing

/-! ## The handler -/

section Handler

variable {crates : Crates} {req req₀ : Request} {next : Handler} {w : ℕ → Outside} {s : Server}

/-- For an admin, the handler does what the statements do. -/
theorem removeUser_admin {raw name : String} {caller : AuthUser} (req : Request)
    (hcaller : req.caller = some caller) (hscope : caller.projectId = none)
    (hdecode : Encoding.percentDecode raw = some name) (w : ℕ → Outside) (s : Server) :
    ((removeUser raw req).run perform w s).2 = ((Db.removeUser name).run.run perform w s).2 := by
  simp only [removeUser, Request.callerExtension, hcaller, pathParam, hdecode, extract_ok, hscope,
    Option.isSome_none, Bool.false_eq_true, if_false, bind_def, run_bind]
  rcases ((Db.removeUser name).run.run perform w s).1 with e | _ | _ <;> rfl

/-- For anybody else, it does nothing. -/
theorem removeUser_cases (raw : String) (req : Request) (w : ℕ → Outside) (s : Server) :
    ((removeUser raw req).run perform w s).2 = s ∨
      ∃ caller, req.caller = some caller ∧ caller.projectId = none ∧
        ∃ name, Encoding.percentDecode raw = some name ∧
          ((removeUser raw req).run perform w s).2
            = ((Db.removeUser name).run.run perform w s).2 := by
  cases hcaller : req.caller with
  | none => simp [removeUser, Request.callerExtension, hcaller, extract]
  | some caller =>
    cases hdecode : Encoding.percentDecode raw with
    | none => simp [removeUser, Request.callerExtension, hcaller, extract, pathParam, hdecode]
    | some name =>
      cases hscope : caller.projectId with
      | none =>
        exact .inr ⟨caller, rfl, hscope, name, rfl, removeUser_admin req hcaller hscope hdecode w s⟩
      | some scope =>
        simp [removeUser, Request.callerExtension, hcaller, pathParam, hdecode, hscope]

/-- The body passes `verifyBodyHash`. -/
def BodyPasses (crates : Crates) (body : List Frame) (signedHash : Option String) : Prop :=
  ∀ expected ∈ signedHash, ∃ bs, toBytes body maxBodyBytes = some bs ∧
    crates.sha256Hex bs = expected

/-- Where no hash is signed, every body passes. -/
theorem bodyPasses_unsigned (crates : Crates) (body : List Frame) : BodyPasses crates body none :=
  fun _ h ↦ absurd h (Option.not_mem_none _)

theorem verifyBodyHash_passes (h : BodyPasses crates req.body req.signedHash) (next : Handler) :
    ∃ body, verifyBodyHash crates next req = next { req with body := body } := by
  rw [verifyBodyHash]
  split
  · exact ⟨req.body, rfl⟩
  · rename_i expected hexpected
    obtain ⟨bs, hbs, hhash⟩ := h expected hexpected
    rw [hbs]
    exact ⟨[.data bs], if_neg fun hne ↦ hne hhash⟩

/-- What goes on behind `verifyBodyHash` has passed it. -/
theorem verifyBodyHash_split (crates : Crates) (next : Handler) (req : Request) :
    (∃ response, verifyBodyHash crates next req = .ret response) ∨
      BodyPasses crates req.body req.signedHash ∧
        ∃ body, verifyBodyHash crates next req = next { req with body := body } := by
  by_cases h : BodyPasses crates req.body req.signedHash
  · exact .inr ⟨h, verifyBodyHash_passes h next⟩
  refine .inl ?_
  rw [verifyBodyHash]
  split
  · rename_i hnone
    exact absurd (hnone ▸ bodyPasses_unsigned crates req.body) h
  · rename_i expected hexpected
    split
    · exact ⟨_, rfl⟩
    · rename_i bs hbs
      refine ⟨_, if_pos fun hhash ↦ h ?_⟩
      rw [BodyPasses, hexpected]
      rintro _ ⟨⟩
      exact ⟨bs, hbs, hhash⟩

/-- A removal that is answered removes only the user that was meant, unless it is an admin's and its
target names somebody else. -/
theorem removesOnly_of_find {config : Config} {handler : Handler} {name : String}
    (hmethod : req₀.method = "DELETE")
    (hfind : (protectedRoutes config crates).find req₀ = some handler)
    (hname : BodyPasses crates req.body req.signedHash →
      (∃ caller, req.caller = some caller ∧ caller.projectId = none) →
        ∀ u ∈ s.users, req₀.removes = some u.name → u.name = name) (w : ℕ → Outside) :
    RemovesOnly name s ((handler req).run perform w s).2 := by
  obtain ⟨next, hnext, rfl⟩ | rfl := removal_of_find hmethod hfind
  · obtain ⟨response, hret⟩ | ⟨hbody, body, hret⟩ := verifyBodyHash_split crates next req
    · rw [hret]
      exact .refl name s
    rw [hret]
    cases hnext with
    | methodNotAllowed => exact .refl name s
    | @removeUser raw hraw hpath =>
      obtain hsame | ⟨caller, hcaller, hscope, other, hdecode, hstate⟩ :=
        removeUser_cases raw { req with body := body } w s
      · rw [hsame]
        exact .refl name s
      · rw [hstate]
        refine (Db.removeUser_removesOnly other w s).rename fun u hu heq ↦
          hname hbody ⟨caller, hcaller, hscope⟩ u hu ?_
        simp only [Request.removes, hpath, if_neg hraw, hdecode, heq]
  · exact .refl name s

/-- Where no statement fails, a removal for an admin deletes the user its target names. -/
theorem deletes_of_removes (config : Config) (crates : Crates) (req : Request) {caller : AuthUser}
    {u : UserRow} (hmethod : req₀.method = "DELETE") (hremoves : req₀.removes = some u.name)
    (hu : u ∈ s.users) (hbody : BodyPasses crates req.body req.signedHash)
    (hcaller : req.caller = some caller) (hscope : caller.projectId = none)
    (hw : ∀ n, (w n).fault = none) :
    ∃ handler, (protectedRoutes config crates).find req₀ = some handler ∧
      u ∉ ((handler req).run perform w s).2.users := by
  obtain ⟨raw, hdecode, hfind⟩ := find_of_removes config crates hmethod hremoves
  refine ⟨_, hfind, ?_⟩
  obtain ⟨body, hret⟩ := verifyBodyHash_passes hbody (removeUser raw)
  rw [hret, removeUser_admin { req with body := body } hcaller hscope hdecode]
  exact Db.removeUser_deletes hu hw

end Handler

/-! ## The admin socket -/

variable (config : Config) (crates : Crates)

/-- What the admin socket answers, and the state it leaves behind. -/
def servedLocally (req : Request) (w : ℕ → Outside) (s : Server) : Response × Server :=
  ((adminRoutes config crates).serve req).run perform w s

section Locally

variable {config crates} {req : Request} {w : ℕ → Outside} {s : Server}

theorem servedLocally_of_none (h : (protectedRoutes config crates).find req = none)
    (w : ℕ → Outside) (s : Server) : (servedLocally config crates req w s).2 = s := by
  rw [servedLocally, Router.serve, adminRoutes, Router.find_routeLayer, h]
  rfl

theorem servedLocally_of_some {handler : Handler}
    (h : (protectedRoutes config crates).find req = some handler) (w : ℕ → Outside) (s : Server) :
    (servedLocally config crates req w s).2
      = ((handler { req with caller := some ⟨"local", "local", none⟩ }).run perform w s).2 := by
  rw [servedLocally, Router.serve, adminRoutes, Router.find_routeLayer, h]
  show (((handler { req with caller := some ⟨"local", "local", none⟩ }).bind fun response ↦
    .ret (stripBody req.method response)).run perform w s).2 = _
  rw [run_bind_ret]

/-- **A removal on the admin socket removes only the user that was meant, unless its target names
another user there is.** -/
theorem removesOnly_locally_iff (hmethod : req.method = "DELETE")
    (hunsigned : req.signedHash = none) (name : String) :
    (∀ w, RemovesOnly name s (servedLocally config crates req w s).2) ↔
      ∀ u ∈ s.users, req.removes = some u.name → u.name = name := by
  constructor
  · intro h u hu hremoves
    obtain ⟨handler, hfind, hdeleted⟩ := deletes_of_removes config crates
      { req with caller := some ⟨"local", "local", none⟩ } (w := fun _ ↦ {}) hmethod hremoves hu
      (by rw [hunsigned]; exact bodyPasses_unsigned crates _) rfl rfl fun _ ↦ rfl
    rw [← servedLocally_of_some hfind] at hdeleted
    exact (h _).users u hu hdeleted
  · intro hname w
    cases hfind : (protectedRoutes config crates).find req with
    | none =>
      rw [servedLocally_of_none hfind]
      exact .refl name s
    | some handler =>
      rw [servedLocally_of_some hfind]
      exact removesOnly_of_find hmethod hfind (fun _ _ ↦ hname) w

end Locally

/-! ## The signed listener -/

/-- There is a time at which the request is let through as a server admin's. -/
def Admits (req : Request) (s : Server) : Prop :=
  ∃ head, req.signedHead = .ok head ∧
    (∃ u ∈ s.users, u.id = head.keyId ∧ u.projectId = none ∧
      ∃ publicKey, u.publicKey = some publicKey ∧ verifyHead crates req head publicKey = .ok ()) ∧
    (∃ now, ReplayWindow.absDiff now head.timestamp ≤ timestampWindowSeconds ∧
      (ReplayWindow.record timestampWindowSeconds now head.nonce s.seenNonces).1 = false) ∧
    BodyPasses crates req.body (some (Encoding.toAsciiLowercase head.contentSha256))

section Signed

variable {config crates} {req : Request} {w : ℕ → Outside} {s : Server}

/-- A request that is accepted as an admin's, and whose body passes, is let through. -/
theorem admits_of_accepted {req' : Request} {caller : AuthUser}
    (h : ((checkedRequest crates req).run.run perform w s).1 = .ok req')
    (hcaller : req'.caller = some caller) (hscope : caller.projectId = none)
    (hbody : BodyPasses crates req'.body req'.signedHash) : Admits crates req s := by
  rw [checkedRequest_exec] at h
  cases hhead : req.signedHead with
  | error e => rw [hhead] at h; cases h
  | ok head =>
    rw [hhead] at h
    dsimp only at h
    split at h
    · cases h
    rename_i hclock
    rcases hr : (perform (w 1) (.sql (.keyOwner head.keyId)) s).1 with
      e | _ | ⟨⟨publicKey, id, name, projectId⟩, rows⟩
    · rw [hr] at h; cases h
    · rw [hr] at h; cases h
    obtain ⟨u, hu, hid, hkey, hrow⟩ :=
      mem_keyOwner_reply (perform_sql_eq_ok hr).2 List.mem_cons_self
    cases hrow
    rw [hr] at h
    dsimp only at h
    cases hverify : verifyHead crates req head publicKey with
    | error e => rw [hverify] at h; cases h
    | ok _ =>
      rw [hverify] at h
      dsimp only at h
      split at h
      · cases h
      rename_i hnew
      obtain rfl := Except.ok.inj h
      obtain rfl := Option.some.inj hcaller
      exact ⟨head, hhead, ⟨u, hu, hid, hscope, publicKey, hkey, hverify⟩,
        ⟨(w 0).now, Nat.le_of_not_lt hclock, Bool.eq_false_of_not_eq_true hnew⟩, hbody⟩

/-- Where the server lets a request through, there is a run in which it does. -/
theorem accepted_of_admits (h : Admits crates req s) :
    ∃ w : ℕ → Outside, (∀ n, (w n).fault = none) ∧ ∃ req' caller,
      ((checkedRequest crates req).run.run perform w s).1 = .ok req' ∧
        req'.caller = some caller ∧ caller.projectId = none ∧
          BodyPasses crates req'.body req'.signedHash := by
  obtain ⟨head, hhead, ⟨u, hu, hid, hscope, publicKey, hkey, hverify⟩, ⟨now, hclock, hnew⟩,
    hbody⟩ := h
  obtain ⟨rows, hrows⟩ := keyOwner_reply_of_mem hu hkey
  rw [hid] at hrows
  have howner : (perform {} (.sql (.keyOwner head.keyId)) s).1
      = .ok ((publicKey, head.keyId, u.name, u.projectId) :: rows) := by
    rw [perform_sql_ok rfl]
    exact hrows
  refine ⟨fun n ↦ if n = 0 then { now := now } else {}, fun n ↦ by dsimp only; split <;> rfl,
    _, _, checkedRequest_accepts crates hhead hclock howner hverify hnew, rfl, hscope, hbody⟩

theorem served_of_none (h : (protectedRoutes config crates).find req = none)
    (hmethod : req.method = "DELETE") (w : ℕ → Outside) (s : Server) :
    (served config crates req w s).2 = s := by
  obtain ⟨handler, hfind, -⟩ | ⟨-, ⟨hpath, -⟩ | ⟨-, hsame⟩⟩ := served_cases config crates req w s
  · rw [h] at hfind
    cases hfind
  · rw [Request.RedeemsInvite, hmethod] at hpath
    exact absurd hpath.1 (by decide)
  · exact hsame

/-- What a request to a protected route leaves behind: the check's state, or that of the handler
which starts in it. -/
theorem served_of_some {handler : Handler}
    (h : (protectedRoutes config crates).find req = some handler) (w : ℕ → Outside) (s : Server) :
    ∃ seen, (∀ req', ((checkedRequest crates req).run.run perform w s).1 = .ok req' →
        (served config crates req w s).2 = ((handler req').run perform
          (fun n ↦ w (n + (checkedRequest crates req).run.steps perform w s))
          { s with seenNonces := seen }).2) ∧
      (∀ e, ((checkedRequest crates req).run.run perform w s).1 = .error e →
        (served config crates req w s).2 = { s with seenNonces := seen }) := by
  have hserved : (served config crates req w s).2
      = ((verifySignature crates handler req).run perform w s).2 := by
    obtain ⟨handler', hfind, -, hstate⟩ | ⟨hnone, -⟩ := served_cases config crates req w s
    · rw [hstate, Option.some.inj (h.symm.trans hfind)]
    · rw [h] at hnone
      cases hnone
  rw [hserved, verifySignature_run]
  obtain ⟨reason, hrun⟩ | ⟨-, seen, ⟨reason, hrun⟩ | ⟨head, user, hrun⟩⟩ :=
    checkedRequest_cases crates req w s
  · rw [hrun]
    exact ⟨s.seenNonces, nofun, fun e _ ↦ rfl⟩
  · rw [hrun]
    exact ⟨seen, nofun, fun e _ ↦ rfl⟩
  · rw [hrun]
    refine ⟨seen, fun req' hreq' ↦ ?_, nofun⟩
    rw [← Except.ok.inj hreq']

/-- **A signed removal removes only the user that was meant, unless it is let through as a server
admin's and its target names another user there is.** -/
theorem removesOnly_signed_iff (hmethod : req.method = "DELETE") (name : String) :
    (∀ w, RemovesOnly name s (served config crates req w s).2) ↔
      (Admits crates req s → ∀ u ∈ s.users, req.removes = some u.name → u.name = name) := by
  constructor
  · intro h hadmits u hu hremoves
    obtain ⟨w, hw, req', caller, haccepted, hcaller, hscope, hbody⟩ := accepted_of_admits hadmits
    have hdeletes := fun seen ↦ deletes_of_removes config crates req'
      (s := { s with seenNonces := seen })
      (w := fun n ↦ w (n + (checkedRequest crates req).run.steps perform w s))
      hmethod hremoves hu hbody hcaller hscope fun n ↦ hw _
    obtain ⟨handler, hfind, -⟩ := hdeletes s.seenNonces
    obtain ⟨seen, hok, -⟩ := served_of_some hfind w s
    obtain ⟨handler', hfind', hdeleted⟩ := hdeletes seen
    obtain rfl := Option.some.inj (hfind.symm.trans hfind')
    rw [← hok req' haccepted] at hdeleted
    exact (h w).users u hu hdeleted
  · intro hname w
    cases hfind : (protectedRoutes config crates).find req with
    | none =>
      rw [served_of_none hfind hmethod]
      exact .refl name s
    | some handler =>
      obtain ⟨seen, hok, herror⟩ := served_of_some hfind w s
      cases hcheck : ((checkedRequest crates req).run.run perform w s).1 with
      | error e =>
        rw [herror e hcheck]
        exact .seen name s seen
      | ok req' =>
        rw [hok req' hcheck]
        refine .of_seen (removesOnly_of_find hmethod hfind (fun hbody hadmin ↦ ?_) _)
        obtain ⟨caller, hcaller, hscope⟩ := hadmin
        exact hname (admits_of_accepted hcheck hcaller hscope hbody)

end Signed

end Railyard
