import Railyard.Storage.Discipline

/-!
# Requests follow the discipline

A row may be stored only if what it refers to is known to be there, and a file only below the
directory of a release that is (`Storage.Discipline`).  That every request keeps to this is shown
along the handlers: each looks something up, or checks it, before it stores what rests on it.

* `Op.Harmless`: operations that rest on nothing, and the handlers that issue no others;
* `careful_createProject`, `careful_createUser`, `careful_createRelease`: those that store rows;
* `careful_protected`, `careful_serve`: the handlers behind the check of a signature, and routing;
* `follows_signed`, `follows_admin`: whole requests on either listener.
-/

set_option autoImplicit false

namespace Railyard

open Effects Prog

/-- Operations that rest on nothing. -/
def Op.Harmless : Op → Prop
  | .sql (.insertProject ..) | .sql (.insertUser ..) | .sql (.insertRelease ..) | .fs _ => False
  | _ => True

/-- They are allowed whatever is known. -/
theorem allowed_of_harmless {config : Config} {K : Set Fact} (q : Op) (h : q.Harmless) :
    allowed config K q := by
  cases q with
  | sql st =>
    cases st with
    | insertProject | insertUser | insertRelease => exact absurd h id
    | _ => exact trivial
  | fs f => exact absurd h id
  | _ => exact trivial

/-- The program follows the discipline, whatever it returns. -/
abbrev Careful {α : Type} (config : Config) (K : Set Fact) (p : Task α) : Prop :=
  p.Follows (discipline config) (fun _ _ ↦ True) K

variable {config : Config} {crates : Crates} {K : Set Fact} {req : Request}

/-- A program of nothing but such operations follows the discipline. -/
theorem careful_of_does {α : Type} {p : Task α} (h : p.Does Op.Harmless fun _ ↦ True) :
    Careful config K p :=
  Follows.of_does h allowed_of_harmless fun _ _ _ ↦ trivial

/-- In a sequence, what the first program learnt is known to the second. -/
theorem careful_bind {α β : Type} {p : Task α} {f : α → Task β} (hp : Careful config K p)
    (hf : ∀ K' a, K ⊆ K' → Careful config K' (f a)) : Careful config K (p.bind f) :=
  Follows.bind hp fun K' a hK _ ↦ hf K' a hK

/-- A rejected extraction asks for nothing. -/
theorem careful_extract {α : Type} {found : Except Response α} {f : α → Task Response}
    (h : ∀ a, Careful config K (f a)) : Careful config K (extract found f) := by
  cases found with
  | error response => exact trivial
  | ok a => exact h a

/-! ## Handlers that need no facts -/

theorem does_extract {α : Type} {found : Except Response α} {f : α → Task Response}
    (h : ∀ a, (f a).Does Op.Harmless fun _ ↦ True) :
    (extract found f).Does Op.Harmless fun _ ↦ True := by
  cases found with
  | error response => exact trivial
  | ok a => exact h a

theorem whoami_does (req : Request) : (whoami req).Does Op.Harmless fun _ ↦ True := by
  refine does_extract fun caller ↦ ?_
  cases hscope : caller.projectId with
  | none => exact trivial
  | some id =>
    simp only [Db.projectById_run]
    refine ⟨trivial, fun r ↦ ?_⟩
    cases r <;> exact trivial

theorem listUsers_does (req : Request) : (listUsers req).Does Op.Harmless fun _ ↦ True := by
  refine does_extract fun caller ↦ ?_
  split
  · exact trivial
  · refine ⟨trivial, fun r ↦ ?_⟩
    cases r <;> exact trivial

theorem listProjects_does (req : Request) : (listProjects req).Does Op.Harmless fun _ ↦ True := by
  refine does_extract fun caller ↦ ⟨trivial, fun r ↦ ?_⟩
  cases r <;> exact trivial

/-- A removal deletes, and what it deletes needs no facts. -/
theorem removeUser_does (name : String) (req : Request) :
    (removeUser name req).Does Op.Harmless fun _ ↦ True := by
  refine does_extract fun caller ↦ does_extract fun name ↦ ?_
  split
  · exact trivial
  · rw [Db.removeUser_run]
    refine ⟨trivial, fun r ↦ ?_⟩
    rcases r with e | _ | ⟨userId, userIds⟩
    · exact trivial
    · exact trivial
    · refine ⟨trivial, fun r ↦ ?_⟩
      cases r with
      | error e => exact trivial
      | ok n =>
        refine ⟨trivial, fun r ↦ ?_⟩
        cases r <;> exact trivial

theorem listReleases_does (raw : String) (req : Request) :
    (listReleases raw req).Does Op.Harmless fun _ ↦ True := by
  obtain ⟨response, hret⟩ | ⟨caller, projectId, -, -, hdoes⟩ := listReleases_cases raw req
  · rw [hret]
    exact trivial
  · refine hdoes.mono ?_ fun _ h ↦ h
    rintro q (rfl | rfl) <;> exact trivial

/-- A redemption updates rows that are there, which needs no facts either. -/
theorem redeemInvite_issues (req : Request) :
    (redeemInvite crates req).Does Op.Harmless fun _ ↦ True := by
  rw [redeemInvite_eq]
  refine does_extract fun request ↦ ?_
  split
  · exact trivial
  · refine ⟨trivial, fun now ↦ ?_⟩
    dsimp only
    rw [Db.redeemInvite_run]
    refine ⟨trivial, fun r ↦ ?_⟩
    rcases r with e | _ | n
    · exact trivial
    · exact trivial
    · refine ⟨trivial, fun r ↦ ?_⟩
      rcases r with e | _ | ⟨userId, userIds⟩
      · exact trivial
      · exact trivial
      · refine ⟨trivial, fun r ↦ ?_⟩
        cases r <;> exact trivial

/-! ## Creating a project -/

/-- A minted project id passes the check for reused ones. -/
theorem isValidProjectId_minted {bs : Bytes} (h : bs.length = Draw.projectId.size) :
    isValidProjectId ("prj_" ++ Encoding.hexEncode bs) = true := by
  have hchars : ("prj_" ++ Encoding.hexEncode bs).toList =
      'p' :: 'r' :: 'j' :: '_' :: (Encoding.hexEncode bs).toList := String.toList_append
  have hlength : (Encoding.hexEncode bs).toList.length = 16 := by
    rw [Encoding.hexEncode_length, h]
    rfl
  rw [isValidProjectId, hchars]
  simp only [hlength, true_and, decide_eq_true_eq, List.all_eq_true]
  exact fun c hc ↦ Encoding.mem_hexEncode hc

/-- A project may be inserted where its id and its name have been checked. -/
theorem careful_insertProject {name projectId : String} {now : ℕ}
    (hid : isValidProjectId projectId = true) (hname : isValidProjectName name = true) :
    Careful config K (Db.insertProject name now projectId) := by
  refine ⟨⟨hid, hname⟩, fun r ↦ ?_⟩
  cases r <;> exact trivial

/-- The handler checks a requested id, and draws one that is valid by its form. -/
theorem careful_createProject (req : Request) : Careful config K (createProject crates req) := by
  refine careful_extract fun caller ↦ careful_extract fun request ↦ ?_
  split
  · exact trivial
  split
  · exact trivial
  rename_i hname
  split
  · exact trivial
  rename_i hid
  refine ⟨trivial, fun now ↦ ?_⟩
  show Careful config _ (Prog.bind (Db.createProject request.name request.id now).run _)
  refine careful_bind ?_ fun K' r _ ↦ ?_
  · have hname : isValidProjectName request.name = true := by simpa using hname
    rw [Db.createProject_run]
    refine ⟨trivial, fun r ↦ ?_⟩
    rcases r with e | _ | ⟨p, ps⟩
    · exact trivial
    · cases hrequest : request.id with
      | none =>
        exact ⟨trivial, fun bs ↦ careful_insertProject (isValidProjectId_minted bs.property) hname⟩
      | some id =>
        have hid : isValidProjectId id = true := by simpa [hrequest] using hid
        refine ⟨trivial, fun r ↦ ?_⟩
        rcases r with e | _ | ⟨p, ps⟩
        · exact trivial
        · exact careful_insertProject hid hname
        · exact trivial
    · exact trivial
  · rcases r with e | _ | project <;> exact trivial

/-! ## Creating a user -/

theorem serverName_does : serverName.run.Does Op.Harmless fun _ ↦ True := by
  refine ⟨trivial, fun r ↦ ?_⟩
  cases r with
  | some name => exact trivial
  | none =>
    refine ⟨trivial, fun r ↦ ?_⟩
    cases r <;> exact trivial

/-- A user may be scoped to a project that has been found. -/
theorem careful_mintInvite {serverUrl name : String} {project : Option InviteProject}
    (h : ∀ id ∈ project.map InviteProject.id, .project id ∈ K) :
    Careful config K (mintInvite crates serverUrl name project).run := by
  rw [mintInvite_run]
  cases validatedName name with
  | error e => exact trivial
  | ok name =>
    refine careful_bind (careful_of_does serverName_does) fun K' r hK ↦ ?_
    cases r with
    | error e => exact trivial
    | ok serverName =>
      refine ⟨trivial, fun bs ↦ ⟨trivial, fun now ↦ ⟨trivial, fun r ↦ ?_⟩⟩⟩
      rcases r with e | _ | ⟨u, us⟩
      · exact trivial
      · refine ⟨trivial, fun bs ↦ ⟨fun id hid ↦ ?_, fun r ↦ ?_⟩⟩
        · exact .inl (.inl (.inl (.inl (hK (h id hid)))))
        · cases r with
          | error e => exact trivial
          | ok n =>
            refine ⟨trivial, fun r ↦ ?_⟩
            cases r <;> exact trivial
      · exact trivial

/-- The handler looks for the project before it mints the invite. -/
theorem careful_createUser (req : Request) :
    Careful config K (createUser config crates req) := by
  refine careful_extract fun caller ↦ careful_extract fun request ↦ ?_
  split
  · exact trivial
  split
  · exact trivial
  have hmint : ∀ K' (project : Option InviteProject),
      (∀ id ∈ project.map InviteProject.id, .project id ∈ K') →
        ∀ {f : Except Error (Option MintedInvite) → Task Response},
          (∀ r, ∃ response, f r = .ret response) →
            Careful config K'
              ((mintInvite crates config.serverUrl request.name project).run.bind f) := by
    intro K' project h f hf
    refine careful_bind (careful_mintInvite h) fun K'' r _ ↦ ?_
    obtain ⟨response, hr⟩ := hf r
    rw [hr]
    exact trivial
  cases request.projectId with
  | none =>
    refine hmint K none (by simp) ?_
    rintro (e | _ | minted) <;> exact ⟨_, rfl⟩
  | some id =>
    simp only [Db.projectById_run]
    refine ⟨trivial, fun r ↦ ?_⟩
    rcases r with e | _ | ⟨p, ps⟩
    · exact trivial
    · exact trivial
    · refine hmint _ (some ⟨p.id, p.name⟩) ?_ ?_
      · intro id hid
        obtain rfl : p.id = id := by simpa using hid
        exact .inr ⟨p, List.mem_cons_self .., .inr rfl⟩
      · rintro (e | _ | minted) <;> exact ⟨_, rfl⟩

/-! ## Uploading a release -/

theorem FsOp.in_of_stores {dir releaseId : String} {verified : Prop} {f : FsOp}
    (h : Stores dir releaseId verified (.fs f)) : f.In dir := by
  cases h with
  | createDir => exact .inl rfl
  | createSource => exact .inr rfl
  | unpack => exact ⟨rfl, rfl⟩
  | _ => exact rfl

/-- Files are stored below the directory of a release whose row is there. -/
theorem careful_storeRelease {projectId : String} {release : Release}
    (h : .release release.id projectId ∈ K) :
    Careful config K (storeRelease config crates projectId release req) := by
  refine Follows.of_does (storeRelease_does config projectId release req) ?_ fun _ _ _ ↦ trivial
  intro q hq
  cases q with
  | fs f => exact ⟨release.id, projectId, h, FsOp.in_of_stores hq⟩
  | sql st => cases hq <;> exact trivial
  | _ => exact trivial

/-- The row is inserted for a project that access has been confirmed to. -/
theorem careful_createRelease (raw : String) (req : Request) :
    Careful config K (createRelease config crates raw req) := by
  obtain ⟨response, hret⟩ | ⟨caller, projectId, message, -, -, hupload⟩ :=
    createRelease_cases config crates raw req
  · rw [hret]
    exact trivial
  rw [hupload, uploadRelease]
  refine ⟨trivial, fun r ↦ ?_⟩
  rcases r with e | _ | ⟨p, ps⟩
  · exact trivial
  · exact trivial
  refine ⟨trivial, fun now ↦ ⟨trivial, fun bs ↦ ⟨⟨?_, bs.val, bs.property, rfl⟩, fun r ↦ ?_⟩⟩⟩
  · exact .inl (.inl (.inr ⟨p, List.mem_cons_self .., .inl rfl⟩))
  cases r with
  | error e => exact trivial
  | ok n => exact careful_storeRelease (.inr rfl)

/-! ## Requests -/

theorem careful_buffered {handler : Handler} (h : Buffered config crates handler)
    (req : Request) : Careful config K (handler req) := by
  cases h with
  | root => exact trivial
  | listProjects => exact careful_of_does (listProjects_does req)
  | createProject => exact careful_createProject req
  | listUsers => exact careful_of_does (listUsers_does req)
  | createUser => exact careful_createUser req
  | removeUser name => exact careful_of_does (removeUser_does name req)
  | whoami => exact careful_of_does (whoami_does req)
  | methodNotAllowed => exact trivial

/-- The streamed route, whose handler checks the body itself. -/
theorem careful_streamed {handler : Handler} (h : Streamed config crates handler)
    (req : Request) : Careful config K (handler req) := by
  cases h with
  | listReleases projectId => exact careful_of_does (listReleases_does projectId req)
  | createRelease projectId => exact careful_createRelease projectId req
  | methodNotAllowed => exact trivial

/-- Every protected handler, whichever of the two kinds it is. -/
theorem careful_protected {handler : Handler}
    (h : (protectedRoutes config crates).find req = some handler) (req' : Request) :
    Careful config K (handler req') := by
  obtain ⟨next, hnext, rfl⟩ | hstreamed := protectedRoutes_cases h
  · obtain ⟨response, hret⟩ | ⟨body, hgo⟩ := verifyBodyHash_cases crates next req'
    · rw [hret]
      exact trivial
    · rw [hgo]
      exact careful_buffered hnext _
  · exact careful_streamed hstreamed req'

/-- The check of a signature reads, and keeps a nonce. -/
theorem checkedRequest_issues (req : Request) :
    (checkedRequest crates req).run.Does Op.Harmless fun _ ↦ True := by
  rw [checkedRequest_run]
  cases req.signedHead with
  | error e => exact trivial
  | ok head =>
    refine ⟨trivial, fun now ↦ ?_⟩
    dsimp only
    split
    · exact trivial
    refine ⟨trivial, fun r ↦ ?_⟩
    rcases r with e | _ | ⟨⟨publicKey, id, name, projectId⟩, rows⟩
    · exact trivial
    · exact trivial
    · dsimp only
      cases verifyHead crates req head publicKey with
      | error e => exact trivial
      | ok _ =>
        refine ⟨trivial, fun seen ↦ ?_⟩
        cases seen <;> exact trivial

/-- What a router serves is as careful as the handlers it finds. -/
theorem careful_serve {router : Router}
    (h : ∀ handler, router.find req = some handler → Careful config K (handler req)) :
    Careful config K (router.serve req) := by
  rw [Router.serve]
  cases hfind : router.find req with
  | none => exact trivial
  | some handler => exact careful_bind (h handler hfind) fun K' response _ ↦ trivial

/-- Requests on the public listener. -/
theorem careful_signed (req : Request) :
    Careful config K ((signedRoutes config crates).serve req) := by
  refine careful_serve fun handler h ↦ ?_
  rw [signedRoutes, Router.find_append, Router.find_routeLayer] at h
  rcases Option.or_eq_some_iff.mp h with h | ⟨-, h⟩
  · obtain ⟨next, hnext, rfl⟩ := Option.map_eq_some_iff.mp h
    show Careful config K (Prog.bind (checkedRequest crates req).run _)
    refine careful_bind (careful_of_does (checkedRequest_issues req)) fun K' r _ ↦ ?_
    cases r with
    | error reason => exact trivial
    | ok req' => exact careful_protected hnext req'
  · obtain ⟨-, rfl⟩ | rfl | rfl := publicRoutes_cases h
    · exact careful_of_does (redeemInvite_issues req)
    · exact trivial
    · exact trivial

/-- Requests on the admin socket. -/
theorem careful_admin (req : Request) :
    Careful config K ((adminRoutes config crates).serve req) := by
  refine careful_serve fun handler h ↦ ?_
  rw [adminRoutes, Router.find_routeLayer] at h
  obtain ⟨next, hnext, rfl⟩ := Option.map_eq_some_iff.mp h
  exact careful_protected hnext _

end Railyard
