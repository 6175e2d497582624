import Railyard.Server.Routes

/-!
# Which handler serves a request

The routers are data, so which handlers there are, and behind which layers, is a case analysis done
once: every later proof about a request starts from `signedRoutes_cases` and the two lists of
handlers, `Buffered` and `Streamed`, and does not look at a path again.

* `Buffered` are the handlers behind `verifyBodyHash`, `Streamed` those of the releases route.
* `Request.ScopedTo` is the caller these handlers guard against: one scoped to a project.
-/

set_option autoImplicit false

namespace Railyard

open Effects Prog

variable (config : Config) (crates : Crates)

/-! ## The handlers of each router -/

/-- The handlers of `bufferedRoutes`. -/
inductive Buffered : Handler → Prop
  | root : Buffered (root config)
  | listProjects : Buffered listProjects
  | createProject : Buffered (createProject crates)
  | listUsers : Buffered listUsers
  | createUser : Buffered (createUser config crates)
  | removeUser (name : String) : Buffered (removeUser name)
  | whoami : Buffered whoami
  | methodNotAllowed : Buffered methodNotAllowed

/-- The handlers of `releaseRoutes`. -/
inductive Streamed : Handler → Prop
  | listReleases (projectId : String) : Streamed (listReleases projectId)
  | createRelease (projectId : String) : Streamed (createRelease config crates projectId)
  | methodNotAllowed : Streamed methodNotAllowed

/-- What a request to `router` is answered with has every property that all its handlers have. -/
theorem Router.find_induction {P : Handler → Prop} {router : Router} {req : Request}
    {handler : Handler} (h : router.find req = some handler)
    (hP : ∀ route ∈ router, P route.fallback ∧ ∀ m ∈ route.methods, ∀ params, P (m.2 params)) :
    P handler := by
  obtain ⟨route, hroute, params, -, rfl⟩ := Router.find_eq_some h
  obtain ⟨m, hm, -, he⟩ | he := route.handler_cases req.method params
  · rw [he]; exact (hP route hroute).2 m hm params
  · rw [he]; exact (hP route hroute).1

variable {config crates} {req : Request} {handler : Handler}

theorem buffered_of_find (h : (bufferedRoutes config crates).find req = some handler) :
    Buffered config crates handler := by
  refine Router.find_induction h ?_
  simp only [bufferedRoutes, route, routeParam, List.forall_mem_cons, List.map_cons, List.map_nil,
    List.not_mem_nil, false_implies, implies_true, and_true]
  exact ⟨⟨.methodNotAllowed, fun _ ↦ .root⟩,
    ⟨.methodNotAllowed, fun _ ↦ .listProjects, fun _ ↦ .createProject⟩,
    ⟨.methodNotAllowed, fun _ ↦ .listUsers, fun _ ↦ .createUser⟩,
    ⟨.methodNotAllowed, fun _ ↦ .removeUser _⟩, .methodNotAllowed, fun _ ↦ .whoami⟩

theorem streamed_of_find (h : (releaseRoutes config crates).find req = some handler) :
    Streamed config crates handler := by
  refine Router.find_induction h ?_
  simp only [releaseRoutes, routeParam, List.forall_mem_cons, List.map_cons, List.map_nil,
    List.not_mem_nil, false_implies, implies_true, and_true]
  exact ⟨.methodNotAllowed, fun _ ↦ .listReleases _, fun _ ↦ .createRelease _⟩

/-- The request is one to the redeem-invite endpoint. -/
def Request.RedeemsInvite (req : Request) : Prop :=
  req.method = "POST" ∧
    Encoding.pathSegments req.target = ["api", "auth", "redeem-invite"]

instance (req : Request) : Decidable req.RedeemsInvite := inferInstanceAs (Decidable (_ ∧ _))

theorem publicRoutes_cases (h : (publicRoutes crates).find req = some handler) :
    req.RedeemsInvite ∧ handler = redeemInvite crates ∨ handler = healthz ∨
      handler = methodNotAllowed := by
  obtain ⟨r, hroute, params, hpath, rfl⟩ := Router.find_eq_some h
  rcases List.mem_cons.mp hroute with rfl | hroute
  · obtain ⟨m, hm, hans, he⟩ | he := Route.handler_cases _ req.method params
    · rw [he]
      obtain rfl := List.mem_singleton.mp hm
      refine .inl ⟨⟨?_, ?_⟩, rfl⟩
      · simpa [answers, eq_comm] using hans
      · exact matchPath_lits ["api", "auth", "redeem-invite"] hpath
    · exact .inr (.inr he)
  · obtain rfl := List.mem_singleton.mp hroute
    obtain ⟨m, hm, -, he⟩ | he := Route.handler_cases _ req.method params
    · rw [he]
      obtain rfl := List.mem_singleton.mp hm
      exact .inr (.inl rfl)
    · exact .inr (.inr he)

/-- The redeem-invite endpoint is behind no layer. -/
theorem find_of_redeemsInvite (config : Config) (crates : Crates) (h : req.RedeemsInvite) :
    (protectedRoutes config crates).find req = none ∧
      (publicRoutes crates).find req = some (redeemInvite crates) := by
  constructor
  · simp [protectedRoutes, Router.find, Router.routeLayer, bufferedRoutes, releaseRoutes, route,
      routeParam, matchPath, projectsPath, usersPath, whoamiPath, h.2]
  · simp [publicRoutes, Router.find, route, matchPath, redeemInvitePath, Route.handler, answers,
      h.1, h.2]

theorem protectedRoutes_find :
    (protectedRoutes config crates).find req =
      (((bufferedRoutes config crates).find req).map (verifyBodyHash crates)).or
        ((releaseRoutes config crates).find req) := by
  rw [protectedRoutes, Router.find_append, Router.find_routeLayer]

/-- Behind the signature layer, a request goes to a buffered handler behind `verifyBodyHash`, or to
the releases route. -/
theorem protectedRoutes_cases {handler : Handler}
    (h : (protectedRoutes config crates).find req = some handler) :
    (∃ next, Buffered config crates next ∧ handler = verifyBodyHash crates next) ∨
      Streamed config crates handler := by
  rw [protectedRoutes_find] at h
  rcases Option.or_eq_some_iff.mp h with h | ⟨-, h⟩
  · obtain ⟨next, hnext, rfl⟩ := Option.map_eq_some_iff.mp h
    exact .inl ⟨next, buffered_of_find hnext, rfl⟩
  · exact .inr (streamed_of_find h)

/-! ## Callers scoped to a project -/

/-- The caller is scoped to the project `P`. -/
def Request.ScopedTo (req : Request) (P : String) : Prop :=
  ∃ caller, req.caller = some caller ∧ caller.projectId = some P

variable {P : String}

/-- **What a scoped caller can make a buffered handler do**: list the projects, or look its own
project up, and nothing else. -/
theorem buffered_scoped (h : Buffered config crates handler) (hreq : req.ScopedTo P) :
    handler = listProjects ∨
      (handler req).Does (fun q ↦ q = .sql (.projectById P)) fun _ ↦ True := by
  obtain ⟨caller, hcaller, hscope⟩ := hreq
  have hext : req.callerExtension = .ok caller := by rw [Request.callerExtension, hcaller]
  have hsome : caller.projectId.isSome = true := by rw [hscope, Option.isSome_some]
  cases h with
  | root => exact .inr trivial
  | listProjects => exact .inl rfl
  | createProject =>
    refine .inr ?_
    simp only [createProject, hext, extract_ok]
    cases crates.jsonCreateProject req with
    | error response => exact trivial
    | ok request => rw [extract_ok, if_pos hsome]; exact trivial
  | listUsers =>
    refine .inr ?_
    simp only [listUsers, hext, extract_ok]
    rw [if_pos hsome]
    exact trivial
  | createUser =>
    refine .inr ?_
    simp only [createUser, hext, extract_ok]
    cases crates.jsonCreateUser req with
    | error response => exact trivial
    | ok request => rw [extract_ok, if_pos hsome]; exact trivial
  | removeUser name =>
    refine .inr ?_
    simp only [removeUser, hext, extract_ok]
    cases pathParam "name" name with
    | error response => exact trivial
    | ok name => rw [extract_ok, if_pos hsome]; exact trivial
  | whoami =>
    refine .inr ?_
    simp only [whoami, hext, extract_ok, hscope, Db.projectById_run]
    refine ⟨rfl, fun r ↦ ?_⟩
    cases r <;> exact trivial
  | methodNotAllowed => exact .inr trivial

theorem confirmProjectAccess_cases (caller : AuthUser) (projectId : String) :
    (∃ response, confirmProjectAccess caller projectId = .ret (.error response)) ∨
      (∀ scope ∈ caller.projectId, scope = projectId) ∧
      confirmProjectAccess caller projectId = .op (.sql (.projectById projectId)) fun
        | .error _ => .ret (.error internalServerError)
        | .ok [] => .ret (.error (.text 404 ("no project " ++ projectId ++ " on this server")))
        | .ok (_ :: _) => .ret (.ok ()) := by
  rw [confirmProjectAccess]
  split
  · exact .inl ⟨_, rfl⟩
  · rename_i hscope
    refine .inr ⟨fun scope hs ↦ ?_, ?_⟩
    · simpa [Option.mem_def.mp hs] using hscope
    · rw [Db.projectById_run]
      exact Prog.op_congr fun r ↦ by rcases r with e | _ | ⟨p, ps⟩ <;> rfl

/-- `listReleases` answers at once, or reads one project that the caller may touch. -/
theorem listReleases_cases (raw : String) (req : Request) :
    (∃ response, listReleases raw req = .ret response) ∨
      ∃ caller projectId, req.caller = some caller ∧
        (∀ scope ∈ caller.projectId, scope = projectId) ∧
        (listReleases raw req).Does
          (fun q ↦ q = .sql (.projectById projectId) ∨ q = .sql (.listReleases projectId))
          fun _ ↦ True := by
  rw [listReleases, Request.callerExtension]
  cases hcaller : req.caller with
  | none => exact .inl ⟨_, rfl⟩
  | some caller =>
    cases pathParam "project_id" raw with
    | error response => exact .inl ⟨_, rfl⟩
    | ok projectId =>
      simp only [extract_ok]
      obtain ⟨response, hconf⟩ | ⟨hown, hconf⟩ := confirmProjectAccess_cases caller projectId
      · rw [hconf]; exact .inl ⟨_, rfl⟩
      refine .inr ⟨caller, projectId, rfl, hown, ?_⟩
      rw [hconf]
      refine ⟨.inl rfl, fun r ↦ ?_⟩
      rcases r with e | _ | ⟨p, ps⟩
      · exact trivial
      · exact trivial
      · simp only [ret_bind, Db.listReleases_run]
        refine ⟨.inr rfl, fun r ↦ ?_⟩
        cases r with
        | error e => exact trivial
        | ok rows =>
          simp only [Prog.bind]
          cases rows.mapM Db.releaseOfRow <;> exact trivial

theorem listReleases_scoped (hreq : req.ScopedTo P) (raw : String) :
    (listReleases raw req).Does (fun q ↦ q = .sql (.projectById P) ∨ q = .sql (.listReleases P))
      fun _ ↦ True := by
  obtain ⟨caller, hcaller, hscope⟩ := hreq
  obtain ⟨response, hret⟩ | ⟨caller', projectId, hcaller', hown, hdoes⟩ :=
    listReleases_cases raw req
  · rw [hret]; exact trivial
  · cases hcaller.symm.trans hcaller'
    obtain rfl := hown P hscope
    exact hdoes

end Railyard
