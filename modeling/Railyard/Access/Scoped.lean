import Railyard.Access.Isolation
import Railyard.Effects.Purge
import Railyard.Storage.Requests

/-!
# Requests of callers scoped to a project

Requests as the signature layer hands them on, each of a caller scoped to some project, at work
next to each other.

* `ScopedTask` are the programs such a request can be, `protected_scoped` the case analysis.
* `scopedDiscipline` is what they rest on: a request scoped to `P` writes to a release of `P` it
  has inserted itself, below the directory of that release, and to nothing else.
* `ScopedRequest.alike`: what such a request is told of other projects makes no difference to it.
* `ScopedRequest.insert`: it inserts one release, under the id it has just drawn.
-/

set_option autoImplicit false

namespace Railyard

open Effects Prog

/-- A request of a caller scoped to a project. -/
structure ScopedRequest where
  req : Request
  projectId : String
  scopedTo : req.ScopedTo projectId

/-- What is behind the signature layer, at work on a request. -/
def ScopedRequest.prog (config : Config) (crates : Crates) (call : ScopedRequest) :
    Task Response :=
  (protectedRoutes config crates).serve call.req

/-- Such requests at work next to each other. -/
abbrev ScopedPool := Conf Server ScopedRequest Op Op.Reply Response

variable {config : Config} {crates : Crates} {P : String}

/-! ## What such a request can be -/

/-- What a caller scoped to `P` can make a handler do. -/
inductive ScopedTask (config : Config) (crates : Crates) (P : String) : Task Response → Prop
  | ret (response : Response) : ScopedTask config crates P (.ret response)
  | listProjects {req : Request} (hreq : req.ScopedTo P) :
      ScopedTask config crates P (listProjects req)
  | reads {p : Task Response} (h : p.Does (ReadsOwn P) fun _ ↦ True) : ScopedTask config crates P p
  | upload (message : Option String) (req : Request) :
      ScopedTask config crates P (uploadRelease config crates P message req)

theorem protected_scoped {req₀ req : Request} {handler : Handler}
    (h : (protectedRoutes config crates).find req₀ = some handler) (hreq : req.ScopedTo P) :
    ScopedTask config crates P (handler req) := by
  obtain ⟨next, hnext, rfl⟩ | hstream := protectedRoutes_cases h
  · obtain ⟨response, hret⟩ | ⟨body, hret⟩ := verifyBodyHash_cases crates next req
    · rw [hret]
      exact .ret response
    rw [hret]
    have hreq' : Request.ScopedTo { req with body := body } P := hreq
    rcases buffered_scoped hnext hreq' with rfl | hdoes
    · exact .listProjects hreq'
    · exact .reads (hdoes.mono (fun q hq ↦ .inl hq) fun _ h ↦ h)
  · cases hstream with
    | methodNotAllowed => exact .ret _
    | listReleases raw => exact .reads (listReleases_scoped hreq raw)
    | createRelease raw =>
      obtain ⟨response, hret⟩ | ⟨message, hret⟩ := createRelease_scoped hreq raw
      · rw [hret]
        exact .ret response
      · rw [hret]
        exact .upload message req

/-- A request is answered by such a task, and no body is sent to a `HEAD`. -/
theorem ScopedRequest.prog_cases (config : Config) (crates : Crates) (call : ScopedRequest) :
    ∃ p, ScopedTask config crates call.projectId p ∧
      ∃ f : Response → Response, call.prog config crates = p.bind fun r ↦ .ret (f r) := by
  rw [prog, Router.serve]
  cases hfind : (protectedRoutes config crates).find call.req with
  | none => exact ⟨_, .ret ⟨404, .empty⟩, id, rfl⟩
  | some handler =>
    exact ⟨_, protected_scoped hfind call.scopedTo, stripBody call.req.method, rfl⟩

/-! ## What it rests on -/

/-- What an operation of a caller scoped to `P` must rest on. -/
def scopedAllowed (config : Config) (P : String) (K : Set Fact) : Op → Prop
  | .sql (.projectById id) | .sql (.listReleases id) => id = P
  | .sql .listProjects => True
  | .sql (.insertRelease id projectId ..) => projectId = P ∧ .project P ∈ K ∧ isReleaseId id
  | .sql (.setReleaseStatus id ..) => .release id P ∈ K
  | .sql _ | .recordNonce .. => False
  | .fs f => ∃ id, .release id P ∈ K ∧ f.In (releaseDir config P id)
  | _ => True

def scopedDiscipline (config : Config) (P : String) : Discipline Op Op.Reply Fact where
  learnt := learnt
  allowed := scopedAllowed config P
  allowed_mono := by
    intro K K' q hK h
    cases q with
    | fs f =>
      obtain ⟨id, hknown, hin⟩ := h
      exact ⟨id, hK hknown, hin⟩
    | sql st =>
      cases st with
      | insertRelease => exact ⟨h.1, hK h.2.1, h.2.2⟩
      | setReleaseStatus => exact hK h
      | _ => exact h
    | _ => exact h

theorem allowed_of_scoped {K : Set Fact} {q : Op} (h : scopedAllowed config P K q) :
    allowed config K q := by
  cases q with
  | fs f =>
    obtain ⟨id, hknown, hin⟩ := h
    exact ⟨id, P, hknown, hin⟩
  | sql st =>
    cases st with
    | insertRelease id projectId =>
      obtain ⟨rfl, hknown, hid⟩ := h
      exact ⟨hknown, hid⟩
    | insertProject | insertUser => exact h.elim
    | _ => exact trivial
  | _ => exact trivial

theorem sound_scopedDiscipline (config : Config) (P : String) :
    (scopedDiscipline config P).Sound perform Fact.Holds Wellformed where
  stable := Fact.stable
  learnt o q s _ := learnt_holds o q s
  keeps o q _ _ hK hallowed h := h.perform hK o (q := q) (allowed_of_scoped hallowed)

theorem listProjects_scoped {req : Request} (hreq : req.ScopedTo P) :
    listProjects req = .op (.sql .listProjects) fun
      | .error _ => .ret internalServerError
      | .ok projects => .ret (.json (.projects (projects.filter fun p ↦ p.id = P))) := by
  obtain ⟨caller, hcaller, hscope⟩ := hreq
  rw [listProjects, Request.callerExtension, hcaller, extract_ok, Db.listProjects_run]
  refine Prog.op_congr fun r ↦ ?_
  cases r with
  | error e => rfl
  | ok projects =>
    simp only [hscope]
    rfl

/-- The request follows the discipline of its project. -/
theorem ScopedTask.follows {p : Task Response} (h : ScopedTask config crates P p) :
    p.Follows (scopedDiscipline config P) (fun _ _ ↦ True) ∅ := by
  cases h with
  | ret response => exact trivial
  | listProjects hreq =>
    rw [listProjects_scoped hreq]
    refine ⟨trivial, fun r ↦ ?_⟩
    cases r <;> exact trivial
  | reads h =>
    refine Follows.of_does h ?_ fun _ _ _ ↦ trivial
    rintro q (rfl | rfl) <;> exact rfl
  | upload message req =>
    refine ⟨rfl, fun rows ↦ ?_⟩
    rcases rows with e | _ | ⟨row, rows⟩
    · exact trivial
    · exact trivial
    refine ⟨trivial, fun now ↦ ⟨trivial, fun bs ↦ ⟨⟨rfl, ?_, bs.val, bs.property, rfl⟩,
      fun r ↦ ?_⟩⟩⟩
    · exact .inl (.inl (.inr ⟨row, List.mem_cons_self .., .inl rfl⟩))
    cases r with
    | error e => exact trivial
    | ok n =>
      refine Follows.of_does (storeRelease_does config P _ req) (fun q hq ↦ ?_) fun _ _ _ ↦ trivial
      have hknown : ∀ {K : Set Fact}, Fact.release ("rel_" ++ Encoding.hexEncode bs.val) P ∈
          K ∪ (scopedDiscipline config P).learnt (.sql (.insertRelease
            ("rel_" ++ Encoding.hexEncode bs.val) P "unpacking" message now)) (.ok n) :=
        fun {K} ↦ .inr rfl
      cases q with
      | fs f => exact ⟨_, hknown, FsOp.in_of_stores hq⟩
      | sql st => cases hq <;> exact hknown
      | recordNonce => cases hq
      | _ => exact trivial

theorem ScopedRequest.follows (call : ScopedRequest) :
    (call.prog config crates).Follows (scopedDiscipline config call.projectId)
      (fun _ _ ↦ True) ∅ := by
  obtain ⟨p, hp, f, hprog⟩ := call.prog_cases config crates
  rw [hprog]
  exact Follows.bind hp.follows fun _ _ _ _ ↦ trivial

/-! ## What it cannot tell apart -/

/-- Replies that a caller scoped to `P` cannot tell apart: lists of projects with the same `P`. -/
def AlikeTo (P : String) : (q : Op) → q.Reply → q.Reply → Prop
  | .sql .listProjects, r, r' => (∃ e, r = .error e ∧ r' = .error e) ∨
      ∃ ps ps' : List ProjectRow, r = .ok ps ∧ r' = .ok ps' ∧
        (ps.filter fun p ↦ p.id = P) = ps'.filter fun p ↦ p.id = P
  | _, r, r' => r = r'

theorem AlikeTo.eq {q : Op} (hq : q ≠ .sql .listProjects) {r r' : q.Reply}
    (h : AlikeTo P q r r') : r = r' := by
  unfold AlikeTo at h
  split at h
  · exact absurd rfl hq
  · exact h

theorem AlikeTo.of_eq {q : Op} {r r' : q.Reply} (hq : q ≠ .sql .listProjects) (h : r = r') :
    AlikeTo P q r r' := by
  unfold AlikeTo
  split
  · exact absurd rfl hq
  · exact h

/-- What such a request is told of other projects makes no difference to it. -/
theorem ScopedTask.alike {p : Task Response} (h : ScopedTask config crates P p) :
    Prog.Alike (AlikeTo P) p p := by
  cases h with
  | ret response => exact .ret response
  | listProjects hreq =>
    rw [listProjects_scoped hreq]
    refine .op _ fun r r' hr ↦ ?_
    rcases hr with ⟨e, rfl, rfl⟩ | ⟨ps, ps', rfl, rfl, hfilter⟩
    · exact .ret _
    · dsimp only
      rw [hfilter]
      exact .ret _
  | reads h =>
    refine h.alike fun q r r' hq hr ↦ hr.eq ?_
    rcases hq with rfl | rfl <;> simp
  | upload message req =>
    have hdoes : (uploadRelease config crates P message req).Does
        (fun q ↦ q ≠ .sql .listProjects) fun _ ↦ True := by
      refine uploadRelease_does (by simp) (by simp) (by simp) (by simp)
        fun dir id verified q hq ↦ ?_
      cases hq <;> simp
    exact hdoes.alike fun q r r' hq hr ↦ hr.eq hq

theorem ScopedRequest.alike (call : ScopedRequest) :
    Prog.Alike (AlikeTo call.projectId) (call.prog config crates) (call.prog config crates) := by
  obtain ⟨p, hp, f, hprog⟩ := call.prog_cases config crates
  rw [hprog]
  exact hp.alike.bind fun a ↦ .ret (f a)

/-! ## The release it inserts -/

/-- A request about to insert a release has drawn its id, and done nothing else than look its
project up and read the clock. -/
theorem ScopedTask.insert {p : Task Response} (h : ScopedTask config crates P p)
    {τ : List (Event Op Op.Reply)} {id projectId status : String} {message : Option String}
    {now : ℕ} {k : Op.Reply (.sql (.insertRelease id projectId status message now)) → Task Response}
    (hafter : After p τ (.op _ k)) :
    ∃ rows created bs, id = "rel_" ++ Encoding.hexEncode bs.val ∧
      τ = [⟨.sql (.projectById P), rows⟩, ⟨.unixTimestamp, created⟩,
        ⟨.fillBytes .releaseId, bs⟩] := by
  cases h with
  | ret response => exact absurd hafter not_after_ret_op
  | listProjects hreq =>
    rw [listProjects_scoped hreq] at hafter
    obtain ⟨-, hq⟩ | ⟨r, τ, rfl, h₁⟩ := after_op_op hafter
    · cases hq
    · cases r <;> exact absurd h₁ not_after_ret_op
  | reads h =>
    obtain ⟨-, hq, -⟩ := h.after hafter
    rcases hq with hq | hq <;> cases hq
  | upload message req =>
    obtain ⟨-, hq⟩ | ⟨rows, τ, rfl, h₁⟩ := after_op_op hafter
    · cases hq
    rcases rows with e | _ | ⟨row, rows⟩
    · exact absurd h₁ not_after_ret_op
    · exact absurd h₁ not_after_ret_op
    obtain ⟨-, hq⟩ | ⟨created, τ, rfl, h₂⟩ := after_op_op h₁
    · cases hq
    obtain ⟨-, hq⟩ | ⟨bs, τ, rfl, h₃⟩ := after_op_op h₂
    · cases hq
    obtain ⟨rfl, hq⟩ | ⟨r, τ, rfl, h₄⟩ := after_op_op h₃
    · cases hq
      exact ⟨_, _, bs, rfl, rfl⟩
    cases r with
    | error e => exact absurd h₄ not_after_ret_op
    | ok n =>
      have hq := (storeRelease_does config P _ req).after h₄ |>.2.1
      cases hq

theorem ScopedRequest.insert (call : ScopedRequest) {τ : List (Event Op Op.Reply)}
    {id projectId status : String} {message : Option String} {now : ℕ}
    {k : Op.Reply (.sql (.insertRelease id projectId status message now)) → Task Response}
    (hafter : After (call.prog config crates) τ (.op _ k)) :
    ∃ rows created bs, id = "rel_" ++ Encoding.hexEncode bs.val ∧
      τ = [⟨.sql (.projectById call.projectId), rows⟩, ⟨.unixTimestamp, created⟩,
        ⟨.fillBytes .releaseId, bs⟩] := by
  obtain ⟨p, hp, f, hprog⟩ := call.prog_cases config crates
  rw [hprog] at hafter
  obtain ⟨q, k', hx, hq⟩ | ⟨a, τ₁, τ₂, -, -, hret⟩ := after_bind hafter
  · obtain ⟨rfl, -⟩ := op.inj hq
    exact hp.insert hx
  · exact absurd hret not_after_ret_op

end Railyard
