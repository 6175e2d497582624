import Railyard.Effects.Interleaving
import Railyard.Server.Routes

/-!
# Names and ids that are taken

`Db.createUser` and `Db.createProject` look whether the name and the id are free and then insert,
in statements of their own.  A call that finds its name taken says so, and its handler answers 409.
A call that finds it free and is overtaken by another one runs into the `UNIQUE` column: the insert
fails, and its handler answers 500.

* `createUser_ends`, `createProject_ends`: what the handlers answer.
* `returned_settled`: what a call of a run has returned.
* `conflicts_reported_iff`: every call of a run is told of a conflict as one exactly when no insert
  of the run came too late.
-/

set_option autoImplicit false

namespace Railyard

open Effects Prog

/-! ## What the handlers answer -/

/-- The status `createUser` answers with when this is what it is told. -/
def userAnswer : Event Op Op.Reply → Option ℕ
  | ⟨.sql (.userIdByName _), .ok (_ :: _)⟩ => some 409
  | ⟨.sql _, .error _⟩ => some 500
  | _ => none

/-- The status `createProject` answers with when this is what it is told. -/
def projectAnswer : Event Op Op.Reply → Option ℕ
  | ⟨.sql (.projectIdByName _), .ok (_ :: _)⟩ | ⟨.sql (.projectById _), .ok (_ :: _)⟩ => some 409
  | ⟨.sql _, .error _⟩ => some 500
  | _ => none

theorem extract_ends {α γ : Type} {ans : Event Op Op.Reply → Option γ} {g : Response → γ}
    {found : Except Response α} {f : α → Task Response} (h : ∀ a, (f a).Ends ans g) :
    (extract found f).Ends ans g := by
  cases found with
  | error response => exact trivial
  | ok a => exact h a

/-- The status of the answer that tells a caller of this outcome. -/
def createdStatus {α : Type} : Except Error (Option α) → ℕ
  | .ok (some _) => 200
  | .ok none => 409
  | .error _ => 500

theorem Db.createUser_ends (name : String) (projectId : Option String) (now : ℕ) :
    (Db.createUser name projectId now).run.Ends userAnswer createdStatus := by
  rw [Db.createUser_run]
  intro r
  rcases r with e | _ | ⟨u, us⟩
  · exact ends_now _ rfl rfl
  · refine ends_next fun bs ↦ ends_next fun r ↦ ?_
    cases r with
    | error e => exact ends_now _ rfl rfl
    | ok n => exact ends_next trivial
  · exact ends_now _ rfl rfl

theorem Db.insertProject_ends (name : String) (now : ℕ) (projectId : String) :
    (Db.insertProject name now projectId).Ends projectAnswer createdStatus := by
  intro r
  cases r with
  | error e => exact ends_now _ rfl rfl
  | ok n => exact ends_next trivial

theorem Db.createProject_ends (name : String) (id : Option String) (now : ℕ) :
    (Db.createProject name id now).run.Ends projectAnswer createdStatus := by
  rw [Db.createProject_run]
  intro r
  rcases r with e | _ | ⟨p, ps⟩
  · exact ends_now _ rfl rfl
  · refine ends_next ?_
    cases id with
    | none => exact fun bs ↦ ends_next (insertProject_ends _ _ _)
    | some id =>
      intro r
      rcases r with e | _ | ⟨p, ps⟩
      · exact ends_now _ rfl rfl
      · exact ends_next (insertProject_ends _ _ _)
      · exact ends_now _ rfl rfl
  · exact ends_now _ rfl rfl

variable {config : Config} {crates : Crates}

theorem createProject_ends (req : Request) :
    (createProject crates req).Ends projectAnswer Response.status := by
  refine extract_ends fun caller ↦ extract_ends fun request ↦ ?_
  split
  · exact trivial
  split
  · exact trivial
  split
  · exact trivial
  refine fun now ↦ ends_next ((Db.createProject_ends request.name request.id now).bind_ret ?_)
  rintro (e | _ | row) <;> exact ⟨_, rfl, rfl⟩

theorem mintInvite_ends (serverUrl name : String) (project : Option InviteProject) :
    (mintInvite crates serverUrl name project).run.Ends userAnswer createdStatus := by
  rw [mintInvite_run]
  cases validatedName name with
  | error e => exact trivial
  | ok name =>
    have hserver : serverName.run.Does (fun q ↦ ∀ r, userAnswer ⟨q, r⟩ = none) fun _ ↦ True := by
      refine ⟨fun _ ↦ rfl, fun r ↦ ?_⟩
      cases r with
      | some name => exact trivial
      | none =>
        refine ⟨fun _ ↦ rfl, fun r ↦ ?_⟩
        cases r <;> exact trivial
    refine hserver.bind_ends fun serverName _ ↦ ?_
    cases serverName with
    | error e => exact trivial
    | ok serverName =>
      refine fun bs ↦ ends_next fun now ↦ ends_next fun r ↦ ?_
      rcases r with e | _ | ⟨u, us⟩
      · exact ends_now _ rfl rfl
      · refine ends_next fun bs ↦ ends_next fun r ↦ ?_
        cases r with
        | error e => exact ends_now _ rfl rfl
        | ok n =>
          refine ends_next fun r ↦ ?_
          cases r with
          | error e => exact ends_now _ rfl rfl
          | ok n => exact ends_next trivial
      · exact ends_now _ rfl rfl

theorem createUser_ends (req : Request) :
    (createUser config crates req).Ends userAnswer Response.status := by
  refine extract_ends fun caller ↦ extract_ends fun request ↦ ?_
  split
  · exact trivial
  split
  · exact trivial
  cases request.projectId with
  | none =>
    refine (mintInvite_ends config.serverUrl request.name none).bind_ret ?_
    rintro (e | _ | minted) <;> exact ⟨_, rfl, rfl⟩
  | some id =>
    simp only [Db.projectById_run]
    intro r
    rcases r with e | _ | ⟨p, ps⟩
    · exact ends_now _ rfl rfl
    · exact ends_next trivial
    · refine ends_next ((mintInvite_ends config.serverUrl request.name _).bind_ret ?_)
      rintro (e | _ | minted) <;> exact ⟨_, rfl, rfl⟩

/-! ## Calls next to each other -/

/-- A call to one of the two functions. -/
inductive CreateCall
  | user (name : String) (projectId : Option String) (now : ℕ)
  | project (name : String) (id : Option String) (now : ℕ)

/-- What a call returns. -/
inductive Created
  | user (r : Except Error (Option String))
  | project (r : Except Error (Option ProjectRow))

/-- The program of a call. -/
def CreateCall.prog : CreateCall → Task Created
  | user name projectId now => Created.user <$> (Db.createUser name projectId now).run
  | project name id now => Created.project <$> (Db.createProject name id now).run

/-- The answer of the call's handler to what the call is told. -/
def CreateCall.answer : CreateCall → Event Op Op.Reply → Option ℕ
  | user .. => userAnswer
  | project .. => projectAnswer

def Created.status : Created → ℕ
  | user r => createdStatus r
  | project r => createdStatus r

/-- Calls at work next to each other. -/
abbrev CreatePool := Conf Server CreateCall Op Op.Reply Created

/-- No statement fails but for what it says. -/
def Faultless (_ : CreatePool) : Act Outside CreateCall → Prop
  | .spawn _ => True
  | .step _ o => o.fault = none

instance (c : CreatePool) : DecidablePred (Faultless c)
  | .spawn _ => .isTrue trivial
  | .step _ o => inferInstanceAs (Decidable (o.fault = none))

/-- An insert of a user or a project. -/
def Op.Inserts : Op → Prop
  | .sql (.insertUser ..) | .sql (.insertProject ..) => True
  | _ => False

/-- An operation of one of the calls. -/
def Op.Creates : Op → Prop
  | .fillBytes _ => True
  | .sql (.userIdByName _) | .sql (.projectIdByName _) | .sql (.projectById _) => True
  | q => q.Inserts

theorem CreateCall.prog_does (call : CreateCall) : call.prog.Does Op.Creates fun _ ↦ True := by
  cases call with
  | user name projectId now =>
    show (Prog.bind (Db.createUser name projectId now).run _).Does _ _
    rw [Db.createUser_run]
    refine ⟨trivial, fun r ↦ ?_⟩
    rcases r with e | _ | ⟨u, us⟩
    · exact trivial
    · refine ⟨trivial, fun bs ↦ ⟨trivial, fun r ↦ ?_⟩⟩
      cases r <;> exact trivial
    · exact trivial
  | project name id now =>
    have hinsert : ∀ projectId, (Prog.bind (Db.insertProject name now projectId)
        (ret ∘ Created.project)).Does Op.Creates fun _ ↦ True := by
      refine fun projectId ↦ ⟨trivial, fun r ↦ ?_⟩
      cases r <;> exact trivial
    show (Prog.bind (Db.createProject name id now).run _).Does _ _
    rw [Db.createProject_run]
    refine ⟨trivial, fun r ↦ ?_⟩
    rcases r with e | _ | ⟨p, ps⟩
    · exact trivial
    · cases id with
      | none => exact ⟨trivial, fun bs ↦ hinsert _⟩
      | some id =>
        refine ⟨trivial, fun r ↦ ?_⟩
        rcases r with e | _ | ⟨p, ps⟩
        · exact trivial
        · exact hinsert id
        · exact trivial
    · exact trivial

theorem CreateCall.prog_within (call : CreateCall) : call.prog.Within 3 := by
  cases call with
  | user name projectId now =>
    show (Prog.bind (Db.createUser name projectId now).run _).Within 3
    rw [Db.createUser_run]
    intro r
    rcases r with e | _ | ⟨u, us⟩
    · exact trivial
    · intro bs r
      cases r <;> exact trivial
    · exact trivial
  | project name id now =>
    show (Prog.bind (Db.createProject name id now).run _).Within 3
    rw [Db.createProject_run]
    intro r
    rcases r with e | _ | ⟨p, ps⟩
    · exact trivial
    · cases id with
      | none =>
        intro bs r
        cases r <;> exact trivial
      | some id =>
        intro r
        rcases r with e | _ | ⟨p, ps⟩
        · exact trivial
        · intro r
          cases r <;> exact trivial
        · exact trivial
    · exact trivial

theorem CreateCall.prog_ends (call : CreateCall) : call.prog.Ends call.answer Created.status := by
  cases call with
  | user name projectId now =>
    exact (Db.createUser_ends name projectId now).bind_ret fun r ↦ ⟨_, rfl, rfl⟩
  | project name id now =>
    exact (Db.createProject_ends name id now).bind_ret fun r ↦ ⟨_, rfl, rfl⟩

/-! ### What a call has been told -/

/-- What a call that returned has been told. -/
inductive Told : CreateCall → List (Event Op Op.Reply) → Created → Prop
  | failed {call : CreateCall} {τ : List (Event Op Op.Reply)} {r : Created} {st : Stmt} {e : Error}
      (h : ⟨.sql st, .error e⟩ ∈ τ) (hr : r.status = 500) : Told call τ r
  | userTaken {name : String} {projectId : Option String} {now : ℕ} {u : String}
      {us : List String} : Told (.user name projectId now)
        [⟨.sql (.userIdByName name), .ok (u :: us)⟩] (.user (.ok none))
  | user {name : String} {projectId : Option String} {now n : ℕ} {τ : List (Event Op Op.Reply)}
      {id : String} (h : ⟨.sql (.insertUser id name projectId now), .ok n⟩ ∈ τ) :
      Told (.user name projectId now) τ (.user (.ok (some id)))
  | nameTaken {name : String} {id : Option String} {now : ℕ} {p : String} {ps : List String} :
      Told (.project name id now) [⟨.sql (.projectIdByName name), .ok (p :: ps)⟩]
        (.project (.ok none))
  | idTaken {name id : String} {now : ℕ} {p : ProjectRow} {ps : List ProjectRow} :
      Told (.project name (some id) now) [⟨.sql (.projectIdByName name), .ok []⟩,
        ⟨.sql (.projectById id), .ok (p :: ps)⟩] (.project (.ok none))
  | project {name id : String} {id' : Option String} {now n : ℕ} {τ : List (Event Op Op.Reply)}
      (h : ⟨.sql (.insertProject id name now), .ok n⟩ ∈ τ) (hid : ∀ i ∈ id', id = i) :
      Told (.project name id' now) τ (.project (.ok (some ⟨id, name, now⟩)))

variable {name : String} {projectId id : Option String} {now : ℕ} {τ : List (Event Op Op.Reply)}

theorem createUser_told {r : Except Error (Option String)}
    (h : After (Db.createUser name projectId now).run τ (.ret r)) :
    Told (.user name projectId now) τ (.user r) := by
  rw [Db.createUser_run] at h
  obtain ⟨users, τ, rfl, h₁⟩ := after_op_ret h
  rcases users with e | _ | ⟨u, us⟩
  · cases (after_ret.mp h₁).2
    exact .failed List.mem_cons_self rfl
  · obtain ⟨bs, τ, rfl, h₂⟩ := after_op_ret h₁
    obtain ⟨inserted, τ, rfl, h₃⟩ := after_op_ret h₂
    cases inserted with
    | error e =>
      cases (after_ret.mp h₃).2
      exact .failed (.tail _ (.tail _ List.mem_cons_self)) rfl
    | ok n =>
      cases (after_ret.mp h₃).2
      exact .user (.tail _ (.tail _ List.mem_cons_self))
  · obtain ⟨rfl, hr⟩ := after_ret.mp h₁
    cases hr
    exact .userTaken

theorem insertProject_told {id' : String} {r : Except Error (Option ProjectRow)}
    (τ₀ : List (Event Op Op.Reply)) (hid : ∀ i ∈ id, id' = i)
    (h : After (Db.insertProject name now id') τ (.ret r)) :
    Told (.project name id now) (τ₀ ++ τ) (.project r) := by
  obtain ⟨inserted, τ, rfl, h₁⟩ := after_op_ret h
  cases inserted with
  | error e =>
    cases (after_ret.mp h₁).2
    exact .failed (List.mem_append_right _ List.mem_cons_self) rfl
  | ok n =>
    cases (after_ret.mp h₁).2
    exact .project (List.mem_append_right _ List.mem_cons_self) hid

theorem createProject_told {r : Except Error (Option ProjectRow)}
    (h : After (Db.createProject name id now).run τ (.ret r)) :
    Told (.project name id now) τ (.project r) := by
  rw [Db.createProject_run] at h
  obtain ⟨named, τ, rfl, h₁⟩ := after_op_ret h
  rcases named with e | _ | ⟨p, ps⟩
  · cases (after_ret.mp h₁).2
    exact .failed List.mem_cons_self rfl
  · cases id with
    | none =>
      obtain ⟨bs, τ, rfl, h₂⟩ := after_op_ret h₁
      exact insertProject_told [_, _] (by simp) h₂
    | some id =>
      obtain ⟨found, τ, rfl, h₂⟩ := after_op_ret h₁
      rcases found with e | _ | ⟨p, ps⟩
      · cases (after_ret.mp h₂).2
        exact .failed (.tail _ List.mem_cons_self) rfl
      · exact insertProject_told [_, _] (by simp) h₂
      · obtain ⟨rfl, hr⟩ := after_ret.mp h₂
        cases hr
        exact .idTaken
  · obtain ⟨rfl, hr⟩ := after_ret.mp h₁
    cases hr
    exact .nameTaken

theorem CreateCall.told {call : CreateCall} {r : Created} (h : After call.prog τ (.ret r)) :
    Told call τ r := by
  cases call with
  | user name projectId now =>
    obtain ⟨r, hr, rfl⟩ := after_map_ret h
    exact createUser_told hr
  | project name id now =>
    obtain ⟨r, hr, rfl⟩ := after_map_ret h
    exact createProject_told hr

/-! ### What the tables hold -/

/-- The tables have the rows that a reply spoke of. -/
def Server.Backs (s : Server) : Event Op Op.Reply → Prop
  | ⟨.sql (.userIdByName name), .ok ids⟩ => ids ≠ [] → ∃ u ∈ s.users, u.name = name
  | ⟨.sql (.projectIdByName name), .ok ids⟩ => ids ≠ [] → ∃ p ∈ s.projects, p.name = name
  | ⟨.sql (.projectById id), .ok rows⟩ => rows ≠ [] → ∃ p ∈ s.projects, p.id = id
  | ⟨.sql (.insertUser id name projectId now), .ok _⟩ =>
    ⟨id, name, none, projectId, now⟩ ∈ s.users
  | ⟨.sql (.insertProject id name now), .ok _⟩ => ⟨id, name, now⟩ ∈ s.projects
  | _ => True

/-- No row is in the way of the operation, if it inserts one. -/
def Op.Free (s : Server) : Op → Prop
  | .sql (.insertUser id name _ _) => ∀ u ∈ s.users, u.id ≠ id ∧ u.name ≠ name
  | .sql (.insertProject id name _) => ∀ p ∈ s.projects, p.id ≠ id ∧ p.name ≠ name
  | _ => True

section Tables

variable {o : Outside} {q : Op} {s s' : Server}

/-- The calls remove no row and change none. -/
theorem perform_grows (hq : q.Creates) (o : Outside) (s : Server) :
    (∀ u ∈ s.users, u ∈ (perform o q s).2.users) ∧
      ∀ p ∈ s.projects, p ∈ (perform o q s).2.projects := by
  cases q with
  | sql st =>
    cases hf : o.fault with
    | some e =>
      rw [perform_sql_fault hf]
      exact ⟨fun _ ↦ id, fun _ ↦ id⟩
    | none =>
      rw [perform_sql_ok hf]
      cases st with
      | insertUser id name projectId now =>
        refine ⟨fun u hu ↦ ?_, fun _ hp ↦ hp⟩
        obtain ⟨-, -, hs⟩ | ⟨-, -, hmem⟩ := insertUser_cases s id name projectId now
        · rwa [hs]
        · exact (hmem u).mpr (.inl hu)
      | insertProject id name now =>
        refine ⟨fun _ hu ↦ hu, fun p hp ↦ ?_⟩
        obtain ⟨-, -, hs⟩ | ⟨-, -, hmem⟩ := insertProject_cases s id name now
        · rwa [hs]
        · exact (hmem p).mpr (.inl hp)
      | userIdByName | projectIdByName | projectById => exact ⟨fun _ ↦ id, fun _ ↦ id⟩
      | _ => exact hq.elim
  | fillBytes d => exact ⟨fun _ ↦ id, fun _ ↦ id⟩
  | _ => exact hq.elim

theorem Server.Backs.mono {e : Event Op Op.Reply} (h : s.Backs e)
    (husers : ∀ u ∈ s.users, u ∈ s'.users) (hprojects : ∀ p ∈ s.projects, p ∈ s'.projects) :
    s'.Backs e := by
  unfold Server.Backs at h ⊢
  split
  · exact fun hne ↦ (h hne).imp fun u hu ↦ ⟨husers u hu.1, hu.2⟩
  · exact fun hne ↦ (h hne).imp fun p hp ↦ ⟨hprojects p hp.1, hp.2⟩
  · exact fun hne ↦ (h hne).imp fun p hp ↦ ⟨hprojects p hp.1, hp.2⟩
  · exact husers _ h
  · exact hprojects _ h
  · trivial

theorem perform_backs (hf : o.fault = none) (hq : q.Creates) :
    (perform o q s).2.Backs ⟨q, (perform o q s).1⟩ := by
  cases q with
  | sql st =>
    rw [perform_sql_ok hf]
    cases st with
    | insertUser id name projectId now =>
      obtain ⟨-, ⟨e, herror⟩, -⟩ | ⟨-, hok, hmem⟩ := insertUser_cases s id name projectId now
      · rw [herror]
        exact trivial
      · rw [hok]
        exact (hmem _).mpr (.inr rfl)
    | insertProject id name now =>
      obtain ⟨-, ⟨e, herror⟩, -⟩ | ⟨-, hok, hmem⟩ := insertProject_cases s id name now
      · rw [herror]
        exact trivial
      · rw [hok]
        exact (hmem _).mpr (.inr rfl)
    | userIdByName name =>
      intro hne
      obtain ⟨id, hid⟩ := List.exists_mem_of_ne_nil _ hne
      obtain ⟨u, hu, hname, -⟩ := (mem_userIdByName_reply rfl).mp hid
      exact ⟨u, hu, hname⟩
    | projectIdByName name =>
      intro hne
      obtain ⟨id, hid⟩ := List.exists_mem_of_ne_nil _ hne
      obtain ⟨p, hp, -⟩ := List.mem_map.mp hid
      obtain ⟨hp, hname⟩ := Table.mem_select.mp hp
      exact ⟨p, hp, of_decide_eq_true hname⟩
    | projectById id =>
      intro hne
      obtain ⟨p, hp⟩ := List.exists_mem_of_ne_nil _ hne
      obtain ⟨hp, hid⟩ := Table.mem_select.mp hp
      exact ⟨p, hp, of_decide_eq_true hid⟩
    | _ => exact hq.elim
  | fillBytes d => exact trivial
  | _ => exact hq.elim

/-- A statement of the calls fails exactly when it is an insert with a row in the way. -/
theorem perform_error_iff {st : Stmt} (hf : o.fault = none) (hq : (Op.sql st).Creates) :
    (∃ e, (perform o (.sql st) s).1 = .error e) ↔ ¬ (Op.sql st).Free s := by
  rw [perform_sql_ok hf]
  cases st with
  | insertUser id name projectId now =>
    obtain ⟨⟨u, hu, htaken⟩, herror, -⟩ | ⟨hfree, hok, -⟩ :=
      insertUser_cases s id name projectId now
    · refine iff_of_true herror fun hfree ↦ ?_
      obtain ⟨hid, hname⟩ := hfree u hu
      exact htaken.elim hid hname
    · rw [hok]
      exact iff_of_false nofun (not_not_intro hfree)
  | insertProject id name now =>
    obtain ⟨⟨p, hp, htaken⟩, herror, -⟩ | ⟨hfree, hok, -⟩ := insertProject_cases s id name now
    · refine iff_of_true herror fun hfree ↦ ?_
      obtain ⟨hid, hname⟩ := hfree p hp
      exact htaken.elim hid hname
    · rw [hok]
      exact iff_of_false nofun (not_not_intro hfree)
  | userIdByName | projectIdByName | projectById => exact iff_of_false nofun (not_not_intro trivial)
  | _ => exact hq.elim

end Tables

/-! ## Runs -/

/-- The call is told what it should be: of a row, which it has inserted, or of a conflict, when it
has inserted none and a row has its name or id. -/
def Settled (s : Server) (τ : List (Event Op Op.Reply)) : CreateCall → Created → Prop
  | .user name projectId now, .user (.ok (some id)) =>
    (∃ n, ⟨.sql (.insertUser id name projectId now), .ok n⟩ ∈ τ) ∧
      ⟨id, name, none, projectId, now⟩ ∈ s.users
  | .user name _ _, .user (.ok none) =>
    (∀ e ∈ τ, ¬ e.1.Inserts) ∧ ∃ u ∈ s.users, u.name = name
  | .project name id now, .project (.ok (some p)) =>
    (∃ n, ⟨.sql (.insertProject p.id name now), .ok n⟩ ∈ τ) ∧ p = ⟨p.id, name, now⟩ ∧
      (∀ i ∈ id, p.id = i) ∧ p ∈ s.projects
  | .project name id _, .project (.ok none) =>
    (∀ e ∈ τ, ¬ e.1.Inserts) ∧ ∃ p ∈ s.projects, p.name = name ∨ id = some p.id
  | _, _ => False

/-- Every call that returned is told what it should be. -/
def Conf.Reported (c : CreatePool) : Prop :=
  ∀ t ∈ c.threads, ∀ r, t.Returned r → Settled c.shared t.trace t.call r

/-- The insert comes in time: if the action has a call insert its row, none is in the way. -/
def InTime (c : CreatePool) : Act Outside CreateCall → Prop
  | .spawn _ => True
  | .step i _ => ∀ t ∈ c.threads[i]?, ∀ q k, t.code = .op q k → q.Free c.shared

section Runs

variable {s : Server} {c c' : CreatePool} {t : Thread CreateCall Op Op.Reply Created} {r : Created}

/-- `c` is reached from the server `s` by calls, without faults. -/
abbrev Creating (s : Server) (c : CreatePool) : Prop :=
  Reaches perform CreateCall.prog Faultless ⟨s, []⟩ c

theorem pending_creates (h : Creating s c) {i : ℕ} (hi : c.threads[i]? = some t) {q : Op}
    {k : q.Reply → Task Created} (hk : t.code = .op q k) : q.Creates := by
  have hafter := h.after t (List.mem_of_getElem? hi)
  rw [hk] at hafter
  exact (t.call.prog_does.after hafter).2.1

/-- Whatever was replied, the tables still bear it out. -/
theorem backs_of_did (h : Creating s c) : ∀ i e, c.Did i e → c.shared.Backs e := by
  refine h.did (φ := fun c _ e ↦ c.shared.Backs e) ?_ ?_
  · intro c₁ c₂ a i e hr _ hs _ hbacks
    obtain ⟨call, rfl, rfl⟩ | ⟨j, o, t, q, k, rfl, hj, hk, rfl⟩ := Conf.step_eq_some _ _ hs
    · exact hbacks
    · obtain ⟨husers, hprojects⟩ := perform_grows (pending_creates hr hj hk) o c₁.shared
      exact hbacks.mono husers hprojects
  · rintro c₁ c₂ i o t q k hr hf hi hk rfl
    exact perform_backs hf (pending_creates hr hi hk)

/-- What a call of a run has returned. -/
theorem returned_settled (h : Creating s c) (ht : t ∈ c.threads) (hr : t.Returned r) :
    Settled c.shared t.trace t.call r ∨
      (∃ st e, ⟨.sql st, .error e⟩ ∈ t.trace) ∧ r.status = 500 := by
  have hafter := h.after t ht
  rw [hr] at hafter
  have htold := CreateCall.told hafter
  obtain ⟨i, hi⟩ := List.mem_iff_getElem?.mp ht
  have hbacks : ∀ e ∈ t.trace, c.shared.Backs e := fun e he ↦ backs_of_did h i e ⟨t, hi, he⟩
  generalize t.call = call at htold ⊢
  generalize t.trace = τ at htold hbacks ⊢
  cases htold with
  | failed hmem hstatus => exact .inr ⟨⟨_, _, hmem⟩, hstatus⟩
  | userTaken =>
    refine .inl ⟨fun e he ↦ ?_, hbacks _ List.mem_cons_self (List.cons_ne_nil _ _)⟩
    rw [List.mem_singleton.mp he]
    exact id
  | user hmem => exact .inl ⟨⟨_, hmem⟩, hbacks _ hmem⟩
  | nameTaken =>
    obtain ⟨p, hp, hname⟩ := hbacks _ List.mem_cons_self (List.cons_ne_nil _ _)
    refine .inl ⟨fun e he ↦ ?_, p, hp, .inl hname⟩
    rw [List.mem_singleton.mp he]
    exact id
  | idTaken =>
    obtain ⟨p, hp, hid⟩ := hbacks _ (.tail _ List.mem_cons_self) (List.cons_ne_nil _ _)
    refine .inl ⟨fun e he ↦ ?_, p, hp, .inr (congrArg some hid.symm)⟩
    rcases List.mem_cons.mp he with rfl | he
    · exact id
    · rw [List.mem_singleton.mp he]
      exact id
  | project hmem hid => exact .inl ⟨⟨_, hmem⟩, rfl, hid, hbacks _ hmem⟩

theorem Settled.status_ne {s : Server} {τ : List (Event Op Op.Reply)} {call : CreateCall}
    (h : Settled s τ call r) : r.status ≠ 500 := by
  unfold Settled at h
  split at h
  · exact show (200 : ℕ) ≠ 500 by omega
  · exact show (409 : ℕ) ≠ 500 by omega
  · exact show (200 : ℕ) ≠ 500 by omega
  · exact show (409 : ℕ) ≠ 500 by omega
  · exact h.elim

/-- Where every insert comes in time, every call is told what it should be. -/
theorem reported_of_inTime
    (h : Reaches perform CreateCall.prog (fun c a ↦ Faultless c a ∧ InTime c a) ⟨s, []⟩ c) :
    Conf.Reported c := by
  have hcreating : Creating s c := h.mono fun _ _ ↦ And.left
  have hnone : ∀ i e, c.Did i e → ∀ st err, e ≠ ⟨.sql st, .error err⟩ := by
    refine h.did (φ := fun _ _ e ↦ ∀ st err, e ≠ ⟨.sql st, .error err⟩)
      (fun _ _ _ _ _ _ _ _ _ hne ↦ hne) ?_
    rintro c₁ c₂ i o t q k hr ⟨hf, hfree⟩ hi hk - st err he
    obtain ⟨rfl, herror⟩ := eventOf_eq he
    have hq := pending_creates (hr.mono fun _ _ ↦ And.left) hi hk
    exact (perform_error_iff hf hq).mp ⟨err, herror⟩ (hfree t hi _ k hk)
  intro t ht r hr
  refine (returned_settled hcreating ht hr).resolve_right ?_
  rintro ⟨⟨st, e, he⟩, -⟩
  obtain ⟨i, hi⟩ := List.mem_iff_getElem?.mp ht
  exact hnone i _ ⟨t, hi, he⟩ st e rfl

/-- A call whose insert comes too late has failed after it. -/
theorem inTime_of_reported (h : Creating s c) {a : Act Outside CreateCall} (ha : Faultless c a)
    (hs : c.step perform CreateCall.prog a = some c') (hreported : Conf.Reported c') :
    InTime c a := by
  obtain ⟨call, rfl, rfl⟩ | ⟨i, o, t, q, k, rfl, hi, hk, rfl⟩ := Conf.step_eq_some _ _ hs
  · exact trivial
  intro t' ht' q' k' hk'
  obtain rfl := Option.some.inj (hi.symm.trans ht')
  obtain ⟨rfl, -⟩ := op.inj (hk.symm.trans hk')
  by_contra hlate
  have hq := pending_creates h hi hk
  obtain ⟨st, rfl⟩ : ∃ st, q = .sql st := by
    cases q with
    | sql st => exact ⟨st, rfl⟩
    | _ => exact absurd trivial hlate
  obtain ⟨e, herror⟩ := (perform_error_iff ha hq).mpr hlate
  have hafter := h.after t (List.mem_of_getElem? hi)
  rw [hk] at hafter
  have hanswer : t.call.answer ⟨.sql st, .error e⟩ = some 500 := by
    cases t.call <;> cases st <;> rfl
  obtain ⟨r, hret, hstatus⟩ := ((t.call.prog_ends.after hafter) (.error e)).1 500 hanswer
  have hmem := List.mem_set (l := c.threads) (List.getElem?_eq_some_iff.mp hi).1
    (t.advance _ (perform o (.sql st) c.shared).1 (k (perform o (.sql st) c.shared).1))
  refine (hreported _ hmem r ?_).status_ne hstatus
  rw [Thread.Returned, Thread.advance]
  exact (congrArg k herror).trans hret

theorem Conf.Reported.before (h : Creating s c) {a : Act Outside CreateCall}
    (hs : c.step perform CreateCall.prog a = some c') (hreported : Conf.Reported c') :
    Conf.Reported c := by
  intro t ht r hr
  obtain ⟨i, hi⟩ := List.mem_iff_getElem?.mp ht
  obtain ⟨t', hi', -, hcode⟩ := Conf.step_thread_le hs hi
  have hr' : t'.Returned r := by
    by_contra hne
    obtain ⟨q, k, hk⟩ := hcode fun heq ↦ hne (heq.trans hr)
    cases hr.symm.trans hk
  refine (returned_settled h ht hr).resolve_right fun hfailed ↦ ?_
  exact (hreported t' (List.mem_of_getElem? hi') r hr').status_ne hfailed.2

/-- **Conflicts are reported as conflicts** in a run of calls without faults exactly when no insert
of the run found a row in its way, that another call had inserted since it looked.  In every run, a
handler answers 409 to a name or an id it finds taken and 500 to a statement that fails; no two rows
have an id or a name in common; and a call returns after three operations at most. -/
theorem conflicts_reported_iff (config : Config) (crates : Crates) (s : Server) {c : CreatePool}
    (h : Creating s c) :
    (Conf.Reported c ↔
        Reaches perform CreateCall.prog (fun c a ↦ Faultless c a ∧ InTime c a) ⟨s, []⟩ c) ∧
      (∀ req, (createUser config crates req).Ends userAnswer Response.status ∧
        (createProject crates req).Ends projectAnswer Response.status) ∧
      (∀ u ∈ c.shared.users, ∀ u' ∈ c.shared.users, u.id = u'.id ∨ u.name = u'.name → u = u') ∧
      (∀ p ∈ c.shared.projects, ∀ p' ∈ c.shared.projects,
        p.id = p'.id ∨ p.name = p'.name → p = p') ∧
      ∀ i t, c.threads[i]? = some t → t.trace.length ≤ 3 ∧
        ((∃ r, t.Returned r) ∨ ∀ o, (c.step perform CreateCall.prog (.step i o)).isSome) := by
  refine ⟨⟨fun hreported ↦ ?_, reported_of_inTime⟩, fun req ↦ ?_, ?_, ?_, fun i t hi ↦ ?_⟩
  · induction h with
    | refl => exact .refl
    | tail h ha hs ih =>
      exact (ih (hreported.before h hs)).tail ⟨ha, inTime_of_reported h ha hs hreported⟩ hs
  · exact ⟨createUser_ends req, createProject_ends req⟩
  · have hid : UserRow.id ∈ [UserRow.id, UserRow.name] := by simp
    have hname : UserRow.name ∈ [UserRow.id, UserRow.name] := by simp
    exact fun u hu u' hu' ↦ Or.rec (Table.eq_of_key hid hu hu') (Table.eq_of_key hname hu hu')
  · have hid : ProjectRow.id ∈ [ProjectRow.id, ProjectRow.name] := by simp
    have hname : ProjectRow.name ∈ [ProjectRow.id, ProjectRow.name] := by simp
    exact fun p hp p' hp' ↦ Or.rec (Table.eq_of_key hid hp hp') (Table.eq_of_key hname hp hp')
  · refine ⟨t.call.prog_within.after (h.after t (List.mem_of_getElem? hi)), ?_⟩
    cases hcode : t.code with
    | ret r => exact .inl ⟨r, hcode⟩
    | op q k =>
      refine .inr fun o ↦ ?_
      simp only [Conf.step, hi, hcode, Option.isSome_some]

end Runs

/-! ## Two users of one name -/

/-- The second call looks for `bob` once the first has inserted it. -/
def inTurn : List (Act Outside CreateCall) :=
  [.spawn (.user "bob" none 0), .step 0 {}, .step 0 (drawing 1), .step 0 {},
    .spawn (.user "bob" none 0), .step 1 {}]

theorem conflicts_reported_iff_inTurn :
    ∃ c, (⟨.fresh, []⟩ : CreatePool).run? perform CreateCall.prog inTurn = some c ∧
      c.threads.map (fun t ↦ t.trace.length) = [3, 1] ∧
      (Conf.Reported c ↔
        Reaches perform CreateCall.prog (fun c a ↦ Faultless c a ∧ InTime c a) ⟨.fresh, []⟩ c) := by
  have hadm : (⟨.fresh, []⟩ : CreatePool).Admits perform CreateCall.prog Faultless inTurn := by
    decide +kernel
  have hrun : ((⟨.fresh, []⟩ : CreatePool).run? perform CreateCall.prog inTurn).map
      (fun c ↦ c.threads.map fun t ↦ t.trace.length) = some [3, 1] := by decide +kernel
  obtain ⟨c, hc, hlength⟩ := Option.map_eq_some_iff.mp hrun
  exact ⟨c, hc, hlength, (conflicts_reported_iff ⟨"", "", "", [], ""⟩ .sample .fresh
    (Reaches.of_run? inTurn hc hadm)).1⟩

/-- Two calls look for `bob` before either inserts it, under an id of its own. -/
def overtaken : List (Act Outside CreateCall) :=
  [.spawn (.user "bob" none 0), .spawn (.user "bob" none 0), .step 0 {}, .step 1 {},
    .step 0 (drawing 1), .step 1 (drawing 2), .step 0 {}, .step 1 {}]

theorem overtaken_unreported : ∃ c, Creating .fresh c ∧
    c.shared.users.rows.map UserRow.id = ["usr_0101010101010101"] ∧
    (∃ t ∈ c.threads, t.call = .user "bob" none 0 ∧
      ⟨.sql (.insertUser "usr_0202020202020202" "bob" none 0),
        .error "UNIQUE constraint failed: users"⟩ ∈ t.trace ∧
      t.Returned (.user (.error "database error: UNIQUE constraint failed: users"))) ∧
    ¬ Conf.Reported c := by
  have hadm : (⟨.fresh, []⟩ : CreatePool).Admits perform CreateCall.prog Faultless overtaken := by
    decide +kernel
  have hreturned : ∃ c,
      (⟨.fresh, []⟩ : CreatePool).run? perform CreateCall.prog overtaken = some c ∧
      c.shared.users.rows.map UserRow.id = ["usr_0101010101010101"] ∧
      ∃ t ∈ c.threads[1]?, t.call = .user "bob" none 0 ∧
        ⟨.sql (.insertUser "usr_0202020202020202" "bob" none 0),
          .error "UNIQUE constraint failed: users"⟩ ∈ t.trace ∧
        t.Returned (.user (.error "database error: UNIQUE constraint failed: users")) :=
    ⟨_, rfl, rfl, _, rfl, rfl, .tail _ (.tail _ (.head _)), rfl⟩
  obtain ⟨c, hc, hids, t, ht, hcall, hinsert, hr⟩ := hreturned
  have hmem := List.mem_of_getElem? ht
  refine ⟨c, Reaches.of_run? overtaken hc hadm, hids, ⟨t, hmem, hcall, hinsert, hr⟩,
    fun hreported ↦ ?_⟩
  have hsettled := hreported t hmem _ hr
  rw [hcall] at hsettled
  exact hsettled

end Railyard
