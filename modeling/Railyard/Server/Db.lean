import Railyard.Server.State

/-!
# The database methods

`Db` of the server: one method per thing the API wants from the tables, each a short sequence of
statements with an early exit on every error.  No method opens a transaction, so other calls may
run between two statements of one.
-/

set_option autoImplicit false

namespace Railyard

open Effects

/-- The status a release goes through. -/
inductive ReleaseStatus
  | unpacking
  | ready
  | failed
  deriving DecidableEq

/-- The text a status is stored as. -/
def ReleaseStatus.asStr : ReleaseStatus → String
  | unpacking => "unpacking"
  | ready => "ready"
  | failed => "failed"

/-- Read a stored status back. -/
def ReleaseStatus.parse (value : String) : Option ReleaseStatus :=
  if value = "unpacking" then some unpacking
  else if value = "ready" then some ready
  else if value = "failed" then some failed
  else none

/-- A stored status reads back as itself. -/
@[simp] theorem ReleaseStatus.parse_asStr (st : ReleaseStatus) : parse st.asStr = some st := by
  cases st <;> decide

/-- A release as the API works with it. -/
structure Release where
  id : String
  projectId : String
  status : ReleaseStatus
  message : Option String
  error : Option String
  createdAt : ℕ
  updatedAt : ℕ
  deriving DecidableEq

/-- A user as the API lists it. -/
structure User where
  id : String
  name : String
  projectId : Option String
  hasKey : Bool
  createdAt : ℕ
  deriving DecidableEq

/-- The user a verified request key belongs to.  No `projectId` means a server-wide admin. -/
structure AuthUser where
  id : String
  name : String
  projectId : Option String
  deriving DecidableEq

/-- `OsRng.fill_bytes`, printed in hexadecimal behind `tag`. -/
def drawId (tag : String) (d : Draw) : Action String :=
  ExceptT.mk (.op (.fillBytes d) fun bs ↦ .ret (.ok (tag ++ Encoding.hexEncode bs.val)))

def newUserId : Action String := drawId "usr_" .userId

def newProjectId : Action String := drawId "prj_" .projectId

def newReleaseId : Action String := drawId "rel_" .releaseId

namespace Db

def dbError (error : Error) : Error := "database error: " ++ error

/-- Execute one statement. -/
def sql (q : Stmt) : Action q.Reply :=
  ExceptT.mk (.op (.sql q) fun r ↦ .ret (r.mapError dbError))

/-! ## Users -/

def userIdByName (name : String) : Action (Option String) := do
  let rows ← sql (.userIdByName name)
  return rows.head?

def createUser (name : String) (projectId : Option String) (now : ℕ) : Action (Option String) := do
  if (← userIdByName name).isSome then
    return none
  let userId ← newUserId
  let _ ← sql (.insertUser userId name projectId now)
  return some userId

def listUsers : Action (List User) := do
  let rows ← sql .listUsers
  return rows.map fun row ↦ ⟨row.id, row.name, row.projectId, row.publicKey.isSome, row.createdAt⟩

def removeUser (name : String) : Action Bool := do
  let some userId ← userIdByName name | return false
  let _ ← sql (.deleteInvitesOf userId)
  let _ ← sql (.deleteUser userId)
  return true

/-- Resolve a request's key to the public key that must verify it and the user it belongs to.  A
key id is a user id. -/
def keyOwner (keyId : String) : Action (Option (String × AuthUser)) := do
  let rows ← sql (.keyOwner keyId)
  return rows.head?.map fun (publicKey, id, name, projectId) ↦ (publicKey, ⟨id, name, projectId⟩)

/-! ## Invites -/

def createInvite (userId tokenHash : String) (now expiresAt : ℕ) : Action Unit := do
  let _ ← sql (.insertInvite tokenHash userId expiresAt now)

def redeemInvite (tokenHash publicKey : String) (now : ℕ) : Action (Option String) := do
  let consumed ← sql (.consumeInvite tokenHash now)
  if consumed = 0 then
    return none
  let rows ← sql (.inviteUserId tokenHash)
  let some userId := rows.head? | throw "redeemed invite row disappeared"
  let _ ← sql (.setPublicKey publicKey userId)
  return some userId

/-! ## Projects -/

def projectIdByName (name : String) : Action (Option String) := do
  let rows ← sql (.projectIdByName name)
  return rows.head?

def projectById (id : String) : Action (Option ProjectRow) := do
  let rows ← sql (.projectById id)
  return rows.head?

def createProject (name : String) (id : Option String) (now : ℕ) :
    Action (Option ProjectRow) := do
  if (← projectIdByName name).isSome then
    return none
  if let some id := id then
    if (← projectById id).isSome then
      return none
  let projectId ← match id with
    | some id => pure id
    | none => newProjectId
  let _ ← sql (.insertProject projectId name now)
  return some ⟨projectId, name, now⟩

def listProjects : Action (List ProjectRow) := sql .listProjects

/-! ## Releases -/

def createRelease (projectId : String) (status : ReleaseStatus) (message : Option String)
    (now : ℕ) : Action Release := do
  let id ← newReleaseId
  let _ ← sql (.insertRelease id projectId status.asStr message now)
  return ⟨id, projectId, status, message, none, now, now⟩

def setReleaseStatus (id : String) (status : ReleaseStatus) (error : Option String) (now : ℕ) :
    Action Unit := do
  let _ ← sql (.setReleaseStatus id status.asStr error now)

/-- Read one row of `releases`. -/
def releaseOfRow (row : ReleaseRow) : Except Error Release :=
  match ReleaseStatus.parse row.status with
  | some status => .ok
      ⟨row.id, row.projectId, status, row.message, row.error, row.createdAt, row.updatedAt⟩
  | none => .error ("unknown release status " ++ Encoding.debugQuote row.status)

def listReleases (projectId : String) : Action (List Release) := do
  let rows ← sql (.listReleases projectId)
  ExceptT.mk (pure (rows.mapM releaseOfRow))

/-! ## The methods as statements

What each method asks for next, for every reply to the statement before. -/

theorem sql_bind_run {α : Type} (q : Stmt) (f : q.Reply → Action α) :
    (sql q >>= f).run = .op (.sql q) fun
      | .error e => .ret (.error (dbError e))
      | .ok a => (f a).run :=
  Prog.op_congr fun r ↦ by cases r <;> rfl

/-- A method that returned has had its first statement executed. -/
theorem sql_bind_ok {α : Type} {q : Stmt} {f : q.Reply → Action α} {w : ℕ → Outside} {s : Server}
    {b : α} (h : ((sql q >>= f).run.run perform w s).1 = .ok b) :
    ∃ a, (q.exec s).1 = .ok a ∧
      (sql q >>= f).run.run perform w s
        = (f a).run.run perform (fun n ↦ w (n + 1)) (q.exec s).2 := by
  rw [sql_bind_run, Prog.run_op] at h ⊢
  cases hr : (perform (w 0) (.sql q) s).1 with
  | error e => rw [hr] at h; cases h
  | ok a =>
    obtain ⟨hp, ha⟩ := perform_sql_eq_ok hr
    exact ⟨a, ha, by rw [hp]⟩

theorem createUser_run (name : String) (projectId : Option String) (now : ℕ) :
    (createUser name projectId now).run = .op (.sql (.userIdByName name)) fun
      | .error e => .ret (.error (dbError e))
      | .ok (_ :: _) => .ret (.ok none)
      | .ok [] => .op (.fillBytes .userId) fun bs ↦
        .op (.sql (.insertUser ("usr_" ++ Encoding.hexEncode bs.val) name projectId now)) fun
          | .error e => .ret (.error (dbError e))
          | .ok _ => .ret (.ok (some ("usr_" ++ Encoding.hexEncode bs.val))) := by
  rw [createUser, userIdByName, bind_assoc, sql_bind_run]
  refine Prog.op_congr fun r ↦ ?_
  rcases r with e | _ | ⟨u, us⟩
  · rfl
  · exact Prog.op_congr fun bs ↦ Prog.op_congr fun r ↦ by cases r <;> rfl
  · rfl

theorem removeUser_run (name : String) :
    (removeUser name).run = .op (.sql (.userIdByName name)) fun
      | .error e => .ret (.error (dbError e))
      | .ok [] => .ret (.ok false)
      | .ok (userId :: _) => .op (.sql (.deleteInvitesOf userId)) fun
        | .error e => .ret (.error (dbError e))
        | .ok _ => .op (.sql (.deleteUser userId)) fun
          | .error e => .ret (.error (dbError e))
          | .ok _ => .ret (.ok true) := by
  rw [removeUser, userIdByName, bind_assoc, sql_bind_run]
  refine Prog.op_congr fun r ↦ ?_
  rcases r with e | _ | ⟨u, us⟩
  · rfl
  · rfl
  · refine Prog.op_congr fun r ↦ ?_
    cases r with
    | error e => rfl
    | ok n => exact Prog.op_congr fun r ↦ by cases r <;> rfl

theorem keyOwner_run (keyId : String) :
    (keyOwner keyId).run = .op (.sql (.keyOwner keyId)) fun
      | .error e => .ret (.error (dbError e))
      | .ok [] => .ret (.ok none)
      | .ok ((publicKey, id, name, projectId) :: _) =>
        .ret (.ok (some (publicKey, ⟨id, name, projectId⟩))) := by
  rw [keyOwner, sql_bind_run]
  refine Prog.op_congr fun r ↦ ?_
  rcases r with e | _ | ⟨⟨publicKey, id, name, projectId⟩, rows⟩ <;> rfl

theorem createInvite_run (userId tokenHash : String) (now expiresAt : ℕ) :
    (createInvite userId tokenHash now expiresAt).run
      = .op (.sql (.insertInvite tokenHash userId expiresAt now)) fun
        | .error e => .ret (.error (dbError e))
        | .ok _ => .ret (.ok ()) := by
  rw [createInvite, sql_bind_run]
  exact Prog.op_congr fun r ↦ by cases r <;> rfl

theorem redeemInvite_run (tokenHash publicKey : String) (now : ℕ) :
    (redeemInvite tokenHash publicKey now).run = .op (.sql (.consumeInvite tokenHash now)) fun
      | .error e => .ret (.error (dbError e))
      | .ok 0 => .ret (.ok none)
      | .ok (_ + 1) => .op (.sql (.inviteUserId tokenHash)) fun
        | .error e => .ret (.error (dbError e))
        | .ok [] => .ret (.error "redeemed invite row disappeared")
        | .ok (userId :: _) => .op (.sql (.setPublicKey publicKey userId)) fun
          | .error e => .ret (.error (dbError e))
          | .ok _ => .ret (.ok (some userId)) := by
  rw [redeemInvite, sql_bind_run]
  refine Prog.op_congr fun r ↦ ?_
  rcases r with e | _ | n
  · rfl
  · rfl
  · show (if n + 1 = 0 then _ else _ : Action (Option String)).run = _
    rw [if_neg (Nat.succ_ne_zero n), sql_bind_run]
    refine Prog.op_congr fun r ↦ ?_
    rcases r with e | _ | ⟨u, us⟩
    · rfl
    · rfl
    · exact Prog.op_congr fun r ↦ by cases r <;> rfl

theorem projectById_run (id : String) :
    (projectById id).run = .op (.sql (.projectById id)) fun
      | .error e => .ret (.error (dbError e))
      | .ok rows => .ret (.ok rows.head?) := by
  rw [projectById, sql_bind_run]
  exact Prog.op_congr fun r ↦ by cases r <;> rfl

/-- `createProject` from where the id and the name are free. -/
def insertProject (name : String) (now : ℕ) (projectId : String) :
    Task (Except Error (Option ProjectRow)) :=
  .op (.sql (.insertProject projectId name now)) fun
    | .error e => .ret (.error (dbError e))
    | .ok _ => .ret (.ok (some ⟨projectId, name, now⟩))

theorem createProject_run (name : String) (id : Option String) (now : ℕ) :
    (createProject name id now).run = .op (.sql (.projectIdByName name)) fun
      | .error e => .ret (.error (dbError e))
      | .ok (_ :: _) => .ret (.ok none)
      | .ok [] =>
        match id with
        | none => .op (.fillBytes .projectId) fun bs ↦
          insertProject name now ("prj_" ++ Encoding.hexEncode bs.val)
        | some id => .op (.sql (.projectById id)) fun
          | .error e => .ret (.error (dbError e))
          | .ok (_ :: _) => .ret (.ok none)
          | .ok [] => insertProject name now id := by
  rw [createProject, projectIdByName, bind_assoc, sql_bind_run]
  refine Prog.op_congr fun r ↦ ?_
  rcases r with e | _ | ⟨p, ps⟩
  · rfl
  · cases id with
    | none => exact Prog.op_congr fun bs ↦ Prog.op_congr fun r ↦ by cases r <;> rfl
    | some id =>
      refine Prog.op_congr fun r ↦ ?_
      rcases r with e | _ | ⟨p, ps⟩
      · rfl
      · exact Prog.op_congr fun r ↦ by cases r <;> rfl
      · rfl
  · rfl

theorem listProjects_run :
    listProjects.run = .op (.sql .listProjects) fun r ↦ .ret (r.mapError dbError) := rfl

theorem listReleases_run (projectId : String) :
    (listReleases projectId).run = .op (.sql (.listReleases projectId)) fun
      | .error e => .ret (.error (dbError e))
      | .ok rows => .ret (rows.mapM releaseOfRow) := by
  rw [listReleases, sql_bind_run]
  exact Prog.op_congr fun r ↦ by cases r <;> rfl

end Db

end Railyard
