import Railyard.Server.Auth

/-!
# Minting invites

`mintInvite` creates a user together with a single-use invite for it: the user row by
`Db.createUser`, then the invite row by `Db.createInvite`.
-/

set_option autoImplicit false

namespace Railyard

open Effects

def inviteTtlSeconds : ℕ := 24 * 60 * 60

def inviteBlobPrefix : String := "ryd-invite-v1."

structure MintedInvite where
  userId : String
  blob : String
  expiresAt : ℕ

/-- User names: lowercase letters, digits, `-` or `_`. -/
def validatedName (name : String) : Except Error String :=
  if name ≠ "" ∧ name.toList.all fun c ↦ ('a' ≤ c ∧ c ≤ 'z') ∨ c.isDigit ∨ c = '-' ∨ c = '_' then
    .ok name
  else .error
    ("user name " ++ Encoding.debugQuote name ++ " must be lowercase letters, digits, - or _")

/-- The last step of `serverName`: the name trimmed, unless nothing is left of it. -/
def trimmedName (name : String) : Except Error String :=
  if Encoding.trim name = "" then
    .error "could not determine a server name from the hostname; set RAILYARD_SERVER_NAME"
  else .ok (Encoding.trim name)

/-- The server's human name: `RAILYARD_SERVER_NAME`, else the first label of the host name. -/
def serverName : Action String := ExceptT.mk <| .op .serverNameVar fun
  | some name => .ret (trimmedName name)
  | none => .op .gethostname fun
    | .error e => .ret (.error e)
    | .ok hostname =>
      .ret (trimmedName (String.ofList ((hostname.getD "").toList.takeWhile (· ≠ '.'))))

theorem validatedName_eq {name name' : String} (h : validatedName name = .ok name') :
    name' = name := by
  rw [validatedName] at h
  split at h
  · exact (Except.ok.inj h).symm
  · cases h

/-- Finding the server's name leaves the state alone. -/
theorem serverName_state (w : ℕ → Outside) (s : Server) :
    (serverName.run.run perform w s).2 = s := by
  rw [serverName, ExceptT.run_mk, Prog.run_op, perform_serverNameVar]
  cases (w 0).serverNameVar with
  | some name => rfl
  | none =>
    simp only [Prog.run_op, perform_gethostname]
    cases (w (0 + 1)).hostname <;> rfl

variable (crates : Crates)

def randomToken : Task String :=
  .op (.fillBytes .token) fun bytes ↦ .ret (crates.urlSafeNoPad bytes.val)

def InvitePayload.encode (payload : InvitePayload) : String :=
  inviteBlobPrefix ++ crates.urlSafeNoPad (crates.inviteJson payload)

/-- Create a user, server-wide admin or scoped to `project`, together with a single-use invite for
it. -/
def mintInvite (serverUrl name : String) (project : Option InviteProject) :
    Action (Option MintedInvite) := do
  let name ← validatedName name
  let serverName ← serverName
  let token ← randomToken crates
  let now ← unixTimestamp
  let expiresAt := now + inviteTtlSeconds
  let some userId ← Db.createUser name (project.map InviteProject.id) now
    | return none
  Db.createInvite userId (tokenHash crates token) now expiresAt
  let blob := InvitePayload.encode crates
    ⟨serverUrl, serverName, userId, name, project, token, expiresAt⟩
  return some ⟨userId, blob, expiresAt⟩

/-- What `mintInvite` asks for once the two names are settled. -/
def mintRows (serverUrl serverName name : String) (project : Option InviteProject) :
    Task (Except Error (Option MintedInvite)) :=
  .op (.fillBytes .token) fun bs ↦ .op .unixTimestamp fun now ↦
    let token := crates.urlSafeNoPad bs.val
    let expiresAt := now + inviteTtlSeconds
    .op (.sql (.userIdByName name)) fun
      | .error e => .ret (.error (Db.dbError e))
      | .ok (_ :: _) => .ret (.ok none)
      | .ok [] => .op (.fillBytes .userId) fun bs ↦
        let userId := "usr_" ++ Encoding.hexEncode bs.val
        .op (.sql (.insertUser userId name (project.map InviteProject.id) now)) fun
          | .error e => .ret (.error (Db.dbError e))
          | .ok _ => .op (.sql (.insertInvite (tokenHash crates token) userId expiresAt now)) fun
            | .error e => .ret (.error (Db.dbError e))
            | .ok _ => .ret (.ok (some ⟨userId, InvitePayload.encode crates
                ⟨serverUrl, serverName, userId, name, project, token, expiresAt⟩, expiresAt⟩))

theorem mintInvite_run (serverUrl name : String) (project : Option InviteProject) :
    (mintInvite crates serverUrl name project).run =
      match validatedName name with
      | .error e => .ret (.error e)
      | .ok name => serverName.run.bind fun
        | .error e => .ret (.error e)
        | .ok serverName => mintRows crates serverUrl serverName name project := by
  rw [mintInvite]
  cases validatedName name with
  | error e => rfl
  | ok name =>
    refine congrArg serverName.run.bind (funext fun r ↦ ?_)
    cases r with
    | error e => rfl
    | ok serverName =>
      refine Prog.op_congr fun bs ↦ Prog.op_congr fun now ↦ ?_
      refine (ExceptT.run_bind _ _).trans ?_
      rw [Db.createUser_run, Prog.bind_def, Prog.op_bind]
      refine Prog.op_congr fun r ↦ ?_
      rcases r with e | _ | ⟨u, us⟩
      · rfl
      · refine Prog.op_congr fun bs ↦ Prog.op_congr fun r ↦ ?_
        cases r with
        | error e => rfl
        | ok n =>
          refine (ExceptT.run_bind _ _).trans ?_
          rw [Db.createInvite_run, Prog.bind_def, Prog.op_bind]
          exact Prog.op_congr fun r ↦ by cases r <;> rfl
      · rfl

end Railyard
