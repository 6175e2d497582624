import Railyard.Effects.Interleaving
import Railyard.Server.Invite

/-!
# Calls that run next to each other

Invites are minted and redeemed, users removed and requests checked by calls that share one
database connection and one replay map, and interleave at every operation.  `Call` collects these
calls, and `Call.prog` gives each its program, so that `Reaches perform (Call.prog crates)` is the
reachability of a server that runs any number of them.

* `Pending` says once which operation a call can be about to issue, and what it has been told by
  then; `Call.pending` is the one place where the programs are taken apart for it.
* `Call.returned_redeemInvite`, `Call.returned_removeUser` and `Call.returned_checkedRequest` say
  what a call that returned has been told.
* User ids and tokens are new when they are drawn (`FreshUserIds`, `FreshTokens`), so a user id or
  the hash of a token leads back to the one call that drew it.
-/

set_option autoImplicit false

namespace Railyard

open Effects Prog

/-- A call to one of these functions. -/
inductive Call
  | mintInvite (serverUrl name : String) (project : Option InviteProject)
  | createUser (name : String) (projectId : Option String) (now : ℕ)
  | createInvite (userId tokenHash : String) (now expiresAt : ℕ)
  | redeemInvite (tokenHash publicKey : String) (now : ℕ)
  | removeUser (name : String)
  | checkedRequest (req : Request)

/-- What a call returns. -/
inductive Outcome
  | mintInvite (r : Except Error (Option MintedInvite))
  | createUser (r : Except Error (Option String))
  | createInvite (r : Except Error Unit)
  | redeemInvite (r : Except Error (Option String))
  | removeUser (r : Except Error Bool)
  | checkedRequest (r : Except Error Request)

variable (crates : Crates)

/-- The program of a call. -/
def Call.prog : Call → Task Outcome
  | mintInvite serverUrl name project =>
    Outcome.mintInvite <$> (Railyard.mintInvite crates serverUrl name project).run
  | createUser name projectId now => Outcome.createUser <$> (Db.createUser name projectId now).run
  | createInvite userId tokenHash now expiresAt =>
    Outcome.createInvite <$> (Db.createInvite userId tokenHash now expiresAt).run
  | redeemInvite tokenHash publicKey now =>
    Outcome.redeemInvite <$> (Db.redeemInvite tokenHash publicKey now).run
  | removeUser name => Outcome.removeUser <$> (Db.removeUser name).run
  | checkedRequest req => Outcome.checkedRequest <$> (Railyard.checkedRequest crates req).run

/-! ## What a call can be about to do -/

/-- The operations so far have only looked for the server's name. -/
def NameLookups (τ : List (Event Op Op.Reply)) : Prop :=
  ∀ e ∈ τ, e.1 = .serverNameVar ∨ e.1 = .gethostname

/-- `Pending crates call τ q`: having been told what `τ` records, `call` may issue `q` next. -/
inductive Pending : Call → List (Event Op Op.Reply) → Op → Prop
  | mintName {serverUrl name : String} {project : Option InviteProject}
      {τ : List (Event Op Op.Reply)} {q : Op} (hτ : NameLookups τ)
      (hq : q = .serverNameVar ∨ q = .gethostname) :
      Pending (.mintInvite serverUrl name project) τ q
  | mintToken {serverUrl name : String} {project : Option InviteProject}
      {τ : List (Event Op Op.Reply)} (hτ : NameLookups τ) :
      Pending (.mintInvite serverUrl name project) τ (.fillBytes .token)
  | mintClock {serverUrl name : String} {project : Option InviteProject}
      {τ : List (Event Op Op.Reply)} (hτ : NameLookups τ) {bs : Op.Reply (.fillBytes .token)} :
      Pending (.mintInvite serverUrl name project) (τ ++ [⟨.fillBytes .token, bs⟩]) .unixTimestamp
  | mintLookup {serverUrl name : String} {project : Option InviteProject}
      {τ : List (Event Op Op.Reply)} (hτ : NameLookups τ) {bs : Op.Reply (.fillBytes .token)}
      {now : ℕ} :
      Pending (.mintInvite serverUrl name project)
        (τ ++ [⟨.fillBytes .token, bs⟩, ⟨.unixTimestamp, now⟩]) (.sql (.userIdByName name))
  | mintUserId {serverUrl name : String} {project : Option InviteProject}
      {τ : List (Event Op Op.Reply)} (hτ : NameLookups τ) {bs : Op.Reply (.fillBytes .token)}
      {now : ℕ} :
      Pending (.mintInvite serverUrl name project)
        (τ ++ [⟨.fillBytes .token, bs⟩, ⟨.unixTimestamp, now⟩,
          ⟨.sql (.userIdByName name), .ok []⟩]) (.fillBytes .userId)
  | mintUser {serverUrl name : String} {project : Option InviteProject}
      {τ : List (Event Op Op.Reply)} (hτ : NameLookups τ) {bs : Op.Reply (.fillBytes .token)}
      {bs' : Op.Reply (.fillBytes .userId)} {now : ℕ} :
      Pending (.mintInvite serverUrl name project)
        (τ ++ [⟨.fillBytes .token, bs⟩, ⟨.unixTimestamp, now⟩,
          ⟨.sql (.userIdByName name), .ok []⟩, ⟨.fillBytes .userId, bs'⟩])
        (.sql (.insertUser ("usr_" ++ Encoding.hexEncode bs'.val) name
          (project.map InviteProject.id) now))
  | mintInvite {serverUrl name : String} {project : Option InviteProject}
      {τ : List (Event Op Op.Reply)} (hτ : NameLookups τ) {bs : Op.Reply (.fillBytes .token)}
      {bs' : Op.Reply (.fillBytes .userId)} {now n : ℕ} :
      Pending (.mintInvite serverUrl name project)
        (τ ++ [⟨.fillBytes .token, bs⟩, ⟨.unixTimestamp, now⟩,
          ⟨.sql (.userIdByName name), .ok []⟩, ⟨.fillBytes .userId, bs'⟩,
          ⟨.sql (.insertUser ("usr_" ++ Encoding.hexEncode bs'.val) name
            (project.map InviteProject.id) now), .ok n⟩])
        (.sql (.insertInvite (tokenHash crates (crates.urlSafeNoPad bs.val))
          ("usr_" ++ Encoding.hexEncode bs'.val) (now + inviteTtlSeconds) now))
  | createLookup {name : String} {projectId : Option String} {now : ℕ} :
      Pending (.createUser name projectId now) [] (.sql (.userIdByName name))
  | createUserId {name : String} {projectId : Option String} {now : ℕ} :
      Pending (.createUser name projectId now) [⟨.sql (.userIdByName name), .ok []⟩]
        (.fillBytes .userId)
  | createUser {name : String} {projectId : Option String} {now : ℕ}
      {bs : Op.Reply (.fillBytes .userId)} :
      Pending (.createUser name projectId now)
        [⟨.sql (.userIdByName name), .ok []⟩, ⟨.fillBytes .userId, bs⟩]
        (.sql (.insertUser ("usr_" ++ Encoding.hexEncode bs.val) name projectId now))
  | createInvite {userId tokenHash : String} {now expiresAt : ℕ} :
      Pending (.createInvite userId tokenHash now expiresAt) []
        (.sql (.insertInvite tokenHash userId expiresAt now))
  | redeemConsume {tokenHash publicKey : String} {now : ℕ} :
      Pending (.redeemInvite tokenHash publicKey now) [] (.sql (.consumeInvite tokenHash now))
  | redeemSelect {tokenHash publicKey : String} {now n : ℕ} :
      Pending (.redeemInvite tokenHash publicKey now)
        [⟨.sql (.consumeInvite tokenHash now), .ok (n + 1)⟩] (.sql (.inviteUserId tokenHash))
  | redeemSetKey {tokenHash publicKey userId : String} {now n : ℕ} {rest : List String} :
      Pending (.redeemInvite tokenHash publicKey now)
        [⟨.sql (.consumeInvite tokenHash now), .ok (n + 1)⟩,
          ⟨.sql (.inviteUserId tokenHash), .ok (userId :: rest)⟩]
        (.sql (.setPublicKey publicKey userId))
  | removeLookup {name : String} :
      Pending (.removeUser name) [] (.sql (.userIdByName name))
  | removeInvites {name userId : String} {rest : List String} :
      Pending (.removeUser name) [⟨.sql (.userIdByName name), .ok (userId :: rest)⟩]
        (.sql (.deleteInvitesOf userId))
  | removeUser {name userId : String} {rest : List String} {n : ℕ} :
      Pending (.removeUser name)
        [⟨.sql (.userIdByName name), .ok (userId :: rest)⟩,
          ⟨.sql (.deleteInvitesOf userId), .ok n⟩] (.sql (.deleteUser userId))
  | checkClock {req : Request} {head : SignedHead} (hh : req.signedHead = .ok head) :
      Pending (.checkedRequest req) [] .unixTimestamp
  | checkKey {req : Request} {head : SignedHead} (hh : req.signedHead = .ok head) {now : ℕ}
      (hw : ReplayWindow.absDiff now head.timestamp ≤ timestampWindowSeconds) :
      Pending (.checkedRequest req) [⟨.unixTimestamp, now⟩] (.sql (.keyOwner head.keyId))
  | checkNonce {req : Request} {head : SignedHead} (hh : req.signedHead = .ok head) {now : ℕ}
      (hw : ReplayWindow.absDiff now head.timestamp ≤ timestampWindowSeconds)
      {row : String × String × String × Option String}
      {rows : List (String × String × String × Option String)}
      (hv : verifyHead crates req head row.1 = .ok ()) :
      Pending (.checkedRequest req)
        [⟨.unixTimestamp, now⟩, ⟨.sql (.keyOwner head.keyId), .ok (row :: rows)⟩]
        (.recordNonce timestampWindowSeconds now head.nonce)

/-! ### One lemma for each function -/

variable {crates}

theorem pending_createUser {name : String} {projectId : Option String} {now : ℕ}
    {τ : List (Event Op Op.Reply)} {q : Op} {k : q.Reply → Task (Except Error (Option String))}
    (h : After (Db.createUser name projectId now).run τ (.op q k)) :
    Pending crates (.createUser name projectId now) τ q := by
  rw [Db.createUser_run] at h
  obtain ⟨rfl, rfl⟩ | ⟨r, τ, rfl, h₁⟩ := after_op_op h
  · exact .createLookup
  rcases r with e | _ | ⟨u, us⟩
  · exact absurd h₁ not_after_ret_op
  · obtain ⟨rfl, rfl⟩ | ⟨bs, τ, rfl, h₂⟩ := after_op_op h₁
    · exact .createUserId
    obtain ⟨rfl, rfl⟩ | ⟨r, τ, rfl, h₃⟩ := after_op_op h₂
    · exact .createUser
    cases r <;> exact absurd h₃ not_after_ret_op
  · exact absurd h₁ not_after_ret_op

theorem pending_createInvite {userId tokenHash : String} {now expiresAt : ℕ}
    {τ : List (Event Op Op.Reply)} {q : Op} {k : q.Reply → Task (Except Error Unit)}
    (h : After (Db.createInvite userId tokenHash now expiresAt).run τ (.op q k)) :
    Pending crates (.createInvite userId tokenHash now expiresAt) τ q := by
  rw [Db.createInvite_run] at h
  obtain ⟨rfl, rfl⟩ | ⟨r, τ, rfl, h₁⟩ := after_op_op h
  · exact .createInvite
  · cases r <;> exact absurd h₁ not_after_ret_op

theorem pending_redeemInvite {tokenHash publicKey : String} {now : ℕ}
    {τ : List (Event Op Op.Reply)} {q : Op} {k : q.Reply → Task (Except Error (Option String))}
    (h : After (Db.redeemInvite tokenHash publicKey now).run τ (.op q k)) :
    Pending crates (.redeemInvite tokenHash publicKey now) τ q := by
  rw [Db.redeemInvite_run] at h
  obtain ⟨rfl, rfl⟩ | ⟨r, τ, rfl, h₁⟩ := after_op_op h
  · exact .redeemConsume
  rcases r with e | _ | n
  · exact absurd h₁ not_after_ret_op
  · exact absurd h₁ not_after_ret_op
  · obtain ⟨rfl, rfl⟩ | ⟨r, τ, rfl, h₂⟩ := after_op_op h₁
    · exact .redeemSelect
    rcases r with e | _ | ⟨u, us⟩
    · exact absurd h₂ not_after_ret_op
    · exact absurd h₂ not_after_ret_op
    · obtain ⟨rfl, rfl⟩ | ⟨r, τ, rfl, h₃⟩ := after_op_op h₂
      · exact .redeemSetKey
      · cases r <;> exact absurd h₃ not_after_ret_op

theorem pending_removeUser {name : String} {τ : List (Event Op Op.Reply)} {q : Op}
    {k : q.Reply → Task (Except Error Bool)}
    (h : After (Db.removeUser name).run τ (.op q k)) : Pending crates (.removeUser name) τ q := by
  rw [Db.removeUser_run] at h
  obtain ⟨rfl, rfl⟩ | ⟨r, τ, rfl, h₁⟩ := after_op_op h
  · exact .removeLookup
  rcases r with e | _ | ⟨u, us⟩
  · exact absurd h₁ not_after_ret_op
  · exact absurd h₁ not_after_ret_op
  · obtain ⟨rfl, rfl⟩ | ⟨r, τ, rfl, h₂⟩ := after_op_op h₁
    · exact .removeInvites
    rcases r with e | n
    · exact absurd h₂ not_after_ret_op
    · obtain ⟨rfl, rfl⟩ | ⟨r, τ, rfl, h₃⟩ := after_op_op h₂
      · exact .removeUser
      · cases r <;> exact absurd h₃ not_after_ret_op

theorem pending_checkedRequest {req : Request} {τ : List (Event Op Op.Reply)} {q : Op}
    {k : q.Reply → Task (Except Error Request)}
    (h : After (Railyard.checkedRequest crates req).run τ (.op q k)) :
    Pending crates (.checkedRequest req) τ q := by
  rw [checkedRequest_run] at h
  cases hh : req.signedHead with
  | error e => rw [hh] at h; exact absurd h not_after_ret_op
  | ok head =>
    rw [hh] at h
    obtain ⟨rfl, rfl⟩ | ⟨now, τ, rfl, h₁⟩ := after_op_op h
    · exact .checkClock hh
    split at h₁
    · exact absurd h₁ not_after_ret_op
    rename_i hw
    have hw := Nat.le_of_not_lt hw
    obtain ⟨rfl, rfl⟩ | ⟨r, τ, rfl, h₂⟩ := after_op_op h₁
    · exact .checkKey hh hw
    rcases r with e | _ | ⟨row, rows⟩
    · exact absurd h₂ not_after_ret_op
    · exact absurd h₂ not_after_ret_op
    · cases hv : verifyHead crates req head row.1 with
      | error e => simp only [hv] at h₂; exact absurd h₂ not_after_ret_op
      | ok _ =>
        simp only [hv] at h₂
        obtain ⟨rfl, rfl⟩ | ⟨r, τ, rfl, h₃⟩ := after_op_op h₂
        · exact .checkNonce hh hw hv
        · cases r <;> exact absurd h₃ not_after_ret_op

/-- Looking for the server's name issues lookups only. -/
theorem after_serverName {τ : List (Event Op Op.Reply)} {p : Task (Except Error String)}
    (h : After serverName.run τ p) :
    NameLookups τ ∧ ∀ q k, p = .op q k → q = .serverNameVar ∨ q = .gethostname := by
  rw [serverName, ExceptT.run_mk] at h
  obtain ⟨rfl, rfl⟩ | ⟨r, τ, rfl, h₁⟩ := after_op.mp h
  · exact ⟨by simp [NameLookups], fun q k hq ↦ .inl (op.inj hq).1.symm⟩
  cases r with
  | some name =>
    obtain ⟨rfl, rfl⟩ := after_ret.mp h₁
    exact ⟨by simp [NameLookups], fun q k hq ↦ by cases hq⟩
  | none =>
    obtain ⟨rfl, rfl⟩ | ⟨r, τ, rfl, h₂⟩ := after_op.mp h₁
    · exact ⟨by simp [NameLookups], fun q k hq ↦ .inr (op.inj hq).1.symm⟩
    cases r <;>
    · obtain ⟨rfl, rfl⟩ := after_ret.mp h₂
      exact ⟨by simp [NameLookups], fun q k hq ↦ by cases hq⟩

theorem pending_mintInvite {serverUrl name : String} {project : Option InviteProject}
    {τ : List (Event Op Op.Reply)} {q : Op}
    {k : q.Reply → Task (Except Error (Option MintedInvite))}
    (h : After (Railyard.mintInvite crates serverUrl name project).run τ (.op q k)) :
    Pending crates (.mintInvite serverUrl name project) τ q := by
  rw [mintInvite_run] at h
  cases hname : validatedName name with
  | error e => rw [hname] at h; exact absurd h not_after_ret_op
  | ok name' =>
    rw [hname, validatedName_eq hname] at h
    obtain ⟨q', k', hx, hq⟩ | ⟨r, τ, τ', rfl, hx, h₁⟩ := after_bind h
    · cases hq
      exact .mintName (after_serverName hx).1 ((after_serverName hx).2 _ _ rfl)
    have hτ := (after_serverName hx).1
    cases r with
    | error e => exact absurd h₁ not_after_ret_op
    | ok serverName =>
      obtain ⟨rfl, rfl⟩ | ⟨bs, τ₁, rfl, h₂⟩ := after_op_op h₁
      · rw [List.append_nil]; exact .mintToken hτ
      obtain ⟨rfl, rfl⟩ | ⟨now, τ₂, rfl, h₃⟩ := after_op_op h₂
      · exact .mintClock hτ
      obtain ⟨rfl, rfl⟩ | ⟨r, τ₃, rfl, h₄⟩ := after_op_op h₃
      · exact .mintLookup hτ
      rcases r with e | _ | ⟨u, us⟩
      · exact absurd h₄ not_after_ret_op
      · obtain ⟨rfl, rfl⟩ | ⟨bs', τ₄, rfl, h₅⟩ := after_op_op h₄
        · exact .mintUserId hτ
        obtain ⟨rfl, rfl⟩ | ⟨r, τ₅, rfl, h₆⟩ := after_op_op h₅
        · exact .mintUser hτ
        rcases r with e | n
        · exact absurd h₆ not_after_ret_op
        · obtain ⟨rfl, rfl⟩ | ⟨r, τ₆, rfl, h₇⟩ := after_op_op h₆
          · exact .mintInvite hτ
          · cases r <;> exact absurd h₇ not_after_ret_op
      · exact absurd h₄ not_after_ret_op

/-- **What a call can be about to do**, read off what it has been told. -/
theorem Call.pending {call : Call} {τ : List (Event Op Op.Reply)} {q : Op}
    {k : q.Reply → Task Outcome} (h : After (call.prog crates) τ (.op q k)) :
    Pending crates call τ q := by
  cases call with
  | mintInvite => exact pending_mintInvite (after_map_op h).choose_spec
  | createUser => exact pending_createUser (after_map_op h).choose_spec
  | createInvite => exact pending_createInvite (after_map_op h).choose_spec
  | redeemInvite => exact pending_redeemInvite (after_map_op h).choose_spec
  | removeUser => exact pending_removeUser (after_map_op h).choose_spec
  | checkedRequest => exact pending_checkedRequest (after_map_op h).choose_spec

/-! ## What a call that returned has been told -/

theorem Call.returned_redeemInvite {tokenHash publicKey userId : String} {now : ℕ}
    {τ : List (Event Op Op.Reply)}
    (h : After ((Call.redeemInvite tokenHash publicKey now).prog crates) τ
      (.ret (.redeemInvite (.ok (some userId))))) :
    ∃ n rest m, τ = [⟨.sql (.consumeInvite tokenHash now), .ok (n + 1)⟩,
      ⟨.sql (.inviteUserId tokenHash), .ok (userId :: rest)⟩,
      ⟨.sql (.setPublicKey publicKey userId), .ok m⟩] := by
  obtain ⟨r, h, hr⟩ := after_map_ret h
  cases hr
  rw [Db.redeemInvite_run] at h
  obtain ⟨r, τ₁, rfl, h₁⟩ := after_op_ret h
  rcases r with e | _ | n
  · cases (after_ret.mp h₁).2
  · cases (after_ret.mp h₁).2
  · obtain ⟨r, τ₂, rfl, h₂⟩ := after_op_ret h₁
    rcases r with e | _ | ⟨u, us⟩
    · cases (after_ret.mp h₂).2
    · cases (after_ret.mp h₂).2
    · obtain ⟨r, τ₃, rfl, h₃⟩ := after_op_ret h₂
      cases r with
      | error e => cases (after_ret.mp h₃).2
      | ok m =>
        obtain ⟨rfl, hr⟩ := after_ret.mp h₃
        cases hr
        exact ⟨n, us, m, rfl⟩

theorem Call.returned_removeUser {name : String} {τ : List (Event Op Op.Reply)}
    (h : After ((Call.removeUser name).prog crates) τ (.ret (.removeUser (.ok true)))) :
    ∃ userId rest n m, τ = [⟨.sql (.userIdByName name), .ok (userId :: rest)⟩,
      ⟨.sql (.deleteInvitesOf userId), .ok n⟩, ⟨.sql (.deleteUser userId), .ok m⟩] := by
  obtain ⟨r, h, hr⟩ := after_map_ret h
  cases hr
  rw [Db.removeUser_run] at h
  obtain ⟨r, τ₁, rfl, h₁⟩ := after_op_ret h
  rcases r with e | _ | ⟨u, us⟩
  · cases (after_ret.mp h₁).2
  · cases (after_ret.mp h₁).2
  · obtain ⟨r, τ₂, rfl, h₂⟩ := after_op_ret h₁
    rcases r with e | n
    · cases (after_ret.mp h₂).2
    · obtain ⟨r, τ₃, rfl, h₃⟩ := after_op_ret h₂
      rcases r with e | m
      · cases (after_ret.mp h₃).2
      · obtain ⟨rfl, -⟩ := after_ret.mp h₃
        exact ⟨u, us, n, m, rfl⟩

theorem Call.returned_checkedRequest {req req' : Request} {τ : List (Event Op Op.Reply)}
    (h : After ((Call.checkedRequest req).prog crates) τ (.ret (.checkedRequest (.ok req')))) :
    ∃ head now row rows, req.signedHead = .ok head ∧
      ReplayWindow.absDiff now head.timestamp ≤ timestampWindowSeconds ∧
      verifyHead crates req head row.1 = .ok () ∧
      τ = [⟨.unixTimestamp, now⟩, ⟨.sql (.keyOwner head.keyId), .ok (row :: rows)⟩,
        ⟨.recordNonce timestampWindowSeconds now head.nonce, false⟩] := by
  obtain ⟨r, h, hr⟩ := after_map_ret h
  cases hr
  rw [checkedRequest_run] at h
  cases hh : req.signedHead with
  | error e => rw [hh] at h; cases (after_ret.mp h).2
  | ok head =>
    rw [hh] at h
    obtain ⟨now, τ₁, rfl, h₁⟩ := after_op_ret h
    split at h₁
    · cases (after_ret.mp h₁).2
    rename_i hw
    obtain ⟨r, τ₂, rfl, h₂⟩ := after_op_ret h₁
    rcases r with e | _ | ⟨row, rows⟩
    · cases (after_ret.mp h₂).2
    · cases (after_ret.mp h₂).2
    · cases hv : verifyHead crates req head row.1 with
      | error e => simp only [hv] at h₂; cases (after_ret.mp h₂).2
      | ok _ =>
        simp only [hv] at h₂
        obtain ⟨r, τ₃, rfl, h₃⟩ := after_op_ret h₂
        cases r with
        | true => cases (after_ret.mp h₃).2
        | false =>
          obtain ⟨rfl, -⟩ := after_ret.mp h₃
          exact ⟨head, now, row, rows, rfl, Nat.le_of_not_lt hw, hv, rfl⟩

/-- The calls made so far, and what they work on. -/
abbrev Pool := Conf Server Call Op Op.Reply Outcome

/-- Thread `i` is a redemption that has returned `Some(userId)`. -/
def Redeemed (c : Pool) (i : ℕ) (tokenHash publicKey : String) (now : ℕ) (userId : String) : Prop :=
  ∃ t, c.threads[i]? = some t ∧ t.call = .redeemInvite tokenHash publicKey now ∧
    t.Returned (.redeemInvite (.ok (some userId)))

/-- What a redemption that returned a user has been told. -/
theorem Redeemed.told {adm : Pool → Act Outside Call → Prop} {c : Pool}
    (h : Reaches perform (Call.prog crates) adm ⟨.fresh, []⟩ c) {i : ℕ}
    {tokenHash publicKey userId : String} {now : ℕ}
    (hr : Redeemed c i tokenHash publicKey now userId) :
    ∃ n rest m, c.Did i ⟨.sql (.consumeInvite tokenHash now), .ok (n + 1)⟩ ∧
      c.Did i ⟨.sql (.inviteUserId tokenHash), .ok (userId :: rest)⟩ ∧
      c.Did i ⟨.sql (.setPublicKey publicKey userId), .ok m⟩ := by
  obtain ⟨t, hi, hcall, hret⟩ := hr
  have ha := h.after t (List.mem_of_getElem? hi)
  rw [hcall, hret] at ha
  obtain ⟨n, rest, m, hτ⟩ := Call.returned_redeemInvite ha
  exact ⟨n, rest, m, ⟨t, hi, by rw [hτ]; simp⟩, ⟨t, hi, by rw [hτ]; simp⟩,
    ⟨t, hi, by rw [hτ]; simp⟩⟩

/-! ## Draws -/

/-- The user id made of what was drawn for one. -/
def drawnUserId : Event Op Op.Reply → Option String
  | ⟨.fillBytes .userId, bs⟩ => some ("usr_" ++ Encoding.hexEncode bs.val)
  | _ => none

variable (crates)

/-- The hash of the token made of what was drawn for one. -/
def drawnToken : Event Op Op.Reply → Option String
  | ⟨.fillBytes .token, bs⟩ => some (tokenHash crates (crates.urlSafeNoPad bs.val))
  | _ => none

/-- User ids are new when they are drawn. -/
abbrev FreshUserIds (c : Pool) (a : Act Outside Call) : Prop := c.NewKey perform drawnUserId a

/-- Tokens are new when they are drawn, and so are their hashes. -/
abbrev FreshTokens (c : Pool) (a : Act Outside Call) : Prop :=
  c.NewKey perform (drawnToken crates) a

variable {crates} {call : Call} {τ : List (Event Op Op.Reply)}

/-- A user is inserted under an id drawn by the same call, and by a call that has inserted none. -/
theorem Pending.insertUser {userId name : String} {projectId : Option String} {now : ℕ}
    (h : Pending crates call τ (.sql (.insertUser userId name projectId now))) :
    (∃ e ∈ τ, drawnUserId e = some userId) ∧
      ∀ e ∈ τ, ∀ userId' name' projectId' now',
        e.1 ≠ .sql (.insertUser userId' name' projectId' now') := by
  cases h with
  | mintName hτ hq => simp at hq
  | mintUser hτ =>
    refine ⟨⟨_, List.mem_append_right _ (.tail _ (.tail _ (.tail _ (.head _)))), rfl⟩,
      fun e he ↦ ?_⟩
    rcases List.mem_append.mp he with he | he
    · rcases hτ e he with h | h <;> simp [h]
    · simp only [List.mem_cons, List.not_mem_nil, or_false] at he
      rcases he with rfl | rfl | rfl | rfl <;> simp
  | createUser =>
    refine ⟨⟨_, List.mem_cons_of_mem _ List.mem_cons_self, rfl⟩, fun e he ↦ ?_⟩
    simp only [List.mem_cons, List.not_mem_nil, or_false] at he
    rcases he with rfl | rfl <;> simp

/-- Only a mint and a bare `createInvite` insert invites.  A mint does it once, for the token and
the user it drew, once the user's row is there, and lets the invite live for a day. -/
theorem Pending.insertInvite {tokenHash userId : String} {expiresAt now : ℕ}
    (h : Pending crates call τ (.sql (.insertInvite tokenHash userId expiresAt now))) :
    call = .createInvite userId tokenHash now expiresAt ∨
      (∃ e ∈ τ, drawnToken crates e = some tokenHash) ∧
      (∃ e ∈ τ, drawnUserId e = some userId) ∧
      (∃ name projectId n, (⟨.sql (.insertUser userId name projectId now), .ok n⟩ :
        Event Op Op.Reply) ∈ τ) ∧
      expiresAt = now + inviteTtlSeconds ∧
      ∀ e ∈ τ, ∀ tokenHash' userId' expiresAt' now',
        e.1 ≠ .sql (.insertInvite tokenHash' userId' expiresAt' now') := by
  cases h with
  | mintName hτ hq => simp at hq
  | mintInvite hτ =>
    refine .inr ⟨⟨_, List.mem_append_right _ List.mem_cons_self, rfl⟩,
      ⟨_, List.mem_append_right _ (.tail _ (.tail _ (.tail _ (.head _)))), rfl⟩,
      ⟨_, _, _, List.mem_append_right _ (.tail _ (.tail _ (.tail _ (.tail _ (.head _)))))⟩, rfl,
      fun e he ↦ ?_⟩
    rcases List.mem_append.mp he with he | he
    · rcases hτ e he with h | h <;> simp [h]
    · simp only [List.mem_cons, List.not_mem_nil, or_false] at he
      rcases he with rfl | rfl | rfl | rfl | rfl <;> simp
  | createInvite => exact .inl rfl

/-- A key is stored by a redemption that has consumed an invite and found its user. -/
theorem Pending.setPublicKey {publicKey userId : String}
    (h : Pending crates call τ (.sql (.setPublicKey publicKey userId))) :
    ∃ tokenHash now n rest, call = .redeemInvite tokenHash publicKey now ∧
      τ = [⟨.sql (.consumeInvite tokenHash now), .ok (n + 1)⟩,
        ⟨.sql (.inviteUserId tokenHash), .ok (userId :: rest)⟩] := by
  cases h with
  | mintName hτ hq => simp at hq
  | redeemSetKey => exact ⟨_, _, _, _, rfl, rfl⟩

/-- A user is deleted by a removal that has looked the user up. -/
theorem Pending.deleteUser {userId : String}
    (h : Pending crates call τ (.sql (.deleteUser userId))) :
    ∃ name rest n, call = .removeUser name ∧
      τ = [⟨.sql (.userIdByName name), .ok (userId :: rest)⟩,
        ⟨.sql (.deleteInvitesOf userId), .ok n⟩] := by
  cases h with
  | mintName hτ hq => simp at hq
  | removeUser => exact ⟨_, _, _, rfl, rfl⟩

/-! ## Given runs -/

/-- The actions that start a call as thread `i` and let it issue `n` operations, the outside
contributing `o` to each. -/
def callAlone (i : ℕ) (call : Call) (n : ℕ) (o : Outside) : List (Act Outside Call) :=
  .spawn call :: List.replicate n (.step i o)

end Railyard
