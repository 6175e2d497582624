import Railyard.Data.Encoding
import Railyard.Data.ReplayWindow
import Railyard.Data.Table
import Railyard.Effects.Program

/-!
# The server's state and the operations on it

What one server process works on: the four tables of the schema, the nonces it has seen, and the
files below its data directory.  Everything the API does to them goes through an operation `Op`:
one SQL statement, one step on the file system, the critical section on the nonces, a clock
reading, a draw of random bytes or a look at the environment.  `perform` says what an operation
does and replies; what is not the server's to decide (the clock, the random bytes, whether a
statement fails) comes from `Outside`.

A statement that fails leaves the tables alone, also when it fails on a constraint.  Times are
whole seconds since the epoch; the columns hold them as `i64`, which every reading of
`SystemTime` fits into, so the casts are not modelled.
-/

set_option autoImplicit false

namespace Railyard

open Effects

/-- The text of an `anyhow::Error`. -/
abbrev Error := String

/-! ## The tables -/

/-- A row of `users`. -/
structure UserRow where
  id : String
  name : String
  publicKey : Option String
  projectId : Option String
  createdAt : ℕ
  deriving DecidableEq

/-- A row of `invites`. -/
structure InviteRow where
  tokenHash : String
  userId : String
  expiresAt : ℕ
  redeemedAt : Option ℕ
  createdAt : ℕ
  deriving DecidableEq

/-- A row of `projects`. -/
structure ProjectRow where
  id : String
  name : String
  createdAt : ℕ
  deriving DecidableEq

/-- A row of `releases`; the status column holds text. -/
structure ReleaseRow where
  id : String
  projectId : String
  status : String
  message : Option String
  error : Option String
  createdAt : ℕ
  updatedAt : ℕ
  deriving DecidableEq

/-- `id TEXT PRIMARY KEY`, `name TEXT NOT NULL UNIQUE`. -/
abbrev Users := Table UserRow String [UserRow.id, UserRow.name]

/-- `token_hash TEXT PRIMARY KEY`. -/
abbrev Invites := Table InviteRow String [InviteRow.tokenHash]

/-- `id TEXT PRIMARY KEY`, `name TEXT NOT NULL UNIQUE`. -/
abbrev Projects := Table ProjectRow String [ProjectRow.id, ProjectRow.name]

/-- `id TEXT PRIMARY KEY`. -/
abbrev Releases := Table ReleaseRow String [ReleaseRow.id]

/-- Everything one server process works on. -/
structure Server where
  users : Users
  invites : Invites
  projects : Projects
  releases : Releases
  /-- The replay map: when each nonce was last recorded. -/
  seenNonces : ReplayWindow.Seen String
  /-- The contents of the files written, by path. -/
  files : String → Option Bytes
  /-- The archives whose unpacking has begun: the directory each goes to, and its bytes. -/
  unpacked : List (String × Bytes)

/-- A server with an empty database, as it is first started. -/
def Server.fresh : Server where
  users := Table.empty
  invites := Table.empty
  projects := Table.empty
  releases := Table.empty
  seenNonces := fun _ ↦ none
  files := fun _ ↦ none
  unpacked := []

/-! ## SQL statements -/

/-- The statements the API executes, with their parameters. -/
inductive Stmt
  /-- `SELECT id FROM users WHERE name = ?1` -/
  | userIdByName (name : String)
  /-- `INSERT INTO users (id, name, project_id, created_at) VALUES (?1, ?2, ?3, ?4)` -/
  | insertUser (id name : String) (projectId : Option String) (now : ℕ)
  /-- `SELECT id, name, project_id, public_key, created_at FROM users ORDER BY created_at, name` -/
  | listUsers
  /-- `DELETE FROM invites WHERE user_id = ?1` -/
  | deleteInvitesOf (userId : String)
  /-- `DELETE FROM users WHERE id = ?1` -/
  | deleteUser (userId : String)
  /-- `SELECT public_key, id, name, project_id FROM users
  WHERE id = ?1 AND public_key IS NOT NULL` -/
  | keyOwner (keyId : String)
  /-- `UPDATE users SET public_key = ?1 WHERE id = ?2` -/
  | setPublicKey (publicKey userId : String)
  /-- `INSERT INTO invites (token_hash, user_id, expires_at, created_at) VALUES (?1, ?2, ?3, ?4)` -/
  | insertInvite (tokenHash userId : String) (expiresAt now : ℕ)
  /-- `UPDATE invites SET redeemed_at = ?1
  WHERE token_hash = ?2 AND redeemed_at IS NULL AND expires_at > ?1` -/
  | consumeInvite (tokenHash : String) (now : ℕ)
  /-- `SELECT user_id FROM invites WHERE token_hash = ?1` -/
  | inviteUserId (tokenHash : String)
  /-- `INSERT INTO projects (id, name, created_at) VALUES (?1, ?2, ?3)` -/
  | insertProject (id name : String) (now : ℕ)
  /-- `SELECT id, name, created_at FROM projects ORDER BY created_at, name` -/
  | listProjects
  /-- `SELECT id, name, created_at FROM projects WHERE id = ?1` -/
  | projectById (id : String)
  /-- `SELECT id FROM projects WHERE name = ?1` -/
  | projectIdByName (name : String)
  /-- `INSERT INTO releases (id, project_id, status, message, created_at, updated_at)
  VALUES (?1, ?2, ?3, ?4, ?5, ?5)` -/
  | insertRelease (id projectId status : String) (message : Option String) (now : ℕ)
  /-- `UPDATE releases SET status = ?2, error = ?3, updated_at = ?4 WHERE id = ?1` -/
  | setReleaseStatus (id status : String) (error : Option String) (now : ℕ)
  /-- `SELECT … FROM releases WHERE project_id = ?1 ORDER BY created_at DESC, id DESC` -/
  | listReleases (projectId : String)

/-- What a statement replies with: the rows selected, or the number of rows affected. -/
@[reducible] def Stmt.Reply : Stmt → Type
  | userIdByName _ | inviteUserId _ | projectIdByName _ => List String
  | keyOwner _ => List (String × String × String × Option String)
  | listUsers => List UserRow
  | listProjects | projectById _ => List ProjectRow
  | listReleases _ => List ReleaseRow
  | insertUser .. | deleteInvitesOf _ | deleteUser _ | setPublicKey .. | insertInvite ..
  | consumeInvite .. | insertProject .. | insertRelease .. | setReleaseStatus .. => ℕ

/-- An unredeemed invite for `tokenHash` that has not expired at `now`. -/
def InviteRow.Redeemable (tokenHash : String) (now : ℕ) (i : InviteRow) : Prop :=
  i.tokenHash = tokenHash ∧ i.redeemedAt = none ∧ now < i.expiresAt

instance (tokenHash : String) (now : ℕ) (i : InviteRow) :
    Decidable (i.Redeemable tokenHash now) :=
  inferInstanceAs (Decidable (_ ∧ _ ∧ _))

/-- `ORDER BY created_at, name`. -/
def byCreation {ρ : Type} (createdAt : ρ → ℕ) (name : ρ → String) (a b : ρ) : Prop :=
  createdAt a < createdAt b ∨ createdAt a = createdAt b ∧ name a ≤ name b

/-- `ORDER BY created_at DESC, id DESC`. -/
def newestFirst (a b : ReleaseRow) : Prop :=
  b.createdAt < a.createdAt ∨ a.createdAt = b.createdAt ∧ b.id ≤ a.id

instance {ρ : Type} (createdAt : ρ → ℕ) (name : ρ → String) :
    DecidableRel (byCreation createdAt name) :=
  fun _ _ ↦ inferInstanceAs (Decidable (_ ∨ _ ∧ _))

instance : DecidableRel newestFirst := fun _ _ ↦ inferInstanceAs (Decidable (_ ∨ _ ∧ _))

instance : Std.Total newestFirst := ⟨fun a b ↦ by
  unfold newestFirst
  rcases lt_trichotomy a.createdAt b.createdAt with h | h | h
  · exact .inr (.inl h)
  · rcases String.le_total a.id b.id with h' | h'
    · exact .inr (.inr ⟨h.symm, h'⟩)
    · exact .inl (.inr ⟨h, h'⟩)
  · exact .inl (.inl h)⟩

instance : IsTrans ReleaseRow newestFirst := ⟨fun a b c h h' ↦ by
  unfold newestFirst at *
  rcases h with h | ⟨h, hid⟩ <;> rcases h' with h' | ⟨h', hid'⟩
  · exact .inl (h'.trans h)
  · exact .inl (h' ▸ h)
  · exact .inl (h ▸ h')
  · exact .inr ⟨h.trans h', String.le_trans hid' hid⟩⟩

/-- The reply to an `INSERT` and the table after it. -/
def inserted {τ : Type} (table : String) (t : τ) : Option τ → Except Error ℕ × τ
  | some t' => (.ok 1, t')
  | none => (.error ("UNIQUE constraint failed: " ++ table), t)

/-- What a statement replies and does to the tables. -/
def Stmt.exec : (q : Stmt) → Server → Except Error q.Reply × Server
  | userIdByName name, s => (.ok ((s.users.select fun u ↦ u.name = name).map UserRow.id), s)
  | insertUser id name projectId now, s =>
    let r := inserted "users" s.users (s.users.insert? ⟨id, name, none, projectId, now⟩)
    (r.1, { s with users := r.2 })
  | listUsers, s =>
    (.ok (s.users.rows.insertionSort (byCreation UserRow.createdAt UserRow.name)), s)
  | deleteInvitesOf userId, s =>
    let p := fun i : InviteRow ↦ decide (i.userId = userId)
    (.ok (s.invites.count p), { s with invites := s.invites.delete p })
  | deleteUser userId, s =>
    let p := fun u : UserRow ↦ decide (u.id = userId)
    (.ok (s.users.count p), { s with users := s.users.delete p })
  | keyOwner keyId, s =>
    (.ok (s.users.rows.filterMap fun u ↦
      if u.id = keyId then u.publicKey.map fun key ↦ (key, u.id, u.name, u.projectId) else none), s)
  | setPublicKey publicKey userId, s =>
    let p := fun u : UserRow ↦ decide (u.id = userId)
    (.ok (s.users.count p), { s with
      users := s.users.update p (fun u ↦ { u with publicKey := some publicKey }) (by simp) })
  | insertInvite tokenHash userId expiresAt now, s =>
    let r := inserted "invites" s.invites
      (s.invites.insert? ⟨tokenHash, userId, expiresAt, none, now⟩)
    (r.1, { s with invites := r.2 })
  | consumeInvite tokenHash now, s =>
    let p := fun i : InviteRow ↦ decide (i.Redeemable tokenHash now)
    (.ok (s.invites.count p), { s with
      invites := s.invites.update p (fun i ↦ { i with redeemedAt := some now }) (by simp) })
  | inviteUserId tokenHash, s =>
    (.ok ((s.invites.select fun i ↦ i.tokenHash = tokenHash).map InviteRow.userId), s)
  | insertProject id name now, s =>
    let r := inserted "projects" s.projects (s.projects.insert? ⟨id, name, now⟩)
    (r.1, { s with projects := r.2 })
  | listProjects, s =>
    (.ok (s.projects.rows.insertionSort (byCreation ProjectRow.createdAt ProjectRow.name)), s)
  | projectById id, s => (.ok (s.projects.select fun p ↦ p.id = id), s)
  | projectIdByName name, s =>
    (.ok ((s.projects.select fun p ↦ p.name = name).map ProjectRow.id), s)
  | insertRelease id projectId status message now, s =>
    let r := inserted "releases" s.releases
      (s.releases.insert? ⟨id, projectId, status, message, none, now, now⟩)
    (r.1, { s with releases := r.2 })
  | setReleaseStatus id status error now, s =>
    let p := fun r : ReleaseRow ↦ decide (r.id = id)
    (.ok (s.releases.count p), { s with
      releases := s.releases.update p
        (fun r ↦ { r with status := status, error := error, updatedAt := now }) (by simp) })
  | listReleases projectId, s =>
    (.ok ((s.releases.select fun r ↦ r.projectId = projectId).insertionSort newestFirst), s)

/-! ### What the statements do

One lemma for each statement that writes `users` or `invites`, so that no proof looks into the
tables again.  A statement that is not named leaves the table it is about as it is, which is true
by `rfl`. -/

section Statements

variable {s : Server} {tokenHash userId name publicKey : String} {projectId : Option String}
  {now expiresAt n : ℕ}

theorem mem_users_setPublicKey {u : UserRow} :
    u ∈ ((Stmt.setPublicKey publicKey userId).exec s).2.users ↔
      ∃ u₀ ∈ s.users, (if u₀.id = userId then { u₀ with publicKey := some publicKey } else u₀)
        = u := by
  simp only [Stmt.exec, Table.mem_update, decide_eq_true_eq]

theorem map_id_setPublicKey :
    ((Stmt.setPublicKey publicKey userId).exec s).2.users.rows.map UserRow.id
      = s.users.rows.map UserRow.id := by
  simp only [Stmt.exec]
  rw [Table.map_key_update (by simp)]

theorem map_tokenHash_consumeInvite :
    ((Stmt.consumeInvite tokenHash now).exec s).2.invites.rows.map InviteRow.tokenHash
      = s.invites.rows.map InviteRow.tokenHash := by
  simp only [Stmt.exec]
  rw [Table.map_key_update (by simp)]

theorem mem_users_deleteUser {u : UserRow} :
    u ∈ ((Stmt.deleteUser userId).exec s).2.users ↔ u ∈ s.users ∧ u.id ≠ userId := by
  simp only [Stmt.exec, Table.mem_delete, decide_eq_false_iff_not, ne_eq]

theorem mem_invites_deleteInvitesOf {i : InviteRow} :
    i ∈ ((Stmt.deleteInvitesOf userId).exec s).2.invites ↔ i ∈ s.invites ∧ i.userId ≠ userId := by
  simp only [Stmt.exec, Table.mem_delete, decide_eq_false_iff_not, ne_eq]

theorem mem_invites_consumeInvite {i : InviteRow} :
    i ∈ ((Stmt.consumeInvite tokenHash now).exec s).2.invites ↔
      ∃ i₀ ∈ s.invites, (if i₀.Redeemable tokenHash now then { i₀ with redeemedAt := some now }
        else i₀) = i := by
  simp only [Stmt.exec, Table.mem_update, decide_eq_true_eq]

theorem consumeInvite_reply_eq_zero :
    ((Stmt.consumeInvite tokenHash now).exec s).1 = .ok 0 ↔
      ∀ i ∈ s.invites, ¬ i.Redeemable tokenHash now := by
  simp only [Stmt.exec, Except.ok.injEq, Table.count_eq_zero, decide_eq_false_iff_not]

/-- A statement that consumed something found an invite to redeem. -/
theorem exists_redeemable (h : ((Stmt.consumeInvite tokenHash now).exec s).1 = .ok (n + 1)) :
    ∃ i ∈ s.invites, i.Redeemable tokenHash now := by
  by_contra hnone
  push Not at hnone
  rw [consumeInvite_reply_eq_zero.mpr hnone] at h
  cases h

theorem mem_inviteUserId_reply {userIds : List String}
    (h : ((Stmt.inviteUserId tokenHash).exec s).1 = .ok userIds) :
    userId ∈ userIds ↔ ∃ i ∈ s.invites, i.tokenHash = tokenHash ∧ i.userId = userId := by
  rw [← Except.ok.inj h]
  simp only [List.mem_map, Table.mem_select, decide_eq_true_eq, and_assoc]

theorem mem_userIdByName_reply {userIds : List String}
    (h : ((Stmt.userIdByName name).exec s).1 = .ok userIds) :
    userId ∈ userIds ↔ ∃ u ∈ s.users, u.name = name ∧ u.id = userId := by
  rw [← Except.ok.inj h]
  simp only [List.mem_map, Table.mem_select, decide_eq_true_eq, and_assoc]

theorem keyOwner_reply_eq_nil {keyId : String} (h : ∀ u ∈ s.users, u.id ≠ keyId) :
    ((Stmt.keyOwner keyId).exec s).1 = .ok [] := by
  simp only [Stmt.exec, Except.ok.injEq, List.filterMap_eq_nil_iff]
  exact fun u hu ↦ if_neg (h u hu)

/-- Every row found for a key is that of a user with this id, and with a key. -/
theorem mem_keyOwner_reply {keyId : String} {rows : List (String × String × String × Option String)}
    {row : String × String × String × Option String}
    (h : ((Stmt.keyOwner keyId).exec s).1 = .ok rows) (hrow : row ∈ rows) :
    ∃ u ∈ s.users, u.id = keyId ∧ u.publicKey = some row.1 ∧
      row.2 = (u.id, u.name, u.projectId) := by
  rw [← Except.ok.inj h] at hrow
  obtain ⟨u, hu, hrow⟩ := List.mem_filterMap.mp hrow
  split at hrow
  · rename_i hid
    obtain ⟨key, hkey, rfl⟩ := Option.map_eq_some_iff.mp hrow
    exact ⟨u, hu, hid, hkey, rfl⟩
  · cases hrow

/-- A user with a key is found by its id. -/
theorem keyOwner_reply_of_mem {u : UserRow} (hu : u ∈ s.users)
    (hkey : u.publicKey = some publicKey) :
    ∃ rows, ((Stmt.keyOwner u.id).exec s).1
      = .ok ((publicKey, u.id, u.name, u.projectId) :: rows) := by
  obtain ⟨rows, hrows⟩ : ∃ rows, ((Stmt.keyOwner u.id).exec s).1 = .ok rows := ⟨_, rfl⟩
  have hin : (publicKey, u.id, u.name, u.projectId) ∈ rows := by
    rw [← Except.ok.inj hrows]
    exact List.mem_filterMap.mpr ⟨u, hu, by simp [hkey]⟩
  cases rows with
  | nil => cases hin
  | cons row rows =>
    obtain ⟨u', hu', hid, hkey', hrow⟩ := mem_keyOwner_reply hrows List.mem_cons_self
    have hid' : UserRow.id ∈ [UserRow.id, UserRow.name] := by simp
    obtain rfl := s.users.eq_of_key hid' hu' hu hid
    rw [hkey, Option.some_inj] at hkey'
    exact ⟨rows, by rw [hrows, hkey', ← hrow]⟩

/-- An insert into `users` adds the row, with no key, or fails and adds nothing; it fails exactly
when the id or the name is taken. -/
theorem insertUser_cases (s : Server) (userId name : String) (projectId : Option String) (now : ℕ) :
    ((∃ u ∈ s.users, u.id = userId ∨ u.name = name) ∧
        (∃ e, ((Stmt.insertUser userId name projectId now).exec s).1 = .error e) ∧
        ((Stmt.insertUser userId name projectId now).exec s).2 = s) ∨
      ((∀ u ∈ s.users, u.id ≠ userId ∧ u.name ≠ name) ∧
        ((Stmt.insertUser userId name projectId now).exec s).1 = .ok 1 ∧
        ∀ u, u ∈ ((Stmt.insertUser userId name projectId now).exec s).2.users ↔
          u ∈ s.users ∨ u = ⟨userId, name, none, projectId, now⟩) := by
  simp only [Stmt.exec]
  cases h : s.users.insert? ⟨userId, name, none, projectId, now⟩ with
  | none =>
    refine .inl ⟨?_, ⟨_, rfl⟩, rfl⟩
    obtain ⟨key, hk, u, hu, he⟩ := Table.insert?_eq_none.mp h
    refine ⟨u, hu, ?_⟩
    simp only [List.mem_cons, List.not_mem_nil, or_false] at hk
    rcases hk with rfl | rfl
    · exact .inl he
    · exact .inr he
  | some t =>
    refine .inr ⟨fun u hu ↦ ?_, rfl, fun u ↦ Table.mem_insert? h⟩
    have hnew := (Table.insert?_eq_some h).2
    exact ⟨hnew UserRow.id (by simp) u hu, hnew UserRow.name (by simp) u hu⟩

/-- An insert into `invites` adds the row, unredeemed, or fails and adds nothing; it fails exactly
when the hash is taken. -/
theorem insertInvite_cases (s : Server) (tokenHash userId : String) (expiresAt now : ℕ) :
    ((∃ i ∈ s.invites, i.tokenHash = tokenHash) ∧
        (∃ e, ((Stmt.insertInvite tokenHash userId expiresAt now).exec s).1 = .error e) ∧
        ((Stmt.insertInvite tokenHash userId expiresAt now).exec s).2 = s) ∨
      ((∀ i ∈ s.invites, i.tokenHash ≠ tokenHash) ∧
        ((Stmt.insertInvite tokenHash userId expiresAt now).exec s).1 = .ok 1 ∧
        ∀ i, i ∈ ((Stmt.insertInvite tokenHash userId expiresAt now).exec s).2.invites ↔
          i ∈ s.invites ∨ i = ⟨tokenHash, userId, expiresAt, none, now⟩) := by
  simp only [Stmt.exec]
  cases h : s.invites.insert? ⟨tokenHash, userId, expiresAt, none, now⟩ with
  | none =>
    refine .inl ⟨?_, ⟨_, rfl⟩, rfl⟩
    obtain ⟨key, hk, i, hi, he⟩ := Table.insert?_eq_none.mp h
    rw [List.mem_singleton.mp hk] at he
    exact ⟨i, hi, he⟩
  | some t =>
    exact .inr ⟨(Table.insert?_eq_some h).2 _ (by simp), rfl, fun i ↦ Table.mem_insert? h⟩

/-- An insert into `projects` adds the row, or fails and adds nothing; it fails exactly when the id
or the name is taken. -/
theorem insertProject_cases (s : Server) (id name : String) (now : ℕ) :
    ((∃ p ∈ s.projects, p.id = id ∨ p.name = name) ∧
        (∃ e, ((Stmt.insertProject id name now).exec s).1 = .error e) ∧
        ((Stmt.insertProject id name now).exec s).2 = s) ∨
      ((∀ p ∈ s.projects, p.id ≠ id ∧ p.name ≠ name) ∧
        ((Stmt.insertProject id name now).exec s).1 = .ok 1 ∧
        ∀ p, p ∈ ((Stmt.insertProject id name now).exec s).2.projects ↔
          p ∈ s.projects ∨ p = ⟨id, name, now⟩) := by
  simp only [Stmt.exec]
  cases h : s.projects.insert? ⟨id, name, now⟩ with
  | none =>
    refine .inl ⟨?_, ⟨_, rfl⟩, rfl⟩
    obtain ⟨key, hk, p, hp, he⟩ := Table.insert?_eq_none.mp h
    refine ⟨p, hp, ?_⟩
    simp only [List.mem_cons, List.not_mem_nil, or_false] at hk
    rcases hk with rfl | rfl
    · exact .inl he
    · exact .inr he
  | some t =>
    refine .inr ⟨fun p hp ↦ ?_, rfl, fun p ↦ Table.mem_insert? h⟩
    have hnew := (Table.insert?_eq_some h).2
    exact ⟨hnew ProjectRow.id (by simp) p hp, hnew ProjectRow.name (by simp) p hp⟩

/-- An insert into `releases` adds the row, or fails and adds nothing; it fails exactly when the id
is taken. -/
theorem insertRelease_cases (s : Server) (id projectId status : String) (message : Option String)
    (now : ℕ) :
    ((∃ r ∈ s.releases, r.id = id) ∧
        (∃ e, ((Stmt.insertRelease id projectId status message now).exec s).1 = .error e) ∧
        ((Stmt.insertRelease id projectId status message now).exec s).2 = s) ∨
      ((∀ r ∈ s.releases, r.id ≠ id) ∧
        ((Stmt.insertRelease id projectId status message now).exec s).1 = .ok 1 ∧
        ∀ r, r ∈ ((Stmt.insertRelease id projectId status message now).exec s).2.releases ↔
          r ∈ s.releases ∨ r = ⟨id, projectId, status, message, none, now, now⟩) := by
  simp only [Stmt.exec]
  cases h : s.releases.insert? ⟨id, projectId, status, message, none, now, now⟩ with
  | none =>
    refine .inl ⟨?_, ⟨_, rfl⟩, rfl⟩
    obtain ⟨key, hk, r, hr, he⟩ := Table.insert?_eq_none.mp h
    rw [List.mem_singleton.mp hk] at he
    exact ⟨r, hr, he⟩
  | some t =>
    exact .inr ⟨(Table.insert?_eq_some h).2 _ (by simp), rfl, fun r ↦ Table.mem_insert? h⟩

theorem mem_releases_setReleaseStatus {id status : String} {error : Option String}
    {r : ReleaseRow} :
    r ∈ ((Stmt.setReleaseStatus id status error now).exec s).2.releases ↔
      ∃ r₀ ∈ s.releases, (if r₀.id = id then
        { r₀ with status := status, error := error, updatedAt := now } else r₀) = r := by
  simp only [Stmt.exec, Table.mem_update, decide_eq_true_eq]

end Statements

/-! ## Operations -/

/-- What `OsRng` is asked for. -/
inductive Draw
  | userId
  | projectId
  | releaseId
  | token
  deriving DecidableEq

/-- How many bytes a draw takes. -/
def Draw.size : Draw → ℕ
  | userId | projectId | releaseId => 8
  | token => 32

/-- A draw of nothing but zeros. -/
def zeroBytes (d : Draw) : { bs : Bytes // bs.length = d.size } :=
  ⟨List.replicate d.size 0, List.length_replicate⟩

/-- The steps on the file system that may fail on their own. -/
inductive FsOp
  | createDirAll (dir : String)
  | createFile (path : String)
  | writeAll (path : String) (data : Bytes)
  | flush (path : String)
  | openFile (path : String)
  /-- Unpack the archive at `archive` below `dir`. -/
  | unpack (archive dir : String)

/-- What a program of the server may ask for. -/
inductive Op
  /-- `unix_timestamp()` -/
  | unixTimestamp
  /-- `OsRng.fill_bytes` -/
  | fillBytes (d : Draw)
  /-- `env::var("RAILYARD_SERVER_NAME")` -/
  | serverNameVar
  /-- `nix::unistd::gethostname()`, as UTF-8 where it is -/
  | gethostname
  | sql (q : Stmt)
  /-- The critical section on `seen_nonces`: forget what is outside the window, then record the
  nonce; the reply is whether it was already there. -/
  | recordNonce (window now : ℕ) (nonce : String)
  | fs (f : FsOp)
  /-- Whether a task handed to the blocking pool came back at all. -/
  | joinBlocking

/-- The reply to an operation. -/
@[reducible] def Op.Reply : Op → Type
  | unixTimestamp => ℕ
  | fillBytes d => { bs : Bytes // bs.length = d.size }
  | serverNameVar => Option String
  | gethostname => Except Error (Option String)
  | sql q => Except Error q.Reply
  | recordNonce .. => Bool
  | fs _ | joinBlocking => Except Error Unit

/-- What the outside world contributes to one operation. -/
structure Outside where
  /-- The server clock. -/
  now : ℕ := 0
  /-- What a draw of random bytes returns. -/
  random : (d : Draw) → { bs : Bytes // bs.length = d.size } := zeroBytes
  /-- `RAILYARD_SERVER_NAME`, when set. -/
  serverNameVar : Option String := none
  /-- The host name, `none` when it is not UTF-8. -/
  hostname : Except Error (Option String) := .ok (some "localhost")
  /-- The error with which the statement or the step on the file system fails, if it does. -/
  fault : Option Error := none

/-- Every draw returns this byte, over and over. -/
def drawing (b : UInt8) : Outside :=
  { random := fun d ↦ ⟨List.replicate d.size b, List.length_replicate⟩ }

/-- What a step on the file system replies when it does not fail on its own, and what it does.
Directories are not tracked, and an unpacking that fails may have unpacked some of the archive. -/
def FsOp.exec : FsOp → Server → Except Error Unit × Server
  | createDirAll _, s => (.ok (), s)
  | createFile path, s => (.ok (), { s with files := Function.update s.files path (some []) })
  | writeAll path data, s =>
    (.ok (), { s with
      files := Function.update s.files path (some ((s.files path).getD [] ++ data)) })
  | flush _, s => (.ok (), s)
  | openFile path, s =>
    (if (s.files path).isSome then .ok () else .error "No such file or directory (os error 2)", s)
  | unpack archive dir, s =>
    (.ok (), { s with unpacked := s.unpacked ++ [(dir, (s.files archive).getD [])] })

/-- What a step on the file system leaves behind when it fails on its own. -/
def FsOp.failed : FsOp → Server → Server
  | unpack archive dir, s => ((unpack archive dir).exec s).2
  | _, s => s

/-- The reply to an operation and the state after it. -/
def perform (o : Outside) : (q : Op) → Server → q.Reply × Server
  | .unixTimestamp, s => (o.now, s)
  | .fillBytes d, s => (o.random d, s)
  | .serverNameVar, s => (o.serverNameVar, s)
  | .gethostname, s => (o.hostname, s)
  | .sql q, s =>
    match o.fault with
    | some e => (.error e, s)
    | none => q.exec s
  | .recordNonce window now nonce, s =>
    let r := ReplayWindow.record window now nonce s.seenNonces
    (r.1, { s with seenNonces := r.2 })
  | .fs f, s =>
    match o.fault with
    | some e => (.error e, f.failed s)
    | none => f.exec s
  | .joinBlocking, s =>
    match o.fault with
    | some e => (.error e, s)
    | none => (.ok (), s)

@[simp] theorem perform_unixTimestamp (o : Outside) (s : Server) :
    perform o .unixTimestamp s = (o.now, s) := rfl

@[simp] theorem perform_fillBytes (o : Outside) (d : Draw) (s : Server) :
    perform o (.fillBytes d) s = (o.random d, s) := rfl

@[simp] theorem perform_serverNameVar (o : Outside) (s : Server) :
    perform o .serverNameVar s = (o.serverNameVar, s) := rfl

@[simp] theorem perform_gethostname (o : Outside) (s : Server) :
    perform o .gethostname s = (o.hostname, s) := rfl

theorem perform_sql_ok {o : Outside} (h : o.fault = none) (q : Stmt) (s : Server) :
    perform o (.sql q) s = q.exec s := by
  simp only [perform, h]

theorem perform_sql_fault {o : Outside} {e : Error} (h : o.fault = some e) (q : Stmt)
    (s : Server) : perform o (.sql q) s = (.error e, s) := by
  simp only [perform, h]

/-- A statement that reads leaves the state alone, whether or not it fails. -/
theorem perform_read {q : Stmt} {s : Server} (h : (q.exec s).2 = s) (o : Outside) :
    (perform o (.sql q) s).2 = s := by
  simp only [perform]
  cases o.fault with
  | some e => rfl
  | none => exact h

/-- Only statements touch the tables. -/
theorem perform_tables {o : Outside} {q : Op} (hq : ∀ st, q ≠ .sql st) (s : Server) :
    (perform o q s).2.users = s.users ∧ (perform o q s).2.invites = s.invites ∧
      (perform o q s).2.projects = s.projects ∧ (perform o q s).2.releases = s.releases := by
  cases q with
  | sql st => exact absurd rfl (hq st)
  | fs f =>
    simp only [perform]
    cases o.fault <;> cases f <;> exact ⟨rfl, rfl, rfl, rfl⟩
  | joinBlocking =>
    simp only [perform]
    cases o.fault <;> exact ⟨rfl, rfl, rfl, rfl⟩
  | _ => exact ⟨rfl, rfl, rfl, rfl⟩

/-! ### Where rows come from, and where they go

An operation together with its reply, as an event, says which statement succeeded. -/

/-- The event of operation `q` in the state `s`. -/
abbrev eventOf (o : Outside) (q : Op) (s : Server) : Prog.Event Op Op.Reply :=
  ⟨q, (perform o q s).1⟩

theorem eventOf_eq {o : Outside} {q q' : Op} {s : Server} {r : q'.Reply}
    (h : eventOf o q s = ⟨q', r⟩) : q = q' ∧ (perform o q' s).1 = r := by
  obtain ⟨rfl, hr⟩ := Sigma.mk.inj h
  exact ⟨rfl, eq_of_heq hr⟩

/-- A statement that replied did not fail. -/
theorem perform_sql_eq_ok {o : Outside} {q : Stmt} {s : Server} {a : q.Reply}
    (h : (perform o (.sql q) s).1 = .ok a) :
    perform o (.sql q) s = q.exec s ∧ (q.exec s).1 = .ok a := by
  cases hf : o.fault with
  | some e => rw [perform_sql_fault hf] at h; cases h
  | none => rw [perform_sql_ok hf] at h ⊢; exact ⟨rfl, h⟩

/-- A row of `users` was there, or has just been inserted, or has just been given its key. -/
theorem perform_users {o : Outside} {q : Op} {s : Server} {u : UserRow}
    (h : u ∈ (perform o q s).2.users) :
    u ∈ s.users ∨
      (eventOf o q s = ⟨.sql (.insertUser u.id u.name u.projectId u.createdAt), .ok 1⟩ ∧
        u.publicKey = none ∧ ∀ u' ∈ s.users, u'.id ≠ u.id) ∨
      ∃ u₀ ∈ s.users, ∃ publicKey m,
        eventOf o q s = ⟨.sql (.setPublicKey publicKey u.id), .ok m⟩ ∧
          u = { u₀ with publicKey := some publicKey } := by
  by_cases hq : ∃ st, q = .sql st
  · obtain ⟨st, rfl⟩ := hq
    cases hf : o.fault with
    | some e => rw [perform_sql_fault hf] at h; exact .inl h
    | none =>
      rw [eventOf, perform_sql_ok hf] at *
      cases st with
      | insertUser id name projectId now =>
        obtain ⟨-, -, hs⟩ | ⟨hnew, hok, hmem⟩ := insertUser_cases s id name projectId now
        · rw [hs] at h; exact .inl h
        · rcases (hmem u).mp h with h | rfl
          · exact .inl h
          · exact .inr (.inl ⟨by rw [hok], rfl, fun u' hu' ↦ (hnew u' hu').1⟩)
      | deleteUser userId => exact .inl (mem_users_deleteUser.mp h).1
      | setPublicKey publicKey userId =>
        obtain ⟨u₀, hu₀, hu⟩ := mem_users_setPublicKey.mp h
        split at hu
        · rename_i hid
          subst hu hid
          exact .inr (.inr ⟨u₀, hu₀, publicKey, _, rfl, rfl⟩)
        · subst hu; exact .inl hu₀
      | _ => exact .inl h
  · rw [(perform_tables (fun st h ↦ hq ⟨st, h⟩) s).1] at h
    exact .inl h

/-- A row of `users` stays, perhaps with another key, unless it is deleted. -/
theorem perform_users_keeps {o : Outside} {q : Op} {s : Server} {u : UserRow} (h : u ∈ s.users) :
    (∃ u' ∈ (perform o q s).2.users, u'.id = u.id) ∨
      ∃ m, eventOf o q s = ⟨.sql (.deleteUser u.id), .ok m⟩ := by
  by_cases hq : ∃ st, q = .sql st
  · obtain ⟨st, rfl⟩ := hq
    cases hf : o.fault with
    | some e => rw [perform_sql_fault hf]; exact .inl ⟨u, h, rfl⟩
    | none =>
      rw [eventOf, perform_sql_ok hf]
      cases st with
      | insertUser id name projectId now =>
        obtain ⟨-, -, hs⟩ | ⟨-, -, hmem⟩ := insertUser_cases s id name projectId now
        · rw [hs]; exact .inl ⟨u, h, rfl⟩
        · exact .inl ⟨u, (hmem u).mpr (.inl h), rfl⟩
      | deleteUser userId =>
        by_cases hid : u.id = userId
        · subst hid; exact .inr ⟨_, rfl⟩
        · exact .inl ⟨u, mem_users_deleteUser.mpr ⟨h, hid⟩, rfl⟩
      | setPublicKey publicKey userId =>
        refine .inl ⟨_, mem_users_setPublicKey.mpr ⟨u, h, rfl⟩, ?_⟩
        split <;> rfl
      | _ => exact .inl ⟨u, h, rfl⟩
  · rw [(perform_tables (fun st h ↦ hq ⟨st, h⟩) s).1]
    exact .inl ⟨u, h, rfl⟩

/-- A row of `invites` was there, or has just been inserted, or has just been redeemed. -/
theorem perform_invites {o : Outside} {q : Op} {s : Server} {i : InviteRow}
    (h : i ∈ (perform o q s).2.invites) :
    i ∈ s.invites ∨
      (eventOf o q s = ⟨.sql (.insertInvite i.tokenHash i.userId i.expiresAt i.createdAt), .ok 1⟩ ∧
        i.redeemedAt = none) ∨
      ∃ i₀ ∈ s.invites, ∃ now, q = .sql (.consumeInvite i.tokenHash now) ∧
        i₀.Redeemable i.tokenHash now ∧ i = { i₀ with redeemedAt := some now } := by
  by_cases hq : ∃ st, q = .sql st
  · obtain ⟨st, rfl⟩ := hq
    cases hf : o.fault with
    | some e => rw [perform_sql_fault hf] at h; exact .inl h
    | none =>
      rw [eventOf, perform_sql_ok hf] at *
      cases st with
      | insertInvite tokenHash userId expiresAt now =>
        obtain ⟨-, -, hs⟩ | ⟨-, hok, hmem⟩ := insertInvite_cases s tokenHash userId expiresAt now
        · rw [hs] at h; exact .inl h
        · rcases (hmem i).mp h with h | rfl
          · exact .inl h
          · exact .inr (.inl ⟨by rw [hok], rfl⟩)
      | deleteInvitesOf userId => exact .inl (mem_invites_deleteInvitesOf.mp h).1
      | consumeInvite tokenHash now =>
        obtain ⟨i₀, hi₀, hi⟩ := mem_invites_consumeInvite.mp h
        split at hi
        · rename_i hr
          subst hi
          have htok : i₀.tokenHash = tokenHash := hr.1
          subst htok
          exact .inr (.inr ⟨i₀, hi₀, now, rfl, hr, rfl⟩)
        · subst hi; exact .inl hi₀
      | _ => exact .inl h
  · rw [(perform_tables (fun st h ↦ hq ⟨st, h⟩) s).2.1] at h
    exact .inl h

/-- A row of `invites` stays, perhaps redeemed, unless it is deleted. -/
theorem perform_invites_keeps {o : Outside} {q : Op} {s : Server} {i : InviteRow}
    (h : i ∈ s.invites) :
    (∃ i' ∈ (perform o q s).2.invites, i'.userId = i.userId) ∨
      ∃ m, eventOf o q s = ⟨.sql (.deleteInvitesOf i.userId), .ok m⟩ := by
  by_cases hq : ∃ st, q = .sql st
  · obtain ⟨st, rfl⟩ := hq
    cases hf : o.fault with
    | some e => rw [perform_sql_fault hf]; exact .inl ⟨i, h, rfl⟩
    | none =>
      rw [eventOf, perform_sql_ok hf]
      cases st with
      | insertInvite tokenHash userId expiresAt now =>
        obtain ⟨-, -, hs⟩ | ⟨-, -, hmem⟩ := insertInvite_cases s tokenHash userId expiresAt now
        · rw [hs]; exact .inl ⟨i, h, rfl⟩
        · exact .inl ⟨i, (hmem i).mpr (.inl h), rfl⟩
      | deleteInvitesOf userId =>
        by_cases hid : i.userId = userId
        · subst hid; exact .inr ⟨_, rfl⟩
        · exact .inl ⟨i, mem_invites_deleteInvitesOf.mpr ⟨h, hid⟩, rfl⟩
      | consumeInvite tokenHash now =>
        refine .inl ⟨_, mem_invites_consumeInvite.mpr ⟨i, h, rfl⟩, ?_⟩
        split <;> rfl
      | _ => exact .inl ⟨i, h, rfl⟩
  · rw [(perform_tables (fun st h ↦ hq ⟨st, h⟩) s).2.1]
    exact .inl ⟨i, h, rfl⟩

/-- What an operation does to `releases`: nothing, or a row is inserted, or one is given another
status. -/
theorem perform_releases (o : Outside) (q : Op) (s : Server) :
    (perform o q s).2.releases = s.releases ∨
      (∃ r₁ : ReleaseRow, eventOf o q s =
          ⟨.sql (.insertRelease r₁.id r₁.projectId r₁.status r₁.message r₁.createdAt), .ok 1⟩ ∧
        r₁.error = none ∧ (∀ r ∈ s.releases, r.id ≠ r₁.id) ∧
        ∀ r, r ∈ (perform o q s).2.releases ↔ r ∈ s.releases ∨ r = r₁) ∨
      ∃ id status error now n,
        eventOf o q s = ⟨.sql (.setReleaseStatus id status error now), .ok n⟩ ∧
          ∀ r, r ∈ (perform o q s).2.releases ↔ ∃ r₀ ∈ s.releases, (if r₀.id = id then
            { r₀ with status := status, error := error, updatedAt := now } else r₀) = r := by
  by_cases hq : ∃ st, q = .sql st
  · obtain ⟨st, rfl⟩ := hq
    cases hf : o.fault with
    | some e => rw [perform_sql_fault hf]; exact .inl rfl
    | none =>
      rw [eventOf, perform_sql_ok hf]
      cases st with
      | insertRelease id projectId status message now =>
        obtain ⟨-, -, hs⟩ | ⟨hnew, hok, hmem⟩ :=
          insertRelease_cases s id projectId status message now
        · rw [hs]; exact .inl rfl
        · exact .inr (.inl ⟨_, by rw [hok], rfl, hnew, hmem⟩)
      | setReleaseStatus id status error now =>
        exact .inr (.inr ⟨id, status, error, now, _, rfl, fun r ↦ mem_releases_setReleaseStatus⟩)
      | _ => exact .inl rfl
  · exact .inl (perform_tables (fun st h ↦ hq ⟨st, h⟩) s).2.2.2

/-- A program of the server. -/
abbrev Task (α : Type) : Type := Prog Op Op.Reply α

/-- A program of the server that returns a `Result`. -/
abbrev Action (α : Type) : Type := ExceptT Error (Prog Op Op.Reply) α

end Railyard
