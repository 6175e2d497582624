import Railyard.Server.Invite

/-!
# Redeeming and minting when a statement fails

`Db.redeemInvite` and `mintInvite` write two tables in separate statements, with an error exit
after each and no transaction around them.  So whether a call that reports an error has left the
tables alone depends on where the error came: these are the exact conditions, statement by
statement (`redeemInvite_all_or_nothing_iff`, `mintInvite_all_or_nothing_iff`).

The `n`th operation of a run fails when `(w n).fault` is set.  `redeemInvite` issues its three
statements as operations 0, 1 and 2.
-/

set_option autoImplicit false

namespace Railyard

open Effects

/-- The two tables enrolment works on are the same before and after. -/
def TablesKept (s s' : Server) : Prop := s'.users = s.users ∧ s'.invites = s.invites

/-- There is an unredeemed invite for `tokenHash` that has not expired at `now`. -/
def Invites.Redeemable (invites : Invites) (tokenHash : String) (now : ℕ) : Prop :=
  ∃ i ∈ invites, i.Redeemable tokenHash now

/-! ## Redeeming -/

/-- The first statement of a redemption, when it does not fail. -/
abbrev Server.consume (s : Server) (tokenHash : String) (now : ℕ) : Server :=
  ((Stmt.consumeInvite tokenHash now).exec s).2

/-- Where no invite can be redeemed, the first statement changes nothing. -/
theorem consume_eq_self {s : Server} {tokenHash : String} {now : ℕ}
    (h : ¬ Invites.Redeemable s.invites tokenHash now) : s.consume tokenHash now = s := by
  have hnone : ∀ i ∈ s.invites, ¬ i.Redeemable tokenHash now := fun i hi hr ↦ h ⟨i, hi, hr⟩
  simp only [Server.consume, Stmt.exec]
  rw [Table.update_eq_self fun i hi hp ↦ absurd (of_decide_eq_true hp) (hnone i hi)]

/-- Where an invite can be redeemed, the first statement marks it. -/
theorem consume_invites_ne {s : Server} {tokenHash : String} {now : ℕ}
    (h : Invites.Redeemable s.invites tokenHash now) :
    (s.consume tokenHash now).invites ≠ s.invites := by
  obtain ⟨i, hi, hr⟩ := h
  intro he
  have hi' : i ∈ (s.consume tokenHash now).invites := he ▸ hi
  obtain ⟨i₀, -, hi₀⟩ := mem_invites_consumeInvite.mp hi'
  split at hi₀
  · have hnone := hr.2.1
    rw [← hi₀] at hnone
    cases hnone
  · rename_i hp
    subst hi₀
    exact hp hr

/-- The invite just marked is still found by its hash. -/
theorem exists_inviteUserId_reply {s : Server} {tokenHash : String} {now : ℕ}
    (h : Invites.Redeemable s.invites tokenHash now) :
    ∃ userId rest,
      ((Stmt.inviteUserId tokenHash).exec (s.consume tokenHash now)).1 = .ok (userId :: rest) := by
  obtain ⟨i, hi, hr⟩ := h
  have hmem : { i with redeemedAt := some now } ∈ (s.consume tokenHash now).invites :=
    mem_invites_consumeInvite.mpr ⟨i, hi, if_pos hr⟩
  obtain ⟨userIds, hu⟩ : ∃ userIds,
      ((Stmt.inviteUserId tokenHash).exec (s.consume tokenHash now)).1 = .ok userIds := ⟨_, rfl⟩
  have hin : i.userId ∈ userIds := (mem_inviteUserId_reply hu).mpr ⟨_, hmem, hr.1, rfl⟩
  obtain ⟨userId, rest, rfl⟩ := List.exists_cons_of_ne_nil (List.ne_nil_of_mem hin)
  exact ⟨userId, rest, hu⟩

/-- **When a redemption is all-or-nothing.**  A run of `redeemInvite` that returns an error has
left the tables alone, and a redeemable invite redeemable, exactly if the first statement failed,
or there was nothing to redeem, or neither of the two later statements failed. -/
theorem redeemInvite_all_or_nothing_iff (w : ℕ → Outside) (s : Server)
    (tokenHash publicKey : String) (now : ℕ) :
    (∀ e, ((Db.redeemInvite tokenHash publicKey now).run.run perform w s).1 = .error e →
      TablesKept s ((Db.redeemInvite tokenHash publicKey now).run.run perform w s).2 ∧
      (Invites.Redeemable s.invites tokenHash now → Invites.Redeemable
        ((Db.redeemInvite tokenHash publicKey now).run.run perform w s).2.invites tokenHash now)) ↔
      (w 0).fault ≠ none ∨ ¬ Invites.Redeemable s.invites tokenHash now ∨
        ((w 1).fault = none ∧ (w 2).fault = none) := by
  rw [Db.redeemInvite_run, Prog.run_op]
  cases h0 : (w 0).fault with
  | some e => simp [perform_sql_fault h0, TablesKept]
  | none =>
    rw [perform_sql_ok h0]
    by_cases hr : Invites.Redeemable s.invites tokenHash now
    · obtain ⟨n, hn⟩ : ∃ n, ((Stmt.consumeInvite tokenHash now).exec s).1 = .ok (n + 1) := by
        obtain ⟨i, hi, hri⟩ := hr
        refine Nat.exists_eq_succ_of_ne_zero (fun h ↦ ?_) |>.imp fun n hn ↦ congrArg Except.ok hn
        exact consumeInvite_reply_eq_zero.mp (congrArg Except.ok h) i hi hri
      have hne := consume_invites_ne hr
      simp only [hn, Prog.run_op]
      cases h1 : (w 1).fault with
      | some e => simp [perform_sql_fault h1, TablesKept, hne, hr]
      | none =>
        obtain ⟨userId, rest, hu⟩ := exists_inviteUserId_reply hr
        simp only [Nat.zero_add, perform_sql_ok h1, hu, Prog.run_op]
        cases h2 : (w 2).fault with
        | some e =>
          have hkeep : ((Stmt.inviteUserId tokenHash).exec (s.consume tokenHash now)).2
            = s.consume tokenHash now := rfl
          simp [perform_sql_fault h2, TablesKept, hkeep, hne, hr]
        | none =>
          obtain ⟨m, hm⟩ : ∃ m, ((Stmt.setPublicKey publicKey userId).exec
            ((Stmt.inviteUserId tokenHash).exec (s.consume tokenHash now)).2).1 = .ok m := ⟨_, rfl⟩
          simp [perform_sql_ok h2, hm]
    · have h0 := consumeInvite_reply_eq_zero.mpr fun i hi hri ↦ hr ⟨i, hi, hri⟩
      simp [h0, hr]

/-- A server with one user, invited and not enrolled yet. -/
def Server.invited : Server :=
  { Server.fresh with
    users := ⟨[⟨"usr_0", "alice", none, none, 0⟩], by decide⟩
    invites := ⟨[⟨"5f0d", "usr_0", 86400, none, 0⟩], by decide⟩ }

/-- An outside world in which the `n`th operation fails. -/
def failing (n : ℕ) : ℕ → Outside := fun m ↦
  if m = n then { fault := some "disk I/O error" } else {}

/-- The second statement of a redemption fails: the caller is told of an error, the invite is
spent, and trying again finds nothing to redeem. -/
theorem redeemInvite_spends_invite_on_error :
    ((Db.redeemInvite "5f0d" "key" 60).run.run perform (failing 1) Server.invited).1
        = .error "database error: disk I/O error" ∧
      ¬ TablesKept Server.invited
        ((Db.redeemInvite "5f0d" "key" 60).run.run perform (failing 1) Server.invited).2 ∧
      ((Db.redeemInvite "5f0d" "key" 61).run.run perform (fun _ ↦ {})
        ((Db.redeemInvite "5f0d" "key" 60).run.run perform (failing 1) Server.invited).2).1
        = .ok none := by
  refine ⟨by decide, fun h ↦ ?_, by decide⟩
  exact absurd (congrArg Table.rows h.2) (by decide)

/-! ## Minting

Once the two names are settled, the operations of a mint are the draw of the token (0), the clock
(1), the check of the name (2), the draw of the user id (3) and the two inserts (4 and 5). -/

variable (crates : Crates)

/-- The user row of a mint gets inserted: the name check finds nothing and neither statement
fails. -/
def UserInserted (v : ℕ → Outside) (s : Server) (name : String) : Prop :=
  (v 2).fault = none ∧ (v 4).fault = none ∧
    ∀ u ∈ s.users, u.name ≠ name ∧ u.id ≠ "usr_" ++ Encoding.hexEncode ((v 3).random .userId).val

/-- The invite row of a mint does not get inserted: the statement fails on its own, or the hash of
the token is taken. -/
def InviteRefused (v : ℕ → Outside) (s : Server) : Prop :=
  (v 5).fault ≠ none ∨
    ∃ i ∈ s.invites, i.tokenHash = tokenHash crates (crates.urlSafeNoPad ((v 0).random .token).val)

/-- A row inserted into `users` is a change of `users`. -/
theorem insertUser_users_ne {s : Server} {userId name : String} {projectId : Option String}
    {now : ℕ} (h : ((Stmt.insertUser userId name projectId now).exec s).1 = .ok 1) :
    ((Stmt.insertUser userId name projectId now).exec s).2.users ≠ s.users := by
  obtain ⟨-, ⟨e, he⟩, -⟩ | ⟨hnew, -, hmem⟩ :=
    insertUser_cases s userId name projectId now
  · rw [he] at h; cases h
  · intro heq
    have hin : (⟨userId, name, none, projectId, now⟩ : UserRow) ∈ s.users :=
      heq ▸ (hmem _).mpr (.inr rfl)
    exact (hnew _ hin).1 rfl


theorem mintRows_all_or_nothing_iff (v : ℕ → Outside) (s : Server)
    (serverUrl serverName name : String) (project : Option InviteProject) :
    ((∀ minted, ((mintRows crates serverUrl serverName name project).run perform v s).1
        ≠ .ok (some minted)) →
      TablesKept s ((mintRows crates serverUrl serverName name project).run perform v s).2) ↔
      ¬ (UserInserted v s name ∧ InviteRefused crates v s) := by
  simp only [mintRows, Prog.run_op, perform_fillBytes, perform_unixTimestamp, UserInserted,
    InviteRefused, Nat.reduceAdd, Nat.zero_add]
  cases h2 : (v 2).fault with
  | some e => simp [perform_sql_fault h2, TablesKept]
  | none =>
    rw [perform_sql_ok h2]
    obtain ⟨userIds, hu⟩ : ∃ userIds,
      ((Stmt.userIdByName name).exec s).1 = .ok userIds := ⟨_, rfl⟩
    have hmem := fun userId ↦ (mem_userIdByName_reply hu : userId ∈ userIds ↔ _)
    have hkeep : ((Stmt.userIdByName name).exec s).2 = s := rfl
    rw [hu, hkeep]
    rcases userIds with _ | ⟨userId, rest⟩
    · have hfree : ∀ u ∈ s.users, u.name ≠ name := fun u hin hn ↦
        List.not_mem_nil ((hmem u.id).mpr ⟨u, hin, hn, rfl⟩)
      simp only [Prog.run_op, perform_fillBytes, Nat.reduceAdd, Nat.zero_add]
      generalize hid : "usr_" ++ Encoding.hexEncode ((v 3).random .userId).val = userId
      cases h4 : (v 4).fault with
      | some e => simp [perform_sql_fault h4, TablesKept]
      | none =>
        rw [perform_sql_ok h4]
        generalize project.map InviteProject.id = projectId
        generalize (v 1).now = now
        obtain ⟨⟨u, hin, htaken⟩, ⟨e, he⟩, hs⟩ | ⟨hnew, hok, -⟩ :=
          insertUser_cases s userId name projectId now
        · have hnot : ¬ ∀ u ∈ s.users, u.name ≠ name ∧ u.id ≠ userId := fun h ↦
            htaken.elim (h u hin).2 (h u hin).1
          simp [he, hs, TablesKept, hnot]
        · rw [iff_true_intro fun u hu ↦ (hnew u hu).symm]
          have hne := insertUser_users_ne hok
          simp only [hok, Prog.run_op, Nat.reduceAdd, Nat.zero_add]
          cases h5 : (v 5).fault with
          | some e => simp [perform_sql_fault h5, TablesKept, hne]
          | none =>
            rw [perform_sql_ok h5]
            -- the insert into `users` has not touched `invites`
            generalize hs' : ((Stmt.insertUser userId name projectId now).exec s).2 = s' at hne
            have hinv : s'.invites = s.invites := by rw [← hs']; rfl
            rw [← hinv]
            generalize tokenHash crates (crates.urlSafeNoPad ((v 0).random .token).val) = hash
            obtain ⟨htaken, ⟨e, he⟩, hkept⟩ | ⟨hfresh, hok, -⟩ :=
              insertInvite_cases s' hash userId (now + inviteTtlSeconds) now
            · simp [he, hkept, TablesKept, hne, htaken]
            · have hnot : ¬ ∃ i ∈ s'.invites, i.tokenHash = hash := fun ⟨i, hi, h⟩ ↦ hfresh i hi h
              simp [hok, hnot]
    · obtain ⟨u, hin, hn, -⟩ := (hmem userId).mp List.mem_cons_self
      have htaken : ¬ ∀ u ∈ s.users, u.name ≠ name ∧
          u.id ≠ "usr_" ++ Encoding.hexEncode ((v 3).random .userId).val :=
        fun h ↦ (h u hin).1 hn
      simp [TablesKept, htaken]

/-- **When a mint is all-or-nothing.**  A run of `mintInvite` that does not mint, with an error or
because the name is taken, has left the tables alone, except exactly when both names pass, the
user row gets inserted and the invite row does not. -/
theorem mintInvite_all_or_nothing_iff (w : ℕ → Outside) (s : Server) (serverUrl name : String)
    (project : Option InviteProject) :
    ((∀ minted, ((mintInvite crates serverUrl name project).run.run perform w s).1
        ≠ .ok (some minted)) →
      TablesKept s ((mintInvite crates serverUrl name project).run.run perform w s).2) ↔
      ¬ (validatedName name = .ok name ∧
        (∃ serverName', (serverName.run.run perform w s).1 = .ok serverName') ∧
        UserInserted (fun n ↦ w (n + serverName.run.steps perform w s)) s name ∧
        InviteRefused crates (fun n ↦ w (n + serverName.run.steps perform w s)) s) := by
  rw [mintInvite_run]
  cases hname : validatedName name with
  | error e => simp [TablesKept]
  | ok name' =>
    rw [validatedName_eq hname]
    simp only [Prog.run_bind, serverName_state]
    cases (serverName.run.run perform w s).1 with
    | error e => simp [TablesKept]
    | ok serverName' =>
      simpa using mintRows_all_or_nothing_iff crates _ s serverUrl serverName' name project

/-- The insert of the invite fails: the caller is told of an error, the user row stays, and
minting again under the same name is a conflict. -/
theorem mintInvite_strands_user_on_error :
    ((mintInvite .sample "http://railyard" "bob" none).run.run perform (failing 7) .fresh).1
        = .error "database error: disk I/O error" ∧
      ¬ TablesKept .fresh
        ((mintInvite .sample "http://railyard" "bob" none).run.run perform (failing 7) .fresh).2 ∧
      ((mintInvite .sample "http://railyard" "bob" none).run.run perform (fun _ ↦ {})
        ((mintInvite .sample "http://railyard" "bob" none).run.run perform (failing 7) .fresh).2).1
        = .ok none := by
  refine ⟨by rfl, fun h ↦ ?_, by rfl⟩
  exact absurd (congrArg Table.rows h.1) (by decide)

end Railyard
