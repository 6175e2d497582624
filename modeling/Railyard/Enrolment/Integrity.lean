import Railyard.Enrolment.Redemption

/-!
# When invites dangle

Nothing in the schema ties `invites` to `users`.  What keeps a row of the one from pointing at no
row of the other is the order of the statements: a mint inserts the user first, a removal deletes
the invites first.  That is enough wherever no removal falls between the two statements of the mint
whose user it removes (`Sparing`), and not otherwise: `invite_dangles`.

* `Intact` is what the two tables owe each other.
* `Completed` says once what a call that returned has done, none of its statements having failed.
* `minting_spared` and `invites_spared`: in a sparing run nobody has deleted the invites of a user
  who is still being minted, or who has an invite.
* `redemption_followed`: behind a redeemed invite stands the redemption that consumed it.
-/

set_option autoImplicit false

namespace Railyard

open Effects Prog

variable {crates : Crates} {c c' : Pool}

/-- Every invite has its user, and every user without a key has an invite to get one with. -/
structure Intact (s : Server) : Prop where
  owned : ∀ v ∈ s.invites, ∃ u ∈ s.users, u.id = v.userId
  invited : ∀ u ∈ s.users, u.publicKey = none →
    ∃ v ∈ s.invites, v.userId = u.id ∧ v.redeemedAt = none

/-- No call is in flight. -/
def Quiescent (c : Pool) : Prop := ∀ t ∈ c.threads, ∃ a, t.Returned a

instance (t : Thread Call Op Op.Reply Outcome) : Decidable (∃ a, t.Returned a) :=
  match h : t.code with
  | .ret a => .isTrue ⟨a, h⟩
  | .op _ _ => .isFalse fun ⟨_, ha⟩ ↦ nomatch h.symm.trans ha

instance (c : Pool) : Decidable (Quiescent c) :=
  inferInstanceAs (Decidable (∀ t ∈ c.threads, _))

/-! ## The runs -/

/-- One of the three calls that mint, redeem and remove. -/
def Call.Enrols : Call → Prop
  | mintInvite .. | redeemInvite .. | removeUser _ => True
  | _ => False

instance : DecidablePred Call.Enrols
  | .mintInvite .. | .redeemInvite .. | .removeUser _ => .isTrue trivial
  | .createUser .. | .createInvite .. | .checkedRequest _ => .isFalse id

theorem Call.Enrols.whole {call : Call} (h : call.Enrols) : call.Whole := by
  cases call with
  | createInvite => exact h.elim
  | _ => trivial

/-- A statement that failed. -/
def statementFailed : Event Op Op.Reply → Bool
  | ⟨.sql _, .error _⟩ => true
  | _ => false

/-- The user a statement inserted. -/
def insertedUser : Event Op Op.Reply → Option String
  | ⟨.sql (.insertUser userId _ _ _), .ok _⟩ => some userId
  | _ => none

/-- The user a statement inserted an invite for. -/
def invitedUser : Event Op Op.Reply → Option String
  | ⟨.sql (.insertInvite _ userId _ _), .ok _⟩ => some userId
  | _ => none

/-- The user a statement deleted the invites of. -/
def uninvitedUser : Event Op Op.Reply → Option String
  | ⟨.sql (.deleteInvitesOf userId), .ok _⟩ => some userId
  | _ => none

/-- Thread `t` has inserted the row of the user, and not yet an invite for it. -/
def Minting (t : Thread Call Op Op.Reply Outcome) (userId : String) : Prop :=
  (∃ e ∈ t.trace, insertedUser e = some userId) ∧ ∀ e ∈ t.trace, invitedUser e ≠ some userId

instance (t : Thread Call Op Op.Reply Outcome) (userId : String) : Decidable (Minting t userId) :=
  inferInstanceAs (Decidable (_ ∧ _))

/-- Only mints, redemptions and removals start, and no statement fails. -/
def Enrolment (c : Pool) (a : Act Outside Call) : Prop :=
  a.Starts Call.Enrols ∧ ∀ e ∈ c.event? perform a, statementFailed e = false

/-- User ids are new when drawn, and no removal deletes the invites of a user who is being
minted. -/
def Sparing (c : Pool) (a : Act Outside Call) : Prop :=
  FreshUserIds c a ∧ ∀ e ∈ c.event? perform a, ∀ userId ∈ uninvitedUser e, ∀ t ∈ c.threads,
    ¬ Minting t userId

instance (c : Pool) (a : Act Outside Call) : Decidable (Enrolment c a) :=
  inferInstanceAs (Decidable (_ ∧ _))

instance (c : Pool) (a : Act Outside Call) : Decidable (Sparing c a) :=
  inferInstanceAs (Decidable (_ ∧ _))

/-- `c` is reached from an empty database by calls of enrolment that spare each other. -/
abbrev Spared (crates : Crates) (c : Pool) : Prop :=
  Reaches perform (Call.prog crates) (fun c a ↦ Enrolment c a ∧ Sparing c a) ⟨.fresh, []⟩ c

theorem Spared.calls (h : Spared crates c) : ∀ t ∈ c.threads, t.call.Enrols :=
  Reaches.calls h fun _ _ ha ↦ ha.1.1

/-- What has been done, has not failed. -/
theorem Spared.unfailing (h : Spared crates c) {i : ℕ} {e : Event Op Op.Reply} (hd : c.Did i e) :
    statementFailed e = false := by
  refine h.did (φ := fun _ _ e ↦ statementFailed e = false)
    (fun _ _ _ _ _ _ _ _ _ hφ ↦ hφ) ?_ i e hd
  intro c₁ c₂ i o t q k _ ha hi hk _
  exact ha.1.2 _ (Conf.event?_step hi hk)

/-! ## What a call that returned has done -/

variable (crates) in
/-- `Completed crates call τ`: `call` has returned, and `τ` is what it has done, none of its
statements having failed. -/
inductive Completed : Call → List (Event Op Op.Reply) → Prop
  | mintUnnamed {serverUrl name : String} {project : Option InviteProject}
      {τ : List (Event Op Op.Reply)} (hτ : NameLookups τ) :
      Completed (.mintInvite serverUrl name project) τ
  | mintTaken {serverUrl name userId : String} {rest : List String}
      {project : Option InviteProject} {τ : List (Event Op Op.Reply)} (hτ : NameLookups τ)
      {bs : Op.Reply (.fillBytes .token)} {now : ℕ} :
      Completed (.mintInvite serverUrl name project)
        (τ ++ [⟨.fillBytes .token, bs⟩, ⟨.unixTimestamp, now⟩,
          ⟨.sql (.userIdByName name), .ok (userId :: rest)⟩])
  | mintInvite {serverUrl name : String} {project : Option InviteProject}
      {τ : List (Event Op Op.Reply)} (hτ : NameLookups τ) {bs : Op.Reply (.fillBytes .token)}
      {bs' : Op.Reply (.fillBytes .userId)} {now n m : ℕ} :
      Completed (.mintInvite serverUrl name project)
        (τ ++ [⟨.fillBytes .token, bs⟩, ⟨.unixTimestamp, now⟩,
          ⟨.sql (.userIdByName name), .ok []⟩, ⟨.fillBytes .userId, bs'⟩,
          ⟨.sql (.insertUser ("usr_" ++ Encoding.hexEncode bs'.val) name
            (project.map InviteProject.id) now), .ok n⟩,
          ⟨.sql (.insertInvite (tokenHash crates (crates.urlSafeNoPad bs.val))
            ("usr_" ++ Encoding.hexEncode bs'.val) (now + inviteTtlSeconds) now), .ok m⟩])
  | redeemNothing {tokenHash publicKey : String} {now : ℕ} :
      Completed (.redeemInvite tokenHash publicKey now)
        [⟨.sql (.consumeInvite tokenHash now), .ok 0⟩]
  | redeemVanished {tokenHash publicKey : String} {now n : ℕ} :
      Completed (.redeemInvite tokenHash publicKey now)
        [⟨.sql (.consumeInvite tokenHash now), .ok (n + 1)⟩,
          ⟨.sql (.inviteUserId tokenHash), .ok []⟩]
  | redeemInvite {tokenHash publicKey userId : String} {rest : List String} {now n m : ℕ} :
      Completed (.redeemInvite tokenHash publicKey now)
        [⟨.sql (.consumeInvite tokenHash now), .ok (n + 1)⟩,
          ⟨.sql (.inviteUserId tokenHash), .ok (userId :: rest)⟩,
          ⟨.sql (.setPublicKey publicKey userId), .ok m⟩]
  | removeNothing {name : String} :
      Completed (.removeUser name) [⟨.sql (.userIdByName name), .ok []⟩]
  | removeUser {name userId : String} {rest : List String} {n m : ℕ} :
      Completed (.removeUser name)
        [⟨.sql (.userIdByName name), .ok (userId :: rest)⟩,
          ⟨.sql (.deleteInvitesOf userId), .ok n⟩, ⟨.sql (.deleteUser userId), .ok m⟩]

section Completed

variable {τ : List (Event Op Op.Reply)}

theorem no_error (hok : ∀ e ∈ τ, statementFailed e = false) {st : Stmt} {e : Error} :
    (⟨.sql st, .error e⟩ : Event Op Op.Reply) ∉ τ := fun h ↦ nomatch hok _ h

theorem completed_mintInvite {serverUrl name : String} {project : Option InviteProject}
    {r : Except Error (Option MintedInvite)}
    (h : After (Railyard.mintInvite crates serverUrl name project).run τ (.ret r))
    (hok : ∀ e ∈ τ, statementFailed e = false) :
    Completed crates (.mintInvite serverUrl name project) τ := by
  rw [mintInvite_run] at h
  cases hname : validatedName name with
  | error e =>
    rw [hname] at h
    obtain ⟨rfl, -⟩ := after_ret.mp h
    exact .mintUnnamed (by simp [NameLookups])
  | ok name' =>
    rw [hname, validatedName_eq hname] at h
    obtain ⟨q', k', -, hq⟩ | ⟨r, τ, τ', rfl, hx, h₁⟩ := after_bind h
    · cases hq
    have hτ := (after_serverName hx).1
    cases r with
    | error e =>
      obtain ⟨rfl, -⟩ := after_ret.mp h₁
      rw [List.append_nil]
      exact .mintUnnamed hτ
    | ok serverName =>
      obtain ⟨bs, τ₁, rfl, h₂⟩ := after_op_ret h₁
      obtain ⟨now, τ₂, rfl, h₃⟩ := after_op_ret h₂
      obtain ⟨r, τ₃, rfl, h₄⟩ := after_op_ret h₃
      rcases r with e | _ | ⟨u, us⟩
      · exact (no_error hok (List.mem_append_right _ (List.mem_of_getElem? (i := 2) rfl))).elim
      · obtain ⟨bs', τ₄, rfl, h₅⟩ := after_op_ret h₄
        obtain ⟨r, τ₅, rfl, h₆⟩ := after_op_ret h₅
        rcases r with e | n
        · exact (no_error hok (List.mem_append_right _ (List.mem_of_getElem? (i := 4) rfl))).elim
        · obtain ⟨r, τ₆, rfl, h₇⟩ := after_op_ret h₆
          rcases r with e | m
          · exact (no_error hok
              (List.mem_append_right _ (List.mem_of_getElem? (i := 5) rfl))).elim
          · obtain ⟨rfl, -⟩ := after_ret.mp h₇
            exact .mintInvite hτ
      · obtain ⟨rfl, -⟩ := after_ret.mp h₄
        exact .mintTaken hτ

theorem completed_redeemInvite {tokenHash publicKey : String} {now : ℕ}
    {r : Except Error (Option String)}
    (h : After (Db.redeemInvite tokenHash publicKey now).run τ (.ret r))
    (hok : ∀ e ∈ τ, statementFailed e = false) :
    Completed crates (.redeemInvite tokenHash publicKey now) τ := by
  rw [Db.redeemInvite_run] at h
  obtain ⟨r, τ₁, rfl, h₁⟩ := after_op_ret h
  rcases r with e | _ | n
  · exact (no_error hok (.head _)).elim
  · obtain ⟨rfl, -⟩ := after_ret.mp h₁
    exact .redeemNothing
  · obtain ⟨r, τ₂, rfl, h₂⟩ := after_op_ret h₁
    rcases r with e | _ | ⟨u, us⟩
    · exact (no_error hok (.tail _ (.head _))).elim
    · obtain ⟨rfl, -⟩ := after_ret.mp h₂
      exact .redeemVanished
    · obtain ⟨r, τ₃, rfl, h₃⟩ := after_op_ret h₂
      rcases r with e | m
      · exact (no_error hok (.tail _ (.tail _ (.head _)))).elim
      · obtain ⟨rfl, -⟩ := after_ret.mp h₃
        exact .redeemInvite

theorem completed_removeUser {name : String} {r : Except Error Bool}
    (h : After (Db.removeUser name).run τ (.ret r)) (hok : ∀ e ∈ τ, statementFailed e = false) :
    Completed crates (.removeUser name) τ := by
  rw [Db.removeUser_run] at h
  obtain ⟨r, τ₁, rfl, h₁⟩ := after_op_ret h
  rcases r with e | _ | ⟨u, us⟩
  · exact (no_error hok (.head _)).elim
  · obtain ⟨rfl, -⟩ := after_ret.mp h₁
    exact .removeNothing
  · obtain ⟨r, τ₂, rfl, h₂⟩ := after_op_ret h₁
    rcases r with e | n
    · exact (no_error hok (.tail _ (.head _))).elim
    · obtain ⟨r, τ₃, rfl, h₃⟩ := after_op_ret h₂
      rcases r with e | m
      · exact (no_error hok (.tail _ (.tail _ (.head _)))).elim
      · obtain ⟨rfl, -⟩ := after_ret.mp h₃
        exact .removeUser

/-- **What a call that returned has done**, if no statement of it failed. -/
theorem Call.completed {call : Call} (hcall : call.Enrols) {a : Outcome}
    (h : After (call.prog crates) τ (.ret a)) (hok : ∀ e ∈ τ, statementFailed e = false) :
    Completed crates call τ := by
  cases call with
  | mintInvite => exact completed_mintInvite (after_map_ret h).choose_spec.1 hok
  | redeemInvite => exact completed_redeemInvite (after_map_ret h).choose_spec.1 hok
  | removeUser => exact completed_removeUser (after_map_ret h).choose_spec.1 hok
  | _ => exact hcall.elim

end Completed

/-- A mint that inserted a user has inserted an invite for the user. -/
theorem Completed.invited {call : Call} {τ : List (Event Op Op.Reply)}
    (h : Completed crates call τ) {e : Event Op Op.Reply} {userId : String} (he : e ∈ τ)
    (hins : insertedUser e = some userId) : ∃ e ∈ τ, invitedUser e = some userId := by
  have hnot : ∀ {τ}, NameLookups τ → e ∉ τ := fun hτ he ↦ by
    obtain ⟨q, r⟩ := e
    rcases hτ _ he with rfl | rfl <;> cases hins
  cases h with
  | mintUnnamed hτ => exact absurd he (hnot hτ)
  | mintTaken hτ =>
    rcases List.mem_append.mp he with he | he
    · exact absurd he (hnot hτ)
    simp only [List.mem_cons, List.not_mem_nil, or_false] at he
    rcases he with rfl | rfl | rfl <;> cases hins
  | mintInvite hτ =>
    rcases List.mem_append.mp he with he | he
    · exact absurd he (hnot hτ)
    simp only [List.mem_cons, List.not_mem_nil, or_false] at he
    rcases he with rfl | rfl | rfl | rfl | rfl | rfl <;> cases hins
    exact ⟨_, List.mem_append_right _ (List.mem_of_getElem? (i := 5) rfl), rfl⟩
  | redeemInvite | removeUser =>
    simp only [List.mem_cons, List.not_mem_nil, or_false] at he
    rcases he with rfl | rfl | rfl <;> cases hins
  | redeemVanished =>
    simp only [List.mem_cons, List.not_mem_nil, or_false] at he
    rcases he with rfl | rfl <;> cases hins
  | redeemNothing | removeNothing =>
    obtain rfl := List.mem_singleton.mp he
    cases hins

/-- A removal that deleted the invites of a user has deleted the user. -/
theorem Completed.removed {call : Call} {τ : List (Event Op Op.Reply)}
    (h : Completed crates call τ) {userId : String} {n : ℕ}
    (hdel : ⟨.sql (.deleteInvitesOf userId), .ok n⟩ ∈ τ) :
    ∃ m, ⟨.sql (.deleteUser userId), .ok m⟩ ∈ τ := by
  cases h with
  | mintUnnamed hτ => rcases hτ _ hdel with h | h <;> cases h
  | mintTaken hτ | mintInvite hτ =>
    rcases List.mem_append.mp hdel with hdel | hdel
    · rcases hτ _ hdel with h | h <;> cases h
    · simp at hdel
  | removeUser =>
    simp at hdel
    obtain ⟨rfl, -⟩ := hdel
    exact ⟨_, List.mem_of_getElem? (i := 2) rfl⟩
  | _ => simp at hdel

/-! ## No invite is deleted under a mint -/

/-- The invites of a user are deleted by a removal that has looked the user up. -/
theorem Pending.deleteInvitesOf {call : Call} {τ : List (Event Op Op.Reply)} {userId : String}
    (h : Pending crates call τ (.sql (.deleteInvitesOf userId))) :
    ∃ name rest, call = .removeUser name ∧
      τ = [⟨.sql (.userIdByName name), .ok (userId :: rest)⟩] := by
  cases h with
  | mintName hτ hq => simp at hq
  | removeInvites => exact ⟨_, _, rfl, rfl⟩

variable {adm : Pool → Act Outside Call → Prop}

/-- A user whose invites were deleted had been inserted. -/
theorem deleteInvitesOf_inserted (h : Reaches perform (Call.prog crates) adm ⟨.fresh, []⟩ c)
    {i : ℕ} {userId : String} {r : Op.Reply (.sql (.deleteInvitesOf userId))}
    (hd : c.Did i ⟨_, r⟩) :
    ∃ j name projectId now, c.Did j ⟨.sql (.insertUser userId name projectId now), .ok 1⟩ := by
  obtain ⟨t, τ₁, τ₂, k, hi, hτ, hk⟩ := h.issued hd
  obtain ⟨name, rest, -, rfl⟩ := (Call.pending hk).deleteInvitesOf
  exact lookup_inserted h ⟨t, hi, by rw [hτ]; exact List.mem_cons_self⟩

theorem insertedUser_eq_some {e : Event Op Op.Reply} {userId : String}
    (h : insertedUser e = some userId) :
    ∃ name projectId now n, e = ⟨.sql (.insertUser userId name projectId now), .ok n⟩ := by
  unfold insertedUser at h
  split at h
  · cases h; exact ⟨_, _, _, _, rfl⟩
  · cases h

/-- A thread that is minting after a step was minting before, or has just inserted the user. -/
theorem minting_advance {t : Thread Call Op Op.Reply Outcome} {q : Op} {r : q.Reply}
    {p : Task Outcome} {userId : String} (h : Minting (t.advance q r p) userId) :
    Minting t userId ∨ insertedUser ⟨q, r⟩ = some userId := by
  obtain ⟨⟨e, he, hins⟩, hnone⟩ := h
  rcases List.mem_append.mp he with he | he
  · exact .inl ⟨⟨e, he, hins⟩, fun e he ↦ hnone e (List.mem_append_left _ he)⟩
  · obtain rfl := List.mem_singleton.mp he
    exact .inr hins

/-- **No removal deletes the invites of a user who is being minted.** -/
theorem minting_spared (h : Spared crates c) : ∀ t ∈ c.threads, ∀ userId, Minting t userId →
    ∀ j m, ¬ c.Did j ⟨.sql (.deleteInvitesOf userId), .ok m⟩ := by
  refine h.invariant (I := fun c ↦ ∀ t ∈ c.threads, ∀ userId, Minting t userId →
    ∀ j m, ¬ c.Did j ⟨.sql (.deleteInvitesOf userId), .ok m⟩) (by simp) ?_
  intro c₁ c₂ a hr hI ha hs t ht userId hm j m hd
  obtain ⟨call, rfl, rfl⟩ | ⟨i, o, t₀, q, k, rfl, hi, hk, rfl⟩ := Conf.step_eq_some _ _ hs
  · rcases List.mem_append.mp ht with ht | ht
    · exact hI t ht userId hm j m (Conf.did_spawn.mp hd)
    · obtain rfl := List.mem_singleton.mp ht
      obtain ⟨e, he, -⟩ := hm.1
      cases he
  · have hbefore : (∃ t' ∈ c₁.threads, Minting t' userId) ∨
        insertedUser (eventOf o q c₁.shared) = some userId := by
      rcases List.mem_or_eq_of_mem_set ht with ht | rfl
      · exact .inl ⟨t, ht, hm⟩
      · exact (minting_advance hm).imp (fun hm ↦ ⟨t₀, List.mem_of_getElem? hi, hm⟩) id
    rcases (Conf.did_advance hi).mp hd with hd' | ⟨-, he⟩
    · rcases hbefore with ⟨t', ht', hm'⟩ | hins
      · exact hI t' ht' userId hm' j m hd'
      · -- the user whose invites are gone had been inserted, and is not inserted again
        obtain ⟨name, projectId, now, n, he⟩ := insertedUser_eq_some hins
        obtain ⟨rfl, -⟩ := eventOf_eq he
        obtain ⟨l, _, _, _, hins⟩ := deleteInvitesOf_inserted hr hd'
        exact insertUser_not_pending hr (fun _ _ ha ↦ ha.2.1) hins hi hk
    · rcases hbefore with ⟨t', ht', hm'⟩ | hins
      · exact ha.2.2 _ (Conf.event?_step hi hk) userId (by rw [← he]; rfl) t' ht' hm'
      · rw [eventOf, ← he] at hins
        cases hins

/-- A mint that is about to insert the invite is minting. -/
theorem Pending.minting {t : Thread Call Op Op.Reply Outcome} (hcall : t.call.Enrols)
    {tokenHash userId : String} {expiresAt now : ℕ}
    (h : Pending crates t.call t.trace (.sql (.insertInvite tokenHash userId expiresAt now))) :
    Minting t userId := by
  rcases h.insertInvite with hc | ⟨-, -, ⟨name, projectId, n, hin⟩, -, hnone⟩
  · rw [hc] at hcall
    exact hcall.elim
  · refine ⟨⟨_, hin, rfl⟩, ?_⟩
    rintro ⟨q, r⟩ he hinv
    unfold invitedUser at hinv
    split at hinv
    · rename_i heq
      cases heq
      exact hnone _ he _ _ _ _ rfl
    · cases hinv

/-- **No removal has deleted the invites of a user who has one.** -/
theorem invites_spared (h : Spared crates c) : ∀ v ∈ c.shared.invites,
    ∀ j m, ¬ c.Did j ⟨.sql (.deleteInvitesOf v.userId), .ok m⟩ := by
  refine h.invariant (I := fun c ↦ ∀ v ∈ c.shared.invites,
    ∀ j m, ¬ c.Did j ⟨.sql (.deleteInvitesOf v.userId), .ok m⟩)
    (fun v hv ↦ absurd hv List.not_mem_nil) ?_
  intro c₁ c₂ a hr hI _ hs v hv j m hd
  obtain ⟨call, rfl, rfl⟩ | ⟨i, o, t, q, k, rfl, hi, hk, rfl⟩ := Conf.step_eq_some _ _ hs
  · exact hI v hv j m (Conf.did_spawn.mp hd)
  rcases (Conf.did_advance hi).mp hd with hd' | ⟨-, he⟩
  · rcases perform_invites hv with hv | ⟨he, -⟩ | ⟨v₀, hv₀, now, -, -, rfl⟩
    · exact hI v hv j m hd'
    · obtain ⟨rfl, -⟩ := eventOf_eq he
      have ha := hr.after t (List.mem_of_getElem? hi)
      rw [hk] at ha
      have hm := (Call.pending ha).minting (Spared.calls hr t (List.mem_of_getElem? hi))
      exact minting_spared hr t (List.mem_of_getElem? hi) _ hm j m hd'
    · exact hI v₀ hv₀ j m hd'
  · obtain ⟨rfl, hreply⟩ := eventOf_eq he.symm
    obtain ⟨hex, -⟩ := perform_sql_eq_ok hreply
    rw [hex] at hv
    exact (mem_invites_deleteInvitesOf.mp hv).2 rfl

/-- In a sparing run every invite has its user, whatever is in flight. -/
theorem owned_of_spared (h : Spared crates c) :
    ∀ v ∈ c.shared.invites, ∃ u ∈ c.shared.users, u.id = v.userId := by
  intro v hv
  obtain ⟨i, hm⟩ := invites_inserted h v hv
  obtain ⟨-, -, ⟨name, projectId, n, hins⟩, -⟩ := hm.mint h fun _ _ ha ↦ Call.Enrols.whole ha.1.1
  rcases inserted_or_deleted h hins with hu | ⟨j, m, hdel⟩
  · exact hu
  · obtain ⟨t, τ₁, τ₂, k, hj, hτ, hk⟩ := h.issued hdel
    obtain ⟨name, rest, n, -, rfl⟩ := (Call.pending hk).deleteUser
    exact absurd ⟨t, hj, by rw [hτ]; simp⟩ (invites_spared h v hv j n)

/-! ## Behind a redeemed invite stands a redemption -/

/-- An invite is consumed by a redemption of its hash, as its first statement. -/
theorem Pending.consumeInvite {call : Call} {τ : List (Event Op Op.Reply)} {tokenHash : String}
    {now : ℕ} (h : Pending crates call τ (.sql (.consumeInvite tokenHash now))) :
    τ = [] ∧ ∃ publicKey, call = .redeemInvite tokenHash publicKey now := by
  cases h with
  | mintName hτ hq => simp at hq
  | redeemConsume => exact ⟨rfl, _, rfl⟩

/-- Thread `t` is the redemption that consumed `v`, and the user it has found for the hash, if it
has looked already, is the user of `v`. -/
structure ConsumedBy (v : InviteRow) (t : Thread Call Op Op.Reply Outcome) : Prop where
  consumed : ∃ publicKey now n, t.call = .redeemInvite v.tokenHash publicKey now ∧
    ⟨.sql (.consumeInvite v.tokenHash now), .ok (n + 1)⟩ ∈ t.trace
  found : ∀ userIds, ⟨.sql (.inviteUserId v.tokenHash), .ok userIds⟩ ∈ t.trace →
    ∃ rest, userIds = v.userId :: rest

/-- Looking up the hash of an invite that is there finds its user. -/
theorem inviteUserId_of_mem {s : Server} {v : InviteRow} (hv : v ∈ s.invites)
    {userIds : List String} (h : ((Stmt.inviteUserId v.tokenHash).exec s).1 = .ok userIds) :
    ∃ rest, userIds = v.userId :: rest := by
  cases userIds with
  | nil => exact absurd ((mem_inviteUserId_reply h).mpr ⟨v, hv, rfl, rfl⟩) List.not_mem_nil
  | cons userId rest =>
    obtain ⟨v', hv', htok, rfl⟩ := (mem_inviteUserId_reply h).mp List.mem_cons_self
    rw [s.invites.eq_of_key (List.mem_singleton_self _) hv' hv htok]
    exact ⟨rest, rfl⟩

/-- A redemption stays the one that consumed the invite, while the invite is there. -/
theorem ConsumedBy.advance {v : InviteRow} {t : Thread Call Op Op.Reply Outcome}
    (h : ConsumedBy v t) {o : Outside} {q : Op} {s : Server} (hv : v ∈ s.invites)
    {p : Task Outcome} : ConsumedBy v (t.advance q (perform o q s).1 p) := by
  obtain ⟨publicKey, now, n, hcall, hin⟩ := h.consumed
  refine ⟨⟨publicKey, now, n, hcall, List.mem_append_left _ hin⟩, fun userIds hfound ↦ ?_⟩
  rcases List.mem_append.mp hfound with hfound | hfound
  · exact h.found userIds hfound
  · obtain ⟨rfl, hreply⟩ := eventOf_eq (List.mem_singleton.mp hfound).symm
    obtain ⟨-, hrows⟩ := perform_sql_eq_ok hreply
    exact inviteUserId_of_mem hv hrows

/-- **Behind a redeemed invite stands the redemption that consumed it.** -/
theorem redemption_followed (h : Spared crates c) : ∀ v ∈ c.shared.invites, v.redeemedAt ≠ none →
    ∃ t ∈ c.threads, ConsumedBy v t := by
  refine h.invariant (I := fun c ↦ ∀ v ∈ c.shared.invites, v.redeemedAt ≠ none →
    ∃ t ∈ c.threads, ConsumedBy v t) (fun v hv ↦ absurd hv List.not_mem_nil) ?_
  intro c₁ c₂ a hr hI hadm hs v hv hred
  obtain ⟨call, rfl, rfl⟩ | ⟨i, o, t₀, q, k, rfl, hi, hk, rfl⟩ := Conf.step_eq_some _ _ hs
  · obtain ⟨t, ht, hby⟩ := hI v hv hred
    exact ⟨t, List.mem_append_left _ ht, hby⟩
  rcases perform_invites hv with hold | ⟨-, hnone⟩ | ⟨v₀, hv₀, now, rfl, hr₀, rfl⟩
  · obtain ⟨t, ht, hby⟩ := hI v hold hred
    rcases mem_set_or_eq hi ht with ht | rfl
    · exact ⟨t, ht, hby⟩
    · exact ⟨_, List.mem_set (List.getElem?_eq_some_iff.mp hi).1 _, hby.advance hold⟩
  · exact absurd hnone hred
  · have ha := hr.after t₀ (List.mem_of_getElem? hi)
    rw [hk] at ha
    obtain ⟨hτ, publicKey, hcall⟩ := (Call.pending ha).consumeInvite
    -- the statement marked this row, so it replied with a count that is not zero
    obtain ⟨n, hn⟩ : ∃ n, (perform o (.sql (.consumeInvite v₀.tokenHash now)) c₁.shared).1
        = .ok (n + 1) := by
      have hok := hadm.1.2 _ (Conf.event?_step hi hk)
      cases hreply : (perform o (.sql (.consumeInvite v₀.tokenHash now)) c₁.shared).1 with
      | error e => rw [hreply] at hok; cases hok
      | ok n =>
        obtain ⟨-, hcount⟩ := perform_sql_eq_ok hreply
        cases n with
        | zero => exact absurd hr₀ (consumeInvite_reply_eq_zero.mp hcount v₀ hv₀)
        | succ n => exact ⟨n, rfl⟩
    refine ⟨_, List.mem_set (List.getElem?_eq_some_iff.mp hi).1 _,
      ⟨publicKey, now, n, hcall, ?_⟩, fun userIds hfound ↦ ?_⟩
    · rw [Thread.advance, hτ, hn]
      exact List.mem_singleton_self _
    · rw [Thread.advance, hτ] at hfound
      cases List.mem_singleton.mp hfound

/-- Once a key has been written for a user, the user has a key. -/
theorem setPublicKey_keyed (h : Spared crates c) {i m : ℕ} {publicKey userId : String}
    (hd : c.Did i ⟨.sql (.setPublicKey publicKey userId), .ok m⟩) :
    ∀ u ∈ c.shared.users, u.id = userId → u.publicKey ≠ none := by
  refine h.did (φ := fun c _ e ↦ e = ⟨.sql (.setPublicKey publicKey userId), .ok m⟩ →
    ∀ u ∈ c.shared.users, u.id = userId → u.publicKey ≠ none) ?_ ?_ i _ hd rfl
  · rintro c₁ c₂ a i e hr - hs hd hφ rfl u hu rfl
    have hkeyed := hφ rfl
    obtain ⟨call, rfl, rfl⟩ | ⟨j, o, t, q, k, rfl, hj, hk, rfl⟩ := Conf.step_eq_some _ _ hs
    · exact hkeyed u hu rfl
    · rcases perform_users hu with hu | ⟨he, -⟩ | ⟨u₀, hu₀, publicKey', m, -, rfl⟩
      · exact hkeyed u hu rfl
      · -- the user had been inserted, by the mint of the invite that was redeemed
        obtain ⟨rfl, -⟩ := eventOf_eq he
        obtain ⟨t', τ₁, τ₂, k', hi, hτ, hk'⟩ := hr.issued hd
        obtain ⟨tokenHash, now, n, rest, -, rfl⟩ := (Call.pending hk').setPublicKey
        obtain ⟨l, expiresAt, now', hm⟩ := inviteUserId_minted hr
          (⟨t', hi, by rw [hτ]; simp⟩ :
            c₁.Did i ⟨.sql (.inviteUserId tokenHash), .ok (u.id :: rest)⟩)
        obtain ⟨-, -, ⟨_, _, _, hins⟩, -⟩ :=
          hm.mint hr fun _ _ ha ↦ Call.Enrols.whole ha.1.1
        exact (insertUser_not_pending hr (fun _ _ ha ↦ ha.2.1) hins hj hk).elim
      · exact Option.some_ne_none publicKey'
  · rintro c₁ c₂ i o t q k - - hi hk rfl he u hu hid
    obtain ⟨rfl, hreply⟩ := eventOf_eq he
    obtain ⟨hex, -⟩ := perform_sql_eq_ok hreply
    rw [hex] at hu
    obtain ⟨u₀, -, hu₀⟩ := mem_users_setPublicKey.mp hu
    split at hu₀
    · rw [← hu₀]; exact Option.some_ne_none publicKey
    · rename_i hne
      subst hu₀
      exact absurd hid hne

/-! ## Every run -/

/-- The invite of a user is there, or a removal has deleted it. -/
theorem invited_or_uninvited (h : Reaches perform (Call.prog crates) adm ⟨.fresh, []⟩ c) {i n : ℕ}
    {tokenHash userId : String} {expiresAt now : ℕ}
    (hd : c.Did i ⟨.sql (.insertInvite tokenHash userId expiresAt now), .ok n⟩) :
    (∃ v ∈ c.shared.invites, v.userId = userId) ∨
      ∃ j m, c.Did j ⟨.sql (.deleteInvitesOf userId), .ok m⟩ := by
  have hlasts := h.lasts (P := fun s ↦ ∃ v ∈ s.invites, v.userId = userId)
    (D := fun e ↦ ∃ m, e = ⟨.sql (.deleteInvitesOf userId), .ok m⟩) hd ?_ ?_
  · obtain hkept | ⟨j, e, hdel, m, rfl⟩ := hlasts
    · exact .inl hkept
    · exact .inr ⟨j, m, hdel⟩
  · rintro o q s ⟨v, hv, rfl⟩
    exact perform_invites_keeps hv
  · intro o q s he
    obtain ⟨rfl, hreply⟩ := eventOf_eq he
    obtain ⟨hex, hok⟩ := perform_sql_eq_ok hreply
    obtain ⟨-, ⟨e, herr⟩, -⟩ | ⟨-, -, hmem⟩ := insertInvite_cases s tokenHash userId expiresAt now
    · rw [herr] at hok; cases hok
    · exact ⟨_, by rw [hex]; exact (hmem _).mpr (.inr rfl), rfl⟩

/-- A call of a quiescent state has done all it does. -/
theorem Spared.completed (h : Spared crates c) (hq : Quiescent c)
    {t : Thread Call Op Op.Reply Outcome} {i : ℕ} (hi : c.threads[i]? = some t) :
    Completed crates t.call t.trace := by
  have ht := List.mem_of_getElem? hi
  obtain ⟨a, hret⟩ := hq t ht
  have hafter := h.after t ht
  rw [hret] at hafter
  exact Call.completed (h.calls t ht) hafter fun e he ↦ h.unfailing ⟨t, hi, he⟩

/-- When nothing is in flight, every user has an invite row, redeemed or not. -/
theorem exists_invite_of_spared (h : Spared crates c) (hq : Quiescent c) :
    ∀ u ∈ c.shared.users, ∃ v ∈ c.shared.invites, v.userId = u.id := by
  intro u hu
  obtain ⟨i, t, hi, hins⟩ := users_inserted h u hu
  obtain ⟨e, he, hinv⟩ := (h.completed hq hi).invited hins rfl
  obtain ⟨tokenHash, expiresAt, now, n, rfl⟩ : ∃ tokenHash expiresAt now n,
      e = ⟨.sql (.insertInvite tokenHash u.id expiresAt now), .ok n⟩ := by
    unfold invitedUser at hinv
    split at hinv
    · cases hinv; exact ⟨_, _, _, _, rfl⟩
    · cases hinv
  rcases invited_or_uninvited h ⟨t, hi, he⟩ with hv | ⟨j, m, t', hj, hdel⟩
  · exact hv
  · obtain ⟨m', hdel'⟩ := (h.completed hq hj).removed hdel
    exact absurd rfl (deleteUser_gone h (fun _ _ ha ↦ ha.2.1) ⟨t', hj, hdel'⟩ u hu)

/-- When nothing is in flight, a user whose invite is redeemed has a key. -/
theorem keyed_of_redeemed (h : Spared crates c) (hq : Quiescent c) {v : InviteRow}
    (hv : v ∈ c.shared.invites) (hred : v.redeemedAt ≠ none) :
    ∀ u ∈ c.shared.users, u.id = v.userId → u.publicKey ≠ none := by
  obtain ⟨t, ht, ⟨publicKey, now, n, hcall, hconsumed⟩, hfound⟩ := redemption_followed h v hv hred
  obtain ⟨i, hi⟩ := List.mem_iff_getElem?.mp ht
  have hdone := h.completed hq hi
  rw [hcall] at hdone
  generalize hτ : t.trace = τ at hdone hconsumed hfound
  cases hdone with
  | redeemNothing => cases List.mem_singleton.mp hconsumed
  | redeemVanished =>
    obtain ⟨rest, hrows⟩ := hfound [] (List.mem_of_getElem? (i := 1) rfl)
    cases hrows
  | redeemInvite =>
    obtain ⟨rest, hrows⟩ := hfound _ (List.mem_of_getElem? (i := 1) rfl)
    cases hrows
    exact setPublicKey_keyed h ⟨t, hi, by rw [hτ]; exact List.mem_of_getElem? (i := 2) rfl⟩

/-- **When invites do not dangle.**  In every run of mints, redemptions and removals in which user
ids are new when drawn, no statement fails, and no removal deletes the invites of a user between
the two inserts of the mint, the tables are intact whenever no call is in flight. -/
theorem intact_of_spared (h : Spared crates c) (hq : Quiescent c) : Intact c.shared := by
  refine ⟨owned_of_spared h, fun u hu hkey ↦ ?_⟩
  obtain ⟨v, hv, hid⟩ := exists_invite_of_spared h hq u hu
  refine ⟨v, hv, hid, ?_⟩
  by_contra hred
  exact keyed_of_redeemed h hq hv hred u hu hid.symm hkey

/-- Bob is invited, enrols and is removed, and then ann is invited. -/
def oneAfterTheOther : List (Act Outside Call) :=
  callAlone 0 (.mintInvite "http://railyard" "bob" none) 8 {} ++
    callAlone 1 (.redeemInvite (Encoding.hexEncode zeroTokenDigest) "key" 60) 3 {} ++
    callAlone 2 (.removeUser "bob") 3 {} ++
    callAlone 3 (.mintInvite "http://railyard" "ann" none) 8 (drawing 1)

theorem intact_of_spared_oneAfterTheOther :
    ∃ c ∈ (⟨.fresh, []⟩ : Pool).run? perform (Call.prog .sample) oneAfterTheOther,
      Intact c.shared ∧ c.shared.users.rows.map UserRow.publicKey = [none] := by
  have hadm : (⟨.fresh, []⟩ : Pool).Admits perform (Call.prog .sample)
    (fun c a ↦ Enrolment c a ∧ Sparing c a) oneAfterTheOther := by decide +kernel
  refine ⟨_, rfl, intact_of_spared (Reaches.of_run? oneAfterTheOther rfl hadm) ?_, rfl⟩
  decide +kernel

/-- Bob is removed while the mint that invites him has inserted the user and not yet the invite. -/
def removedWhileMinted : List (Act Outside Call) :=
  callAlone 0 (.mintInvite "http://railyard" "bob" none) 7 {} ++
    callAlone 1 (.removeUser "bob") 3 {} ++ [.step 0 {}]

/-- Every statement succeeds, nothing is in flight, and there is an invite without a user. -/
theorem invite_dangles :
    (⟨.fresh, []⟩ : Pool).Admits perform (Call.prog .sample)
      (fun c a ↦ FreshUserIds c a ∧ Enrolment c a) removedWhileMinted ∧
    ∃ c ∈ (⟨.fresh, []⟩ : Pool).run? perform (Call.prog .sample) removedWhileMinted,
      Quiescent c ∧ ¬ Intact c.shared := by
  refine ⟨by decide +kernel, _, rfl, ?_, fun h ↦ ?_⟩
  · decide +kernel
  · obtain ⟨u, hu, -⟩ := h.owned _ List.mem_cons_self
    cases hu

end Railyard
