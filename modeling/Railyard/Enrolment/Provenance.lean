import Railyard.Server.Calls

/-!
# Where rows come from

Every row of `users` and `invites` was inserted by some call in the pool, and what a statement
replied was in the tables when it ran.  These facts speak about what has been done (`Conf.Did`)
and so hold on, whatever the other calls do next.

* `insertUser_unique`, `insertUser_not_pending`: an id is inserted by the call that drew it, once.
* `users_inserted`, `invites_inserted`: every row was inserted.
* `Minted` is an invite that was inserted; `minted_unique_token` and `minted_unique_user` say that
  the token's hash and the user each determine it, where nobody inserts invites but mints.
-/

set_option autoImplicit false

namespace Railyard

open Effects Prog

variable {crates : Crates} {adm : Pool → Act Outside Call → Prop} {c c' : Pool}

/-! ## Users -/

/-- Who has inserted a user has drawn its id. -/
theorem insertUser_drawn (h : Reaches perform (Call.prog crates) adm ⟨.fresh, []⟩ c) {i : ℕ}
    {userId name : String} {projectId : Option String} {now : ℕ}
    {r : Op.Reply (.sql (.insertUser userId name projectId now))} (hd : c.Did i ⟨_, r⟩) :
    ∃ e, c.Did i e ∧ drawnUserId e = some userId := by
  obtain ⟨t, τ₁, τ₂, k, hi, hτ, hk⟩ := h.issued hd
  obtain ⟨⟨e, he, hdr⟩, -⟩ := (Call.pending hk).insertUser
  exact ⟨e, ⟨t, hi, by rw [hτ]; exact List.mem_append_left _ he⟩, hdr⟩

/-- Two insertions of one user id are one event of one call. -/
theorem insertUser_unique (h : Reaches perform (Call.prog crates) adm ⟨.fresh, []⟩ c)
    (hfresh : ∀ c a, adm c a → FreshUserIds c a) {i j : ℕ} {userId name name' : String}
    {projectId projectId' : Option String} {now now' : ℕ}
    {r : Op.Reply (.sql (.insertUser userId name projectId now))}
    {r' : Op.Reply (.sql (.insertUser userId name' projectId' now'))}
    (hi : c.Did i ⟨_, r⟩) (hj : c.Did j ⟨_, r'⟩) :
    i = j ∧ (⟨_, r⟩ : Event Op Op.Reply) = ⟨_, r'⟩ := by
  obtain ⟨e, hei, he⟩ := insertUser_drawn h hi
  obtain ⟨e', hej, he'⟩ := insertUser_drawn h hj
  obtain ⟨rfl, -⟩ := h.unique_key hfresh hei hej he he'
  obtain ⟨t, ht, hm⟩ := hi
  obtain ⟨t', ht', hm'⟩ := hj
  cases ht.symm.trans ht'
  refine ⟨rfl, After.once (P := fun e ↦ ∃ userId name projectId now,
    e.1 = .sql (.insertUser userId name projectId now)) ?_ (h.after t (List.mem_of_getElem? ht))
    hm hm' ⟨_, _, _, _, rfl⟩ ⟨_, _, _, _, rfl⟩⟩
  rintro τ ⟨q, r⟩ k hk ⟨u, n, p, w, rfl⟩ e he ⟨u', n', p', w', he'⟩
  exact (Call.pending hk).insertUser.2 e he u' n' p' w' he'

/-- An id that has been inserted is not about to be inserted again. -/
theorem insertUser_not_pending (h : Reaches perform (Call.prog crates) adm ⟨.fresh, []⟩ c)
    (hfresh : ∀ c a, adm c a → FreshUserIds c a) {i j : ℕ} {userId name name' : String}
    {projectId projectId' : Option String} {now now' : ℕ}
    {r : Op.Reply (.sql (.insertUser userId name projectId now))} (hi : c.Did i ⟨_, r⟩)
    {t : Thread Call Op Op.Reply Outcome} (hj : c.threads[j]? = some t)
    {k : Op.Reply (.sql (.insertUser userId name' projectId' now')) → Task Outcome}
    (hk : t.code = .op _ k) : False := by
  have ha := h.after t (List.mem_of_getElem? hj)
  rw [hk] at ha
  obtain ⟨⟨e, he, hdr⟩, hnone⟩ := (Call.pending ha).insertUser
  obtain ⟨e', hei, hdr'⟩ := insertUser_drawn h hi
  obtain ⟨rfl, -⟩ := h.unique_key hfresh hei ⟨t, hj, he⟩ hdr' hdr
  obtain ⟨t', ht', hm⟩ := hi
  cases hj.symm.trans ht'
  exact hnone _ hm _ _ _ _ rfl

/-- Every user has been inserted. -/
theorem users_inserted (h : Reaches perform (Call.prog crates) adm ⟨.fresh, []⟩ c) :
    ∀ u ∈ c.shared.users, ∃ i,
      c.Did i ⟨.sql (.insertUser u.id u.name u.projectId u.createdAt), .ok 1⟩ := by
  refine h.invariant (I := fun c ↦ ∀ u ∈ c.shared.users, ∃ i,
      c.Did i ⟨.sql (.insertUser u.id u.name u.projectId u.createdAt), .ok 1⟩)
    (fun u hu ↦ absurd hu List.not_mem_nil) ?_
  intro c₁ c₂ a _ hI _ hs u hu
  obtain ⟨call, rfl, rfl⟩ | ⟨i, o, t, q, k, rfl, hi, hk, rfl⟩ := Conf.step_eq_some _ _ hs
  · obtain ⟨i, hd⟩ := hI u hu
    exact ⟨i, hd.step hs⟩
  · rcases perform_users hu with hu | ⟨he, -⟩ | ⟨u₀, hu₀, publicKey, m, -, rfl⟩
    · obtain ⟨j, hd⟩ := hI u hu
      exact ⟨j, hd.step hs⟩
    · exact ⟨i, (Conf.did_advance hi).mpr (.inr ⟨rfl, he.symm⟩)⟩
    · obtain ⟨j, hd⟩ := hI u₀ hu₀
      exact ⟨j, hd.step hs⟩

theorem drawnUserId_eq_some {e : Event Op Op.Reply} {userId : String}
    (h : drawnUserId e = some userId) : ∃ bs, userId = "usr_" ++ Encoding.hexEncode bs := by
  unfold drawnUserId at h
  split at h
  · exact ⟨_, (Option.some.inj h).symm⟩
  · cases h

/-- Every user has an id of the one form. -/
theorem userId_form (h : Reaches perform (Call.prog crates) adm ⟨.fresh, []⟩ c) :
    ∀ u ∈ c.shared.users, ∃ bs, u.id = "usr_" ++ Encoding.hexEncode bs := by
  intro u hu
  obtain ⟨i, hins⟩ := users_inserted h u hu
  obtain ⟨e, -, he⟩ := insertUser_drawn h hins
  exact drawnUserId_eq_some he

/-- A user id that was looked up had been inserted. -/
theorem lookup_inserted (h : Reaches perform (Call.prog crates) adm ⟨.fresh, []⟩ c) {i : ℕ}
    {name userId : String} {rest : List String}
    (hd : c.Did i ⟨.sql (.userIdByName name), .ok (userId :: rest)⟩) :
    ∃ j name' projectId now, c.Did j ⟨.sql (.insertUser userId name' projectId now), .ok 1⟩ := by
  refine h.since (ψ := fun c ↦ ∃ j name' projectId now,
    c.Did j ⟨.sql (.insertUser userId name' projectId now), .ok 1⟩) hd ?_ ?_
  · rintro c₁ c₂ a hs ⟨j, name', projectId, now, hd⟩
    exact ⟨j, name', projectId, now, hd.step hs⟩
  · intro c₁ c₂ a o q hr hs _ he
    obtain ⟨rfl, hreply⟩ := eventOf_eq he
    obtain ⟨-, hrows⟩ := perform_sql_eq_ok hreply
    obtain ⟨u, hu, -, rfl⟩ := (mem_userIdByName_reply hrows).mp List.mem_cons_self
    obtain ⟨j, hd⟩ := users_inserted hr u hu
    exact ⟨j, _, _, _, hd.step hs⟩


/-! ## Invites -/

/-- Thread `i` has inserted this invite. -/
def Minted (c : Pool) (i : ℕ) (tokenHash userId : String) (expiresAt now : ℕ) : Prop :=
  c.Did i ⟨.sql (.insertInvite tokenHash userId expiresAt now), .ok 1⟩

theorem Minted.step {a : Act Outside Call} (hs : c.step perform (Call.prog crates) a = some c')
    {i : ℕ} {tokenHash userId : String} {expiresAt now : ℕ}
    (h : Minted c i tokenHash userId expiresAt now) : Minted c' i tokenHash userId expiresAt now :=
  Conf.Did.step hs h

/-- Every invite has been inserted. -/
theorem invites_inserted (h : Reaches perform (Call.prog crates) adm ⟨.fresh, []⟩ c) :
    ∀ v ∈ c.shared.invites, ∃ i, Minted c i v.tokenHash v.userId v.expiresAt v.createdAt := by
  refine h.invariant (I := fun c ↦ ∀ v ∈ c.shared.invites, ∃ i,
    Minted c i v.tokenHash v.userId v.expiresAt v.createdAt)
    (fun v hv ↦ absurd hv List.not_mem_nil) ?_
  intro c₁ c₂ a _ hI _ hs v hv
  obtain ⟨call, rfl, rfl⟩ | ⟨i, o, t, q, k, rfl, hi, hk, rfl⟩ := Conf.step_eq_some _ _ hs
  · obtain ⟨i, hd⟩ := hI v hv
    exact ⟨i, hd.step hs⟩
  · rcases perform_invites hv with hv | ⟨he, -⟩ | ⟨v₀, hv₀, now, -, -, rfl⟩
    · obtain ⟨j, hd⟩ := hI v hv
      exact ⟨j, hd.step hs⟩
    · exact ⟨i, (Conf.did_advance hi).mpr (.inr ⟨rfl, he.symm⟩)⟩
    · obtain ⟨j, hd⟩ := hI v₀ hv₀
      exact ⟨j, hd.step hs⟩

/-- A consumed invite had been inserted, and had not expired. -/
theorem consume_minted (h : Reaches perform (Call.prog crates) adm ⟨.fresh, []⟩ c) {i : ℕ}
    {tokenHash : String} {now n : ℕ}
    (hd : c.Did i ⟨.sql (.consumeInvite tokenHash now), .ok (n + 1)⟩) :
    ∃ j userId expiresAt now', Minted c j tokenHash userId expiresAt now' ∧ now < expiresAt := by
  refine h.since (ψ := fun c ↦ ∃ j userId expiresAt now',
    Minted c j tokenHash userId expiresAt now' ∧ now < expiresAt) hd ?_ ?_
  · rintro c₁ c₂ a hs ⟨j, userId, expiresAt, now', hd, hlt⟩
    exact ⟨j, userId, expiresAt, now', hd.step hs, hlt⟩
  · intro c₁ c₂ a o q hr hs _ he
    obtain ⟨rfl, hreply⟩ := eventOf_eq he
    obtain ⟨-, hn⟩ := perform_sql_eq_ok hreply
    obtain ⟨v, hv, hred⟩ := exists_redeemable hn
    obtain ⟨rfl, -, hlt⟩ := hred
    obtain ⟨j, hd⟩ := invites_inserted hr v hv
    exact ⟨j, _, _, _, hd.step hs, hlt⟩

/-- A user found by the hash of an invite is the user of an invite that had been inserted. -/
theorem inviteUserId_minted (h : Reaches perform (Call.prog crates) adm ⟨.fresh, []⟩ c) {i : ℕ}
    {tokenHash userId : String} {rest : List String}
    (hd : c.Did i ⟨.sql (.inviteUserId tokenHash), .ok (userId :: rest)⟩) :
    ∃ j expiresAt now, Minted c j tokenHash userId expiresAt now := by
  refine h.since (ψ := fun c ↦ ∃ j expiresAt now, Minted c j tokenHash userId expiresAt now) hd
    ?_ ?_
  · rintro c₁ c₂ a hs ⟨j, expiresAt, now, hd⟩
    exact ⟨j, expiresAt, now, hd.step hs⟩
  · intro c₁ c₂ a o q hr hs _ he
    obtain ⟨rfl, hreply⟩ := eventOf_eq he
    obtain ⟨-, hrows⟩ := perform_sql_eq_ok hreply
    obtain ⟨v, hv, rfl, rfl⟩ := (mem_inviteUserId_reply hrows).mp List.mem_cons_self
    obtain ⟨j, hd⟩ := invites_inserted hr v hv
    exact ⟨j, _, _, hd.step hs⟩

/-! ### Invites of mints

From here on no invite is inserted but by a mint. -/

/-- Not a bare `createInvite`, which no handler makes. -/
def Call.Whole : Call → Prop
  | createInvite .. => False
  | _ => True

instance : DecidablePred Call.Whole
  | .createInvite .. => .isFalse id
  | .mintInvite .. | .createUser .. | .redeemInvite .. | .removeUser _ | .checkedRequest _ =>
    .isTrue trivial

/-- What a mint has done before it inserted the invite. -/
theorem Minted.mint (h : Reaches perform (Call.prog crates) adm ⟨.fresh, []⟩ c)
    (hwhole : ∀ c call, adm c (.spawn call) → call.Whole) {i : ℕ} {tokenHash userId : String}
    {expiresAt now : ℕ} (hm : Minted c i tokenHash userId expiresAt now) :
    (∃ e, c.Did i e ∧ drawnToken crates e = some tokenHash) ∧
      (∃ e, c.Did i e ∧ drawnUserId e = some userId) ∧
      (∃ name projectId n, c.Did i ⟨.sql (.insertUser userId name projectId now), .ok n⟩) ∧
      expiresAt = now + inviteTtlSeconds := by
  obtain ⟨t, τ₁, τ₂, k, hi, hτ, hk⟩ := h.issued hm
  have hin : ∀ e ∈ τ₁, c.Did i e := fun e he ↦ ⟨t, hi, by rw [hτ]; exact List.mem_append_left _ he⟩
  rcases (Call.pending hk).insertInvite with hcall | ⟨⟨e, he, htok⟩, ⟨e', he', hid⟩,
    ⟨name, projectId, n, hu⟩, hexp, -⟩
  · exact absurd (h.calls hwhole t (List.mem_of_getElem? hi)) (by rw [hcall]; exact id)
  · exact ⟨⟨e, hin e he, htok⟩, ⟨e', hin e' he', hid⟩, ⟨name, projectId, n, hin _ hu⟩, hexp⟩

/-- A call mints once. -/
theorem Minted.once (h : Reaches perform (Call.prog crates) adm ⟨.fresh, []⟩ c)
    (hwhole : ∀ c call, adm c (.spawn call) → call.Whole) {i : ℕ}
    {tokenHash tokenHash' userId userId' : String} {expiresAt expiresAt' now now' : ℕ}
    (hm : Minted c i tokenHash userId expiresAt now)
    (hm' : Minted c i tokenHash' userId' expiresAt' now') :
    tokenHash' = tokenHash ∧ userId' = userId ∧ expiresAt' = expiresAt := by
  obtain ⟨t, hi, he⟩ := hm
  obtain ⟨t', hi', he'⟩ := hm'
  cases hi.symm.trans hi'
  have hcall := h.calls hwhole t (List.mem_of_getElem? hi)
  have heq := After.once (P := fun e ↦ ∃ tokenHash userId expiresAt now,
    e.1 = .sql (.insertInvite tokenHash userId expiresAt now)) (fun τ e k hk hP e' he' hP' ↦ ?_)
    (h.after t (List.mem_of_getElem? hi)) he he' ⟨_, _, _, _, rfl⟩ ⟨_, _, _, _, rfl⟩
  · cases heq; exact ⟨rfl, rfl, rfl⟩
  · obtain ⟨_, _, _, _, hq⟩ := hP
    obtain ⟨_, _, _, _, hq'⟩ := hP'
    have hp := Call.pending hk
    rw [hq] at hp
    rcases hp.insertInvite with hc | ⟨-, -, -, -, hnone⟩
    · rw [hc] at hcall; exact hcall
    · exact hnone e' he' _ _ _ _ hq'

/-- The hash of the token determines the invite. -/
theorem minted_unique_token (h : Reaches perform (Call.prog crates) adm ⟨.fresh, []⟩ c)
    (hwhole : ∀ c call, adm c (.spawn call) → call.Whole)
    (htokens : ∀ c a, adm c a → FreshTokens crates c a) {i j : ℕ}
    {tokenHash userId userId' : String} {expiresAt expiresAt' now now' : ℕ}
    (hm : Minted c i tokenHash userId expiresAt now)
    (hm' : Minted c j tokenHash userId' expiresAt' now') :
    j = i ∧ userId' = userId ∧ expiresAt' = expiresAt := by
  obtain ⟨⟨e, hd, he⟩, -⟩ := hm.mint h hwhole
  obtain ⟨⟨e', hd', he'⟩, -⟩ := hm'.mint h hwhole
  obtain ⟨rfl, -⟩ := h.unique_key htokens hd hd' he he'
  exact ⟨rfl, (hm.once h hwhole hm').2⟩

/-- The user determines the invite. -/
theorem minted_unique_user (h : Reaches perform (Call.prog crates) adm ⟨.fresh, []⟩ c)
    (hwhole : ∀ c call, adm c (.spawn call) → call.Whole)
    (hids : ∀ c a, adm c a → FreshUserIds c a) {i j : ℕ}
    {tokenHash tokenHash' userId : String} {expiresAt expiresAt' now now' : ℕ}
    (hm : Minted c i tokenHash userId expiresAt now)
    (hm' : Minted c j tokenHash' userId expiresAt' now') :
    j = i ∧ tokenHash' = tokenHash ∧ expiresAt' = expiresAt := by
  obtain ⟨-, ⟨e, hd, he⟩, -⟩ := hm.mint h hwhole
  obtain ⟨-, ⟨e', hd', he'⟩, -⟩ := hm'.mint h hwhole
  obtain ⟨rfl, -⟩ := h.unique_key hids hd hd' he he'
  exact ⟨rfl, (hm.once h hwhole hm').1, (hm.once h hwhole hm').2.2⟩

/-- The hash of an invite that has been inserted is not about to be inserted again. -/
theorem insertInvite_not_pending (h : Reaches perform (Call.prog crates) adm ⟨.fresh, []⟩ c)
    (hwhole : ∀ c call, adm c (.spawn call) → call.Whole)
    (htokens : ∀ c a, adm c a → FreshTokens crates c a) {i j : ℕ}
    {tokenHash userId userId' : String} {expiresAt expiresAt' now now' : ℕ}
    (hm : Minted c i tokenHash userId expiresAt now) {t : Thread Call Op Op.Reply Outcome}
    (hj : c.threads[j]? = some t)
    {k : Op.Reply (.sql (.insertInvite tokenHash userId' expiresAt' now')) → Task Outcome}
    (hk : t.code = .op _ k) : False := by
  have ha := h.after t (List.mem_of_getElem? hj)
  rw [hk] at ha
  rcases (Call.pending ha).insertInvite with hc | ⟨⟨e, he, htok⟩, -, -, -, hnone⟩
  · exact absurd (h.calls hwhole t (List.mem_of_getElem? hj)) (by rw [hc]; exact id)
  · obtain ⟨⟨e', hd, htok'⟩, -⟩ := hm.mint h hwhole
    obtain ⟨rfl, -⟩ := h.unique_key htokens hd ⟨t, hj, he⟩ htok' htok
    obtain ⟨t', hi, hmem⟩ := hm
    cases hj.symm.trans hi
    exact hnone _ hmem _ _ _ _ rfl

end Railyard
