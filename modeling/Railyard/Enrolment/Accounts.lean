import Railyard.Effects.Alone
import Railyard.Enrolment.Blob
import Railyard.Enrolment.SingleUse

/-!
# Users and their tokens

What a client can rely on that was handed an invite: the token in it belongs to one user, the one
the mint inserted, and it is that user's only token.

* `perform_users_cases`: everything an operation can do to the users;
* `Invited` is a user with the token its mint drew, and each of the two determines the other
  (`Invited.token_eq`, `Invited.user_eq`);
* `Issued` is an invite as it is read off a blob that a mint returned, and `Issued.invited` says
  that it names the user of its token;
* `Spent` is a user whose invite has been consumed.
-/

set_option autoImplicit false

namespace Railyard

open Effects Prog

/-! ## What becomes of the users -/

/-- Users stay as they are, or one is inserted, given a key, or deleted. -/
theorem perform_users_cases (o : Outside) (q : Op) (s : Server) :
    (∀ u, u ∈ (perform o q s).2.users ↔ u ∈ s.users) ∨
      (∃ userId name projectId now,
        eventOf o q s = ⟨.sql (.insertUser userId name projectId now), .ok 1⟩ ∧
          (∀ u ∈ s.users, u.id ≠ userId) ∧
          ∀ u, u ∈ (perform o q s).2.users ↔
            u ∈ s.users ∨ u = ⟨userId, name, none, projectId, now⟩) ∨
      (∃ publicKey userId m, eventOf o q s = ⟨.sql (.setPublicKey publicKey userId), .ok m⟩ ∧
        ∀ u, u ∈ (perform o q s).2.users ↔ ∃ u₀ ∈ s.users,
          (if u₀.id = userId then { u₀ with publicKey := some publicKey } else u₀) = u) ∨
      ∃ userId m, eventOf o q s = ⟨.sql (.deleteUser userId), .ok m⟩ ∧
        ∀ u, u ∈ (perform o q s).2.users ↔ u ∈ s.users ∧ u.id ≠ userId := by
  by_cases hq : ∃ st, q = .sql st
  · obtain ⟨st, rfl⟩ := hq
    cases hf : o.fault with
    | some e => rw [perform_sql_fault hf]; exact .inl fun u ↦ Iff.rfl
    | none =>
      rw [eventOf, perform_sql_ok hf]
      cases st with
      | insertUser userId name projectId now =>
        obtain ⟨-, -, hs⟩ | ⟨hnew, hok, hmem⟩ := insertUser_cases s userId name projectId now
        · rw [hs]; exact .inl fun u ↦ Iff.rfl
        · exact .inr (.inl ⟨_, _, _, _, by rw [hok], fun u hu ↦ (hnew u hu).1, hmem⟩)
      | setPublicKey publicKey userId =>
        exact .inr (.inr (.inl ⟨_, _, _, rfl, fun u ↦ mem_users_setPublicKey⟩))
      | deleteUser userId =>
        exact .inr (.inr (.inr ⟨_, _, rfl, fun u ↦ mem_users_deleteUser⟩))
      | _ => exact .inl fun u ↦ Iff.rfl
  · rw [(perform_tables (fun st h ↦ hq ⟨st, h⟩) s).1]
    exact .inl fun u ↦ Iff.rfl

/-! ## Calls of the API -/

/-- A call that some handler makes, where the server's URL satisfies `leads`. -/
def Call.Handled (leads : String → Prop) : Call → Prop
  | mintInvite serverUrl .. => leads serverUrl
  | createUser .. | createInvite .. => False
  | redeemInvite .. | removeUser _ | checkedRequest _ => True

instance {leads : String → Prop} [DecidablePred leads] : DecidablePred (Call.Handled leads)
  | .mintInvite serverUrl .. => inferInstanceAs (Decidable (leads serverUrl))
  | .createUser .. | .createInvite .. => .isFalse id
  | .redeemInvite .. | .removeUser _ | .checkedRequest _ => .isTrue trivial

variable {crates : Crates} {c c' : Pool} {call : Call} {τ : List (Event Op Op.Reply)}

/-- A token is drawn by a mint, once. -/
theorem Pending.fillToken (h : Pending crates call τ (.fillBytes .token)) :
    ∀ e ∈ τ, e.1 ≠ .fillBytes .token := by
  cases h with
  | mintName hτ hq => simp at hq
  | mintToken hτ =>
    intro e he
    rcases hτ e he with h | h <;> simp [h]

/-- A mint has drawn the token by the time it inserts the user. -/
theorem Pending.insertUser_mint {leads : String → Prop} (hcall : call.Handled leads)
    {userId name : String} {projectId : Option String} {now : ℕ}
    (h : Pending crates call τ (.sql (.insertUser userId name projectId now))) :
    ∃ bs, (⟨.fillBytes .token, bs⟩ : Event Op Op.Reply) ∈ τ := by
  cases h with
  | mintName hτ hq => simp at hq
  | mintUser hτ => exact ⟨_, List.mem_append_right _ List.mem_cons_self⟩
  | createUser => exact hcall.elim

/-! ## A user and its token -/

/-- Thread `i` has drawn the token, and has inserted the user. -/
structure Invited (crates : Crates) (c : Pool) (i : ℕ) (token userId : String) : Prop where
  drew : ∃ bs, c.Did i ⟨.fillBytes .token, bs⟩ ∧ token = crates.urlSafeNoPad bs.val
  inserted : ∃ name projectId now n,
    c.Did i ⟨.sql (.insertUser userId name projectId now), .ok n⟩

variable {i j : ℕ} {token token' userId userId' : String}

theorem Invited.mono (hdid : ∀ i e, c.Did i e → c'.Did i e)
    (h : Invited crates c i token userId) : Invited crates c' i token userId := by
  obtain ⟨⟨bs, hbs, htoken⟩, name, projectId, now, n, hins⟩ := h
  exact ⟨⟨bs, hdid _ _ hbs, htoken⟩, name, projectId, now, n, hdid _ _ hins⟩

/-- The hash of the token is what the thread drew. -/
theorem Invited.drawn (h : Invited crates c i token userId) :
    ∃ e, c.Did i e ∧ drawnToken crates e = some (tokenHash crates token) := by
  obtain ⟨⟨bs, hbs, rfl⟩, -⟩ := h
  exact ⟨_, hbs, rfl⟩

/-- A thread draws one token. -/
theorem token_drawn_once (h : Enrolled crates c) {bs bs' : Op.Reply (.fillBytes .token)}
    (hi : c.Did i ⟨_, bs⟩) (hi' : c.Did i ⟨_, bs'⟩) : bs = bs' := by
  obtain ⟨t, ht, hm⟩ := hi
  obtain ⟨t', ht', hm'⟩ := hi'
  cases ht.symm.trans ht'
  have hsame := After.once (P := fun e : Event Op Op.Reply ↦ e.1 = .fillBytes .token) ?_
    (h.after t (List.mem_of_getElem? ht)) hm hm' rfl rfl
  · exact eq_of_heq (Sigma.mk.inj hsame).2
  · rintro τ ⟨q, r⟩ k hk rfl e he
    exact (Call.pending hk).fillToken e he

/-- A thread inserts one user. -/
theorem user_inserted_once (h : Enrolled crates c) {name name' : String}
    {projectId projectId' : Option String} {now now' : ℕ}
    {r : Op.Reply (.sql (.insertUser userId name projectId now))}
    {r' : Op.Reply (.sql (.insertUser userId' name' projectId' now'))}
    (hi : c.Did i ⟨_, r⟩) (hi' : c.Did i ⟨_, r'⟩) : (⟨_, r⟩ : Event Op Op.Reply) = ⟨_, r'⟩ := by
  obtain ⟨t, ht, hm⟩ := hi
  obtain ⟨t', ht', hm'⟩ := hi'
  cases ht.symm.trans ht'
  refine After.once (P := fun e : Event Op Op.Reply ↦ ∃ userId name projectId now,
    e.1 = .sql (.insertUser userId name projectId now)) ?_ (h.after t (List.mem_of_getElem? ht))
    hm hm' ⟨_, _, _, _, rfl⟩ ⟨_, _, _, _, rfl⟩
  rintro τ ⟨q, r⟩ k hk ⟨u, n, p, w, rfl⟩ e he ⟨u', n', p', w', he'⟩
  exact (Call.pending hk).insertUser.2 e he u' n' p' w' he'

/-- **A user has one token.** -/
theorem Invited.token_eq (h : Enrolled crates c) (hi : Invited crates c i token userId)
    (hj : Invited crates c j token' userId) : token = token' := by
  obtain ⟨⟨bs, hbs, rfl⟩, _, _, _, _, hins⟩ := hi
  obtain ⟨⟨bs', hbs', rfl⟩, _, _, _, _, hins'⟩ := hj
  obtain ⟨rfl, -⟩ := insertUser_unique h Enrolling.ids hins hins'
  rw [token_drawn_once h hbs hbs']

/-- **A token is of one user.** -/
theorem Invited.user_eq (h : Enrolled crates c) (hi : Invited crates c i token userId)
    (hj : Invited crates c j token userId') : userId = userId' := by
  obtain ⟨e, he, hkey⟩ := hi.drawn
  obtain ⟨e', he', hkey'⟩ := hj.drawn
  obtain ⟨rfl, -⟩ := h.unique_key Enrolling.tokens he he' hkey hkey'
  obtain ⟨-, _, _, _, _, hins⟩ := hi
  obtain ⟨-, _, _, _, _, hins'⟩ := hj
  have hsame := user_inserted_once h hins hins'
  cases hsame
  rfl

/-- The invite of a token's hash is that of the token's user. -/
theorem Invited.user_of_minted (h : Enrolled crates c) (hi : Invited crates c i token userId)
    {expiresAt now : ℕ} (hm : Minted c j (tokenHash crates token) userId' expiresAt now) :
    userId' = userId := by
  obtain ⟨⟨e, he, hkey⟩, -, ⟨name, projectId, n, hins⟩, -⟩ := hm.mint h Enrolling.whole
  obtain ⟨e', he', hkey'⟩ := hi.drawn
  obtain ⟨rfl, -⟩ := h.unique_key Enrolling.tokens he he' hkey hkey'
  obtain ⟨-, _, _, _, _, hins'⟩ := hi
  have hsame := user_inserted_once h hins hins'
  cases hsame
  rfl

/-- Who inserted a user has drawn its token. -/
theorem exists_invited {leads : String → Prop} (h : Enrolled crates c)
    (hcalls : ∀ t ∈ c.threads, t.call.Handled leads) {name : String} {projectId : Option String}
    {now n : ℕ} (hins : c.Did i ⟨.sql (.insertUser userId name projectId now), .ok n⟩) :
    ∃ token, Invited crates c i token userId := by
  obtain ⟨t, τ₁, τ₂, k, hi, hτ, hk⟩ := h.issued hins
  obtain ⟨bs, hbs⟩ := (Call.pending hk).insertUser_mint (hcalls t (List.mem_of_getElem? hi))
  exact ⟨_, ⟨bs, ⟨t, hi, by rw [hτ]; exact List.mem_append_left _ hbs⟩, rfl⟩, _, _, _, _, hins⟩

/-! ## Invites that were handed out -/

/-- What a mint that returned an invite has been told. -/
theorem Call.returned_mintInvite {serverUrl name : String} {project : Option InviteProject}
    {minted : MintedInvite} (h : After ((Call.mintInvite serverUrl name project).prog crates) τ
      (.ret (.mintInvite (.ok (some minted))))) :
    ∃ serverName userId now n, ∃ bs : Op.Reply (.fillBytes .token),
      ⟨.fillBytes .token, bs⟩ ∈ τ ∧
        ⟨.sql (.insertUser userId name (project.map InviteProject.id) now), .ok n⟩ ∈ τ ∧
        minted = ⟨userId, InvitePayload.encode crates ⟨serverUrl, serverName, userId, name, project,
          crates.urlSafeNoPad bs.val, now + inviteTtlSeconds⟩, now + inviteTtlSeconds⟩ := by
  obtain ⟨r, h, hr⟩ := after_map_ret h
  cases hr
  rw [mintInvite_run] at h
  cases hname : validatedName name with
  | error e => rw [hname] at h; cases (after_ret.mp h).2
  | ok name' =>
    rw [hname, validatedName_eq hname] at h
    obtain ⟨q', k', -, hq⟩ | ⟨r, τ, τ', rfl, -, h₁⟩ := after_bind h
    · cases hq
    cases r with
    | error e => cases (after_ret.mp h₁).2
    | ok serverName =>
      obtain ⟨bs, τ₁, rfl, h₂⟩ := after_op_ret h₁
      obtain ⟨now, τ₂, rfl, h₃⟩ := after_op_ret h₂
      obtain ⟨r, τ₃, rfl, h₄⟩ := after_op_ret h₃
      rcases r with e | _ | ⟨u, us⟩
      · cases (after_ret.mp h₄).2
      · obtain ⟨bs', τ₄, rfl, h₅⟩ := after_op_ret h₄
        obtain ⟨r, τ₅, rfl, h₆⟩ := after_op_ret h₅
        rcases r with e | n
        · cases (after_ret.mp h₆).2
        · obtain ⟨r, τ₆, rfl, h₇⟩ := after_op_ret h₆
          rcases r with e | m
          · cases (after_ret.mp h₇).2
          · obtain ⟨rfl, hminted⟩ := after_ret.mp h₇
            have hpayload := Option.some.inj (Except.ok.inj (ret.inj hminted))
            exact ⟨serverName, _, now, n, bs, by simp, by simp, hpayload⟩
      · cases (after_ret.mp h₄).2

/-- The payload, its expiry cut to 64 bits, is what a blob says, whatever white space it was pasted
with. -/
theorem InvitePayload.parse_blob (hcrates : crates.Specified) (p : InvitePayload)
    {before after : String} (hbefore : ∀ c ∈ before.toList, Encoding.isWhitespace c = true)
    (hafter : ∀ c ∈ after.toList, Encoding.isWhitespace c = true) :
    InvitePayload.parse .specified (before ++ p.encode crates ++ after) =
      .ok { p with expiresAt := p.expiresAt % 2 ^ 64 } := by
  have hvec : ({ p with expiresAt := p.expiresAt % 2 ^ 64 } : InvitePayload).toVec = p.toVec := by
    have hcut : Fin.ofNat (2 ^ 64) (p.expiresAt % 2 ^ 64) = Fin.ofNat (2 ^ 64) p.expiresAt :=
      Fin.ext (Nat.mod_mod _ _)
    simp only [InvitePayload.toVec, hcut]
  refine InvitePayload.parse_of_trim (Nat.mod_lt _ (by decide)) ?_
  rw [hvec]
  exact InvitePayload.trim_encode hcrates p hbefore hafter

/-- The invite is what somebody reads off a blob that a mint of the pool returned. -/
def Issued (c : Pool) (invite : InvitePayload) : Prop :=
  ∃ (i : ℕ) (t : Thread Call Op Op.Reply Outcome) (serverUrl name : String)
    (project : Option InviteProject) (minted : MintedInvite), c.threads[i]? = some t ∧
    t.call = .mintInvite serverUrl name project ∧
    t.Returned (.mintInvite (.ok (some minted))) ∧
    ∃ before after : String, (∀ c ∈ before.toList, Encoding.isWhitespace c = true) ∧
      (∀ c ∈ after.toList, Encoding.isWhitespace c = true) ∧
      InvitePayload.parse .specified (before ++ minted.blob ++ after) = .ok invite

/-- **An invite that was handed out names the user its token was drawn for**, with that user's name
and project. -/
theorem Issued.invited {leads : String → Prop} (h : Enrolled crates c) (hcrates : crates.Specified)
    (hcalls : ∀ t ∈ c.threads, t.call.Handled leads) {invite : InvitePayload}
    (hissued : Issued c invite) :
    leads invite.serverUrl ∧ ∃ i now n, Invited crates c i invite.inviteToken invite.userId ∧
      c.Did i ⟨.sql (.insertUser invite.userId invite.userName
        (invite.project.map InviteProject.id) now), .ok n⟩ := by
  obtain ⟨i, t, serverUrl, name, project, minted, hi, hcall, hret, before, after, hbefore, hafter,
    hparse⟩ := hissued
  have hafter' := h.after t (List.mem_of_getElem? hi)
  have hhandled := hcalls t (List.mem_of_getElem? hi)
  rw [hcall] at hafter' hhandled
  rw [hret] at hafter'
  obtain ⟨serverName, userId, now, n, bs, hbs, hins, rfl⟩ := Call.returned_mintInvite hafter'
  rw [InvitePayload.parse_blob hcrates _ hbefore hafter] at hparse
  obtain rfl := Except.ok.inj hparse
  exact ⟨hhandled, i, now, n, ⟨⟨bs, ⟨t, hi, hbs⟩, rfl⟩, _, _, _, _, t, hi, hins⟩, t, hi, hins⟩

/-! ## Invites that have been consumed -/

/-- The invite of the user has been consumed. -/
def Spent (c : Pool) (userId : String) : Prop :=
  ∃ i tokenHash now n l expiresAt now',
    c.Did i ⟨.sql (.consumeInvite tokenHash now), .ok (n + 1)⟩ ∧
      Minted c l tokenHash userId expiresAt now'

theorem Spent.mono (hdid : ∀ i e, c.Did i e → c'.Did i e) (h : Spent c userId) :
    Spent c' userId := by
  obtain ⟨i, tokenHash, now, n, l, expiresAt, now', hd, hm⟩ := h
  exact ⟨i, tokenHash, now, n, l, expiresAt, now', hdid _ _ hd, hdid _ _ hm⟩

/-- The user had been inserted. -/
theorem Spent.inserted (h : Enrolled crates c) (hs : Spent c userId) : ∃ i name projectId now n,
    c.Did i ⟨.sql (.insertUser userId name projectId now), .ok n⟩ := by
  obtain ⟨_, _, _, _, l, _, now', -, hm⟩ := hs
  obtain ⟨-, -, ⟨name, projectId, n, hins⟩, -⟩ := hm.mint h Enrolling.whole
  exact ⟨l, name, projectId, now', n, hins⟩

/-- A user with a key has had its invite consumed. -/
theorem spent_of_key (h : Enrolled crates c) {u : UserRow} (hu : u ∈ c.shared.users)
    {publicKey : String} (hkey : u.publicKey = some publicKey) : Spent c u.id := by
  obtain ⟨i, m, hd⟩ := keys_set h u hu publicKey hkey
  obtain ⟨t, τ₁, τ₂, k, hi, hτ, hk⟩ := h.issued hd
  obtain ⟨hash, now, n, l, expiresAt, created, -, hconsume, hminted, -⟩ :=
    setPublicKey_redeems h hi ⟨_, hτ.symm⟩ hk
  exact ⟨i, hash, now, n, l, expiresAt, created, hconsume, hminted⟩

/-- The invite of a user is consumed by one thread. -/
theorem Spent.did (h : Enrolled crates c) {hash : String} {l : ℕ} {expiresAt created now n : ℕ}
    (hm : Minted c l hash userId expiresAt created)
    (hd : c.Did i ⟨.sql (.consumeInvite hash now), .ok (n + 1)⟩) {m : Pool}
    (hbefore : ∀ i e, m.Did i e → c.Did i e) (hs : Spent m userId) :
    ∃ e, m.Did i e := by
  obtain ⟨j, hash', now', n', l', expiresAt', created', hd', hm'⟩ := hs
  obtain ⟨-, rfl, -⟩ := minted_unique_user h Enrolling.whole Enrolling.ids hm (hbefore _ _ hm')
  obtain rfl := consume_unique h hd (hbefore _ _ hd')
  exact ⟨_, hd'⟩

end Railyard
