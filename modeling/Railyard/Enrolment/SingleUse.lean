import Railyard.Enrolment.Provenance

/-!
# Invites are single-use, and keys are written once

The redemption of an invite is three statements, and others run in between.  That an invite is
redeemed once nevertheless comes from its first statement, which marks the row it counts
(`consume_spends`), and from the token's hash never being inserted again.  That a key is written
once comes from there: a user has one invite, an invite one redemption, and a redemption one
statement that writes the key (`setPublicKey_not_pending`).

`enrolment_once` puts it together for every run.
-/

set_option autoImplicit false

namespace Railyard

open Effects Prog

variable {crates : Crates} {c c' : Pool}

/-- User ids and tokens are new when drawn, and only mints insert invites. -/
def Enrolling (crates : Crates) (c : Pool) (a : Act Outside Call) : Prop :=
  FreshUserIds c a ∧ FreshTokens crates c a ∧ a.Starts Call.Whole

instance (c : Pool) (a : Act Outside Call) : Decidable (Enrolling crates c a) :=
  inferInstanceAs (Decidable (_ ∧ _ ∧ _))

/-- `c` is reached from an empty database by calls of enrolment. -/
abbrev Enrolled (crates : Crates) (c : Pool) : Prop :=
  Reaches perform (Call.prog crates) (Enrolling crates) ⟨.fresh, []⟩ c

theorem Enrolling.ids (c : Pool) (a : Act Outside Call) (h : Enrolling crates c a) :
    FreshUserIds c a := h.1

theorem Enrolling.tokens (c : Pool) (a : Act Outside Call) (h : Enrolling crates c a) :
    FreshTokens crates c a := h.2.1

theorem Enrolling.whole (c : Pool) (call : Call) (h : Enrolling crates c (.spawn call)) :
    call.Whole := h.2.2

/-! ## One redemption for an invite -/

/-- Once a redemption has consumed an invite, no row of this hash is unredeemed. -/
theorem consume_spends (h : Enrolled crates c) {i : ℕ} {tokenHash : String} {now n : ℕ}
    (hd : c.Did i ⟨.sql (.consumeInvite tokenHash now), .ok (n + 1)⟩) :
    ∀ v ∈ c.shared.invites, v.tokenHash = tokenHash → v.redeemedAt ≠ none := by
  refine h.did (φ := fun c _ e ↦ e = ⟨.sql (.consumeInvite tokenHash now), .ok (n + 1)⟩ →
    ∀ v ∈ c.shared.invites, v.tokenHash = tokenHash → v.redeemedAt ≠ none) ?_ ?_ i _ hd rfl
  · rintro c₁ c₂ a i e hr - hs hd hφ rfl v hv rfl
    have hspent := hφ rfl
    obtain ⟨call, rfl, rfl⟩ | ⟨j, o, t, q, k, rfl, hj, hk, rfl⟩ := Conf.step_eq_some _ _ hs
    · exact hspent v hv rfl
    · rcases perform_invites hv with hv | ⟨he, -⟩ | ⟨v₀, -, now', -, -, rfl⟩
      · exact hspent v hv rfl
      · obtain ⟨rfl, -⟩ := eventOf_eq he
        obtain ⟨l, userId, expiresAt, now', hm, -⟩ := consume_minted hr hd
        exact (insertInvite_not_pending hr Enrolling.whole Enrolling.tokens hm hj hk).elim
      · exact Option.some_ne_none now'
  · rintro c₁ c₂ i o t q k hr - hi hk rfl he v hv htok
    obtain ⟨rfl, hreply⟩ := eventOf_eq he
    obtain ⟨hex, hn⟩ := perform_sql_eq_ok hreply
    rw [hex] at hv
    obtain ⟨v₀, hv₀, hv₀'⟩ := mem_invites_consumeInvite.mp hv
    split at hv₀'
    · rw [← hv₀']; exact Option.some_ne_none now
    · -- the row counted has the same hash, so it is this one
      rename_i hnot
      subst hv₀'
      obtain ⟨v₁, hv₁, hred⟩ := exists_redeemable hn
      have heq := c₁.shared.invites.eq_of_key (List.mem_singleton_self _) hv₁ hv₀
        (hred.1.trans htok.symm)
      exact absurd (heq ▸ hred) hnot

/-- An invite is consumed by one redemption. -/
theorem consume_unique (h : Enrolled crates c) {i j : ℕ} {tokenHash : String} {now now' n n' : ℕ}
    (hi : c.Did i ⟨.sql (.consumeInvite tokenHash now), .ok (n + 1)⟩)
    (hj : c.Did j ⟨.sql (.consumeInvite tokenHash now'), .ok (n' + 1)⟩) : i = j := by
  refine (h.unique (P := fun e ↦ ∃ now n,
    e = ⟨.sql (.consumeInvite tokenHash now), .ok (n + 1)⟩) ?_ hi hj ⟨_, _, rfl⟩ ⟨_, _, rfl⟩).1
  rintro c i o t q k hr - - - ⟨now, n, he⟩ j e hd ⟨now', n', rfl⟩
  obtain ⟨rfl, hreply⟩ := eventOf_eq he
  obtain ⟨-, hn⟩ := perform_sql_eq_ok hreply
  obtain ⟨v, hv, hred⟩ := exists_redeemable hn
  exact consume_spends hr hd v hv hred.1 hred.2.1

/-! ## One key for a user -/

/-- Who writes a key has consumed an invite of that user. -/
theorem setPublicKey_redeems (h : Enrolled crates c) {i : ℕ}
    {t : Thread Call Op Op.Reply Outcome} (hi : c.threads[i]? = some t) {publicKey userId : String}
    {τ : List (Event Op Op.Reply)} (hτ : τ <+: t.trace)
    {k : Op.Reply (.sql (.setPublicKey publicKey userId)) → Task Outcome}
    (hk : After (t.call.prog crates) τ (.op _ k)) :
    ∃ tokenHash now n j expiresAt now', t.call = .redeemInvite tokenHash publicKey now ∧
      c.Did i ⟨.sql (.consumeInvite tokenHash now), .ok (n + 1)⟩ ∧
      Minted c j tokenHash userId expiresAt now' ∧ now < expiresAt := by
  obtain ⟨tokenHash, now, n, rest, hcall, rfl⟩ := (Call.pending hk).setPublicKey
  have hconsume : c.Did i ⟨.sql (.consumeInvite tokenHash now), .ok (n + 1)⟩ :=
    ⟨t, hi, hτ.subset List.mem_cons_self⟩
  obtain ⟨j, expiresAt, now', hm⟩ := inviteUserId_minted h
    (⟨t, hi, hτ.subset (List.mem_cons_of_mem _ List.mem_cons_self)⟩ :
      c.Did i ⟨.sql (.inviteUserId tokenHash), .ok (userId :: rest)⟩)
  obtain ⟨j', userId', expiresAt', now'', hm', hlt⟩ := consume_minted h hconsume
  obtain ⟨-, -, rfl⟩ := minted_unique_token h Enrolling.whole Enrolling.tokens hm hm'
  exact ⟨tokenHash, now, n, j, expiresAt', now', hcall, hconsume, hm, hlt⟩

/-- Where a user's key has been written, it is not about to be written again. -/
theorem setPublicKey_not_pending (h : Enrolled crates c) {i j : ℕ}
    {publicKey publicKey' userId : String} {r : Op.Reply (.sql (.setPublicKey publicKey userId))}
    (hi : c.Did i ⟨_, r⟩) {t : Thread Call Op Op.Reply Outcome} (hj : c.threads[j]? = some t)
    {k : Op.Reply (.sql (.setPublicKey publicKey' userId)) → Task Outcome}
    (hk : t.code = .op _ k) : False := by
  have ha := h.after t (List.mem_of_getElem? hj)
  rw [hk] at ha
  obtain ⟨tokenHash, now, n, _, _, _, -, hc, hm, -⟩ :=
    setPublicKey_redeems h hj List.prefix_rfl ha
  obtain ⟨t', τ₁, τ₂, k', hi', hτ, hk'⟩ := h.issued hi
  obtain ⟨tokenHash', now', n', _, _, _, -, hc', hm', -⟩ :=
    setPublicKey_redeems h hi' ⟨_, hτ.symm⟩ hk'
  obtain ⟨-, rfl, -⟩ := minted_unique_user h Enrolling.whole Enrolling.ids hm hm'
  obtain rfl := consume_unique h hc hc'
  cases hj.symm.trans hi'
  obtain ⟨_, _, _, _, -, htrace⟩ := (Call.pending ha).setPublicKey
  rw [htrace] at hτ
  have hmem : (⟨_, r⟩ : Event Op Op.Reply) ∈ τ₁ ++ ⟨_, r⟩ :: τ₂ := by simp
  rw [← hτ] at hmem
  simp at hmem

/-- A user with a key has been given it. -/
theorem keys_set (h : Enrolled crates c) : ∀ u ∈ c.shared.users, ∀ publicKey,
    u.publicKey = some publicKey → ∃ i m, c.Did i ⟨.sql (.setPublicKey publicKey u.id), .ok m⟩ := by
  refine h.invariant (I := fun c ↦ ∀ u ∈ c.shared.users, ∀ publicKey,
    u.publicKey = some publicKey → ∃ i m, c.Did i ⟨.sql (.setPublicKey publicKey u.id), .ok m⟩)
    (fun u hu ↦ absurd hu List.not_mem_nil) ?_
  intro c₁ c₂ a _ hI _ hs u hu publicKey hkey
  obtain ⟨call, rfl, rfl⟩ | ⟨i, o, t, q, k, rfl, hi, hk, rfl⟩ := Conf.step_eq_some _ _ hs
  · obtain ⟨i, m, hd⟩ := hI u hu publicKey hkey
    exact ⟨i, m, hd.step hs⟩
  · rcases perform_users hu with hu | ⟨-, hnone, -⟩ | ⟨u₀, hu₀, publicKey', m, he, rfl⟩
    · obtain ⟨j, m, hd⟩ := hI u hu publicKey hkey
      exact ⟨j, m, hd.step hs⟩
    · rw [hnone] at hkey; cases hkey
    · cases hkey
      exact ⟨i, m, (Conf.did_advance hi).mpr (.inr ⟨rfl, he.symm⟩)⟩

/-- The key a user has been given is the user's key from then on. -/
theorem setPublicKey_stays (h : Enrolled crates c) {i m : ℕ} {publicKey userId : String}
    (hd : c.Did i ⟨.sql (.setPublicKey publicKey userId), .ok m⟩) :
    ∀ u ∈ c.shared.users, u.id = userId → u.publicKey = some publicKey := by
  refine h.did (φ := fun c _ e ↦ e = ⟨.sql (.setPublicKey publicKey userId), .ok m⟩ →
    ∀ u ∈ c.shared.users, u.id = userId → u.publicKey = some publicKey) ?_ ?_ i _ hd rfl
  · rintro c₁ c₂ a i e hr - hs hd hφ rfl u hu rfl
    have hkey := hφ rfl
    obtain ⟨call, rfl, rfl⟩ | ⟨j, o, t, q, k, rfl, hj, hk, rfl⟩ := Conf.step_eq_some _ _ hs
    · exact hkey u hu rfl
    · rcases perform_users hu with hu | ⟨he, -⟩ | ⟨u₀, hu₀, publicKey', m, he, rfl⟩
      · exact hkey u hu rfl
      · obtain ⟨rfl, -⟩ := eventOf_eq he
        obtain ⟨t', τ₁, τ₂, k', hi, hτ, hk'⟩ := hr.issued hd
        obtain ⟨_, _, _, _, _, _, -, -, hm, -⟩ := setPublicKey_redeems hr hi ⟨_, hτ.symm⟩ hk'
        obtain ⟨-, -, ⟨_, _, _, hins⟩, -⟩ := hm.mint hr Enrolling.whole
        exact (insertUser_not_pending hr Enrolling.ids hins hj hk).elim
      · obtain ⟨rfl, -⟩ := eventOf_eq he
        exact (setPublicKey_not_pending hr hd hj hk).elim
  · rintro c₁ c₂ i o t q k hr - hi hk rfl he u hu hid
    obtain ⟨rfl, hreply⟩ := eventOf_eq he
    obtain ⟨hex, -⟩ := perform_sql_eq_ok hreply
    rw [hex] at hu
    obtain ⟨u₀, hu₀, hu₀'⟩ := mem_users_setPublicKey.mp hu
    split at hu₀'
    · rw [← hu₀']
    · rename_i hne
      subst hu₀'
      exact absurd hid hne

/-! ## Every run -/

/-- Thread `i` is about to store `publicKey` for `userId`, as the redemption of the one invite that
was minted with this user, and in time. -/
structure Redeeming (c : Pool) (i : ℕ) (publicKey userId : String) : Prop where
  /-- The pending statement is the last one of a redemption with this key. -/
  pending : ∃ t tokenHash now k, c.threads[i]? = some t ∧
    t.call = .redeemInvite tokenHash publicKey now ∧
    t.code = .op (.sql (.setPublicKey publicKey userId)) k ∧
    ∃ j expiresAt now', Minted c j tokenHash userId expiresAt now' ∧ now < expiresAt
  /-- Its invite was inserted by the call that inserted the user, and the user has no other. -/
  minted : ∀ j tokenHash expiresAt now, Minted c j tokenHash userId expiresAt now →
    (∃ name projectId n, c.Did j ⟨.sql (.insertUser userId name projectId now), .ok n⟩) ∧
      ∀ j' tokenHash' expiresAt' now', Minted c j' tokenHash' userId expiresAt' now' →
        j' = j ∧ tokenHash' = tokenHash ∧ expiresAt' = expiresAt

/-- **Invites are single-use and keys are written once.**  In every run of enrolment calls, at most
one redemption of a token's hash returns a user; a key that a step brings into `users` is brought
there by the redemption of that user's invite, where there was none; and it stays that user's key
for the rest of the run. -/
theorem enrolment_once (h : Enrolled crates c) :
    (∀ i j tokenHash publicKey publicKey' now now' userId userId',
      Redeemed c i tokenHash publicKey now userId →
      Redeemed c j tokenHash publicKey' now' userId' → i = j) ∧
    (∀ a c', Enrolling crates c a → c.step perform (Call.prog crates) a = some c' →
      ∀ u ∈ c'.shared.users, ∀ publicKey, u.publicKey = some publicKey →
        u ∈ c.shared.users ∨
        (∃ u₀ ∈ c.shared.users, u₀.publicKey = none ∧
          u = { u₀ with publicKey := some publicKey }) ∧
        ∃ i o, a = .step i o ∧ Redeeming c i publicKey u.id) ∧
    ∀ u ∈ c.shared.users, ∀ publicKey, u.publicKey = some publicKey →
      ∀ c', Reaches perform (Call.prog crates) (Enrolling crates) c c' →
        ∀ u' ∈ c'.shared.users, u'.id = u.id → u'.publicKey = some publicKey := by
  refine ⟨?_, ?_, fun u hu publicKey hkey c' h' ↦ ?_⟩
  · intro i j tokenHash publicKey publicKey' now now' userId userId' hi hj
    obtain ⟨n, rest, m, hd, -⟩ := hi.told h
    obtain ⟨n', rest', m', hd', -⟩ := hj.told h
    exact consume_unique h hd hd'
  · intro a c' ha hs u hu publicKey hkey
    obtain ⟨call, rfl, rfl⟩ | ⟨i, o, t, q, k, rfl, hi, hk, rfl⟩ := Conf.step_eq_some _ _ hs
    · exact .inl hu
    rcases perform_users hu with hu | ⟨-, hnone, -⟩ | ⟨u₀, hu₀, publicKey', m, he, rfl⟩
    · exact .inl hu
    · rw [hnone] at hkey; cases hkey
    cases hkey
    obtain ⟨rfl, -⟩ := eventOf_eq he
    have ha := h.after t (List.mem_of_getElem? hi)
    rw [hk] at ha
    obtain ⟨tokenHash, now, n, j, expiresAt, now', hcall, -, hm, hlt⟩ :=
      setPublicKey_redeems h hi List.prefix_rfl ha
    refine .inr ⟨⟨u₀, hu₀, ?_, rfl⟩, i, o, rfl,
      ⟨t, tokenHash, now, k, hi, hcall, hk, j, expiresAt, now', hm, hlt⟩,
      fun j tokenHash expiresAt now hm ↦ ⟨(hm.mint h Enrolling.whole).2.2.1,
        fun j' tokenHash' expiresAt' now' hm' ↦
          minted_unique_user h Enrolling.whole Enrolling.ids hm hm'⟩⟩
    -- a key that is there already has been written, and is not written again
    cases hkey : u₀.publicKey with
    | none => rfl
    | some publicKey₀ =>
      obtain ⟨l, m, hd⟩ := keys_set h u₀ hu₀ publicKey₀ hkey
      exact (setPublicKey_not_pending h hd hi hk).elim
  · obtain ⟨i, m, hd⟩ := keys_set h u hu publicKey hkey
    exact setPublicKey_stays (h.trans h') (hd.reaches h')

/-- An invite is minted and then redeemed. -/
def enrolledAlone : List (Act Outside Call) :=
  callAlone 0 (.mintInvite "http://railyard" "bob" none) 8 {} ++
    callAlone 1 (.redeemInvite (Encoding.hexEncode zeroTokenDigest) "key" 60) 3 {}

/-- Two machines redeem the invite at once.  The second asks before the first has stored its key. -/
def enrolledTwice : List (Act Outside Call) :=
  callAlone 0 (.mintInvite "http://railyard" "bob" none) 8 {} ++
    [.spawn (.redeemInvite (Encoding.hexEncode zeroTokenDigest) "key" 60),
      .spawn (.redeemInvite (Encoding.hexEncode zeroTokenDigest) "other" 60),
      .step 1 {}, .step 2 {}, .step 1 {}, .step 1 {}]

theorem enrolment_once_enrolledTwice :
    ∃ c ∈ (⟨.fresh, []⟩ : Pool).run? perform (Call.prog .sample) enrolledTwice,
      Redeemed c 1 (Encoding.hexEncode zeroTokenDigest) "key" 60 "usr_0000000000000000" ∧
      (∃ t, c.threads[2]? = some t ∧ t.Returned (.redeemInvite (.ok none))) ∧
      ∀ i publicKey now userId,
        Redeemed c i (Encoding.hexEncode zeroTokenDigest) publicKey now userId → i = 1 := by
  have hadm : (⟨.fresh, []⟩ : Pool).Admits perform (Call.prog .sample) (Enrolling .sample)
      enrolledTwice := by decide +kernel
  refine ⟨_, rfl, ⟨_, rfl, rfl, rfl⟩, ⟨_, rfl, rfl⟩, fun i publicKey now userId hi ↦ ?_⟩
  exact (enrolment_once (Reaches.of_run? enrolledTwice rfl hadm)).1 i 1 _ _ "key" _ 60 _
    "usr_0000000000000000" hi ⟨_, rfl, rfl, rfl⟩

end Railyard
