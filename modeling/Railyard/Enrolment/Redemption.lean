import Railyard.Enrolment.Revocation
import Railyard.Enrolment.SingleUse

/-!
# When a reported redemption is an enrolment

`Db.redeemInvite` reports success without looking at how many rows its last statement changed.  A
removal that runs between the first statement and the last one leaves that statement nothing to
change: the caller is told of a key that is nowhere.  `redemption_enrols_iff` says that nothing but
such a removal can do this.
-/

set_option autoImplicit false

namespace Railyard

open Effects Prog

variable {crates : Crates} {adm : Pool → Act Outside Call → Prop} {c c' : Pool}

/-- The user is there, with exactly this key. -/
def KeyStored (s : Server) (userId publicKey : String) : Prop :=
  ∃ u ∈ s.users, u.id = userId ∧ u.publicKey = some publicKey

/-- Storing a key stores it exactly where there is a user to store it for. -/
theorem keyStored_setPublicKey {s : Server} {userId publicKey : String} :
    KeyStored ((Stmt.setPublicKey publicKey userId).exec s).2 userId publicKey ↔
      ∃ u ∈ s.users, u.id = userId := by
  constructor
  · rintro ⟨u, hu, hid, -⟩
    obtain ⟨u₀, hu₀, rfl⟩ := mem_users_setPublicKey.mp hu
    refine ⟨u₀, hu₀, ?_⟩
    split at hid <;> exact hid
  · rintro ⟨u, hu, hid⟩
    exact ⟨_, mem_users_setPublicKey.mpr ⟨u, hu, if_pos hid⟩, hid, rfl⟩

/-- A user who has been inserted is there, or has been deleted. -/
theorem inserted_or_deleted (h : Reaches perform (Call.prog crates) adm ⟨.fresh, []⟩ c) {i n : ℕ}
    {userId name : String} {projectId : Option String} {now : ℕ}
    (hd : c.Did i ⟨.sql (.insertUser userId name projectId now), .ok n⟩) :
    (∃ u ∈ c.shared.users, u.id = userId) ∨
      ∃ j m, c.Did j ⟨.sql (.deleteUser userId), .ok m⟩ := by
  have hlasts := h.lasts (P := fun s ↦ ∃ u ∈ s.users, u.id = userId)
    (D := fun e ↦ ∃ m, e = ⟨.sql (.deleteUser userId), .ok m⟩) hd ?_ ?_
  · obtain hkept | ⟨j, e, hdel, m, rfl⟩ := hlasts
    · exact .inl hkept
    · exact .inr ⟨j, m, hdel⟩
  · rintro o q s ⟨u, hu, rfl⟩
    exact perform_users_keeps hu
  · intro o q s he
    obtain ⟨rfl, hreply⟩ := eventOf_eq he
    obtain ⟨hex, hok⟩ := perform_sql_eq_ok hreply
    obtain ⟨-, ⟨e, herr⟩, -⟩ | ⟨-, -, hmem⟩ := insertUser_cases s userId name projectId now
    · rw [herr] at hok; cases hok
    · exact ⟨_, by rw [hex]; exact (hmem _).mpr (.inr rfl), rfl⟩

/-- The statement with which a redemption returns a user, and what came before it. -/
theorem last_statement (h : Reaches perform (Call.prog crates) adm ⟨.fresh, []⟩ c)
    {i : ℕ} {o : Outside} (hs : c.step perform (Call.prog crates) (.step i o) = some c')
    {tokenHash publicKey userId : String} {now : ℕ}
    (hr : Redeemed c' i tokenHash publicKey now userId) :
    c'.shared = ((Stmt.setPublicKey publicKey userId).exec c.shared).2 ∧
      ∃ rest, c.Did i ⟨.sql (.inviteUserId tokenHash), .ok (userId :: rest)⟩ := by
  obtain ⟨t, hi, hcall, hret⟩ := hr
  obtain ⟨call, ha, -⟩ | ⟨i', o', t₀, q, k, ha, hi₀, hk, rfl⟩ := Conf.step_eq_some _ _ hs
  · cases ha
  cases ha
  rw [List.getElem?_set_self (List.getElem?_eq_some_iff.mp hi₀).1] at hi
  cases hi
  have hafter : After (t₀.call.prog crates) t₀.trace t₀.code :=
    h.after t₀ (List.mem_of_getElem? hi₀)
  rw [hk] at hafter
  have hsnoc := hafter.snoc (perform o q c.shared).1
  rw [show t₀.call = _ from hcall, show k _ = _ from hret] at hsnoc
  obtain ⟨n, rest, m, hτ⟩ := Call.returned_redeemInvite hsnoc
  have hτ' : t₀.trace ++ [⟨q, (perform o q c.shared).1⟩]
      = [⟨.sql (.consumeInvite tokenHash now), .ok (n + 1)⟩,
        ⟨.sql (.inviteUserId tokenHash), .ok (userId :: rest)⟩]
        ++ [⟨.sql (.setPublicKey publicKey userId), .ok m⟩] := hτ
  obtain ⟨hτ₀, hlast⟩ := List.append_inj' hτ' rfl
  obtain ⟨rfl, hreply⟩ := eventOf_eq (List.singleton_inj.mp hlast)
  obtain ⟨hex, -⟩ := perform_sql_eq_ok hreply
  exact ⟨congrArg Prod.snd hex, rest, t₀, hi₀, hτ₀ ▸ List.mem_cons_of_mem _ List.mem_cons_self⟩

/-- **When a reported redemption is an enrolment.**  A redemption that returns `Some(userId)` leaves
a row of that id with the key it submitted, if no removal has run its `DELETE FROM users` for the
id by then.  Where ids are new when drawn, only then. -/
theorem redemption_enrols_iff
    (h : Reaches perform (Call.prog crates) (fun _ a ↦ a.Starts Call.Whole) ⟨.fresh, []⟩ c)
    {i : ℕ} {o : Outside} (hs : c.step perform (Call.prog crates) (.step i o) = some c')
    {tokenHash publicKey userId : String} {now : ℕ}
    (hr : Redeemed c' i tokenHash publicKey now userId) :
    ((∀ j m, ¬ c.Did j ⟨.sql (.deleteUser userId), .ok m⟩) →
      KeyStored c'.shared userId publicKey) ∧
    (Reaches perform (Call.prog crates) FreshUserIds ⟨.fresh, []⟩ c →
      (KeyStored c'.shared userId publicKey ↔
        ∀ j m, ¬ c.Did j ⟨.sql (.deleteUser userId), .ok m⟩)) := by
  obtain ⟨hshared, rest, hselect⟩ := last_statement h hs hr
  rw [hshared, keyStored_setPublicKey]
  have henrols : (∀ j m, ¬ c.Did j ⟨.sql (.deleteUser userId), .ok m⟩) →
      ∃ u ∈ c.shared.users, u.id = userId := by
    intro hnone
    obtain ⟨j, expiresAt, now', hm⟩ := inviteUserId_minted h hselect
    obtain ⟨-, -, ⟨name, projectId, n, hins⟩, -⟩ := hm.mint h fun _ _ ↦ id
    rcases inserted_or_deleted h hins with hu | ⟨l, m, hdel⟩
    · exact hu
    · exact absurd hdel (hnone l m)
  refine ⟨henrols, fun hfresh ↦ ⟨fun ⟨u, hu, hid⟩ j m hdel ↦ ?_, henrols⟩⟩
  exact deleteUser_gone hfresh (fun _ _ ha ↦ ha) hdel u hu hid

/-- Only a removal deletes users. -/
theorem deleteUser_by_removal (h : Reaches perform (Call.prog crates) adm ⟨.fresh, []⟩ c) {i : ℕ}
    {userId : String} {r : Op.Reply (.sql (.deleteUser userId))} (hd : c.Did i ⟨_, r⟩) :
    ∃ name, .removeUser name ∈ c.threads.map Thread.call := by
  obtain ⟨t, τ₁, τ₂, k, hi, -, hk⟩ := h.issued hd
  obtain ⟨name, -, -, hcall, -⟩ := (Call.pending hk).deleteUser
  exact ⟨name, List.mem_map.mpr ⟨t, List.mem_of_getElem? hi, hcall⟩⟩

theorem redemption_enrols_iff_enrolledAlone :
    ∃ c ∈ (⟨.fresh, []⟩ : Pool).run? perform (Call.prog .sample) enrolledAlone.dropLast,
      ∃ c' ∈ c.step perform (Call.prog .sample) (.step 1 {}),
        KeyStored c'.shared "usr_0000000000000000" "key" := by
  have hadm : (⟨.fresh, []⟩ : Pool).Admits perform (Call.prog .sample)
    (fun _ a ↦ a.Starts Call.Whole) enrolledAlone.dropLast := by decide +kernel
  refine ⟨_, rfl, _, rfl, ?_⟩
  have h := Reaches.of_run? enrolledAlone.dropLast rfl hadm
  refine (redemption_enrols_iff h rfl (by exact ⟨_, rfl, rfl, rfl⟩ : Redeemed _ 1
    (Encoding.hexEncode zeroTokenDigest) "key" 60 "usr_0000000000000000")).1 fun j m hdel ↦ ?_
  obtain ⟨name, hname⟩ := deleteUser_by_removal h hdel
  have hcalls : .removeUser name ∈ [Call.mintInvite "http://railyard" "bob" none,
    .redeemInvite (Encoding.hexEncode zeroTokenDigest) "key" 60] := hname
  simp at hcalls

/-- An invite is minted and redeemed, and its user removed before the redemption's last
statement. -/
def removedMeanwhile : List (Act Outside Call) :=
  callAlone 0 (.mintInvite "http://railyard" "bob" none) 8 {} ++
    callAlone 1 (.redeemInvite (Encoding.hexEncode zeroTokenDigest) "key" 60) 2 {} ++
    callAlone 2 (.removeUser "bob") 3 {}

/-- The redemption returns the user's id, and there is no user. -/
theorem redemption_of_removedMeanwhile :
    (⟨.fresh, []⟩ : Pool).Admits perform (Call.prog .sample) (Enrolling .sample) removedMeanwhile ∧
    ∃ c ∈ (⟨.fresh, []⟩ : Pool).run? perform (Call.prog .sample) removedMeanwhile,
      ∃ c' ∈ c.step perform (Call.prog .sample) (.step 1 {}),
        Redeemed c' 1 (Encoding.hexEncode zeroTokenDigest) "key" 60 "usr_0000000000000000" ∧
        ¬ KeyStored c'.shared "usr_0000000000000000" "key" := by
  refine ⟨by decide +kernel, _, rfl, _, rfl, ⟨_, rfl, rfl, rfl⟩, ?_⟩
  rintro ⟨u, hu, -⟩
  exact absurd hu List.not_mem_nil

end Railyard
