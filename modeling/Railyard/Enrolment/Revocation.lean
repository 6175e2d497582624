import Railyard.Enrolment.Provenance

/-!
# Removing a user is final

A user id is drawn by one call, which inserts it at most once.  So once the row of a removed user
is gone no statement of any call in flight brings it back, whatever was between its statements
when the removal ran: `removal_is_final`.

* `deleteUser_gone`: once `DELETE FROM users` has run for an id, no row has that id.
* `Revoked` is what a complete removal means for a later state.
-/

set_option autoImplicit false

namespace Railyard

open Effects Prog

variable {crates : Crates} {adm : Pool → Act Outside Call → Prop} {c c' : Pool}

/-- **Deleted is deleted**: once `DELETE FROM users` has run for an id, no row has that id. -/
theorem deleteUser_gone (h : Reaches perform (Call.prog crates) adm ⟨.fresh, []⟩ c)
    (hfresh : ∀ c a, adm c a → FreshUserIds c a) {i : ℕ} {userId : String} {m : ℕ}
    (hd : c.Did i ⟨.sql (.deleteUser userId), .ok m⟩) : ∀ u ∈ c.shared.users, u.id ≠ userId := by
  refine h.did (φ := fun c _ e ↦ e = ⟨.sql (.deleteUser userId), .ok m⟩ →
    ∀ u ∈ c.shared.users, u.id ≠ userId) ?_ ?_ i _ hd rfl
  · rintro c₁ c₂ a i e hr - hs hd hφ rfl u hu
    have hgone := hφ rfl
    obtain ⟨call, rfl, rfl⟩ | ⟨j, o, t, q, k, rfl, hj, hk, rfl⟩ := Conf.step_eq_some _ _ hs
    · exact hgone u hu
    · rcases perform_users hu with hu | ⟨he, -⟩ | ⟨u₀, hu₀, publicKey, m, -, rfl⟩
      · exact hgone u hu
      · -- the id was looked up by who deleted it, so it had been inserted before
        obtain ⟨rfl, -⟩ := eventOf_eq he
        rintro rfl
        obtain ⟨t', τ₁, τ₂, k', hi, hτ, hk'⟩ := hr.issued hd
        obtain ⟨name, rest, n, -, rfl⟩ := (Call.pending hk').deleteUser
        obtain ⟨l, _, _, _, hins⟩ :=
          lookup_inserted hr ⟨t', hi, by rw [hτ]; exact List.mem_cons_self⟩
        exact insertUser_not_pending hr hfresh hins hj hk
      · exact hgone u₀ hu₀
  · rintro c₁ c₂ i o t q k hr - hi hk rfl he u hu
    obtain ⟨rfl, hreply⟩ := eventOf_eq he
    obtain ⟨hex, -⟩ := perform_sql_eq_ok hreply
    rw [hex] at hu
    exact (mem_users_deleteUser.mp hu).2

/-! ## Revocation -/

variable {userId : String}

/-- What the removal of `userId`, complete in `c`, means for a later `c'`. -/
structure Revoked (crates : Crates) (userId : String) (c c' : Pool) : Prop where
  /-- No row has the id, so nothing can give it a key. -/
  gone : ∀ u ∈ c'.shared.users, u.id ≠ userId
  /-- The key lookup finds nothing. -/
  keyOwner : ∀ w, (w 0).fault = none →
    ((Db.keyOwner userId).run.run perform w c'.shared).1 = .ok none
  /-- A request accepted for the id had its key looked up before. -/
  checkedRequest : ∀ j t req req' head, c'.threads[j]? = some t → t.call = .checkedRequest req →
    req.signedHead = .ok head → head.keyId = userId → t.Returned (.checkedRequest (.ok req')) →
    ∃ row rows, c.Did j ⟨.sql (.keyOwner userId), .ok (row :: rows)⟩

/-- A key lookup that found a row for an id without rows was made before. -/
theorem keyOwner_before (hgone : ∀ c', Reaches perform (Call.prog crates) adm c c' →
      ∀ u ∈ c'.shared.users, u.id ≠ userId)
    (h' : Reaches perform (Call.prog crates) adm c c') {j : ℕ}
    {row : String × String × String × Option String}
    {rows : List (String × String × String × Option String)}
    (hd : c'.Did j ⟨.sql (.keyOwner userId), .ok (row :: rows)⟩) :
    c.Did j ⟨.sql (.keyOwner userId), .ok (row :: rows)⟩ := by
  induction h' with
  | refl => exact hd
  | tail hr _ hs ih =>
    obtain ⟨call, rfl, rfl⟩ | ⟨i, o, t, q, k, rfl, hi, hk, rfl⟩ := Conf.step_eq_some _ _ hs
    · exact ih (Conf.did_spawn.mp hd)
    · rcases (Conf.did_advance hi).mp hd with hd' | ⟨rfl, he⟩
      · exact ih hd'
      · obtain ⟨rfl, hreply⟩ := eventOf_eq he.symm
        obtain ⟨-, hrows⟩ := perform_sql_eq_ok hreply
        rw [keyOwner_reply_eq_nil (hgone _ hr)] at hrows
        cases hrows

/-- What is left to do for a removal that has resolved its name. -/
theorem Pending.removing {name : String} {rest : List String} {τ : List (Event Op Op.Reply)}
    {q : Op} (h : Pending crates (.removeUser name) τ q)
    (hlookup : ⟨.sql (.userIdByName name), .ok (userId :: rest)⟩ ∈ τ) :
    q = .sql (.deleteInvitesOf userId) ∨ q = .sql (.deleteUser userId) := by
  cases h with
  | removeLookup => cases hlookup
  | removeInvites =>
    cases List.mem_singleton.mp hlookup
    exact .inl rfl
  | removeUser =>
    rcases List.mem_cons.mp hlookup with he | he
    · cases he; exact .inr rfl
    · cases List.mem_singleton.mp he

/-- The statements of a removal touch no rows of other users. -/
theorem removing_frame {o : Outside} {q : Op} {s : Server}
    (hq : q = .sql (.deleteInvitesOf userId) ∨ q = .sql (.deleteUser userId)) :
    (∀ u : UserRow, u.id ≠ userId → (u ∈ (perform o q s).2.users ↔ u ∈ s.users)) ∧
      ∀ v : InviteRow, v.userId ≠ userId → (v ∈ (perform o q s).2.invites ↔ v ∈ s.invites) := by
  cases hf : o.fault with
  | some e => rcases hq with rfl | rfl <;> rw [perform_sql_fault hf] <;> simp
  | none =>
    rcases hq with rfl | rfl
    · rw [perform_sql_ok hf]
      exact ⟨fun u _ ↦ Iff.rfl, fun v hv ↦ mem_invites_deleteInvitesOf.trans (and_iff_left hv)⟩
    · rw [perform_sql_ok hf]
      exact ⟨fun u hu ↦ mem_users_deleteUser.trans (and_iff_left hu), fun v _ ↦ Iff.rfl⟩

/-- **Removing a user is final.**  Let thread `i` be a removal that has resolved its name to
`userId`.  When it has returned `Ok(true)`, the id is revoked in every later state.  A user inserted
after the lookup, be it under the same name, has another id, and no step of the removal touches
rows of another id. -/
theorem removal_is_final (h : Reaches perform (Call.prog crates) FreshUserIds ⟨.fresh, []⟩ c)
    {i : ℕ} {t : Thread Call Op Op.Reply Outcome} {name : String} {rest : List String}
    (hi : c.threads[i]? = some t) (hcall : t.call = .removeUser name)
    (hlookup : ⟨.sql (.userIdByName name), .ok (userId :: rest)⟩ ∈ t.trace) :
    (t.Returned (.removeUser (.ok true)) → ∀ c',
      Reaches perform (Call.prog crates) FreshUserIds c c' → Revoked crates userId c c') ∧
    (∀ c', Reaches perform (Call.prog crates) FreshUserIds c c' →
      ∀ j userId' name' projectId now r,
        c'.Did j ⟨.sql (.insertUser userId' name' projectId now), r⟩ →
        ¬ c.Did j ⟨.sql (.insertUser userId' name' projectId now), r⟩ → userId' ≠ userId) ∧
    ∀ o c', c.step perform (Call.prog crates) (.step i o) = some c' →
      (∀ u : UserRow, u.id ≠ userId → (u ∈ c'.shared.users ↔ u ∈ c.shared.users)) ∧
      ∀ v : InviteRow, v.userId ≠ userId → (v ∈ c'.shared.invites ↔ v ∈ c.shared.invites) := by
  refine ⟨fun hret c' h' ↦ ?_, fun c' h' j userId' name' projectId now r hd hnd ↦ ?_,
    fun o c' hs ↦ ?_⟩
  · have ha := h.after t (List.mem_of_getElem? hi)
    rw [hcall, hret] at ha
    obtain ⟨userId', rest', n, m, hτ⟩ := Call.returned_removeUser ha
    rw [hτ] at hlookup
    simp only [List.mem_cons, Sigma.mk.injEq, heq_eq_eq, Except.ok.injEq, List.cons.injEq, true_and,
      reduceCtorEq, Op.sql.injEq, false_and, List.not_mem_nil, or_false] at hlookup
    obtain ⟨rfl, -⟩ := hlookup
    have hdel : c.Did i ⟨.sql (.deleteUser userId), .ok m⟩ := ⟨t, hi, by rw [hτ]; simp⟩
    have hgone : ∀ c', Reaches perform (Call.prog crates) FreshUserIds c c' →
        ∀ u ∈ c'.shared.users, u.id ≠ userId := fun c' h' ↦
      deleteUser_gone (h.trans h') (fun _ _ ha ↦ ha) (hdel.reaches h')
    refine ⟨hgone c' h', fun w hw ↦ ?_, fun j t' req req' head hj hcall' hh hid hret' ↦ ?_⟩
    · rw [Db.keyOwner_run, Prog.run_op, perform_sql_ok hw, keyOwner_reply_eq_nil (hgone c' h')]
      rfl
    · have ha' := (h.trans h').after t' (List.mem_of_getElem? hj)
      rw [hcall', hret'] at ha'
      obtain ⟨head', now, row, rows, hh', -, -, hτ'⟩ := Call.returned_checkedRequest ha'
      cases hh.symm.trans hh'
      subst hid
      exact ⟨row, rows, keyOwner_before hgone h' ⟨t', hj, by rw [hτ']; simp⟩⟩
  · rintro rfl
    obtain ⟨l, _, _, _, hins⟩ := lookup_inserted h ⟨t, hi, hlookup⟩
    obtain ⟨rfl, he⟩ := insertUser_unique (h.trans h') (fun _ _ ha ↦ ha) (hins.reaches h') hd
    exact hnd (he ▸ hins)
  · obtain ⟨call, ha, -⟩ | ⟨i', o', t', q, k, ha, hi', hk, rfl⟩ := Conf.step_eq_some _ _ hs
    · cases ha
    · cases ha
      cases hi.symm.trans hi'
      have ha := h.after t (List.mem_of_getElem? hi)
      rw [hcall, hk] at ha
      exact removing_frame ((Call.pending ha).removing hlookup)

/-- Bob is invited, enrols and is removed. -/
def removedEnrolled : List (Act Outside Call) :=
  callAlone 0 (.mintInvite "http://railyard" "bob" none) 8 {} ++
    callAlone 1 (.redeemInvite (Encoding.hexEncode zeroTokenDigest) "key" 60) 3 {} ++
    callAlone 2 (.removeUser "bob") 3 {}

/-- Then there is a user of that name again, and the old invite is tried once more. -/
def recreated : List (Act Outside Call) :=
  callAlone 3 (.createUser "bob" none 0) 3 (drawing 1) ++
    callAlone 4 (.redeemInvite (Encoding.hexEncode zeroTokenDigest) "key" 60) 1 {}

theorem removal_is_final_recreated :
    ∃ c ∈ (⟨.fresh, []⟩ : Pool).run? perform (Call.prog .sample) removedEnrolled,
      ∃ c' ∈ c.run? perform (Call.prog .sample) recreated,
        Revoked .sample "usr_0000000000000000" c c' ∧
          c'.shared.users.rows.map (fun u ↦ (u.id, u.name, u.publicKey)) =
            [("usr_0101010101010101", "bob", none)] := by
  have hadm : (⟨.fresh, []⟩ : Pool).Admits perform (Call.prog .sample) FreshUserIds
      removedEnrolled := by decide +kernel
  have hadm' : ∀ c ∈ (⟨.fresh, []⟩ : Pool).run? perform (Call.prog .sample) removedEnrolled,
      c.Admits perform (Call.prog .sample) FreshUserIds recreated := by decide +kernel
  have hremoved : ∀ c ∈ (⟨.fresh, []⟩ : Pool).run? perform (Call.prog .sample) removedEnrolled,
      ∃ t, c.threads[2]? = some t ∧ t.call = .removeUser "bob" ∧
        (⟨.sql (.userIdByName "bob"), .ok ["usr_0000000000000000"]⟩ : Event Op Op.Reply) ∈ t.trace ∧
        t.Returned (.removeUser (.ok true)) := by
    rintro _ ⟨⟩
    exact ⟨_, rfl, rfl, List.mem_cons_self, rfl⟩
  have hrun : ((⟨.fresh, []⟩ : Pool).run? perform (Call.prog .sample) removedEnrolled).bind
      (fun c ↦ (c.run? perform (Call.prog .sample) recreated).map fun c' ↦
        c'.shared.users.rows.map fun u ↦ (u.id, u.name, u.publicKey)) =
      some [("usr_0101010101010101", "bob", none)] := by decide +kernel
  obtain ⟨c, hc, hrun⟩ := Option.bind_eq_some_iff.mp hrun
  obtain ⟨c', hc', husers⟩ := Option.map_eq_some_iff.mp hrun
  obtain ⟨t, hi, hcall, hmem, hret⟩ := hremoved c hc
  exact ⟨c, hc, c', hc', (removal_is_final (Reaches.of_run? removedEnrolled hc hadm) hi hcall
    hmem).1 hret c' (Reaches.of_run? recreated hc' (hadm' c hc)), husers⟩

end Railyard
