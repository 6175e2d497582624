import Railyard.Enrolment.Revocation
import Railyard.Enrolment.SingleUse
import Railyard.Server.Restart

/-!
# Enrolment on a server that is restarted

A redemption is three statements and no transaction, so a restart may come between them.  What the
calls of enrolment see of the state are the users and the invites, and neither a restart nor the
check of a request changes those.  So without the checks, a run with restarts is a run without any
(`Enrols.purge`), and what holds there carries over.

* `enrolment_across_restarts`: an invite is redeemed once, a user's key is written once, and a user
  removed stays removed, whatever processes do it.
* `redemption_cut_off`: a redemption that a restart cuts off after its first statement has spent
  the invite, and nobody ever gets the key.
-/

set_option autoImplicit false

namespace Railyard

open Effects Prog

variable {crates : Crates} {m m' : Daemon}

/-- The process at work enrols users, and checks requests. -/
abbrev Enrols (crates : Crates) (m m' : Daemon) : Prop :=
  Host.Runs perform (Call.prog crates) Server.boot (fun m a ↦ Enrolling crates m.conf a) m m'

/-! ## What enrolment sees -/

/-- Not the check of a request. -/
def Call.enrols : Call → Bool
  | checkedRequest _ => false
  | _ => true

/-- The two states have the same users and invites. -/
def SameEnrolment (s s' : Server) : Prop := s.users = s'.users ∧ s.invites = s'.invites

theorem SameEnrolment.sql {s s' : Server} (hs : SameEnrolment s s') {q : Stmt}
    (hreply : (q.exec s).1 = (q.exec s').1) (hrows : SameEnrolment (q.exec s).2 (q.exec s').2)
    (o : Outside) : (perform o (.sql q) s).1 = (perform o (.sql q) s').1 ∧
      SameEnrolment (perform o (.sql q) s).2 (perform o (.sql q) s').2 := by
  cases hf : o.fault with
  | some e =>
    rw [perform_sql_fault hf, perform_sql_fault hf]
    exact ⟨rfl, hs⟩
  | none =>
    rw [perform_sql_ok hf, perform_sql_ok hf]
    exact ⟨hreply, hrows⟩

/-- A call of enrolment sees the users and the invites, and nothing else. -/
theorem Pending.answered {call : Call} {τ : List (Event Op Op.Reply)} {q : Op}
    (h : Pending crates call τ q) (hcall : call.enrols = true) {s s' : Server}
    (hs : SameEnrolment s s') (o : Outside) :
    (perform o q s).1 = (perform o q s').1 ∧
      SameEnrolment (perform o q s).2 (perform o q s').2 := by
  obtain ⟨users, invites, projects, releases, seenNonces, files, unpacked⟩ := s
  obtain ⟨users', invites', projects', releases', seenNonces', files', unpacked'⟩ := s'
  obtain ⟨husers, hinvites⟩ := hs
  obtain rfl : users = users' := husers
  obtain rfl : invites = invites' := hinvites
  cases h with
  | mintName hτ hq => rcases hq with rfl | rfl <;> exact ⟨rfl, rfl, rfl⟩
  | mintToken | mintClock | mintUserId | createUserId => exact ⟨rfl, rfl, rfl⟩
  | checkClock | checkKey | checkNonce => cases hcall
  | _ =>
    refine SameEnrolment.sql ?_ ?_ ?_ o
    · exact ⟨rfl, rfl⟩
    · rfl
    · exact ⟨rfl, rfl⟩

/-- The check of a request changes neither. -/
theorem Pending.unseen {call : Call} {τ : List (Event Op Op.Reply)} {q : Op}
    (h : Pending crates call τ q) (hcall : call.enrols = false) (o : Outside) (s : Server) :
    (perform o q s).2.users = s.users ∧ (perform o q s).2.invites = s.invites := by
  cases h with
  | checkClock | checkNonce => exact ⟨rfl, rfl⟩
  | checkKey hh hw =>
    rw [perform_read rfl o]
    exact ⟨rfl, rfl⟩
  | _ => cases hcall

/-- Who inserts an invite is no check. -/
theorem Pending.insertInvite_enrols {call : Call} {τ : List (Event Op Op.Reply)}
    {tokenHash userId : String} {expiresAt now : ℕ}
    (h : Pending crates call τ (.sql (.insertInvite tokenHash userId expiresAt now))) :
    call.enrols = true := by
  cases h with
  | mintName hτ hq => simp at hq
  | mintInvite | createInvite => rfl

/-- What is left of a configuration without its checks. -/
abbrev Unchecked (c d : Pool) : Prop :=
  Purged (fun _ r r' ↦ r = r') Call.enrols SameEnrolment c d

/-- **Without the checks**, a run with restarts is one without. -/
theorem Enrols.purge (h : Enrols crates (.fresh .fresh) m) :
    ∃ d, Enrolled crates d ∧ Unchecked m.conf d := by
  refine Host.Runs.purge h (.start ⟨rfl, rfl⟩) (fun _ _ ↦ alike_eq _) (fun b s s' hs ↦ hs) ?_ ?_
  · rintro m d a hm - - hpurged i o t q k - hi hk
    have hafter := hm.after t (List.mem_of_getElem? hi)
    rw [hk] at hafter
    split
    · rename_i hcall
      exact (Call.pending hafter).answered hcall hpurged.shared o
    · rename_i hcall
      obtain ⟨husers, hinvites⟩ :=
        (Call.pending hafter).unseen (Bool.eq_false_iff.mpr hcall) o m.conf.shared
      exact ⟨husers.trans hpurged.shared.1, hinvites.trans hpurged.shared.2⟩
  · intro m d a a' ha hpurged hkept hevent
    have hsame : ∀ e e' : Event Op Op.Reply, AlikeEvents (fun _ r r' ↦ r = r') e e' → e' = e :=
      fun _ _ halike ↦ halike.eq
    refine ⟨Conf.NewKey.purged (fun e e' h ↦ congrArg _ (hsame e e' h)) ha.1 hpurged hevent,
      Conf.NewKey.purged (fun e e' h ↦ congrArg _ (hsame e e' h)) ha.2.1 hpurged hevent, ?_⟩
    cases hkept with
    | spawn call => exact ha.2.2
    | step => exact trivial

theorem Unchecked.users {c d : Pool} (h : Unchecked c d) : d.shared.users = c.shared.users :=
  h.shared.1.symm

/-- What was done by a call of enrolment was done in the run without the checks. -/
theorem Unchecked.find {c d : Pool} (h : Unchecked c d) {i : ℕ} {e : Event Op Op.Reply}
    (hd : d.Did i e) : ∃ (j : ℕ) (t : Thread Call Op Op.Reply Outcome), c.threads[j]? = some t ∧
      t.call.enrols = true ∧ e ∈ t.trace := by
  obtain ⟨t, hi, he⟩ := hd
  obtain ⟨ht, hcall⟩ := h.mem (List.mem_of_getElem? hi)
  obtain ⟨j, hj⟩ := List.mem_iff_getElem?.mp ht
  exact ⟨j, t, hj, hcall, he⟩

/-! ## Every run -/

/-- What was done by a call of enrolment, found where the checks are gone. -/
theorem Unchecked.did {c d : Pool} (h : Unchecked c d) {i : ℕ} {t : Thread Call Op Op.Reply Outcome}
    (hi : c.threads[i]? = some t) (hcall : t.call.enrols = true) {e : Event Op Op.Reply}
    (he : e ∈ t.trace) : d.Did (c.purgedAt Call.enrols i) e :=
  Purged.did h hi hcall ⟨t, hi, he⟩

theorem Redeemed.unchecked {c d : Pool} (h : Unchecked c d) {i : ℕ}
    {tokenHash publicKey userId : String} {now : ℕ}
    (hr : Redeemed c i tokenHash publicKey now userId) :
    Redeemed d (c.purgedAt Call.enrols i) tokenHash publicKey now userId := by
  obtain ⟨t, hi, hcall, hret⟩ := hr
  exact ⟨t, h.thread hi (by rw [hcall]; rfl), hcall, hret⟩

/-- A token's hash is redeemed once. -/
theorem redeemed_once (h : Enrols crates (.fresh .fresh) m) {i j : ℕ}
    {tokenHash publicKey publicKey' userId userId' : String} {now now' : ℕ}
    (hi : Redeemed m.conf i tokenHash publicKey now userId)
    (hj : Redeemed m.conf j tokenHash publicKey' now' userId') : i = j := by
  obtain ⟨d, hd, hpurged⟩ := h.purge
  obtain ⟨n, rest, k, hdid, -⟩ := (hi.unchecked hpurged).told hd
  obtain ⟨n', rest', k', hdid', -⟩ := (hj.unchecked hpurged).told hd
  obtain ⟨t, hti, hcall, -⟩ := hi
  obtain ⟨t', htj, hcall', -⟩ := hj
  exact rank_inj hti htj (by rw [hcall]; rfl) (by rw [hcall']; rfl) (consume_unique hd hdid hdid')

/-- The key a user has is the key it has ever after. -/
theorem key_stays (h : Enrols crates (.fresh .fresh) m) (h' : Enrols crates m m') {u : UserRow}
    (hu : u ∈ m.conf.shared.users) {publicKey : String} (hkey : u.publicKey = some publicKey) :
    ∀ u' ∈ m'.conf.shared.users, u'.id = u.id → u'.publicKey = some publicKey := by
  obtain ⟨d, hd, hpurged⟩ := h.purge
  obtain ⟨d', hd', hpurged'⟩ := Enrols.purge (Host.Runs.trans h h')
  obtain ⟨i, n, hset⟩ := keys_set hd u (hpurged.users ▸ hu) publicKey hkey
  obtain ⟨j, t, hj, hcall, he⟩ := hpurged.find hset
  obtain ⟨t', hj', hle⟩ := Host.Runs.thread_le h' hj
  have hset' := hpurged'.did hj' (by rw [hle.1]; exact hcall) (hle.2.subset he)
  intro u' hu'
  exact setPublicKey_stays hd' hset' u' (hpurged'.users ▸ hu')

/-- A user whose removal is complete is gone for good. -/
theorem removed_gone (h : Enrols crates (.fresh .fresh) m) (h' : Enrols crates m m') {i n : ℕ}
    {t : Thread Call Op Op.Reply Outcome} (hi : m.conf.threads[i]? = some t)
    (hcall : t.call.enrols = true) {userId : String}
    (hdelete : ⟨.sql (.deleteUser userId), .ok n⟩ ∈ t.trace) :
    ∀ u ∈ m'.conf.shared.users, u.id ≠ userId := by
  obtain ⟨d', hd', hpurged'⟩ := Enrols.purge (Host.Runs.trans h h')
  obtain ⟨t', hi', hle⟩ := Host.Runs.thread_le h' hi
  have hdid := hpurged'.did hi' (by rw [hle.1]; exact hcall) (hle.2.subset hdelete)
  intro u hu
  exact deleteUser_gone hd' Enrolling.ids hdid u (hpurged'.users ▸ hu)

/-- A key lookup that found a row for an id without rows was made before. -/
theorem keyOwner_found_before {userId : String}
    (hgone : ∀ m', Enrols crates m m' → ∀ u ∈ m'.conf.shared.users, u.id ≠ userId)
    (h' : Enrols crates m m') {j : ℕ} {row : String × String × String × Option String}
    {rows : List (String × String × String × Option String)}
    (hd : m'.conf.Did j ⟨.sql (.keyOwner userId), .ok (row :: rows)⟩) :
    m.conf.Did j ⟨.sql (.keyOwner userId), .ok (row :: rows)⟩ := by
  let e : Event Op Op.Reply := ⟨.sql (.keyOwner userId), .ok (row :: rows)⟩
  refine Host.Runs.invariant (I := fun m' ↦ m'.conf.Did j e → m.conf.Did j e) h' id ?_
    (fun _ _ _ hI ↦ hI) hd
  intro m₁ c a hr hI _ _ hs hd
  obtain ⟨call, rfl, rfl⟩ | ⟨i, o, t, q, k, rfl, hi, hk, rfl⟩ := Conf.step_eq_some _ _ hs
  · exact hI (Conf.did_spawn.mp hd)
  · rcases (Conf.did_advance hi).mp hd with hd | ⟨rfl, he⟩
    · exact hI hd
    · obtain ⟨rfl, hreply⟩ := eventOf_eq he.symm
      obtain ⟨-, hrows⟩ := perform_sql_eq_ok hreply
      rw [keyOwner_reply_eq_nil (hgone _ hr)] at hrows
      cases hrows

/-- What a complete removal of `userId` means for whatever runs later. -/
structure Removed (crates : Crates) (userId : String) (m m' : Daemon) : Prop where
  gone : ∀ u ∈ m'.conf.shared.users, u.id ≠ userId
  /-- A request accepted for the id had its key looked up before. -/
  accepted : ∀ j t req req' head, m'.conf.threads[j]? = some t → t.call = .checkedRequest req →
    req.signedHead = .ok head → head.keyId = userId → t.Returned (.checkedRequest (.ok req')) →
    ∃ row rows, m.conf.Did j ⟨.sql (.keyOwner userId), .ok (row :: rows)⟩

/-- **Enrolment across restarts.**  However often the server is restarted, and whatever calls it
cuts off: at most one redemption of a token's hash returns a user; the key a user has is that
user's key in every later state; and once a removal has returned, no process has a row of its user
again, and none accepts a request for its key that had not been looked up by then. -/
theorem enrolment_across_restarts (h : Enrols crates (.fresh .fresh) m) :
    (∀ i j tokenHash publicKey publicKey' now now' userId userId',
      Redeemed m.conf i tokenHash publicKey now userId →
      Redeemed m.conf j tokenHash publicKey' now' userId' → i = j) ∧
    (∀ u ∈ m.conf.shared.users, ∀ publicKey, u.publicKey = some publicKey →
      ∀ m', Enrols crates m m' →
        ∀ u' ∈ m'.conf.shared.users, u'.id = u.id → u'.publicKey = some publicKey) ∧
    ∀ (i : ℕ) (t : Thread Call Op Op.Reply Outcome) name, m.conf.threads[i]? = some t →
      t.call = .removeUser name → t.Returned (.removeUser (.ok true)) → ∃ userId rest,
        ⟨.sql (.userIdByName name), .ok (userId :: rest)⟩ ∈ t.trace ∧
        ∀ m', Enrols crates m m' → Removed crates userId m m' := by
  refine ⟨fun _ _ _ _ _ _ _ _ _ hi hj ↦ redeemed_once h hi hj, fun u hu publicKey hkey m' h' ↦
    key_stays h h' hu hkey, fun i t name hi hcall hret ↦ ?_⟩
  have hafter := Host.Runs.after h t (List.mem_of_getElem? hi)
  rw [hcall, hret] at hafter
  obtain ⟨userId, rest, n, k, hτ⟩ := Call.returned_removeUser hafter
  have hgone : ∀ m', Enrols crates m m' → ∀ u ∈ m'.conf.shared.users, u.id ≠ userId := by
    intro m' h'
    exact removed_gone h h' hi (by rw [hcall]; rfl) (n := k) (by rw [hτ]; simp)
  refine ⟨userId, rest, by rw [hτ]; simp, fun m' h' ↦ ⟨hgone m' h', ?_⟩⟩
  intro j t' req req' head hj hcall' hhead hid hret'
  have hafter' := Host.Runs.after (Host.Runs.trans h h') t' (List.mem_of_getElem? hj)
  rw [hcall', hret'] at hafter'
  obtain ⟨head', now, row, rows, hhead', -, -, hτ'⟩ := Call.returned_checkedRequest hafter'
  cases hhead.symm.trans hhead'
  subst hid
  exact ⟨row, rows, keyOwner_found_before hgone h' ⟨t', hj, by rw [hτ']; simp⟩⟩

/-- A user is invited and redeems the invite, and then the server is restarted. -/
def enrolledRestarted : List (HostAct Outside (String → ℕ) Call) :=
  enrolledAlone.map .act ++ [.restart fun _ ↦ 0]

/-- In the next process the invite is redeemed once more. -/
def redeemedAgain : List (HostAct Outside (String → ℕ) Call) :=
  (callAlone 2 (.redeemInvite (Encoding.hexEncode zeroTokenDigest) "other" 60) 1 {}).map .act

theorem enrolment_across_restarts_redeemedAgain :
    ∃ m ∈ (Host.fresh .fresh : Daemon).run? perform (Call.prog .sample) Server.boot
        enrolledRestarted, ∃ m' ∈ m.run? perform (Call.prog .sample) Server.boot redeemedAgain,
      m'.dead = 2 ∧ m'.conf.shared.users.rows.map UserRow.publicKey = [some "key"] ∧
        (∀ i publicKey now userId,
          Redeemed m'.conf i (Encoding.hexEncode zeroTokenDigest) publicKey now userId → i = 1) ∧
        ∀ u ∈ m.conf.shared.users, ∀ publicKey, u.publicKey = some publicKey →
          ∀ u' ∈ m'.conf.shared.users, u'.id = u.id → u'.publicKey = some publicKey := by
  have hadm : (Host.fresh .fresh : Daemon).Admits perform (Call.prog .sample) Server.boot
      (fun m a ↦ Enrolling .sample m.conf a) enrolledRestarted := by decide +kernel
  have hadm' : ∀ m ∈ (Host.fresh .fresh : Daemon).run? perform (Call.prog .sample) Server.boot
      enrolledRestarted, m.Admits perform (Call.prog .sample) Server.boot
        (fun m a ↦ Enrolling .sample m.conf a) redeemedAgain := by decide +kernel
  refine ⟨_, rfl, _, rfl, rfl, rfl, fun i publicKey now userId hi ↦ ?_,
    fun u hu publicKey hkey ↦ ?_⟩
  · have hrun := Host.Runs.trans (Host.Runs.of_run? enrolledRestarted rfl hadm)
      (Host.Runs.of_run? redeemedAgain rfl (hadm' _ rfl))
    exact (enrolment_across_restarts hrun).1 i 1 _ publicKey "key" now 60 userId
      "usr_0000000000000000" hi ⟨_, rfl, rfl, rfl⟩
  · exact (enrolment_across_restarts (Host.Runs.of_run? enrolledRestarted rfl hadm)).2.1 u hu
      publicKey hkey _ (Host.Runs.of_run? redeemedAgain rfl (hadm' _ rfl))

/-! ## A redemption cut off -/

/-- A redemption that was cut off has consumed the invite and not stored the key. -/
structure CutOff (m : Daemon) (i : ℕ) (tokenHash : String) : Prop where
  dead : i < m.dead
  consumed : ∃ t publicKey now n, m.conf.threads[i]? = some t ∧
    t.call = .redeemInvite tokenHash publicKey now ∧
    ⟨.sql (.consumeInvite tokenHash now), .ok (n + 1)⟩ ∈ t.trace ∧
    ∀ userId r, (⟨.sql (.setPublicKey publicKey userId), r⟩ : Event Op Op.Reply) ∉ t.trace

theorem CutOff.later (h' : Enrols crates m m') {i : ℕ} {tokenHash : String}
    (hcut : CutOff m i tokenHash) : CutOff m' i tokenHash := by
  obtain ⟨hdead, t, publicKey, now, n, hi, hrest⟩ := hcut
  obtain ⟨hi', hdead'⟩ := Host.Runs.cut h' hi hdead
  exact ⟨hdead', t, publicKey, now, n, hi', hrest⟩

/-- Who else consumes the invite, or stores a key for its user, is the redemption cut off. -/
theorem CutOff.none (h : Enrols crates (.fresh .fresh) m) {i : ℕ} {tokenHash userId : String}
    (hcut : CutOff m i tokenHash) {l : ℕ} {expiresAt created : ℕ}
    (hminted : Minted m.conf l tokenHash userId expiresAt created) :
    (∀ u ∈ m.conf.shared.users, u.id = userId → u.publicKey = none) ∧
      ∀ j publicKey now userId', ¬ Redeemed m.conf j tokenHash publicKey now userId' := by
  obtain ⟨-, t, publicKey₀, now₀, n, hi, hcall, hconsumed, hnot⟩ := hcut
  obtain ⟨d, hd, hpurged⟩ := h.purge
  have henrols : t.call.enrols = true := by rw [hcall]; rfl
  have hthread := hpurged.thread hi henrols
  have hconsume := hpurged.did hi henrols hconsumed
  constructor
  · rintro u hu rfl
    by_contra hkey
    obtain ⟨publicKey, hkey⟩ := Option.ne_none_iff_exists'.mp hkey
    obtain ⟨j, r, hset⟩ := keys_set hd u (hpurged.users ▸ hu) publicKey hkey
    obtain ⟨t', τ₁, τ₂, k, hj, hτ, hk⟩ := hd.issued hset
    obtain ⟨tokenHash', now', n', j', expiresAt', created', hcall', hconsume', hminted', -⟩ :=
      setPublicKey_redeems hd hj ⟨_, hτ.symm⟩ hk
    -- the user has one invite, and this redemption has consumed it
    obtain ⟨t₁, hl, he⟩ := hminted
    have hmint : t₁.call.enrols = true := by
      have hafter := Host.Runs.after h t₁ (List.mem_of_getElem? hl)
      obtain ⟨τ, τ', hτ⟩ := List.append_of_mem he
      rw [hτ] at hafter
      obtain ⟨k', hk', -⟩ := hafter.split
      exact (Call.pending hk').insertInvite_enrols
    have hminted₁ : Minted d _ tokenHash u.id expiresAt created := hpurged.did hl hmint he
    obtain ⟨-, rfl, -⟩ :=
      minted_unique_user hd Enrolling.whole Enrolling.ids hminted₁ hminted'
    obtain rfl := consume_unique hd hconsume' hconsume
    cases hthread.symm.trans hj
    obtain ⟨-, rfl, -⟩ := Call.redeemInvite.inj (hcall.symm.trans hcall')
    exact hnot _ _ (hτ ▸ List.mem_append_right _ List.mem_cons_self)
  · intro j publicKey now userId' hr
    obtain ⟨n', rest, k, hconsume', -, hset⟩ := (hr.unchecked hpurged).told hd
    obtain ⟨t', hj, hcall', -⟩ := hr.unchecked hpurged
    rw [consume_unique hd hconsume' hconsume] at hset hj
    obtain ⟨t'', hi'', hset⟩ := hset
    cases hthread.symm.trans hi''
    cases hthread.symm.trans hj
    obtain ⟨-, rfl, -⟩ := Call.redeemInvite.inj (hcall.symm.trans hcall')
    exact hnot _ _ hset

/-- **A redemption cut off** by a restart, after it has consumed the invite and before it has
stored the key, has spent the invite: no redemption of its hash ever returns a user, and the user it
was minted for never gets a key. -/
theorem redemption_cut_off (h : Enrols crates (.fresh .fresh) m) {i : ℕ} {tokenHash : String}
    (hcut : CutOff m i tokenHash) :
    ∃ userId, (∃ l expiresAt created, Minted m.conf l tokenHash userId expiresAt created) ∧
      ∀ m', Enrols crates m m' →
        (∀ u ∈ m'.conf.shared.users, u.id = userId → u.publicKey = none) ∧
        ∀ j publicKey now userId', ¬ Redeemed m'.conf j tokenHash publicKey now userId' := by
  obtain ⟨d, hd, hpurged⟩ := h.purge
  have hcut₀ := hcut
  obtain ⟨-, t, publicKey, now, n, hi, hcall, hconsumed, -⟩ := hcut₀
  have hconsume := hpurged.did hi (by rw [hcall]; rfl) hconsumed
  obtain ⟨j, userId, expiresAt, created, hminted, -⟩ := consume_minted hd hconsume
  obtain ⟨l, t', hl, -, he⟩ := hpurged.find hminted
  have hminted₀ : Minted m.conf l tokenHash userId expiresAt created := ⟨t', hl, he⟩
  refine ⟨userId, ⟨l, expiresAt, created, hminted₀⟩, fun m' h' ↦ ?_⟩
  exact CutOff.none (Host.Runs.trans h h') (hcut.later h') (Host.Runs.did h' hminted₀)

/-- The server is restarted after the first statement of a redemption. -/
def redemptionCut : List (HostAct Outside (String → ℕ) Call) :=
  (callAlone 0 (.mintInvite "http://railyard" "bob" none) 8 {} ++
    callAlone 1 (.redeemInvite (Encoding.hexEncode zeroTokenDigest) "key" 60) 1 {}).map .act ++
  [.restart fun _ ↦ 0]

theorem redemptionCut_cutOff :
    ∃ m ∈ (Host.fresh .fresh : Daemon).run? perform (Call.prog .sample) Server.boot redemptionCut,
      CutOff m 1 (Encoding.hexEncode zeroTokenDigest) := by
  refine ⟨_, rfl, by decide, _, "key", 60, 0, rfl, rfl, List.mem_singleton_self _, ?_⟩
  intro userId r hmem
  cases List.mem_singleton.mp hmem

theorem redemption_cut_off_redemptionCut :
    ∃ m ∈ (Host.fresh .fresh : Daemon).run? perform (Call.prog .sample) Server.boot redemptionCut,
      ∀ m', Enrols .sample m m' → ∀ j publicKey now userId,
        ¬ Redeemed m'.conf j (Encoding.hexEncode zeroTokenDigest) publicKey now userId := by
  have hadm : (Host.fresh .fresh : Daemon).Admits perform (Call.prog .sample) Server.boot
      (fun m a ↦ Enrolling .sample m.conf a) redemptionCut := by decide +kernel
  obtain ⟨m, hm, hcut⟩ := redemptionCut_cutOff
  obtain ⟨userId, -, hnever⟩ :=
    redemption_cut_off (Host.Runs.of_run? redemptionCut hm hadm) hcut
  exact ⟨m, hm, fun m' h' ↦ (hnever m' h').2⟩

end Railyard
