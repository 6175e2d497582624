import Mathlib.Data.Finset.Card
import Mathlib.Data.Finset.Range
import Railyard.Replay.Concurrent
import Railyard.Server.Restart

/-!
# Replays on a server that is restarted

The replay map is not stored, so a restart forgets which nonces were seen.  Within one process a
request is accepted once, under the conditions of `Replay.Concurrent`; so each time it is accepted
again, the server has been restarted in between (`restarted_between`), and it is accepted at most
once for each process (`accepted_per_process`).  That a process does accept it again is what a
replay within the window gets (`accepted_anew`).
-/

set_option autoImplicit false

namespace Railyard

open Effects Prog ReplayWindow

variable {crates : Crates} {s : Server} {m : Daemon}

/-- In each process the clock does not go back, no timestamp is ahead of it, and locks are taken in
time. -/
abbrev ChecksInTime (m : Daemon) (a : Act Outside Call) : Prop :=
  CheckedInTime m.process (a.since m.dead)

/-- The server checks requests, and is restarted. -/
abbrev Checks (crates : Crates) (m m' : Daemon) : Prop :=
  Host.Runs perform (Call.prog crates) Server.boot ChecksInTime m m'

/-! ## One process -/

/-- An index of the process at work. -/
theorem process_getElem? {i : ℕ} (hi : m.dead ≤ i) :
    m.process.threads[i - m.dead]? = m.conf.threads[i]? := by
  rw [Host.process, List.getElem?_drop, Nat.add_sub_cancel' hi]

theorem Accepted.process {i : ℕ} {head : SignedHead} (hi : m.dead ≤ i)
    (h : Accepted m.conf i head) : Accepted m.process (i - m.dead) head := by
  obtain ⟨t, ht, hacc⟩ := h
  exact ⟨t, (process_getElem? hi).trans ht, hacc⟩

/-- The call that becomes accepted is the first of its request in the process at work. -/
theorem Checks.accepted_first (h : Checks crates (.fresh s) m) {i j : ℕ} {o : Outside}
    {t : CallThread} {q : Op} {k : q.Reply → Task Outcome} (halive : m.dead ≤ i)
    (hi : m.conf.threads[i]? = some t) (hk : t.code = .op q k) {head head' : SignedHead}
    (hacc : accepted? (stepped m.conf o t q k) = some head) (hj : Accepted m.conf j head')
    (hsame : head.Same head') : j < m.dead := by
  by_contra hle
  have hle := Nat.le_of_not_lt hle
  obtain ⟨s₀, hreach⟩ := Host.Runs.process h fun _ _ ha ↦ ha
  exact Railyard.accepted_first hreach ((process_getElem? halive).trans hi) hk hacc (hj.process hle)
    hsame

theorem dead_mem {i : ℕ} (hi : i < m.dead) : m.dead ∈ m.starts := by
  rw [Host.dead] at hi ⊢
  cases hstarts : m.starts with
  | nil => rw [hstarts] at hi; exact absurd hi (Nat.not_lt_zero i)
  | cons b starts => exact List.mem_cons_self

/-! ## Every process -/

/-- **A restart in between**: a process started between two calls that accepted one request. -/
theorem restarted_between (h : Checks crates (.fresh s) m) {i j : ℕ} {head head' : SignedHead}
    (hi : Accepted m.conf i head) (hj : Accepted m.conf j head') (hsame : head.Same head')
    (hij : i < j) : ∃ b ∈ m.starts, i < b ∧ b ≤ j := by
  refine Host.Runs.invariant (I := fun m ↦ ∀ i j head head', Accepted m.conf i head →
    Accepted m.conf j head' → head.Same head' → i < j → ∃ b ∈ m.starts, i < b ∧ b ≤ j) h ?_ ?_ ?_
    i j head head' hi hj hsame hij
  · rintro i j head head' ⟨t, hi, -⟩
    simp [Host.fresh] at hi
  · intro m c a hr hI _ halive hs i j head head' hi hj hsame hij
    rcases hi.of_step hs with hi | ⟨o, t, q, k, rfl, hti, hk, hacc⟩
    · rcases hj.of_step hs with hj | ⟨o, t, q, k, rfl, htj, hk, hacc⟩
      · exact hI i j head head' hi hj hsame hij
      · have hdead := Checks.accepted_first hr halive htj hk hacc hi hsame.symm
        exact ⟨m.dead, dead_mem hdead, hdead, halive⟩
    · rcases hj.of_step hs with hj | ⟨o', t', q', k', he, -⟩
      · have hdead := Checks.accepted_first hr halive hti hk hacc hj hsame
        have halive : m.dead ≤ i := halive
        omega
      · cases he
        exact absurd hij (Nat.lt_irrefl i)
  · intro m b hr hI i j head head' hi hj hsame hij
    obtain ⟨b', hb', hbetween⟩ := hI i j head head' hi hj hsame hij
    exact ⟨b', List.mem_cons_of_mem _ hb', hbetween⟩

theorem SignedHead.Same.trans {head head' head'' : SignedHead} (h : head.Same head')
    (h' : head'.Same head'') : head.Same head'' :=
  ⟨h.1.trans h'.1, h.2.1.trans h'.2.1, h.2.2.trans h'.2.2⟩

/-- A later bound counts more, if there is one in between. -/
theorem countP_le_lt {starts : List ℕ} {i j b : ℕ} (hb : b ∈ starts) (hi : i < b) (hj : b ≤ j) :
    starts.countP (· ≤ i) < starts.countP (· ≤ j) := by
  induction starts with
  | nil => cases hb
  | cons a starts ih =>
    have hle : starts.countP (· ≤ i) ≤ starts.countP (· ≤ j) := by
      refine List.countP_mono_left fun a _ ha ↦ ?_
      simp only [decide_eq_true_eq] at ha ⊢
      omega
    rw [List.countP_cons, List.countP_cons]
    rcases List.mem_cons.mp hb with rfl | hb
    · rw [if_neg (by simpa using hi), if_pos (by simpa using hj)]
      omega
    · have hlt := ih hb
      have hone : (if decide (a ≤ i) = true then 1 else 0)
          ≤ if decide (a ≤ j) = true then 1 else 0 := by
        split
        · rw [if_pos (by simp at *; omega)]
        · exact Nat.zero_le _
      omega

/-- A request is accepted at most once for each process there was. -/
theorem accepted_per_process (h : Checks crates (.fresh s) m) (head : SignedHead) (is : Finset ℕ)
    (his : ∀ i ∈ is, ∃ head', Accepted m.conf i head' ∧ head'.Same head) :
    is.card ≤ m.starts.length + 1 := by
  have hmaps : Set.MapsTo (fun i ↦ m.starts.countP (· ≤ i)) is
      (Finset.range (m.starts.length + 1)) := by
    intro i _
    simpa using Nat.lt_succ_of_le List.countP_le_length
  have hlt : ∀ i ∈ is, ∀ j ∈ is, i < j →
      m.starts.countP (· ≤ i) < m.starts.countP (· ≤ j) := by
    intro i hi j hj hij
    obtain ⟨head₁, hacc₁, hsame₁⟩ := his i hi
    obtain ⟨head₂, hacc₂, hsame₂⟩ := his j hj
    obtain ⟨b, hb, hib, hbj⟩ :=
      restarted_between h hacc₁ hacc₂ (hsame₁.trans hsame₂.symm) hij
    exact countP_le_lt hb hib hbj
  have hinj : Set.InjOn (fun i ↦ m.starts.countP (· ≤ i)) is := by
    intro i hi j hj heq
    rcases Nat.lt_trichotomy i j with hij | hij | hij
    · exact absurd heq (Nat.ne_of_lt (hlt i hi j hj hij))
    · exact hij
    · exact absurd heq (Nat.ne_of_gt (hlt j hj i hi hij))
  have hcard := Finset.card_le_card_of_injOn _ hmaps hinj
  rwa [Finset.card_range] at hcard

/-! ## A replay after a restart -/

/-- A check alone, of a request that is not ahead of a clock that stands still. -/
theorem checkedInTime_alone {t : CallThread} {q : Op} {k : q.Reply → Task Outcome} {o : Outside}
    (hk : t.code = .op q k) (hread : ∀ e ∈ t.trace, ∀ now ∈ reading e, now = o.now)
    (hahead : ∀ head ∈ head? t, head.timestamp ≤ o.now) :
    CheckedInTime ⟨s, [t]⟩ (.step 0 o) := by
  have hevent : ∀ e ∈ (⟨s, [t]⟩ : Pool).event? perform (.step 0 o), ∀ now ∈ reading e,
      now = o.now := by
    intro e he now hnow
    rw [Conf.event?_step (c := ⟨s, [t]⟩) (t := t) rfl hk, Option.mem_some_iff] at he
    subst he
    unfold reading at hnow
    split at hnow
    · rename_i now' heq
      obtain ⟨rfl, hreply⟩ := Sigma.mk.inj heq
      cases hnow
      exact (eq_of_heq hreply).symm
    · cases hnow
  have hacc : accepted? t = none := by rw [accepted?, hk]
  refine ⟨?_, ?_, ?_⟩
  · intro e he now hnow t' ht' e' he' now' hnow'
    rw [List.mem_singleton.mp ht'] at he'
    rw [hevent e he now hnow, hread e' he' now' hnow']
  · intro e he now hnow t' ht' head hhead
    cases ht'
    rw [hevent e he now hnow]
    exact hahead head hhead
  · intro t₀ ht₀ r hr t' ht' head hhead
    rw [List.mem_singleton.mp ht', hacc] at hhead
    cases hhead

theorem checksInTime_last {l : List CallThread} {starts : List ℕ} {t : CallThread} {q : Op}
    {k : q.Reply → Task Outcome} {o : Outside} (hk : t.code = .op q k)
    (hread : ∀ e ∈ t.trace, ∀ now ∈ reading e, now = o.now)
    (hahead : ∀ head ∈ head? t, head.timestamp ≤ o.now) :
    ChecksInTime ⟨⟨s, l ++ [t]⟩, l.length :: starts⟩ (.step l.length o) := by
  have hprocess : Host.process (⟨⟨s, l ++ [t]⟩, l.length :: starts⟩ : Daemon) = ⟨s, [t]⟩ :=
    congrArg (Conf.mk s) List.drop_left
  have hsince : Act.since l.length (.step l.length o : Act Outside Call) = .step 0 o :=
    congrArg (fun i ↦ Act.step i o) (Nat.sub_self _)
  show CheckedInTime (Host.process _) (Act.since l.length _)
  rw [hprocess, hsince]
  exact checkedInTime_alone hk hread hahead

/-- The steps of a check that is accepted. -/
theorem checkedRequest_steps {req : Request} {head : SignedHead} {now : ℕ}
    {row : String × String × String × Option String}
    (rows : List (String × String × String × Option String)) (hhead : req.signedHead = .ok head)
    (hw : absDiff now head.timestamp ≤ timestampWindowSeconds)
    (hverify : verifyHead crates req head row.1 = .ok ()) :
    ∃ k₁, Call.prog crates (.checkedRequest req) = .op .unixTimestamp k₁ ∧
      ∃ k₂, k₁ now = .op (.sql (.keyOwner head.keyId)) k₂ ∧
      ∃ k₃, k₂ (.ok (row :: rows)) = .op (.recordNonce timestampWindowSeconds now head.nonce) k₃ ∧
      ∃ req', k₃ false = .ret (.checkedRequest (.ok req')) := by
  have hprog : Call.prog crates (.checkedRequest req) =
      (Railyard.checkedRequest crates req).run.bind fun r ↦ .ret (.checkedRequest r) := rfl
  rw [hprog, checkedRequest_run, hhead]
  obtain ⟨publicKey, id, name, projectId⟩ := row
  refine ⟨_, rfl, ?_⟩
  dsimp only
  rw [if_neg (Nat.not_lt.mpr hw)]
  refine ⟨_, rfl, ?_⟩
  dsimp only at hverify ⊢
  rw [hverify]
  exact ⟨_, rfl, _, rfl⟩

/-- **A replay after a restart is accepted**, whatever has been accepted before: its key is there,
its signature verifies, and the clock has not left the window. -/
theorem accepted_anew {m₀ : Daemon} (h : Checks crates m₀ m) (written : String → ℕ) {req : Request}
    {head : SignedHead} {o : Outside} {row : String × String × String × Option String}
    {rows : List (String × String × String × Option String)} (hhead : req.signedHead = .ok head)
    (hahead : head.timestamp ≤ o.now) (hwindow : o.now ≤ head.timestamp + timestampWindowSeconds)
    (howner : (perform o (.sql (.keyOwner head.keyId)) m.conf.shared).1 = .ok (row :: rows))
    (hverify : verifyHead crates req head row.1 = .ok ()) :
    ∃ m', Checks crates m₀ m' ∧ m'.starts = m.conf.threads.length :: m.starts ∧
      Accepted m'.conf m.conf.threads.length head := by
  have hw : absDiff o.now head.timestamp ≤ timestampWindowSeconds :=
    absDiff_le_iff.mpr ⟨hwindow, by omega⟩
  have howner' : perform o (.sql (.keyOwner head.keyId)) (m.conf.shared.boot written)
      = (.ok (row :: rows), m.conf.shared.boot written) := by
    refine Prod.ext ?_ (perform_read rfl o)
    rw [← howner]
    simp only [perform]
    cases o.fault <;> rfl
  obtain ⟨k₁, hprog, k₂, h₁, k₃, h₂, req', h₃⟩ := checkedRequest_steps rows hhead hw hverify
  have hhead? : ∀ τ p, ∀ head' ∈ head? (⟨.checkedRequest req, τ, p⟩ : CallThread),
      head'.timestamp ≤ o.now := by
    intro τ p head' hhead'
    obtain ⟨_, hcall, hhead₁⟩ := head?_eq_some.mp hhead'
    cases hcall
    cases hhead.symm.trans hhead₁
    exact hahead
  have hrestarted : Checks crates m₀ (m.restart Server.boot written) := Host.Runs.restart h written
  have hspawned := Host.Runs.act hrestarted (a := .spawn (.checkedRequest req))
    ⟨fun e he ↦ absurd he (Option.not_mem_none e), trivial, trivial⟩ trivial rfl
  rw [hprog] at hspawned
  have hclock := hspawned.last (Nat.le_refl _) (o := o) rfl
    (checksInTime_last rfl (fun e he ↦ absurd he List.not_mem_nil) (hhead? _ _))
  rw [h₁] at hclock
  have hread : ∀ e ∈ ([⟨.unixTimestamp, o.now⟩] : List (Event Op Op.Reply)), ∀ now ∈ reading e,
      now = o.now := by
    intro e he now hnow
    cases List.mem_singleton.mp he
    cases hnow
    rfl
  have hread' : ∀ e ∈ ([⟨.unixTimestamp, o.now⟩, ⟨.sql (.keyOwner head.keyId), .ok (row :: rows)⟩] :
      List (Event Op Op.Reply)), ∀ now ∈ reading e, now = o.now := by
    intro e he now hnow
    rcases List.mem_cons.mp he with rfl | he
    · exact hread _ (List.mem_singleton_self _) now hnow
    · cases List.mem_singleton.mp he
      cases hnow
  have hlooked := hclock.last (Nat.le_refl _) howner' (checksInTime_last rfl hread (hhead? _ _))
  rw [h₂] at hlooked
  -- the process has seen no nonce
  have hnew : perform o (.recordNonce timestampWindowSeconds o.now head.nonce)
      (m.conf.shared.boot written) = (false, _) := rfl
  have hrecorded := hlooked.last (Nat.le_refl _) hnew (checksInTime_last rfl hread' (hhead? _ _))
  rw [h₃] at hrecorded
  refine ⟨_, hrecorded, rfl, _, List.getElem?_concat_length, ?_⟩
  rw [accepted?]
  exact head?_eq_some.mpr ⟨req, rfl, hhead⟩

/-- **Replays across restarts.**  Between two checks that accepted one request the server has been
restarted, so that a request is accepted at most once for each process there was; and this is as
good as it gets, for the next process accepts whatever request is still in its window. -/
theorem replays_across_restarts (h : Checks crates (.fresh s) m) :
    (∀ i j head head', Accepted m.conf i head → Accepted m.conf j head' → head.Same head' →
      i < j → ∃ b ∈ m.starts, i < b ∧ b ≤ j) ∧
    (∀ head (is : Finset ℕ), (∀ i ∈ is, ∃ head', Accepted m.conf i head' ∧ head'.Same head) →
      is.card ≤ m.starts.length + 1) ∧
    ∀ req head o row rows, req.signedHead = .ok head → head.timestamp ≤ o.now →
      o.now ≤ head.timestamp + timestampWindowSeconds →
      (perform o (.sql (.keyOwner head.keyId)) m.conf.shared).1 = .ok (row :: rows) →
      verifyHead crates req head row.1 = .ok () →
      ∃ m', Checks crates m m' ∧ m'.starts = m.conf.threads.length :: m.starts ∧
        Accepted m'.conf m.conf.threads.length head :=
  ⟨fun _ _ _ _ hi hj hsame hij ↦ restarted_between h hi hj hsame hij,
    fun head is his ↦ accepted_per_process h head is his,
    fun _ _ _ _ _ hhead hahead hwindow howner hverify ↦
      accepted_anew .refl (fun _ ↦ 0) hhead hahead hwindow howner hverify⟩

/-- One check, alone. -/
def checkedAlone : List (Act Outside Call) :=
  callAlone 0 (.checkedRequest (whoamiRequest "1000" "n")) 3 { now := 1000 }

theorem replays_across_restarts_checkedAlone :
    ∃ m ∈ (Host.fresh .keyed : Daemon).run? perform (Call.prog .sample) Server.boot
        (checkedAlone.map .act),
      ∃ head ∈ (whoamiRequest "1000" "n").signedHead.toOption, Accepted m.conf 0 head ∧
        ∃ m', Checks .sample m m' ∧ Accepted m'.conf 1 head := by
  have hadm : (Host.fresh .keyed : Daemon).Admits perform (Call.prog .sample) Server.boot
      ChecksInTime (checkedAlone.map .act) := by decide +kernel
  have hacc : ∃ m ∈ (Host.fresh .keyed : Daemon).run? perform (Call.prog .sample) Server.boot
      (checkedAlone.map .act), ∃ head ∈ (whoamiRequest "1000" "n").signedHead.toOption,
        Accepted m.conf 0 head ∧ head.timestamp = 1000 ∧ m.conf.threads.length = 1 ∧
          (∃ u ∈ m.conf.shared.users.rows, u.id = head.keyId ∧ u.publicKey = some neutralKey) ∧
          (verifyHead .sample (whoamiRequest "1000" "n") head neutralKey).isOk = true := by
    decide +kernel
  obtain ⟨m, hm, head, hhead, h0, htimestamp, hlength, ⟨u, hu, hid, hkey⟩, hverify⟩ := hacc
  have hrun := Host.Runs.of_run? (checkedAlone.map .act) hm hadm
  have hhead' : (whoamiRequest "1000" "n").signedHead = .ok head := by
    cases h : (whoamiRequest "1000" "n").signedHead with
    | error e => rw [h] at hhead; cases hhead
    | ok head' => rw [h] at hhead; exact congrArg Except.ok (Option.some.inj hhead)
  have hverify' : verifyHead .sample (whoamiRequest "1000" "n") head neutralKey = .ok () := by
    cases h : verifyHead .sample (whoamiRequest "1000" "n") head neutralKey with
    | error e => rw [h] at hverify; cases hverify
    | ok _ => rfl
  obtain ⟨rows, howner⟩ := keyOwner_reply_of_mem hu hkey
  rw [hid] at howner
  obtain ⟨m', hm', -, h1⟩ := (replays_across_restarts hrun).2.2 _ head { now := 1000 } _ _ hhead'
    (Nat.le_of_eq htimestamp) (by rw [htimestamp]; decide) howner hverify'
  rw [hlength] at h1
  exact ⟨m, hm, head, hhead, h0, m', hm', h1⟩

end Railyard
