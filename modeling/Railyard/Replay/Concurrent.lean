import Railyard.Replay.Sequential
import Railyard.Server.Calls

/-!
# Replays, many requests at once

A check samples the clock, looks the key up, and only then takes the lock and records the nonce,
with the sample it took before.  Checks in flight together may take the lock in another order than
they took their samples, and one of them forgets nonces on behalf of all.

A request stays protected as long as nobody forgets its nonce while it can still be accepted:
because a check of it is in flight (`Thread.inFlight?`), or because the clock has not left its
window (`Live`).  `Timely` says this of one step, and `accepted_once_of_timely` that runs of such
steps accept a request once.
-/

set_option autoImplicit false

namespace Railyard

open Effects Prog ReplayWindow

variable {crates : Crates} {s : Server} {c c' : Pool}

/-! ## What a check is doing -/

abbrev CallThread := Thread Call Op Op.Reply Outcome

/-- What the signature headers say, in a check of a request that has them. -/
def head? (t : CallThread) : Option SignedHead :=
  match t.call with
  | .checkedRequest req => req.signedHead.toOption
  | _ => none

/-- The head of a request that has been accepted. -/
def accepted? (t : CallThread) : Option SignedHead :=
  match t.code with
  | .ret (.checkedRequest (.ok _)) => head? t
  | _ => none

/-- The head of a request whose check has passed the window and not taken the lock yet. -/
def inFlight? (t : CallThread) : Option SignedHead :=
  match t.trace, t.code with
  | _ :: _, .op .. => head? t
  | _, _ => none

/-- The clock reading of an event, if it is one. -/
def reading : Event Op Op.Reply → Option ℕ
  | ⟨.unixTimestamp, now⟩ => some now
  | _ => none

/-- The same signed request: key id, nonce and timestamp agree. -/
def SignedHead.Same (h h' : SignedHead) : Prop :=
  h.keyId = h'.keyId ∧ h.nonce = h'.nonce ∧ h.timestamp = h'.timestamp

instance : DecidableRel SignedHead.Same := fun _ _ ↦ inferInstanceAs (Decidable (_ ∧ _ ∧ _))

theorem SignedHead.Same.symm {h h' : SignedHead} (hs : h.Same h') : h'.Same h :=
  ⟨hs.1.symm, hs.2.1.symm, hs.2.2.symm⟩

/-! ## Steps -/

/-- The clock does not go back. -/
def ClockForward (c : Pool) (a : Act Outside Call) : Prop :=
  ∀ e ∈ c.event? perform a, ∀ now ∈ reading e, ∀ t ∈ c.threads, ∀ e' ∈ t.trace,
    ∀ now' ∈ reading e', now' ≤ now

/-- No check reads a clock that is behind the timestamp of its request. -/
def NotAhead (c : Pool) : Act Outside Call → Prop
  | .spawn _ => True
  | .step i o => ∀ e ∈ c.event? perform (.step i o), ∀ now ∈ reading e, ∀ t ∈ c.threads[i]?,
      ∀ head ∈ head? t, head.timestamp ≤ now

/-- What a thread about to take the lock will record: its clock reading, and its nonce. -/
def locking? (t : CallThread) : Option (ℕ × String) :=
  match t.code with
  | .op (.recordNonce _ now nonce) _ => some (now, nonce)
  | _ => none

/-- A request with this head could still be accepted: one of the threads `ts` is checking it, or the
clock has not been read beyond its window. -/
def Live (ts : List CallThread) (c : Pool) (head : SignedHead) : Prop :=
  (∃ t ∈ ts, ∃ head' ∈ inFlight? t, head'.Same head) ∨
    ∀ t ∈ c.threads, ∀ e ∈ t.trace, ∀ now ∈ reading e,
      now ≤ head.timestamp + timestampWindowSeconds

/-- A check that takes the lock forgets no nonce of an accepted request that could still be accepted
by another check, and takes its own record of such a nonce within the window of that request. -/
def Timely (c : Pool) : Act Outside Call → Prop
  | .spawn _ => True
  | .step i _ => ∀ t ∈ c.threads[i]?, ∀ r ∈ locking? t,
      ∀ t' ∈ c.threads, ∀ head ∈ accepted? t', Live (c.threads.eraseIdx i) c head →
        if head.nonce = r.2 then
          head.timestamp ≤ r.1 ∧ r.1 ≤ head.timestamp + timestampWindowSeconds
        else ∀ seenAt ∈ c.shared.seenNonces head.nonce, absDiff r.1 seenAt ≤ timestampWindowSeconds

instance (c : Pool) (a : Act Outside Call) : Decidable (ClockForward c a) :=
  inferInstanceAs (Decidable (∀ e ∈ c.event? perform a, _))

instance (c : Pool) : (a : Act Outside Call) → Decidable (NotAhead c a)
  | .spawn _ => .isTrue trivial
  | .step i o => inferInstanceAs (Decidable (∀ e ∈ c.event? perform (.step i o), _))

instance (ts : List CallThread) (c : Pool) (head : SignedHead) : Decidable (Live ts c head) :=
  inferInstanceAs (Decidable (_ ∨ _))

instance (c : Pool) : (a : Act Outside Call) → Decidable (Timely c a)
  | .spawn _ => .isTrue trivial
  | .step i _ => inferInstanceAs (Decidable (∀ t ∈ c.threads[i]?, _))

/-! ## Where a check stands -/

theorem head?_eq_some {t : CallThread} {head : SignedHead} :
    head? t = some head ↔ ∃ req, t.call = .checkedRequest req ∧ req.signedHead = .ok head := by
  unfold head?
  split
  · rename_i req hcall
    rw [hcall]
    cases h : req.signedHead <;> simp [Except.toOption, h]
  · rename_i hne
    simp only [reduceCtorEq, false_iff]
    rintro ⟨req, hcall, -⟩
    exact hne req hcall

/-- What has been told to the check of an accepted request. -/
theorem accepted?_told {t : CallThread} {head : SignedHead}
    (ha : After (t.call.prog crates) t.trace t.code) (h : accepted? t = some head) :
    head? t = some head ∧ ∃ now rows, absDiff now head.timestamp ≤ timestampWindowSeconds ∧
      t.trace = [⟨.unixTimestamp, now⟩, ⟨.sql (.keyOwner head.keyId), .ok rows⟩] ++
        [⟨.recordNonce timestampWindowSeconds now head.nonce, false⟩] := by
  unfold accepted? at h
  split at h
  · rename_i req' hcode
    obtain ⟨req, hcall, hh⟩ := head?_eq_some.mp h
    rw [hcall, hcode] at ha
    obtain ⟨head', now, row, rows, hh', hw, -, hτ⟩ := Call.returned_checkedRequest ha
    obtain rfl := Except.ok.inj (hh.symm.trans hh')
    exact ⟨h, now, _, hw, hτ⟩
  · cases h

/-- What has been told to a check in flight. -/
theorem inFlight?_told {t : CallThread} {head : SignedHead}
    (ha : After (t.call.prog crates) t.trace t.code) (h : inFlight? t = some head) :
    head? t = some head ∧ ∃ now, absDiff now head.timestamp ≤ timestampWindowSeconds ∧
      (t.trace = [⟨.unixTimestamp, now⟩] ∨ ∃ rows,
        t.trace = [⟨.unixTimestamp, now⟩] ++ [⟨.sql (.keyOwner head.keyId), .ok rows⟩]) := by
  unfold inFlight? at h
  split at h
  · rename_i e τ q k hτ hcode
    obtain ⟨req, hcall, hh⟩ := head?_eq_some.mp h
    rw [hcall, hcode] at ha
    have hp := Call.pending ha
    rw [hτ] at hp
    refine ⟨h, ?_⟩
    cases hp with
    | checkKey hh' hw =>
      obtain rfl := Except.ok.inj (hh.symm.trans hh')
      exact ⟨_, hw, .inl hτ⟩
    | checkNonce hh' hw hv =>
      obtain rfl := Except.ok.inj (hh.symm.trans hh')
      exact ⟨_, hw, .inr ⟨_, hτ⟩⟩
  · cases h

/-- A check that has read the clock and goes on is in flight. -/
theorem inFlight?_of_trace {t : CallThread} {e : Event Op Op.Reply} {τ : List (Event Op Op.Reply)}
    {q : Op} {k : q.Reply → Task Outcome} (hτ : t.trace = e :: τ) (hk : t.code = .op q k) :
    inFlight? t = head? t := by
  unfold inFlight?
  rw [hτ, hk]

/-- What has been told to a thread about to take the lock. -/
theorem recordNonce_told {call : Call} {τ : List (Event Op Op.Reply)} {window now : ℕ}
    {nonce : String} (h : Pending crates call τ (.recordNonce window now nonce)) :
    ∃ req head rows, call = .checkedRequest req ∧ req.signedHead = .ok head ∧
      window = timestampWindowSeconds ∧ nonce = head.nonce ∧
      absDiff now head.timestamp ≤ timestampWindowSeconds ∧
      τ = [⟨.unixTimestamp, now⟩, ⟨.sql (.keyOwner head.keyId), .ok rows⟩] := by
  cases h with
  | mintName hτ hq => simp at hq
  | checkNonce hh hw hv => exact ⟨_, _, _, rfl, hh, rfl, rfl, hw, rfl⟩

/-- Only taking the lock changes the nonces seen. -/
theorem perform_seenNonces {o : Outside} {q : Op} (hq : ∀ w n k, q ≠ .recordNonce w n k)
    (s : Server) : (perform o q s).2.seenNonces = s.seenNonces := by
  cases q with
  | recordNonce w n k => exact absurd rfl (hq w n k)
  | sql st =>
    simp only [perform]
    cases o.fault <;> cases st <;> rfl
  | fs f =>
    simp only [perform]
    cases o.fault <;> cases f <;> rfl
  | joinBlocking =>
    simp only [perform]
    cases o.fault <;> rfl
  | _ => rfl

/-! ## What a step can do to a check -/

section Step

variable {adm : Pool → Act Outside Call → Prop} {i : ℕ} {o : Outside} {q : Op}
  {k : q.Reply → Task Outcome} {t : CallThread}

/-- Thread `t` of `c` once its operation `q` has been performed. -/
abbrev stepped (c : Pool) (o : Outside) (t : CallThread) (q : Op) (k : q.Reply → Task Outcome) :
    CallThread :=
  t.advance q (perform o q c.shared).1 (k (perform o q c.shared).1)

theorem stepped_after (h : Reaches perform (Call.prog crates) adm ⟨s, []⟩ c)
    (hi : c.threads[i]? = some t) (hk : t.code = .op q k) :
    After ((stepped c o t q k).call.prog crates) (stepped c o t q k).trace
      (stepped c o t q k).code := by
  have ha := h.after t (List.mem_of_getElem? hi)
  rw [hk] at ha
  exact ha.snoc _

/-- A check becomes accepted by taking the lock and finding its nonce unused. -/
theorem accepted?_stepped (h : Reaches perform (Call.prog crates) adm ⟨s, []⟩ c)
    (hi : c.threads[i]? = some t) (hk : t.code = .op q k) {head : SignedHead}
    (hacc : accepted? (stepped c o t q k) = some head) :
    head? t = some head ∧ ∃ now rows,
      q = .recordNonce timestampWindowSeconds now head.nonce ∧
      (record timestampWindowSeconds now head.nonce c.shared.seenNonces).1 = false ∧
      absDiff now head.timestamp ≤ timestampWindowSeconds ∧
      t.trace = [⟨.unixTimestamp, now⟩, ⟨.sql (.keyOwner head.keyId), .ok rows⟩] := by
  obtain ⟨hhead, now, rows, hw, hτ⟩ := accepted?_told (stepped_after h hi hk) hacc
  obtain ⟨hτ₀, hlast⟩ := List.append_inj' hτ rfl
  obtain ⟨rfl, hreply⟩ := eventOf_eq (List.singleton_inj.mp hlast)
  exact ⟨hhead, now, rows, rfl, hreply, hw, hτ₀⟩

/-- A check that is in flight after a step was so before, or has just read the clock and passed the
window. -/
theorem inFlight?_stepped (h : Reaches perform (Call.prog crates) adm ⟨s, []⟩ c)
    (hi : c.threads[i]? = some t) (hk : t.code = .op q k) {head : SignedHead}
    (hf : inFlight? (stepped c o t q k) = some head) :
    (∀ w n k, q ≠ .recordNonce w n k) ∧ (inFlight? t = some head ∨
      ∃ now, eventOf o q c.shared = ⟨.unixTimestamp, now⟩ ∧
        now ≤ head.timestamp + timestampWindowSeconds) := by
  obtain ⟨hhead, now, hw, hτ | ⟨rows, hτ⟩⟩ := inFlight?_told (stepped_after h hi hk) hf
  · have hτ' : t.trace ++ [eventOf o q c.shared] = [] ++ [⟨.unixTimestamp, now⟩] := hτ
    obtain ⟨-, hlast⟩ := List.append_inj' hτ' rfl
    have he := List.singleton_inj.mp hlast
    refine ⟨fun w n k' hq ↦ ?_, .inr ⟨now, he, (absDiff_le_iff.mp hw).1⟩⟩
    rw [(eventOf_eq he).1] at hq
    cases hq
  · obtain ⟨hτ₀, hlast⟩ := List.append_inj' hτ rfl
    have he := List.singleton_inj.mp hlast
    refine ⟨fun w n k' hq ↦ ?_, .inl ?_⟩
    · rw [(eventOf_eq he).1] at hq
      cases hq
    · rw [inFlight?_of_trace hτ₀ hk]
      exact hhead

end Step

/-! ## Every run -/

/-- The clock does not go back, no timestamp is ahead of it, and locks are taken in time. -/
def CheckedInTime (c : Pool) (a : Act Outside Call) : Prop :=
  ClockForward c a ∧ NotAhead c a ∧ Timely c a

instance (c : Pool) (a : Act Outside Call) : Decidable (CheckedInTime c a) :=
  inferInstanceAs (Decidable (_ ∧ _ ∧ _))

variable {adm : Pool → Act Outside Call → Prop}

/-- No check has read a clock that is behind its request. -/
theorem timestamp_le (h : Reaches perform (Call.prog crates) adm ⟨s, []⟩ c)
    (hahead : ∀ c a, adm c a → NotAhead c a) :
    ∀ t ∈ c.threads, ∀ head ∈ head? t, ∀ now : ℕ,
      (⟨.unixTimestamp, now⟩ : Event Op Op.Reply) ∈ t.trace → head.timestamp ≤ now := by
  refine h.invariant (I := fun c ↦ ∀ t ∈ c.threads, ∀ head ∈ head? t, ∀ now : ℕ,
    (⟨.unixTimestamp, now⟩ : Event Op Op.Reply) ∈ t.trace → head.timestamp ≤ now) (by simp) ?_
  intro c₁ c₂ a hr hI ha hs t ht head hhead now hnow
  obtain ⟨call, rfl, rfl⟩ | ⟨i, o, t₀, q, k, rfl, hi, hk, rfl⟩ := Conf.step_eq_some _ _ hs
  · rcases List.mem_append.mp ht with ht | ht
    · exact hI t ht head hhead now hnow
    · rw [List.mem_singleton.mp ht] at hnow; cases hnow
  · rcases mem_set_cases ht with ht | rfl
    · exact hI t (List.mem_of_mem_eraseIdx ht) head hhead now hnow
    · rcases List.mem_append.mp hnow with hnow | hnow
      · exact hI t₀ (List.mem_of_getElem? hi) head hhead now hnow
      · exact hahead _ _ ha _ (Conf.event?_step hi hk) now
          (by rw [← List.mem_singleton.mp hnow]; rfl) t₀ hi head hhead

/-- A call that has just been started is neither accepted nor in flight. -/
theorem spawned (call : Call) :
    accepted? ⟨call, [], call.prog crates⟩ = none ∧
      inFlight? ⟨call, [], call.prog crates⟩ = none := by
  constructor
  · refine Option.eq_none_iff_forall_ne_some.mpr fun head h ↦ ?_
    obtain ⟨-, now, rows, -, hτ⟩ := accepted?_told (After.nil (call.prog crates)) h
    cases hτ
  · refine Option.eq_none_iff_forall_ne_some.mpr fun head h ↦ ?_
    obtain ⟨-, now, -, hτ | ⟨rows, hτ⟩⟩ := inFlight?_told (After.nil (call.prog crates)) h <;>
      cases hτ

/-- What could still be accepted after a step that took no lock, could be accepted before it. -/
theorem Live.of_step (hr : Reaches perform (Call.prog crates) adm ⟨s, []⟩ c)
    (hclock : ∀ c a, adm c a → ClockForward c a) {a : Act Outside Call} (ha : adm c a)
    (hs : c.step perform (Call.prog crates) a = some c') {head : SignedHead}
    (h : Live c'.threads c' head) : Live c.threads c head := by
  obtain ⟨call, rfl, rfl⟩ | ⟨i, o, t₀, q, k, rfl, hi, hk, rfl⟩ := Conf.step_eq_some _ _ hs
  · rcases h with ⟨t, ht, head', hf, hsame⟩ | hread
    · rcases List.mem_append.mp ht with ht | ht
      · exact .inl ⟨t, ht, head', hf, hsame⟩
      · rw [List.mem_singleton.mp ht, (spawned call).2] at hf; cases hf
    · exact .inr fun t ht ↦ hread t (List.mem_append_left _ ht)
  · rcases h with ⟨t, ht, head', hf, hsame⟩ | hread
    · rcases mem_set_cases ht with ht | rfl
      · exact .inl ⟨t, List.mem_of_mem_eraseIdx ht, head', hf, hsame⟩
      · obtain ⟨-, hf | ⟨now, he, hw⟩⟩ := inFlight?_stepped hr hi hk hf
        · exact .inl ⟨t₀, List.mem_of_getElem? hi, head', hf, hsame⟩
        · -- the clock has just been read within the window, and nobody has read a later time
          refine .inr fun t ht e het now' hnow' ↦ ?_
          have hle := hclock _ _ ha _ (Conf.event?_step hi hk) now
            (by rw [show (⟨q, _⟩ : Event _ _) = _ from he]; rfl) t ht e het now' hnow'
          rw [← hsame.2.2]
          exact hle.trans hw
    · refine .inr fun t ht e he now hnow ↦ ?_
      obtain ⟨j, hj⟩ := List.mem_iff_getElem?.mp ht
      obtain ⟨t', hj', hle, -⟩ := Conf.step_thread_le hs hj
      exact hread t' (List.mem_of_getElem? hj') e (hle.2.subset he) now hnow

/-- After thread `i` has taken the lock, only the others can be in flight. -/
theorem Live.of_lock (hr : Reaches perform (Call.prog crates) adm ⟨s, []⟩ c) {i : ℕ} {o : Outside}
    {t : CallThread} {w n : ℕ} {nonce : String} {k : Bool → Task Outcome}
    (hi : c.threads[i]? = some t) (hk : t.code = .op (.recordNonce w n nonce) k) {s' : Server}
    {head : SignedHead}
    (h : Live (c.threads.set i (stepped c o t (.recordNonce w n nonce) k))
      ⟨s', c.threads.set i (stepped c o t (.recordNonce w n nonce) k)⟩ head) :
    Live (c.threads.eraseIdx i) c head := by
  rcases h with ⟨t', ht', head', hf, hsame⟩ | hread
  · rcases mem_set_cases ht' with ht' | rfl
    · exact .inl ⟨t', ht', head', hf, hsame⟩
    · exact absurd rfl ((inFlight?_stepped hr hi hk hf).1 w n nonce)
  · refine .inr fun t' ht' e he now hnow ↦ ?_
    obtain ⟨j, hj⟩ := List.mem_iff_getElem?.mp ht'
    by_cases hij : i = j
    · subst hij
      cases hi.symm.trans hj
      have hlt := (List.getElem?_eq_some_iff.mp hi).1
      exact hread _ (List.mem_of_getElem? (List.getElem?_set_self hlt)) e
        (List.mem_append_left _ he) now hnow
    · exact hread t' (List.mem_of_getElem? ((List.getElem?_set_ne hij).trans hj)) e he now hnow

/-- The nonce of an accepted request that could still be accepted is remembered, as seen within its
window. -/
theorem accepted_remembered (h : Reaches perform (Call.prog crates) CheckedInTime ⟨s, []⟩ c) :
    ∀ t ∈ c.threads, ∀ head ∈ accepted? t, Live c.threads c head →
      SeenWithin c.shared.seenNonces head.nonce head.timestamp
        (head.timestamp + timestampWindowSeconds) := by
  refine h.invariant (I := fun c ↦ ∀ t ∈ c.threads, ∀ head ∈ accepted? t, Live c.threads c head →
    SeenWithin c.shared.seenNonces head.nonce head.timestamp
      (head.timestamp + timestampWindowSeconds)) (by simp) ?_
  intro c₁ c₂ a hr hI ha hs t ht head hacc hlive
  have hlive₁ := Live.of_step hr (fun _ _ ha ↦ ha.1) ha hs hlive
  obtain ⟨call, rfl, rfl⟩ | ⟨i, o, t₀, q, k, rfl, hi, hk, rfl⟩ := Conf.step_eq_some _ _ hs
  · rcases List.mem_append.mp ht with ht | ht
    · exact hI t ht head hacc hlive₁
    · rw [List.mem_singleton.mp ht, (spawned call).1] at hacc; cases hacc
  · by_cases hq : ∃ w n nonce, q = .recordNonce w n nonce
    · obtain ⟨w, n, nonce, rfl⟩ := hq
      have ha₀ := hr.after t₀ (List.mem_of_getElem? hi)
      rw [hk] at ha₀
      obtain ⟨req, head₀, rows, hcall, hh, rfl, rfl, hw, hτ⟩ := recordNonce_told (Call.pending ha₀)
      rcases mem_set_cases ht with ht | rfl
      · -- another request: the lock was taken in time
        have ht₁ := List.mem_of_mem_eraseIdx ht
        have htimely := ha.2.2 t₀ hi (n, head₀.nonce) (by rw [locking?, hk]; rfl) t ht₁ head hacc
          (Live.of_lock hr hi hk hlive)
        split at htimely
        · rename_i hnonce
          rw [hnonce]
          exact seenWithin_record_self _ htimely.1 htimely.2
        · rename_i hnonce
          exact (hI t ht₁ head hacc hlive₁).record_ne hnonce htimely
      · -- the request of this step: it has recorded a reading in its own window
        obtain ⟨hhead, now, rows', hq, -, hw', -⟩ := accepted?_stepped hr hi hk hacc
        obtain ⟨-, rfl, hnonce⟩ := Op.recordNonce.inj hq
        rw [← hnonce]
        refine seenWithin_record_self _ ?_ (absDiff_le_iff.mp hw').1
        exact timestamp_le hr (fun _ _ ha ↦ ha.2.1) t₀ (List.mem_of_getElem? hi) head hhead n
          (by rw [hτ]; simp)
    · push Not at hq
      have hseen : (perform o q c₁.shared).2.seenNonces = c₁.shared.seenNonces :=
        perform_seenNonces hq _
      rw [hseen]
      rcases mem_set_cases ht with ht | rfl
      · exact hI t (List.mem_of_mem_eraseIdx ht) head hacc hlive₁
      · obtain ⟨-, now, rows', hq', -⟩ := accepted?_stepped hr hi hk hacc
        exact absurd hq' (hq _ _ _)

/-- Thread `i` is a check that has accepted a request with this head. -/
def Accepted (c : Pool) (i : ℕ) (head : SignedHead) : Prop :=
  ∃ t, c.threads[i]? = some t ∧ accepted? t = some head

instance (c : Pool) (i : ℕ) (head : SignedHead) : Decidable (Accepted c i head) :=
  inferInstanceAs (Decidable (∃ t ∈ c.threads[i]?, accepted? t = some head))

/-- What is accepted after a step was so before, or has just become so. -/
theorem Accepted.of_step {a : Act Outside Call}
    (hs : c.step perform (Call.prog crates) a = some c') {i : ℕ} {head : SignedHead}
    (h : Accepted c' i head) : Accepted c i head ∨ ∃ o t q k, a = .step i o ∧
      c.threads[i]? = some t ∧ t.code = .op q k ∧ accepted? (stepped c o t q k) = some head := by
  obtain ⟨t, hi, hacc⟩ := h
  obtain ⟨call, rfl, rfl⟩ | ⟨l, o, t₀, q, k, rfl, hl, hk, rfl⟩ := Conf.step_eq_some _ _ hs
  · rcases Nat.lt_or_ge i c.threads.length with hlt | hge
    · exact .inl ⟨t, by rwa [List.getElem?_append_left hlt] at hi, hacc⟩
    · rw [List.getElem?_append_right hge] at hi
      rw [List.mem_singleton.mp (List.mem_of_getElem? hi), (spawned call).1] at hacc
      cases hacc
  · by_cases hli : l = i
    · subst hli
      rw [List.getElem?_set_self (List.getElem?_eq_some_iff.mp hl).1] at hi
      cases hi
      exact .inr ⟨o, t₀, q, k, rfl, hl, hk, hacc⟩
    · exact .inl ⟨t, by rwa [List.getElem?_set_ne hli] at hi, hacc⟩

/-- A check that becomes accepted is the first of its request. -/
theorem accepted_first (h : Reaches perform (Call.prog crates) CheckedInTime ⟨s, []⟩ c)
    {i j : ℕ} {o : Outside} {t : CallThread} {q : Op} {k : q.Reply → Task Outcome}
    (hi : c.threads[i]? = some t) (hk : t.code = .op q k) {head head' : SignedHead}
    (hacc : accepted? (stepped c o t q k) = some head) (hj : Accepted c j head')
    (hsame : head.Same head') : False := by
  obtain ⟨t', hj, hacc'⟩ := hj
  obtain ⟨hhead, now, rows, rfl, hunused, hw, hτ⟩ := accepted?_stepped h hi hk hacc
  have hflight : inFlight? t = some head := by rw [inFlight?_of_trace hτ hk]; exact hhead
  have hseen := accepted_remembered h t' (List.mem_of_getElem? hj) head' hacc'
    (.inl ⟨t, List.mem_of_getElem? hi, head, hflight, hsame⟩)
  obtain ⟨-, hnonce, hts⟩ := hsame
  rw [← hnonce, ← hts] at hseen
  have hwindow := (absDiff_le_iff.mp hw).1
  have hle := timestamp_le h (fun _ _ ha ↦ ha.2.1) t (List.mem_of_getElem? hi) head hhead now
    (by rw [hτ]; simp)
  rw [hseen.record_fst hwindow (by omega)] at hunused
  cases hunused

/-- **When concurrent checks accept a request at most once.**  In every run, with any number of
checks and other calls in any order, in which the clock does not go back, no timestamp is ahead of
the reading it is checked against and every lock is taken in time, no two checks of the same signed
request are accepted. -/
theorem accepted_once_of_timely
    (h : Reaches perform (Call.prog crates) CheckedInTime ⟨s, []⟩ c) {i j : ℕ}
    {head head' : SignedHead} (hi : Accepted c i head) (hj : Accepted c j head')
    (hsame : head.Same head') : i = j := by
  induction h generalizing i j head head' with
  | refl => obtain ⟨t, hi, -⟩ := hi; simp at hi
  | tail hr ha hs ih =>
    rcases hi.of_step hs with hi' | ⟨o, t, q, k, rfl, ht, hk, hacc⟩
    · rcases hj.of_step hs with hj' | ⟨o, t, q, k, rfl, ht, hk, hacc⟩
      · exact ih hi' hj' hsame
      · exact (accepted_first hr ht hk hacc hi' hsame.symm).elim
    · rcases hj.of_step hs with hj' | ⟨o', t', q', k', he, -⟩
      · exact (accepted_first hr ht hk hacc hj' hsame).elim
      · cases he; rfl

/-- A request is accepted at 1000.  Its replay samples the clock at 1300, waits for the lock while
another request is accepted, and then takes it. -/
def replayRefused : List (Act Outside Call) :=
  callAlone 0 (.checkedRequest (whoamiRequest "1000" "n")) 3 { now := 1000 } ++
    callAlone 1 (.checkedRequest (whoamiRequest "1000" "n")) 2 { now := 1300 } ++
    callAlone 2 (.checkedRequest (whoamiRequest "1300" "m")) 3 { now := 1300 } ++
    [.step 1 { now := 1300 }]

theorem replayRefused_admitted : (⟨.keyed, []⟩ : Pool).Admits perform (Call.prog .sample)
    CheckedInTime replayRefused := by
  decide +kernel

/-- The other request does not forget the nonce, and the replay is refused. -/
theorem accepted_once_of_timely_replayRefused :
    ∃ c ∈ (⟨.keyed, []⟩ : Pool).run? perform (Call.prog .sample) replayRefused,
      ∃ head ∈ (whoamiRequest "1000" "n").signedHead.toOption,
        Accepted c 0 head ∧ ¬ Accepted c 1 head ∧
          ∃ head' ∈ (whoamiRequest "1300" "m").signedHead.toOption, Accepted c 2 head' := by
  obtain ⟨c, hc, head, hhead, h0, h2⟩ :
      ∃ c ∈ (⟨.keyed, []⟩ : Pool).run? perform (Call.prog .sample) replayRefused,
        ∃ head ∈ (whoamiRequest "1000" "n").signedHead.toOption, Accepted c 0 head ∧
          ∃ head' ∈ (whoamiRequest "1300" "m").signedHead.toOption, Accepted c 2 head' := by
    decide +kernel
  refine ⟨c, hc, head, hhead, h0, fun h1 ↦ ?_, h2⟩
  have hsame := accepted_once_of_timely (Reaches.of_run? replayRefused hc replayRefused_admitted)
    h0 h1 ⟨rfl, rfl, rfl⟩
  exact absurd hsame (by decide)

/-- A request is accepted at 1000.  Its replay samples the clock at 1300 and is overtaken by another
request, which samples it at 1301. -/
def replayOvertaken : List (Act Outside Call) :=
  callAlone 0 (.checkedRequest (whoamiRequest "1000" "n")) 3 { now := 1000 } ++
    callAlone 1 (.checkedRequest (whoamiRequest "1000" "n")) 2 { now := 1300 } ++
    callAlone 2 (.checkedRequest (whoamiRequest "1301" "m")) 3 { now := 1301 } ++
    [.step 1 { now := 1301 }]

/-- The other request forgets the nonce, and the replay is accepted. -/
theorem accepted_twice_replayOvertaken :
    (⟨.keyed, []⟩ : Pool).Admits perform (Call.prog .sample)
        (fun c a ↦ ClockForward c a ∧ NotAhead c a) replayOvertaken ∧
      ∃ c ∈ (⟨.keyed, []⟩ : Pool).run? perform (Call.prog .sample) replayOvertaken,
        ∃ head ∈ (whoamiRequest "1000" "n").signedHead.toOption,
          Accepted c 0 head ∧ Accepted c 1 head := by
  decide +kernel

end Railyard
