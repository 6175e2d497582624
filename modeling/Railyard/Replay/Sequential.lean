import Railyard.Server.Auth

/-!
# Replays, one request after another

Requests reach `checkedRequest` one at a time, with a clock that never goes back; between two of
them anything else may happen to the tables.  A nonce is forgotten 300 seconds after it was last
seen, a timestamp is acceptable until 300 seconds after itself.  So what decides whether an
accepted request can come back is whether its timestamp was ahead of the clock when it was
accepted: `accepted_once_iff`.
-/

set_option autoImplicit false

namespace Railyard

open Effects ReplayWindow

/-- One request on its way through `checkedRequest`. -/
structure Delivery where
  req : Request
  /-- The server when the check starts, but for the nonces it has seen. -/
  server : Server
  /-- What the outside contributes to each operation of the check. -/
  world : ℕ → Outside

/-- The clock reading of a check. -/
def Delivery.now (d : Delivery) : ℕ := (d.world 0).now

variable (crates : Crates)

/-- The outcome of the check, and the nonces seen after it. -/
def Delivery.check (d : Delivery) (seen : Seen String) : Except Error Request × Seen String :=
  let r := (checkedRequest crates d.req).run.run perform d.world
    { d.server with seenNonces := seen }
  (r.1, r.2.seenNonces)

/-- How often the signed request `q` is accepted in a sequence of deliveries. -/
def acceptances (q : SignedRequest) : List Delivery → Seen String → ℕ
  | [], _ => 0
  | d :: ds, seen =>
    (if d.req.signed = some q ∧ (d.check crates seen).1.isOk then 1 else 0)
      + acceptances q ds (d.check crates seen).2

/-- The clock never goes back. -/
def Clocked (ds : List Delivery) : Prop := ds.Pairwise fun d d' ↦ d.now ≤ d'.now

/-! ## One check -/

/-- The reply to the key lookup. -/
def Delivery.lookup (d : Delivery) (head : SignedHead) :
    Except Error (List (String × String × String × Option String)) :=
  (perform (d.world 1) (.sql (.keyOwner head.keyId)) d.server).1

/-- The check of `d` gets as far as the nonce. -/
structure Delivery.Verified (d : Delivery) (head : SignedHead) : Prop where
  signedHead : d.req.signedHead = .ok head
  window : absDiff d.now head.timestamp ≤ timestampWindowSeconds
  signature : ∃ row rows, d.lookup head = .ok (row :: rows) ∧
    verifyHead crates d.req head row.1 = .ok ()

/-- What a check does: it gets as far as the nonce and then does what the replay window says, or it
fails and leaves the nonces alone. -/
theorem Delivery.check_cases (d : Delivery) (seen : Seen String) :
    (∃ head, d.Verified crates head ∧
        (d.check crates seen).1.isOk = !(record timestampWindowSeconds d.now head.nonce seen).1 ∧
        (d.check crates seen).2 = (record timestampWindowSeconds d.now head.nonce seen).2) ∨
      (∀ head, ¬ d.Verified crates head) ∧ (d.check crates seen).1.isOk = false ∧
        (d.check crates seen).2 = seen := by
  have hrun := checkedRequest_exec crates d.req d.world { d.server with seenNonces := seen }
  cases hh : d.req.signedHead with
  | error e =>
    rw [hh] at hrun
    rw [check, hrun]
    exact .inr ⟨fun head hv ↦ (nomatch hh.symm.trans hv.signedHead), rfl, rfl⟩
  | ok head =>
    have hsame : ∀ head', d.Verified crates head' → head' = head := fun head' hv ↦
      (Except.ok.inj (hh.symm.trans hv.signedHead)).symm
    rw [hh] at hrun
    simp only at hrun
    by_cases hw : timestampWindowSeconds < absDiff (d.world 0).now head.timestamp
    · rw [if_pos hw] at hrun
      rw [check, hrun]
      refine .inr ⟨fun head' hv ↦ ?_, rfl, rfl⟩
      obtain rfl := hsame head' hv
      exact absurd hv.window (Nat.not_le.mpr hw)
    rw [if_neg hw] at hrun
    -- the lookup does not depend on the nonces
    have hlookup : (perform (d.world 1) (.sql (.keyOwner head.keyId))
        { d.server with seenNonces := seen }).1 = d.lookup head := by
      simp only [Delivery.lookup, perform]
      cases (d.world 1).fault <;> rfl
    rw [hlookup] at hrun
    have hnot : (∀ row rest, d.lookup head = .ok (row :: rest) →
        verifyHead crates d.req head row.1 ≠ .ok ()) → ∀ head', ¬ d.Verified crates head' := by
      intro h head' hv
      obtain rfl := hsame head' hv
      obtain ⟨row, rest, hr, hok⟩ := hv.signature
      exact h row rest hr hok
    rcases hl : d.lookup head with e | _ | ⟨⟨publicKey, id, name, projectId⟩, rest⟩
    · rw [hl] at hrun hnot
      rw [check, hrun]
      exact .inr ⟨hnot (by simp), rfl, rfl⟩
    · rw [hl] at hrun hnot
      rw [check, hrun]
      exact .inr ⟨hnot (by simp), rfl, rfl⟩
    rw [hl] at hrun hnot
    simp only at hrun
    cases hv : verifyHead crates d.req head publicKey with
    | error e =>
      rw [hv] at hrun
      rw [check, hrun]
      exact .inr ⟨hnot fun row' rest' h ↦ by cases h; rw [hv]; simp, rfl, rfl⟩
    | ok _ =>
      rw [hv] at hrun
      rw [check, hrun]
      refine .inl ⟨head, ⟨hh, Nat.le_of_not_lt hw, _, rest, hl, hv⟩, ?_, rfl⟩
      show Except.isOk (if (record _ (d.world 0).now head.nonce seen).1 = true then _ else _) = _
      cases h : (record timestampWindowSeconds (d.world 0).now head.nonce seen).1 with
      | true => rw [if_pos rfl, Delivery.now, h]; rfl
      | false => rw [if_neg Bool.false_ne_true, Delivery.now, h]; rfl

/-! ## A sequence of checks -/

/-- Once the nonce of `q` has been seen no earlier than the timestamp of `q`, or once the clock has
left the window behind, `q` is not accepted. -/
theorem acceptances_eq_zero {q : SignedRequest} {lo : ℕ} {ds : List Delivery} {seen : Seen String}
    (hclock : Clocked ds) (hlo : ∀ d ∈ ds, lo ≤ d.now)
    (h : q.head.timestamp + timestampWindowSeconds < lo ∨
      SeenWithin seen q.head.nonce q.head.timestamp lo) : acceptances crates q ds seen = 0 := by
  induction ds generalizing lo seen with
  | nil => rfl
  | cons d ds ih =>
    obtain ⟨hfirst, hclock⟩ := List.pairwise_cons.mp hclock
    have hnow : lo ≤ d.now := hlo d List.mem_cons_self
    rw [acceptances]
    obtain ⟨head, hv, hok, hseen⟩ | ⟨-, hok, hseen⟩ := d.check_cases crates seen
    · have hwindow := absDiff_le_iff.mp hv.window
      -- `q` itself is turned away
      have hreject : ¬ (d.req.signed = some q ∧ (d.check crates seen).1.isOk) := by
        rintro ⟨hq, haccept⟩
        obtain rfl : head = q.head :=
          Except.ok.inj (hv.signedHead.symm.trans (Request.signedHead_of_signed hq))
        rcases h with h | h
        · omega
        · rw [hok, h.record_fst hwindow.1 (hnow.trans (Nat.le_add_right ..))] at haccept
          cases haccept
      rw [if_neg hreject, Nat.zero_add, hseen]
      refine ih hclock hfirst ?_
      by_cases hdead : q.head.timestamp + timestampWindowSeconds < d.now
      · exact .inl hdead
      · rcases h with h | h
        · exact absurd (h.trans_le hnow) hdead
        · right
          obtain ⟨t, ht, hlo', hhi'⟩ := id h
          by_cases hnonce : q.head.nonce = head.nonce
          · rw [hnonce]
            exact seenWithin_record_self _ ((hlo'.trans hhi').trans hnow) le_rfl
          · refine (h.mono hnow).record_ne hnonce fun t' ht' ↦ ?_
            obtain rfl := Option.some.inj (ht.symm.trans ht')
            exact absDiff_le_iff.mpr ⟨by omega, by omega⟩
    · have hreject : ¬ (d.req.signed = some q ∧ (d.check crates seen).1.isOk) := by simp [hok]
      rw [if_neg hreject, Nat.zero_add, hseen]
      exact ih hclock (fun d' hd' ↦ hnow.trans (hfirst d' hd')) (h.imp id id)

/-- After it has been accepted no later than the clock, `q` is not accepted again. -/
theorem acceptances_after {q : SignedRequest} {d : Delivery} {ds : List Delivery}
    {seen : Seen String} (hq : d.req.signed = some q) (haccept : (d.check crates seen).1.isOk)
    (hahead : q.head.timestamp ≤ d.now) (hclock : Clocked (d :: ds)) :
    acceptances crates q ds (d.check crates seen).2 = 0 := by
  obtain ⟨hfirst, hclock⟩ := List.pairwise_cons.mp hclock
  obtain ⟨head, hv, hok, hseen⟩ | ⟨-, hok, -⟩ := d.check_cases crates seen
  · obtain rfl : head = q.head :=
      Except.ok.inj (hv.signedHead.symm.trans (Request.signedHead_of_signed hq))
    rw [hseen]
    exact acceptances_eq_zero crates hclock hfirst
      (.inr (seenWithin_record_self _ hahead le_rfl))
  · rw [hok] at haccept; cases haccept

/-- The same delivery at another time. -/
def Delivery.atTime (d : Delivery) (now : ℕ) : Delivery :=
  { d with world := fun n ↦ { d.world n with now := now } }

/-- Accepted ahead of its timestamp, a request is accepted again when its window closes. -/
theorem accepted_again {q : SignedRequest} {d : Delivery} {seen : Seen String}
    (hq : d.req.signed = some q) (haccept : (d.check crates seen).1.isOk)
    (hahead : d.now < q.head.timestamp) :
    ((d.atTime (q.head.timestamp + timestampWindowSeconds)).check crates
      (d.check crates seen).2).1.isOk := by
  obtain ⟨head, hv, -, hseen⟩ | ⟨-, hok, -⟩ := d.check_cases crates seen
  · obtain rfl : head = q.head :=
      Except.ok.inj (hv.signedHead.symm.trans (Request.signedHead_of_signed hq))
    generalize hd' : d.atTime (q.head.timestamp + timestampWindowSeconds) = d'
    have hnow : d'.now = q.head.timestamp + timestampWindowSeconds := by rw [← hd']; rfl
    have hv' : d'.Verified crates q.head := by
      subst hd'
      exact ⟨hv.signedHead, absDiff_le_iff.mpr ⟨le_rfl, by omega⟩, hv.signature⟩
    obtain ⟨head', hv'', hok, -⟩ | ⟨hnot, -⟩ := d'.check_cases crates (d.check crates seen).2
    · obtain rfl : head' = q.head := Except.ok.inj (hv''.signedHead.symm.trans hv'.signedHead)
      rw [hok, hseen, record_of_far (record_self ..) (.inl (by rw [hnow]; omega))]
      rfl
    · exact absurd hv' (hnot _)
  · rw [hok] at haccept; cases haccept

/-- **When a signed request is accepted at most once.**  In every run that checks `q` only when the
clock has reached its timestamp, `q` is accepted at most once.  And this is what it takes: a run
that has accepted `q` goes on without accepting it again, whatever comes, exactly if the timestamp
of `q` was not ahead of the clock. -/
theorem accepted_once_iff (q : SignedRequest) :
    (∀ ds seen, Clocked ds → (∀ d ∈ ds, d.req.signed = some q → q.head.timestamp ≤ d.now) →
      acceptances crates q ds seen ≤ 1) ∧
    ∀ (d : Delivery) seen, d.req.signed = some q → (d.check crates seen).1.isOk →
      ((∀ ds, Clocked (d :: ds) → acceptances crates q ds (d.check crates seen).2 = 0) ↔
        q.head.timestamp ≤ d.now) := by
  constructor
  · intro ds
    induction ds with
    | nil => exact fun _ _ _ ↦ Nat.zero_le 1
    | cons d ds ih =>
      intro seen hclock hahead
      rw [acceptances]
      split
      · rename_i hq
        rw [acceptances_after crates hq.1 hq.2 (hahead d List.mem_cons_self hq.1) hclock]
      · rw [Nat.zero_add]
        exact ih _ (List.pairwise_cons.mp hclock).2
          fun d' hd' ↦ hahead d' (List.mem_cons_of_mem _ hd')
  · intro d seen hq haccept
    refine ⟨fun h ↦ ?_, fun hahead ds hclock ↦ acceptances_after crates hq haccept hahead hclock⟩
    by_contra hahead
    have hagain := accepted_again crates hq haccept (Nat.lt_of_not_le hahead)
    have hzero := h [d.atTime (q.head.timestamp + timestampWindowSeconds)] ?_
    · rw [acceptances, if_pos ⟨hq, hagain⟩] at hzero
      exact absurd hzero (Nat.succ_ne_zero _ ∘ (Nat.add_comm ..).trans)
    · have hle : d.now ≤ q.head.timestamp + timestampWindowSeconds := by omega
      refine List.pairwise_cons.mpr ⟨fun d' hd' ↦ ?_, List.pairwise_singleton _ _⟩
      rw [List.mem_singleton.mp hd']
      exact hle

/-- A server that knows one key. -/
def Server.keyed : Server :=
  { Server.fresh with users := ⟨[⟨"usr_0", "alice", some neutralKey, none, 0⟩], by decide⟩ }

/-- A request for `/api/whoami`, signed with that key. -/
def whoamiRequest (timestamp nonce : String) : Request where
  method := "GET"
  pathAndQuery := some "/api/whoami"
  headers := [("host", "railyard"), (headerSignatureVersion, signatureVersion),
    (headerKeyId, "usr_0"), (headerTimestamp, timestamp), (headerNonce, nonce),
    (headerContentSha256, "e3b0c44298fc1c149afbf4c8996fb92427ae41e4649b934ca495991b7852b855"),
    (headerSignature, neutralSignature)]

/-- Signed for 1300, the request is accepted at 1000, and at 1301 once more. -/
theorem accepted_twice :
    ∃ q ∈ (whoamiRequest "1300" "n").signed, q.head.timestamp = 1300 ∧
      acceptances .sample q
        [⟨whoamiRequest "1300" "n", .keyed, fun _ ↦ { now := 1000 }⟩,
          ⟨whoamiRequest "1300" "n", .keyed, fun _ ↦ { now := 1301 }⟩] (fun _ ↦ none) = 2 := by
  decide +kernel

end Railyard
