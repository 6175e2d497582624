import Railyard.Access.Isolation
import Railyard.Access.Upload
import Railyard.Effects.Interleaving

/-!
# The life of a release

A release is inserted as `unpacking` by the upload that made it, and that upload stores its outcome.
Both statements name the row by its id, and the update has no condition, so that the status changes
once comes from who can know an id: the insert of an id that is there fails, and an upload whose
insert failed gives up.

* `setReleaseStatus_pending`: where an upload stands that is about to store an outcome.
* `insert_unique`: one upload has inserted a row of an id.
* `release_progresses`: what may become of a row in a run.
* `releases_freeze` puts it together for every run of uploads.
-/

set_option autoImplicit false

namespace Railyard

open Effects Prog

/-! ## Uploads -/

/-- A request to create a release, as the layers hand it on: the segment of its path that names the
project, and the request. -/
structure ReleaseRequest where
  projectId : String
  req : Request

/-- The handler at work on a request. -/
def ReleaseRequest.prog (config : Config) (crates : Crates) (call : ReleaseRequest) :
    Task Response :=
  createRelease config crates call.projectId call.req

/-- Uploads at work next to each other. -/
abbrev ReleasePool := Conf Server ReleaseRequest Op Op.Reply Response

/-- An operation that is no statement. -/
def Op.OffTables (q : Op) : Prop := ∀ st, q ≠ .sql st

/-- Receiving the archive of a release and unpacking it. -/
def unpackRelease (crates : Crates) (dir : String) (req : Request) : Action Unit := do
  receiveArchive crates dir req.body req.signedHash
  spawnBlocking (unpackArchive dir)

/-- The status and the error an outcome is stored as. -/
def outcomeOf : Except Error Unit → String × Option Error
  | .ok () => (ReleaseStatus.ready.asStr, none)
  | .error e => (ReleaseStatus.failed.asStr, some e)

theorem ready_ne_failed : ReleaseStatus.ready.asStr ≠ ReleaseStatus.failed.asStr := by decide

theorem outcomeOf_error_iff (unpacked : Except Error Unit) :
    (outcomeOf unpacked).2 ≠ none ↔ (outcomeOf unpacked).1 = ReleaseStatus.failed.asStr := by
  cases unpacked with
  | ok a => exact ⟨fun h ↦ absurd rfl h, fun h ↦ absurd h ready_ne_failed⟩
  | error e => exact ⟨fun _ ↦ rfl, fun _ ↦ Option.some_ne_none e⟩

theorem outcomeOf_ready {unpacked : Except Error Unit}
    (h : (outcomeOf unpacked).1 = ReleaseStatus.ready.asStr) : unpacked = .ok () := by
  cases unpacked with
  | ok a => rfl
  | error e => exact absurd h.symm ready_ne_failed

variable {config : Config} {crates : Crates} {req : Request}

theorem storeRelease_eq_bind (projectId : String) (release : Release) :
    storeRelease config crates projectId release req =
      (unpackRelease crates (releaseDir config projectId release.id) req).run.bind
        (finishRelease projectId release) := rfl

/-! ### What an upload has done -/

theorem receiveFrames_offTables (path : String) (frames : List Frame) (received : ℕ)
    (hashed : Bytes) :
    DoesOk Op.OffTables (fun _ ↦ True) (receiveFrames path frames received hashed) := by
  induction frames generalizing received hashed with
  | nil => exact .pure trivial
  | cons frame frames ih =>
    cases frame with
    | data data =>
      rw [receiveFrames]
      dsimp only
      split
      · exact .throw _
      · exact .bind (fs_doesOk (fun _ ↦ Op.noConfusion)) fun _ _ ↦ ih _ _
    | trailers => exact ih received hashed
    | error e => exact .throw _

theorem fs_offTables (f : FsOp) : DoesOk Op.OffTables (fun _ ↦ True) (fs f) :=
  fs_doesOk fun _ ↦ Op.noConfusion

theorem receiveBody_offTables (path : String) (body : List Frame) (signedHash : Option String) :
    DoesOk Op.OffTables (fun _ ↦ True) (receiveBody crates path body signedHash) := by
  refine .bind (receiveFrames_offTables path body 0 []) fun ⟨received, hashed⟩ _ ↦ ?_
  refine .bind (fs_offTables _) fun _ _ ↦ ?_
  dsimp only
  split
  · exact .throw _
  · cases signedHash with
    | none => exact .pure trivial
    | some expected =>
      dsimp only
      split
      · exact .throw _
      · exact .pure trivial

/-- Receiving and unpacking an archive executes no statement. -/
theorem unpackRelease_offTables (dir : String) :
    (unpackRelease crates dir req).run.Does Op.OffTables fun _ ↦ True := by
  have hreceive : DoesOk Op.OffTables (fun _ ↦ True)
      (receiveArchive crates dir req.body req.signedHash) :=
    .bind (fs_offTables _) fun _ _ ↦ .bind (fs_offTables _) fun _ _ ↦ receiveBody_offTables ..
  have hunpack : DoesOk Op.OffTables (fun _ ↦ True) (unpackArchive dir) :=
    .bind (fs_offTables _) fun _ _ ↦ .bind (fs_offTables _) fun _ _ ↦ fs_offTables _
  have hspawn : DoesOk Op.OffTables (fun _ ↦ True) (spawnBlocking (unpackArchive dir)) := by
    refine Does.bind hunpack fun result _ ↦ ⟨fun _ ↦ Op.noConfusion, fun r ↦ ?_⟩
    cases r <;> exact fun _ _ ↦ trivial
  have hboth : DoesOk Op.OffTables (fun _ ↦ True) (unpackRelease crates dir req) :=
    .bind hreceive fun _ _ ↦ hspawn
  exact hboth.mono (fun _ ↦ id) fun _ _ ↦ trivial

/-- The answer to an upload with this outcome, stored at `now`. -/
def releaseAnswer (projectId : String) (release : Release) (now : ℕ) : Except Error Unit → Response
  | .ok () => .json (.release
      ⟨release.id, projectId, .ready, release.message, none, release.createdAt, now⟩)
  | .error failure => .text 400 ("release " ++ release.id ++ " failed: " ++ failure)

/-- The outcome is stored after a look at the clock, and then the upload is over. -/
theorem finishRelease_run (projectId : String) (release : Release) (unpacked : Except Error Unit) :
    finishRelease projectId release unpacked =
      .op .unixTimestamp fun now ↦ .op (.sql (.setReleaseStatus release.id
        (outcomeOf unpacked).1 (outcomeOf unpacked).2 now)) fun _ ↦
          .ret (releaseAnswer projectId release now unpacked) := by
  cases unpacked with
  | error e => exact Prog.op_congr fun now ↦ Prog.op_congr fun r ↦ by cases r <;> rfl
  | ok a => exact Prog.op_congr fun now ↦ Prog.op_congr fun r ↦ by cases r <;> rfl

/-- The event stores an outcome, or tries to. -/
def StoresOutcome (e : Event Op Op.Reply) : Prop :=
  ∃ id status error now r, e = ⟨.sql (.setReleaseStatus id status error now), r⟩

/-- The statements an upload can be about to execute, and what it has been told by then. -/
inductive UploadPending (config : Config) (crates : Crates) (req : Request) :
    List (Event Op Op.Reply) → Stmt → Prop
  | project (projectId : String) : UploadPending config crates req [] (.projectById projectId)
  | insert {τ : List (Event Op Op.Reply)} (id projectId : String) (message : Option String)
      (now : ℕ) : UploadPending config crates req τ
        (.insertRelease id projectId ReleaseStatus.unpacking.asStr message now)
  | outcome {τ₀ τ₁ : List (Event Op Op.Reply)} {id projectId : String} {message : Option String}
      {created n now : ℕ} {unpacked : Except Error Unit} (hτ₀ : ∀ e ∈ τ₀, ¬ StoresOutcome e)
      (hunpack : After (unpackRelease crates (releaseDir config projectId id) req).run τ₁
        (.ret unpacked)) :
      UploadPending config crates req
        (τ₀ ++ ⟨.sql (.insertRelease id projectId ReleaseStatus.unpacking.asStr message created),
          .ok n⟩ :: (τ₁ ++ [⟨.unixTimestamp, now⟩]))
        (.setReleaseStatus id (outcomeOf unpacked).1 (outcomeOf unpacked).2 now)

theorem storeRelease_pending {projectId : String} {release : Release}
    {τ : List (Event Op Op.Reply)} {st : Stmt} {k : Op.Reply (.sql st) → Task Response}
    (h : After (storeRelease config crates projectId release req) τ (.op (.sql st) k)) :
    ∃ τ₁ unpacked now, τ = τ₁ ++ [⟨.unixTimestamp, now⟩] ∧
      After (unpackRelease crates (releaseDir config projectId release.id) req).run τ₁
        (.ret unpacked) ∧
      st = .setReleaseStatus release.id (outcomeOf unpacked).1 (outcomeOf unpacked).2 now := by
  rw [storeRelease_eq_bind] at h
  obtain ⟨q, k', hx, hq⟩ | ⟨unpacked, τ₁, τ₂, rfl, hx, hfinish⟩ := after_bind h
  · obtain ⟨rfl, -⟩ := op.inj hq
    exact absurd rfl ((unpackRelease_offTables _).after hx |>.2.1 st)
  · rw [finishRelease_run] at hfinish
    obtain ⟨-, hq⟩ | ⟨now, τ₃, rfl, hset⟩ := after_op_op hfinish
    · cases hq
    obtain ⟨rfl, hq⟩ | ⟨r, τ₄, rfl, hret⟩ := after_op_op hset
    · exact ⟨τ₁, unpacked, now, rfl, hx, Op.sql.inj hq⟩
    · exact absurd hret not_after_ret_op

theorem UploadPending.insert_status {τ : List (Event Op Op.Reply)} {id projectId status : String}
    {message : Option String} {now : ℕ}
    (h : UploadPending config crates req τ (.insertRelease id projectId status message now)) :
    status = ReleaseStatus.unpacking.asStr := by
  cases h
  rfl

theorem UploadPending.outcome_status {τ : List (Event Op Op.Reply)} {id status : String}
    {error : Option Error} {now : ℕ}
    (h : UploadPending config crates req τ (.setReleaseStatus id status error now)) :
    ∃ unpacked, status = (outcomeOf unpacked).1 := by
  cases h with
  | @outcome _ _ _ _ _ _ _ _ unpacked => exact ⟨unpacked, rfl⟩

/-- **Where an upload stands** that is about to execute a statement. -/
theorem createRelease_pending {raw : String} {τ : List (Event Op Op.Reply)} {st : Stmt}
    {k : Op.Reply (.sql st) → Task Response}
    (h : After (createRelease config crates raw req) τ (.op (.sql st) k)) :
    UploadPending config crates req τ st := by
  obtain ⟨response, hret⟩ | ⟨caller, projectId, message, -, -, hupload⟩ :=
    createRelease_cases config crates raw req
  · rw [hret] at h
    exact absurd h not_after_ret_op
  rw [hupload, uploadRelease] at h
  obtain ⟨rfl, hq⟩ | ⟨rows, τ, rfl, h₁⟩ := after_op_op h
  · cases hq
    exact .project projectId
  rcases rows with e | _ | ⟨row, rows⟩
  · exact absurd h₁ not_after_ret_op
  · exact absurd h₁ not_after_ret_op
  obtain ⟨-, hq⟩ | ⟨created, τ, rfl, h₂⟩ := after_op_op h₁
  · cases hq
  obtain ⟨-, hq⟩ | ⟨bs, τ, rfl, h₃⟩ := after_op_op h₂
  · cases hq
  obtain ⟨rfl, hq⟩ | ⟨r, τ, rfl, h₄⟩ := after_op_op h₃
  · cases hq
    exact .insert ..
  cases r with
  | error e => exact absurd h₄ not_after_ret_op
  | ok n =>
    obtain ⟨τ₁, unpacked, now, rfl, hunpack, rfl⟩ := storeRelease_pending h₄
    have hbefore : ∀ e ∈ ([⟨.sql (.projectById projectId), .ok (row :: rows)⟩,
        ⟨.unixTimestamp, created⟩, ⟨.fillBytes .releaseId, bs⟩] : List (Event Op Op.Reply)),
        ¬ StoresOutcome e := by
      simp [StoresOutcome]
    exact .outcome hbefore hunpack

/-! ## Rows -/

/-- The event inserts a row of this id. -/
def InsertsRelease (id : String) (e : Event Op Op.Reply) : Prop :=
  ∃ projectId status message now n,
    e = ⟨.sql (.insertRelease id projectId status message now), .ok n⟩

/-- A release as its row is inserted. -/
structure Insertion where
  id : String
  projectId : String
  createdAt : ℕ
  deriving DecidableEq

/-- The release an event inserts, if it inserts one. -/
def insertionOf : Event Op Op.Reply → Option Insertion
  | ⟨.sql (.insertRelease id projectId _ _ now), .ok _⟩ => some ⟨id, projectId, now⟩
  | _ => none

theorem insertsRelease_of_insertionOf {e : Event Op Op.Reply} {x : Insertion}
    (h : insertionOf e = some x) : InsertsRelease x.id e := by
  unfold insertionOf at h
  split at h
  · cases h
    exact ⟨_, _, _, _, _, rfl⟩
  · cases h

/-- What may become of a row: nothing, or from `unpacking` an outcome. -/
structure ReleaseRow.Progresses (r r' : ReleaseRow) : Prop where
  id : r'.id = r.id
  projectId : r'.projectId = r.projectId
  message : r'.message = r.message
  createdAt : r'.createdAt = r.createdAt
  status : r' = r ∨ r.status = ReleaseStatus.unpacking.asStr ∧
    (r'.status = ReleaseStatus.ready.asStr ∨ r'.status = ReleaseStatus.failed.asStr)

theorem ReleaseRow.Progresses.refl (r : ReleaseRow) : r.Progresses r :=
  ⟨rfl, rfl, rfl, rfl, .inl rfl⟩

/-- A row with an outcome stays as it is, so that a second change is none. -/
theorem ReleaseRow.Progresses.trans {r r' r'' : ReleaseRow} (h : r.Progresses r')
    (h' : r'.Progresses r'') : r.Progresses r'' where
  id := h'.id.trans h.id
  projectId := h'.projectId.trans h.projectId
  message := h'.message.trans h.message
  createdAt := h'.createdAt.trans h.createdAt
  status := by
    rcases h'.status with rfl | ⟨hunpacking, houtcome⟩
    · exact h.status
    · rcases h.status with rfl | ⟨-, hready | hfailed⟩
      · exact .inr ⟨hunpacking, houtcome⟩
      · rw [hready] at hunpacking
        exact absurd hunpacking (by decide)
      · rw [hfailed] at hunpacking
        exact absurd hunpacking (by decide)

/-- Rows keep their ids, whatever is done. -/
theorem perform_releases_keeps {s : Server} {r : ReleaseRow} (h : r ∈ s.releases) (o : Outside)
    (q : Op) : ∃ r' ∈ (perform o q s).2.releases, r'.id = r.id := by
  rcases perform_releases o q s with
    hsame | ⟨r₁, -, -, -, hmem⟩ | ⟨id, status, error, now, n, -, hmem⟩
  · exact ⟨r, hsame ▸ h, rfl⟩
  · exact ⟨r, (hmem r).mpr (.inl h), rfl⟩
  · refine ⟨_, (hmem _).mpr ⟨r, h, rfl⟩, ?_⟩
    split <;> rfl

/-- An insert that succeeded found no row of its id, and there is one now. -/
theorem perform_insertsRelease {o : Outside} {q : Op} {s : Server} {id : String}
    (h : InsertsRelease id (eventOf o q s)) :
    (∀ r ∈ s.releases, r.id ≠ id) ∧ ∃ r ∈ (perform o q s).2.releases, r.id = id := by
  obtain ⟨projectId, status, message, now, n, he⟩ := h
  obtain ⟨rfl, hreply⟩ := eventOf_eq he
  obtain ⟨hexec, hok⟩ := perform_sql_eq_ok hreply
  obtain ⟨-, ⟨e, herror⟩, -⟩ | ⟨hnew, -, hmem⟩ :=
    insertRelease_cases s id projectId status message now
  · rw [herror] at hok
    cases hok
  · rw [hexec]
    exact ⟨hnew, _, (hmem _).mpr (.inr rfl), rfl⟩

/-! ## Runs of uploads -/

section Runs

variable {s : Server} {c c' : ReleasePool}

/-- `c` is reached from the server `s` by uploads. -/
abbrev Uploads (config : Config) (crates : Crates) (s : Server) (c : ReleasePool) : Prop :=
  Reaches perform (ReleaseRequest.prog config crates) (fun _ _ ↦ True) ⟨s, []⟩ c

theorem start_kept (h : Uploads config crates s c) :
    ∀ r ∈ s.releases, ∃ r' ∈ c.shared.releases, r'.id = r.id := by
  refine h.invariant (I := fun c ↦ ∀ r ∈ s.releases, ∃ r' ∈ c.shared.releases, r'.id = r.id)
    (fun r hr ↦ ⟨r, hr, rfl⟩) fun c₁ c₂ a _ hI _ hs r hr ↦ ?_
  obtain ⟨r', hr', hid⟩ := hI r hr
  obtain ⟨call, rfl, rfl⟩ | ⟨i, o, t, q, k, rfl, -, -, rfl⟩ := Conf.step_eq_some _ _ hs
  · exact ⟨r', hr', hid⟩
  · obtain ⟨r'', hr'', hid'⟩ := perform_releases_keeps hr' o q
    exact ⟨r'', hr'', hid'.trans hid⟩

/-- The row of an insert is there from then on, and was not there at the start. -/
theorem inserted_kept (h : Uploads config crates s c) {i : ℕ} {e : Event Op Op.Reply} {id : String}
    (hd : c.Did i e) (he : InsertsRelease id e) :
    (∃ r ∈ c.shared.releases, r.id = id) ∧ ∀ r ∈ s.releases, r.id ≠ id := by
  refine h.since (ψ := fun c ↦ (∃ r ∈ c.shared.releases, r.id = id) ∧
    ∀ r ∈ s.releases, r.id ≠ id) hd ?_ ?_
  · rintro c₁ c₂ a hs ⟨⟨r, hr, hid⟩, hstart⟩
    refine ⟨?_, hstart⟩
    obtain ⟨call, rfl, rfl⟩ | ⟨i, o, t, q, k, rfl, -, -, rfl⟩ := Conf.step_eq_some _ _ hs
    · exact ⟨r, hr, hid⟩
    · obtain ⟨r', hr', hid'⟩ := perform_releases_keeps hr o q
      exact ⟨r', hr', hid'.trans hid⟩
  · rintro c₁ c₂ a o q hr - hshared rfl
    obtain ⟨hnew, hrow⟩ := perform_insertsRelease he
    refine ⟨by rwa [hshared], fun r hstart hid ↦ ?_⟩
    obtain ⟨r', hr', hid'⟩ := start_kept hr r hstart
    exact hnew r' hr' (hid'.trans hid)

/-- A row of an id is inserted by one upload, once. -/
theorem insert_unique (h : Uploads config crates s c) {i j : ℕ} {e e' : Event Op Op.Reply}
    {id : String} (hi : c.Did i e) (hj : c.Did j e') (he : InsertsRelease id e)
    (he' : InsertsRelease id e') : i = j ∧ e = e' := by
  refine h.unique ?_ hi hj he he'
  intro c i o t q k hr _ _ _ hnew j e hd he
  obtain ⟨r, hrow, hid⟩ := (inserted_kept hr hd he).1
  exact (perform_insertsRelease hnew).1 r hrow hid

/-- Where an upload of a run stands that is about to execute a statement. -/
theorem thread_pending (h : Uploads config crates s c) {i : ℕ}
    {t : Thread ReleaseRequest Op Op.Reply Response} (hi : c.threads[i]? = some t) {st : Stmt}
    {k : Op.Reply (.sql st) → Task Response} (hk : t.code = .op (.sql st) k) :
    UploadPending config crates t.call.req t.trace st := by
  have hafter := h.after t (List.mem_of_getElem? hi)
  rw [hk] at hafter
  exact createRelease_pending hafter

/-- Who is about to store an outcome has inserted the row, and has not stored one. -/
theorem outcome_pending (h : Uploads config crates s c) {i : ℕ}
    {t : Thread ReleaseRequest Op Op.Reply Response} (hi : c.threads[i]? = some t)
    {id status : String} {error : Option String} {now : ℕ}
    {k : Op.Reply (.sql (.setReleaseStatus id status error now)) → Task Response}
    (hk : t.code = .op _ k) :
    (∃ e, c.Did i e ∧ InsertsRelease id e) ∧ (∀ e ∈ t.trace, ¬ StoresOutcome e) ∧
      ∃ unpacked, (status, error) = outcomeOf unpacked := by
  have hpending := thread_pending h hi hk
  generalize hτ : t.trace = τ at hpending
  cases hpending with
  | @outcome τ₀ τ₁ _ projectId message created n _ unpacked hbefore hunpack =>
    have hoff := ((unpackRelease_offTables _).after hunpack).1
    have hinsert : c.Did i ⟨.sql (.insertRelease id projectId ReleaseStatus.unpacking.asStr message
        created), .ok n⟩ :=
      ⟨t, hi, hτ ▸ List.mem_append_right _ List.mem_cons_self⟩
    refine ⟨⟨_, hinsert, _, _, _, _, _, rfl⟩, ?_, unpacked, rfl⟩
    rintro e he ⟨id', status', error', now', r, rfl⟩
    rw [List.mem_append, List.mem_cons, List.mem_append] at he
    rcases he with he | he | he | he
    · exact hbefore _ he ⟨_, _, _, _, _, rfl⟩
    · cases he
    · exact hoff _ he _ rfl
    · cases List.mem_singleton.mp he

/-- Upload `i` has inserted the row, and has stored the outcome if the row has one. -/
structure Conf.Made (c : ReleasePool) (i : ℕ) (r : ReleaseRow) : Prop where
  inserted : ∃ n, c.Did i ⟨.sql (.insertRelease r.id r.projectId ReleaseStatus.unpacking.asStr
    r.message r.createdAt), .ok n⟩
  stored : r.status = ReleaseStatus.unpacking.asStr ∧ r.error = none ∨
    ∃ now n, c.Did i ⟨.sql (.setReleaseStatus r.id r.status r.error now), .ok n⟩

theorem Conf.Made.step {a : Act Outside ReleaseRequest} {i : ℕ} {r : ReleaseRow}
    (h : Conf.Made c i r) (hs : c.step perform (ReleaseRequest.prog config crates) a = some c') :
    Conf.Made c' i r where
  inserted := h.inserted.imp fun _ hd ↦ hd.step hs
  stored := h.stored.imp_right fun ⟨now, n, hd⟩ ↦ ⟨now, n, hd.step hs⟩

/-- Where a row comes from: it was there at the start, or an upload has made it. -/
theorem row_origin (h : Uploads config crates s c) :
    ∀ r ∈ c.shared.releases, r ∈ s.releases ∨ ∃ i, Conf.Made c i r := by
  refine h.invariant (I := fun c ↦ ∀ r ∈ c.shared.releases, r ∈ s.releases ∨ ∃ i, Conf.Made c i r)
    (fun r hr ↦ .inl hr) fun c₁ c₂ a hr hI _ hs r hrow ↦ ?_
  have hold : r ∈ c₁.shared.releases → r ∈ s.releases ∨ ∃ i, Conf.Made c₂ i r := fun hmem ↦
    (hI r hmem).imp_right fun ⟨i, hmade⟩ ↦ ⟨i, hmade.step hs⟩
  obtain ⟨call, rfl, rfl⟩ | ⟨i, o, t, q, k, rfl, hi, hk, rfl⟩ := Conf.step_eq_some _ _ hs
  · exact hold hrow
  have hdid : Conf.Did (⟨(perform o q c₁.shared).2, c₁.threads.set i
      (t.advance q (perform o q c₁.shared).1 (k (perform o q c₁.shared).1))⟩ : ReleasePool) i
        (eventOf o q c₁.shared) := (Conf.did_advance hi).mpr (.inr ⟨rfl, rfl⟩)
  rcases perform_releases o q c₁.shared with
    hsame | ⟨r₁, he, herror, -, hmem⟩ | ⟨id, status, error, now, m, he, hmem⟩
  · exact hold (hsame ▸ hrow)
  · rcases (hmem r).mp hrow with hrow | rfl
    · exact hold hrow
    · rw [he] at hdid
      obtain ⟨rfl, -⟩ := eventOf_eq he
      have hstatus := (thread_pending hr hi hk).insert_status
      exact .inr ⟨i, ⟨1, hstatus ▸ hdid⟩, .inl ⟨hstatus, herror⟩⟩
  · obtain ⟨r₀, hr₀, hset⟩ := (hmem r).mp hrow
    split at hset
    · rename_i hid
      rw [he] at hdid
      obtain ⟨rfl, -⟩ := eventOf_eq he
      obtain ⟨⟨e, hinsert, hinserts⟩, -, -⟩ := outcome_pending hr hi hk
      rcases hI r₀ hr₀ with hstart | ⟨j, ⟨n, hd⟩, -⟩
      · exact absurd hid ((inserted_kept hr hinsert hinserts).2 r₀ hstart)
      · obtain ⟨rfl, -⟩ := insert_unique hr hd hinsert ⟨_, _, _, _, _, rfl⟩ (hid ▸ hinserts)
        subst hset
        subst hid
        exact .inr ⟨j, ⟨n, hd.step hs⟩, .inr ⟨now, m, hdid⟩⟩
    · exact hold (hset ▸ hr₀)

/-- What a step makes of a row, and what rows a step adds. -/
theorem release_step (h : Uploads config crates s c) {a : Act Outside ReleaseRequest}
    (hs : c.step perform (ReleaseRequest.prog config crates) a = some c') :
    (∀ r ∈ c.shared.releases, ∃ r' ∈ c'.shared.releases,
        r.Progresses r' ∧ (r ∈ s.releases → r' = r)) ∧
      ∀ r' ∈ c'.shared.releases, (∀ r ∈ c.shared.releases, r.id ≠ r'.id) →
        r'.status = ReleaseStatus.unpacking.asStr ∧ r'.error = none := by
  obtain ⟨call, rfl, rfl⟩ | ⟨i, o, t, q, k, rfl, hi, hk, rfl⟩ := Conf.step_eq_some _ _ hs
  · exact ⟨fun r hr ↦ ⟨r, hr, .refl r, fun _ ↦ rfl⟩, fun r hr hnew ↦ absurd rfl (hnew r hr)⟩
  rcases perform_releases o q c.shared with
    hsame | ⟨r₁, he, herror, hfresh, hmem⟩ | ⟨id, status, error, now, m, he, hmem⟩
  · dsimp only
    rw [hsame]
    exact ⟨fun r hr ↦ ⟨r, hr, .refl r, fun _ ↦ rfl⟩, fun r hr hnew ↦ absurd rfl (hnew r hr)⟩
  · obtain ⟨rfl, -⟩ := eventOf_eq he
    refine ⟨fun r hr ↦ ⟨r, (hmem r).mpr (.inl hr), .refl r, fun _ ↦ rfl⟩, fun r' hr' hnew ↦ ?_⟩
    rcases (hmem r').mp hr' with hr | rfl
    · exact absurd rfl (hnew r' hr)
    · exact ⟨(thread_pending h hi hk).insert_status, herror⟩
  · obtain ⟨rfl, -⟩ := eventOf_eq he
    obtain ⟨⟨e, hinsert, hinserts⟩, hunstored, unpacked, houtcome⟩ := outcome_pending h hi hk
    refine ⟨fun r hr ↦ ⟨_, (hmem _).mpr ⟨r, hr, rfl⟩, ?_⟩, fun r' hr' hnew ↦ ?_⟩
    · split
      · rename_i hid
        subst hid
        have hlate := (inserted_kept h hinsert hinserts).2
        rcases row_origin h r hr with hstart | ⟨j, ⟨n, hd⟩, hstored⟩
        · exact absurd rfl (hlate r hstart)
        obtain ⟨rfl, -⟩ := insert_unique h hd hinsert ⟨_, _, _, _, _, rfl⟩ hinserts
        refine ⟨⟨rfl, rfl, rfl, rfl, .inr ⟨?_, ?_⟩⟩, fun hstart ↦ absurd rfl (hlate r hstart)⟩
        · obtain ⟨hunpacking, -⟩ | ⟨now', n', t', ht', hset⟩ := hstored
          · exact hunpacking
          · cases hi.symm.trans ht'
            exact absurd ⟨_, _, _, _, _, rfl⟩ (hunstored _ hset)
        · cases unpacked with
          | ok a => exact .inl (congrArg Prod.fst houtcome)
          | error e => exact .inr (congrArg Prod.fst houtcome)
      · exact ⟨.refl r, fun _ ↦ rfl⟩
    · obtain ⟨r, hr, hrow⟩ := (hmem r').mp hr'
      have hid : r.id = r'.id := by
        rw [← hrow]
        split <;> rfl
      exact absurd hid (hnew r hr)

/-- What may become of a row in a run. -/
theorem release_progresses (h : Uploads config crates s c)
    (h' : Reaches perform (ReleaseRequest.prog config crates) (fun _ _ ↦ True) c c') :
    ∀ r ∈ c.shared.releases, ∃ r' ∈ c'.shared.releases,
      r.Progresses r' ∧ (r ∈ s.releases → r' = r) := by
  intro r hr
  refine h'.invariant (I := fun c' ↦ ∃ r' ∈ c'.shared.releases,
    r.Progresses r' ∧ (r ∈ s.releases → r' = r)) ⟨r, hr, .refl r, fun _ ↦ rfl⟩
    fun c₁ c₂ a hr₁ hI _ hs ↦ ?_
  obtain ⟨r₁, hmem₁, hprogress, hstart⟩ := hI
  obtain ⟨r₂, hmem₂, hprogress', hstart'⟩ := (release_step (h.trans hr₁) hs).1 r₁ hmem₁
  refine ⟨r₂, hmem₂, hprogress.trans hprogress', fun hrow ↦ ?_⟩
  rw [hstart' (hstart hrow ▸ hrow), hstart hrow]

/-! ### What an outcome says -/

/-- An upload that could be unpacked was received and then unpacked. -/
theorem unpackRelease_ok {dir : String} {τ : List (Event Op Op.Reply)}
    (h : After (unpackRelease crates dir req).run τ (.ret (.ok ()))) :
    ∃ τ₁ τ₂, τ = τ₁ ++ (τ₂ ++ [⟨.joinBlocking, .ok ()⟩]) ∧
      After (receiveArchive crates dir req.body req.signedHash).run τ₁ (.ret (.ok ())) ∧
      After (unpackArchive dir).run τ₂ (.ret (.ok ())) := by
  obtain ⟨q, k, -, hq⟩ | ⟨received, τ₁, τ₂, rfl, hreceive, hspawn⟩ := after_bind h
  · cases hq
  cases received with
  | error e => cases (after_ret.mp hspawn).2
  | ok a =>
    obtain ⟨q, k, -, hq⟩ | ⟨unpacked, τ₂, τ₃, rfl, hunpack, hjoin⟩ := after_bind hspawn
    · cases hq
    obtain ⟨joined, τ₃, rfl, hdone⟩ := after_op_ret hjoin
    cases joined with
    | error e => cases (after_ret.mp hdone).2
    | ok b =>
      obtain ⟨rfl, hret⟩ := after_ret.mp hdone
      cases ret.inj hret
      exact ⟨τ₁, τ₂, rfl, hreceive, hunpack⟩

/-- The outcome a row has is that of the upload that inserted it. -/
theorem stored_outcome (h : Uploads config crates s c) {i : ℕ}
    {id projectId status : String} {message error : Option String} {created now n n' : ℕ}
    (hinsert : c.Did i ⟨.sql (.insertRelease id projectId ReleaseStatus.unpacking.asStr message
      created), .ok n⟩)
    (hstored : c.Did i ⟨.sql (.setReleaseStatus id status error now), .ok n'⟩) :
    ∃ t τ₀ τ₁ τ₂ unpacked, c.threads[i]? = some t ∧
      t.trace = τ₀ ++ ⟨.sql (.insertRelease id projectId ReleaseStatus.unpacking.asStr message
        created), .ok n⟩ :: (τ₁ ++ τ₂) ∧
      After (unpackRelease crates (releaseDir config projectId id) t.call.req).run τ₁
        (.ret unpacked) ∧
      (status, error) = outcomeOf unpacked := by
  obtain ⟨t, τ, τ₂, k, hi, hτ, hafter⟩ := h.issued hstored
  have hpending := createRelease_pending hafter
  cases hpending with
  | @outcome τ₀ τ₁ _ projectId' message' created' m _ unpacked hbefore hunpack =>
    have hd : c.Did i ⟨.sql (.insertRelease id projectId' ReleaseStatus.unpacking.asStr message'
        created'), .ok m⟩ :=
      ⟨t, hi, hτ ▸ List.mem_append_left _ (List.mem_append_right _ List.mem_cons_self)⟩
    obtain ⟨-, he⟩ := insert_unique h hinsert hd ⟨_, _, _, _, _, rfl⟩ ⟨_, _, _, _, _, rfl⟩
    cases he
    simp only [List.append_assoc, List.cons_append] at hτ
    exact ⟨t, τ₀, τ₁, _, unpacked, hi, hτ, hunpack, rfl⟩

/-- The upload that inserted the row went on to receive its archive and then to unpack it, and was
told of no error. -/
def Conf.Unpacked (config : Config) (crates : Crates) (c : ReleasePool) (r : ReleaseRow) : Prop :=
  ∃ (i : ℕ) (t : Thread ReleaseRequest Op Op.Reply Response) (n : ℕ)
    (τ₀ τ₁ τ₂ τ₃ : List (Event Op Op.Reply)), c.threads[i]? = some t ∧
    t.trace = τ₀ ++ ⟨.sql (.insertRelease r.id r.projectId ReleaseStatus.unpacking.asStr r.message
      r.createdAt), .ok n⟩ :: (τ₁ ++ (τ₂ ++ τ₃)) ∧
    After (receiveArchive crates (releaseDir config r.projectId r.id) t.call.req.body
      t.call.req.signedHash).run τ₁ (.ret (.ok ())) ∧
    After (unpackArchive (releaseDir config r.projectId r.id)).run τ₂ (.ret (.ok ()))

/-- **Releases move once and freeze**, in every run of uploads on whatever the server holds.  A row
is inserted as `unpacking`.  No row is deleted or changes what it is of, and its status changes at
most once, to an outcome; the rows of uploads before are left alone.  A row has an error exactly
when it `failed`, and is `ready` only if its own upload was received and unpacked. -/
theorem releases_freeze (config : Config) (crates : Crates) (s : Server) {c : ReleasePool}
    (h : Uploads config crates s c) :
    (∀ a c', c.step perform (ReleaseRequest.prog config crates) a = some c' →
        ∀ r' ∈ c'.shared.releases, (∀ r ∈ c.shared.releases, r.id ≠ r'.id) →
          r'.status = ReleaseStatus.unpacking.asStr ∧ r'.error = none) ∧
      (∀ c', Reaches perform (ReleaseRequest.prog config crates) (fun _ _ ↦ True) c c' →
        ∀ r ∈ c.shared.releases, ∃ r' ∈ c'.shared.releases,
          r.Progresses r' ∧ (r ∈ s.releases → r' = r)) ∧
      ∀ r ∈ c.shared.releases, r ∉ s.releases →
        (r.error ≠ none ↔ r.status = ReleaseStatus.failed.asStr) ∧
          (r.status = ReleaseStatus.ready.asStr → Conf.Unpacked config crates c r) := by
  refine ⟨fun a c' hs ↦ (release_step h hs).2, fun c' h' ↦ release_progresses h h', ?_⟩
  intro r hr hstart
  obtain ⟨i, ⟨n, hinsert⟩, hstored⟩ := (row_origin h r hr).resolve_left hstart
  rcases hstored with ⟨hstatus, herror⟩ | ⟨now, n', hset⟩
  · rw [hstatus, herror]
    exact ⟨by decide, fun hready ↦ absurd hready (by decide)⟩
  obtain ⟨t, τ₀, τ, τ₃, unpacked, hi, hτ, hunpack, houtcome⟩ := stored_outcome h hinsert hset
  obtain ⟨hstatus, herror⟩ := Prod.mk.inj houtcome
  rw [hstatus, herror]
  refine ⟨outcomeOf_error_iff unpacked, fun hready ↦ ?_⟩
  rw [outcomeOf_ready hready] at hunpack
  obtain ⟨τ₁, τ₂, rfl, hreceive, hunpacked⟩ := unpackRelease_ok hunpack
  simp only [List.append_assoc] at hτ
  exact ⟨i, t, n, τ₀, τ₁, τ₂, _, hi, hτ, hreceive, hunpacked⟩

end Runs

/-! ## A release of the one project -/

/-- The project's key uploads it. -/
def ownUpload : ReleaseRequest where
  projectId := "prj_00000000000000aa"
  req := { method := "POST"
           pathAndQuery := some "/api/projects/prj_00000000000000aa/releases"
           body := [.data [1]]
           caller := some ⟨"usr_1", "bob", some "prj_00000000000000aa"⟩ }

def ownUploadRun : List (Act Outside ReleaseRequest) :=
  .spawn ownUpload :: List.replicate 14 (.step 0 {})

/-- Two uploads at once, of which the second cannot write its archive. -/
def rivalUploadsRun : List (Act Outside ReleaseRequest) :=
  [.spawn ownUpload, .spawn ownUpload] ++
    (List.replicate 6 [.step 0 {}, .step 1 (drawing 1)]).flatten ++
    [.step 1 { fault := some "disk full" }] ++ List.replicate 8 (.step 0 {}) ++
    List.replicate 2 (.step 1 {})

theorem releases_freeze_rivalUploadsRun :
    ∃ c ∈ (⟨.oneProject, []⟩ : ReleasePool).run? perform
        (ReleaseRequest.prog ⟨"", "", "", [], ""⟩ .sample) rivalUploadsRun,
      c.shared.releases.rows.map ReleaseRow.status = ["ready", "failed"] ∧
        ∀ r ∈ c.shared.releases,
          (r.error ≠ none ↔ r.status = ReleaseStatus.failed.asStr) ∧
          (r.status = ReleaseStatus.ready.asStr →
            Conf.Unpacked ⟨"", "", "", [], ""⟩ .sample c r) := by
  have hadm : (⟨.oneProject, []⟩ : ReleasePool).Admits perform
      (ReleaseRequest.prog ⟨"", "", "", [], ""⟩ .sample) (fun _ _ ↦ True) rivalUploadsRun := by
    decide +kernel
  have hrun : ((⟨.oneProject, []⟩ : ReleasePool).run? perform
      (ReleaseRequest.prog ⟨"", "", "", [], ""⟩ .sample) rivalUploadsRun).map
        (fun c ↦ c.shared.releases.rows.map ReleaseRow.status) = some ["ready", "failed"] := by
    decide +kernel
  obtain ⟨c, hc, hstatus⟩ := Option.map_eq_some_iff.mp hrun
  refine ⟨c, hc, hstatus, fun r hr ↦ ?_⟩
  exact (releases_freeze _ .sample .oneProject (Reaches.of_run? rivalUploadsRun hc hadm)).2.2 r hr
    (Table.not_mem_empty r)

end Railyard
