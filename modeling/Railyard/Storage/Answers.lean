import Railyard.Storage.Releases

/-!
# The answer to an upload

`createRelease` builds its answer from what it holds in its hands, not from the row of the release,
and a status update that fails is only logged.  So the answer and the row are tied by the update
alone.

* `createRelease_returned`: what an upload that answered has done.
* `statusUpdate_kept`: a row keeps what its own upload has stored in it.
* `answer_matches_row_iff`: from when it is given, the answer says what the row says, exactly if
  the database executed the status update.
-/

set_option autoImplicit false

namespace Railyard

open Effects Prog

/-- The row has a terminal status, and it is what the answer reports: a release that is ready, with
the time of its last change, or a release that failed, with its error. -/
inductive ReleaseRow.Reported (r : ReleaseRow) : Response → Prop
  | ready (hstatus : r.status = ReleaseStatus.ready.asStr) (herror : r.error = none) :
      r.Reported (.json (.release
        ⟨r.id, r.projectId, .ready, r.message, none, r.createdAt, r.updatedAt⟩))
  | failed {e : Error} (hstatus : r.status = ReleaseStatus.failed.asStr)
      (herror : r.error = some e) : r.Reported (.text 400 ("release " ++ r.id ++ " failed: " ++ e))

/-- The database executed the status update of the release. -/
def StatusUpdated (id : String) (τ : List (Event Op Op.Reply)) : Prop :=
  ∃ status error now n, ⟨.sql (.setReleaseStatus id status error now), .ok n⟩ ∈ τ

theorem ReleaseRow.Reported.not_unpacking {r : ReleaseRow} {response : Response}
    (h : r.Reported response) : r.status ≠ ReleaseStatus.unpacking.asStr := by
  cases h with
  | ready hstatus => rw [hstatus]; decide
  | failed hstatus => rw [hstatus]; decide

/-- A row that holds an outcome is reported by the answer to it. -/
theorem reported_releaseAnswer {r : ReleaseRow} {release : Release} {unpacked : Except Error Unit}
    (hid : r.id = release.id) (hmessage : r.message = release.message)
    (hcreated : r.createdAt = release.createdAt)
    (houtcome : (r.status, r.error) = outcomeOf unpacked) :
    r.Reported (releaseAnswer r.projectId release r.updatedAt unpacked) := by
  cases unpacked with
  | ok a =>
    rw [releaseAnswer, ← hid, ← hmessage, ← hcreated]
    exact .ready (congrArg Prod.fst houtcome) (congrArg Prod.snd houtcome)
  | error e =>
    rw [releaseAnswer, ← hid]
    exact .failed (congrArg Prod.fst houtcome) (congrArg Prod.snd houtcome)

/-! ## What an upload that answered has done -/

section Returned

variable {config : Config} {crates : Crates} {req : Request}

theorem storeRelease_returned {projectId : String} {release : Release}
    {τ : List (Event Op Op.Reply)} {response : Response}
    (h : After (storeRelease config crates projectId release req) τ (.ret response)) :
    ∃ τ₁ unpacked now r, τ = τ₁ ++ [⟨.unixTimestamp, now⟩, ⟨.sql (.setReleaseStatus release.id
        (outcomeOf unpacked).1 (outcomeOf unpacked).2 now), r⟩] ∧
      (∀ e ∈ τ₁, Op.OffTables e.1) ∧ response = releaseAnswer projectId release now unpacked := by
  rw [storeRelease_eq_bind] at h
  obtain ⟨q, k, -, hq⟩ | ⟨unpacked, τ₁, τ₂, rfl, hunpack, hfinish⟩ := after_bind h
  · cases hq
  rw [finishRelease_run] at hfinish
  obtain ⟨now, τ₃, rfl, hset⟩ := after_op_ret hfinish
  obtain ⟨r, τ₄, rfl, hret⟩ := after_op_ret hset
  obtain ⟨rfl, hresponse⟩ := after_ret.mp hret
  exact ⟨τ₁, unpacked, now, r, rfl, ((unpackRelease_offTables _).after hunpack).1,
    ret.inj hresponse⟩

/-- An upload that answered and had made a release has sought to store its outcome, once, and
answers with that outcome. -/
theorem createRelease_returned {raw id : String} {τ : List (Event Op Op.Reply)}
    {response : Response} (h : After (createRelease config crates raw req) τ (.ret response))
    (hmade : ∃ e ∈ τ, InsertsRelease id e) :
    ∃ projectId message created n unpacked now r,
      ⟨.sql (.insertRelease id projectId ReleaseStatus.unpacking.asStr message created), .ok n⟩
        ∈ τ ∧
      (∀ e, e ∈ τ ∧ StoresOutcome e ↔
        e = ⟨.sql (.setReleaseStatus id (outcomeOf unpacked).1 (outcomeOf unpacked).2 now), r⟩) ∧
      response = releaseAnswer projectId
        ⟨id, projectId, .unpacking, message, none, created, created⟩ now unpacked := by
  obtain ⟨e₀, he₀, projectId₀, status₀, message₀, now₀, n₀, rfl⟩ := hmade
  obtain ⟨response', hret⟩ | ⟨caller, projectId, message, -, -, hupload⟩ :=
    createRelease_cases config crates raw req
  · rw [hret] at h
    rw [(after_ret.mp h).1] at he₀
    cases he₀
  rw [hupload, uploadRelease] at h
  obtain ⟨rows, τ₁, rfl, h₁⟩ := after_op_ret h
  rcases rows with e | _ | ⟨row, rows⟩
  · rw [(after_ret.mp h₁).1] at he₀
    simp at he₀
  · rw [(after_ret.mp h₁).1] at he₀
    simp at he₀
  obtain ⟨created, τ₂, rfl, h₂⟩ := after_op_ret h₁
  obtain ⟨bs, τ₃, rfl, h₃⟩ := after_op_ret h₂
  obtain ⟨r₀, τ₄, rfl, h₄⟩ := after_op_ret h₃
  rcases r₀ with e | n
  · rw [(after_ret.mp h₄).1] at he₀
    simp at he₀
  obtain ⟨τ₅, unpacked, now, r, rfl, hoff, rfl⟩ := storeRelease_returned h₄
  have hid : id = "rel_" ++ Encoding.hexEncode bs.val := by
    simp only [List.mem_cons, List.mem_append, List.not_mem_nil, or_false] at he₀
    rcases he₀ with he₀ | he₀ | he₀ | he₀ | he₀ | he₀ | he₀
    · cases he₀
    · cases he₀
    · cases he₀
    · cases he₀; rfl
    · exact absurd rfl (hoff _ he₀ _)
    · cases he₀
    · cases he₀
  subst hid
  refine ⟨projectId, message, created, n, unpacked, now, r, ?_, fun e ↦ ?_, rfl⟩
  · exact .tail _ (.tail _ (.tail _ (.head _)))
  constructor
  · rintro ⟨he, id', status', error', now', r', rfl⟩
    simp only [List.mem_cons, List.mem_append, List.not_mem_nil, or_false] at he
    rcases he with he | he | he | he | he | he | he
    · cases he
    · cases he
    · cases he
    · cases he
    · exact absurd rfl (hoff _ he _)
    · cases he
    · exact he
  · rintro rfl
    exact ⟨by simp, _, _, _, _, _, rfl⟩

end Returned

/-! ## Rows and answers in a run -/

section Runs

variable {config : Config} {crates : Crates} {s : Server} {c : ReleasePool}

/-- The row holds this outcome. -/
def ReleaseRow.Holds (r : ReleaseRow) (id status : String) (error : Option Error) (now : ℕ) :
    Prop :=
  r.id = id ∧ r.status = status ∧ r.error = error ∧ r.updatedAt = now

/-- Who has stored an outcome has inserted the row. -/
theorem stored_inserted (h : Uploads config crates s c) {i : ℕ} {id status : String}
    {error : Option Error} {now : ℕ} {r : Except Error ℕ}
    (hd : c.Did i ⟨.sql (.setReleaseStatus id status error now), r⟩) :
    ∃ e, c.Did i e ∧ InsertsRelease id e := by
  obtain ⟨t, τ₁, τ₂, k, hi, hτ, hafter⟩ := h.issued hd
  have hpending := createRelease_pending hafter
  generalize τ₁ = τ at hpending hτ
  cases hpending with
  | @outcome τ₀ τ₁ _ projectId message created n _ unpacked hbefore hunpack =>
    have hinsert : (⟨.sql (.insertRelease id projectId ReleaseStatus.unpacking.asStr message
        created), .ok n⟩ : Event Op Op.Reply) ∈ t.trace := by
      rw [hτ]
      exact List.mem_append_left _ (List.mem_append_right _ List.mem_cons_self)
    exact ⟨_, ⟨t, hi, hinsert⟩, _, _, _, _, _, rfl⟩

/-- **A row keeps what its upload has stored in it.** -/
theorem statusUpdate_kept (h : Uploads config crates s c) {i : ℕ} {id status : String}
    {error : Option Error} {now n : ℕ}
    (hd : c.Did i ⟨.sql (.setReleaseStatus id status error now), .ok n⟩) :
    ∃ r ∈ c.shared.releases, r.Holds id status error now := by
  refine h.did (φ := fun c _ e ↦ ∀ id status error now n,
    e = ⟨.sql (.setReleaseStatus id status error now), .ok n⟩ →
      ∃ r ∈ c.shared.releases, r.Holds id status error now) ?_ ?_ i _ hd _ _ _ _ _ rfl
  · rintro c₁ c₂ a i e hr - hs hd hφ id status error now n rfl
    obtain ⟨r, hrow, hid, hholds⟩ := hφ _ _ _ _ _ rfl
    obtain ⟨call, rfl, rfl⟩ | ⟨j, o, t, q, k, rfl, hj, hk, rfl⟩ := Conf.step_eq_some _ _ hs
    · exact ⟨r, hrow, hid, hholds⟩
    rcases perform_releases o q c₁.shared with
      hsame | ⟨r₁, -, -, -, hmem⟩ | ⟨id', status', error', now', m, he, hmem⟩
    · exact ⟨r, hsame ▸ hrow, hid, hholds⟩
    · exact ⟨r, (hmem r).mpr (.inl hrow), hid, hholds⟩
    · -- a second update of the row would be by the upload that has stored its outcome
      obtain ⟨rfl, -⟩ := eventOf_eq he
      obtain ⟨⟨e₂, hd₂, hinserts₂⟩, hunstored, -⟩ := outcome_pending hr hj hk
      obtain ⟨e₁, hd₁, hinserts₁⟩ := stored_inserted hr hd
      have hne : r.id ≠ id' := by
        rintro hsame
        have hinserts : InsertsRelease id e₂ := by rwa [← hid, hsame]
        obtain ⟨rfl, -⟩ := insert_unique hr hd₁ hd₂ hinserts₁ hinserts
        obtain ⟨t', ht', hset⟩ := hd
        cases hj.symm.trans ht'
        exact hunstored _ hset ⟨_, _, _, _, _, rfl⟩
      exact ⟨r, (hmem r).mpr ⟨r, hrow, if_neg hne⟩, hid, hholds⟩
  · rintro c₁ c₂ i o t q k hr - hi hk rfl id status error now n he
    obtain ⟨rfl, hreply⟩ := eventOf_eq he
    obtain ⟨hexec, -⟩ := perform_sql_eq_ok hreply
    obtain ⟨⟨e, hd, hinserts⟩, -, -⟩ := outcome_pending hr hi hk
    obtain ⟨⟨r, hrow, hid⟩, -⟩ := inserted_kept hr hd hinserts
    refine ⟨{ r with status := status, error := error, updatedAt := now }, ?_, hid, rfl, rfl, rfl⟩
    show _ ∈ (perform o (.sql (.setReleaseStatus id status error now)) c₁.shared).2.releases
    rw [hexec, mem_releases_setReleaseStatus]
    exact ⟨r, hrow, if_pos hid⟩

/-- The row of a release is what its upload inserted, but for the outcome. -/
theorem row_inserted (h : Uploads config crates s c) {i : ℕ} {id projectId : String}
    {message : Option String} {created n : ℕ} (hd : c.Did i ⟨.sql (.insertRelease id projectId
      ReleaseStatus.unpacking.asStr message created), .ok n⟩) :
    ∃ r ∈ c.shared.releases, r.id = id ∧ r.projectId = projectId ∧ r.message = message ∧
      r.createdAt = created ∧ Conf.Made c i r := by
  have hinserts : InsertsRelease id ⟨.sql (.insertRelease id projectId
      ReleaseStatus.unpacking.asStr message created), .ok n⟩ := ⟨_, _, _, _, _, rfl⟩
  obtain ⟨⟨r, hrow, hid⟩, hnew⟩ := inserted_kept h hd hinserts
  rcases row_origin h r hrow with hstart | ⟨j, hmade⟩
  · exact absurd hid (hnew r hstart)
  obtain ⟨m, hd'⟩ := hmade.inserted
  obtain ⟨rfl, he⟩ := insert_unique h hd hd' hinserts ⟨_, _, _, _, _, by rw [hid]⟩
  cases he
  exact ⟨r, hrow, rfl, rfl, rfl, rfl, hmade⟩

/-- **When the answer to an upload is what is stored**, in every run of uploads on whatever the
server holds.  From when an upload that made a release has answered, the release has its row, with
a terminal status that is the one reported, exactly if the database executed the status update; and
it is left as `unpacking` exactly if the database did not. -/
theorem answer_matches_row_iff (h : Uploads config crates s c) {i : ℕ}
    {t : Thread ReleaseRequest Op Op.Reply Response} (hi : c.threads[i]? = some t)
    {response : Response} (hret : t.Returned response) {id : String}
    (hmade : ∃ e ∈ t.trace, InsertsRelease id e) :
    ∃ r ∈ c.shared.releases, r.id = id ∧ (r.Reported response ↔ StatusUpdated id t.trace) ∧
      (r.status = ReleaseStatus.unpacking.asStr ↔ ¬ StatusUpdated id t.trace) := by
  have hafter := h.after t (List.mem_of_getElem? hi)
  rw [hret] at hafter
  obtain ⟨projectId, message, created, n, unpacked, now, r₀, hinsert, hset, rfl⟩ :=
    createRelease_returned hafter hmade
  obtain ⟨r, hrow, hid, hproject, hmessage, hcreated, hmaderow⟩ := row_inserted h ⟨t, hi, hinsert⟩
  refine ⟨r, hrow, hid, ?_⟩
  by_cases hupdated : StatusUpdated id t.trace
  · have hreported : r.Reported (releaseAnswer projectId
        ⟨id, projectId, .unpacking, message, none, created, created⟩ now unpacked) := by
      obtain ⟨status, error, now', n', hmem⟩ := hupdated
      have he := (hset _).mp ⟨hmem, _, _, _, _, _, rfl⟩
      cases he
      obtain ⟨r', hrow', hid', hstatus, herror, hnow⟩ := statusUpdate_kept h ⟨t, hi, hmem⟩
      obtain rfl : r' = r := Table.eq_of_key (by simp) hrow' hrow (hid'.trans hid.symm)
      subst hproject hnow
      exact reported_releaseAnswer hid hmessage hcreated (by rw [hstatus, herror])
    exact ⟨iff_of_true hreported hupdated,
      iff_of_false hreported.not_unpacking (not_not.mpr hupdated)⟩
  · have hunpacking : r.status = ReleaseStatus.unpacking.asStr := by
      rcases hmaderow.stored with ⟨hstatus, -⟩ | ⟨now', n', t', ht', hmem⟩
      · exact hstatus
      · cases hi.symm.trans ht'
        exact absurd ⟨_, _, _, _, hid ▸ hmem⟩ hupdated
    exact ⟨iff_of_false (fun hreported ↦ hreported.not_unpacking hunpacking) hupdated,
      iff_of_true hunpacking hupdated⟩

end Runs

/-! ## Two uploads -/

/-- What is left of a run to look at: the statuses of the rows, and of each upload what it has
inserted and the status it answered with. -/
def ReleasePool.summary (c : ReleasePool) : List String × List (List Insertion × Option ℕ) :=
  (c.shared.releases.rows.map ReleaseRow.status,
    c.threads.map fun t ↦ (t.trace.filterMap insertionOf, t.code.ended.map Response.status))

/-- The only upload of a run that has made one release and answered. -/
theorem ReleasePool.answered_of_summary {c : ReleasePool} {status : ℕ} {statuses : List String}
    {x : Insertion} (h : ReleasePool.summary c = (statuses, [([x], some status)])) :
    ∃ t response, c.threads[0]? = some t ∧ t.Returned response ∧ response.status = status ∧
      ∃ e ∈ t.trace, InsertsRelease x.id e := by
  obtain ⟨-, hthreads⟩ := Prod.mk.inj h
  obtain ⟨t, hi⟩ : ∃ t, c.threads = [t] := List.length_eq_one_iff.mp (by
    simpa using congrArg List.length hthreads)
  rw [hi, List.map_singleton, List.singleton_inj, Prod.mk.injEq] at hthreads
  obtain ⟨response, hended, hstatus⟩ := Option.map_eq_some_iff.mp hthreads.2
  have hx : x ∈ t.trace.filterMap insertionOf := by rw [hthreads.1]; exact List.mem_singleton_self x
  obtain ⟨e, he, hinserts⟩ := List.mem_filterMap.mp hx
  exact ⟨t, response, by rw [hi]; rfl, ended_eq_some.mp hended, hstatus, e, he,
    insertsRelease_of_insertionOf hinserts⟩

/-- Every step of the upload succeeds. -/
theorem answer_matches_row_iff_ownUploadRun :
    ∃ c ∈ (⟨.oneProject, []⟩ : ReleasePool).run? perform
        (ReleaseRequest.prog ⟨"", "", "", [], ""⟩ .sample) ownUploadRun,
      ∃ t response, c.threads[0]? = some t ∧ t.Returned response ∧ response.status = 200 ∧
        ∃ r ∈ c.shared.releases, r.id = "rel_0000000000000000" ∧
          (r.Reported response ↔ StatusUpdated "rel_0000000000000000" t.trace) ∧
          (r.status = ReleaseStatus.unpacking.asStr ↔
            ¬ StatusUpdated "rel_0000000000000000" t.trace) := by
  have hadm : (⟨.oneProject, []⟩ : ReleasePool).Admits perform
      (ReleaseRequest.prog ⟨"", "", "", [], ""⟩ .sample) (fun _ _ ↦ True) ownUploadRun :=
    Conf.admits_of_forall (fun _ _ ↦ trivial) _ _
  have hrun : ((⟨.oneProject, []⟩ : ReleasePool).run? perform
      (ReleaseRequest.prog ⟨"", "", "", [], ""⟩ .sample) ownUploadRun).map ReleasePool.summary =
        some (["ready"],
          [([⟨"rel_0000000000000000", "prj_00000000000000aa", 0⟩], some 200)]) := by
    decide +kernel
  obtain ⟨c, hc, hsummary⟩ := Option.map_eq_some_iff.mp hrun
  obtain ⟨t, response, hi, hret, hstatus, hmade⟩ := ReleasePool.answered_of_summary hsummary
  exact ⟨c, hc, t, response, hi, hret, hstatus,
    answer_matches_row_iff (Reaches.of_run? ownUploadRun hc hadm) hi hret hmade⟩

/-- The same upload, but for its last statement. -/
def unrecordedUploadRun : List (Act Outside ReleaseRequest) :=
  .spawn ownUpload :: List.replicate 13 (.step 0 {}) ++ [.step 0 { fault := some "disk I/O error" }]

theorem answered_unpacking :
    ∃ c, Uploads ⟨"", "", "", [], ""⟩ .sample .oneProject c ∧
      ∃ t response, c.threads[0]? = some t ∧ t.Returned response ∧ response.status = 200 ∧
        c.shared.releases.rows.map ReleaseRow.status = ["unpacking"] ∧
        ∀ r ∈ c.shared.releases, ¬ r.Reported response := by
  have hadm : (⟨.oneProject, []⟩ : ReleasePool).Admits perform
      (ReleaseRequest.prog ⟨"", "", "", [], ""⟩ .sample) (fun _ _ ↦ True) unrecordedUploadRun :=
    Conf.admits_of_forall (fun _ _ ↦ trivial) _ _
  have hrun : ((⟨.oneProject, []⟩ : ReleasePool).run? perform
      (ReleaseRequest.prog ⟨"", "", "", [], ""⟩ .sample) unrecordedUploadRun).map
        ReleasePool.summary = some (["unpacking"],
          [([⟨"rel_0000000000000000", "prj_00000000000000aa", 0⟩], some 200)]) := by
    decide +kernel
  obtain ⟨c, hc, hsummary⟩ := Option.map_eq_some_iff.mp hrun
  obtain ⟨t, response, hi, hret, hstatus, -⟩ := ReleasePool.answered_of_summary hsummary
  have hrows := congrArg Prod.fst hsummary
  refine ⟨c, Reaches.of_run? unrecordedUploadRun hc hadm, t, response, hi, hret, hstatus, hrows,
    fun r hr hreported ↦ hreported.not_unpacking ?_⟩
  have hmem := List.mem_map_of_mem hr (f := ReleaseRow.status)
  rw [show c.shared.releases.rows.map ReleaseRow.status = ["unpacking"] from hrows] at hmem
  exact List.mem_singleton.mp hmem

end Railyard
