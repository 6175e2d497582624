import Railyard.Access.Scoped
import Railyard.Storage.Confinement

/-!
# Projects at work next to each other

Callers scoped to different projects, their requests interleaved at every operation.  Take out the
requests of all projects but `P`: what is left is a run in which the callers of `P` are answered
the same, and the rows of `P` are the same (`projects_apart`).

* `Apart` relates the state with everybody at work to that with the callers of `P` alone.
* `Apart.other`: an operation for another project changes nothing of it.
* `Apart.own`: an operation for `P` is answered alike in both states, and keeps them related.  The
  one that could tell is the insert of a release, which fails on an id that is taken; ids are new
  when they are drawn, and so they still are when they are inserted (`insert_unused`).
-/

set_option autoImplicit false

namespace Railyard

open Data (IsPlain Path)
open Effects Prog

variable {config : Config} {crates : Crates} {P Q : String}

/-! ## Files of different projects -/

/-- Where the archive of a release is kept. -/
def archivePath (config : Config) (projectId id : String) : String :=
  joinPath (releaseDir config projectId id) "archive.tar.gz"

theorem archivePath_ne {id id' : String} (hP : IsPlain P) (hQ : IsPlain Q) (hid : IsPlain id)
    (hid' : IsPlain id') (hne : Q ≠ P) : archivePath config Q id ≠ archivePath config P id' := by
  have harchive : IsPlain "archive.tar.gz" := isPlain_of_chars (by decide) (by decide)
  intro heq
  have hpath := congrArg (fun path ↦ Path.join ([] : Path) path) heq
  simp only [archivePath, join_joinPath _ _ harchive, join_releaseDir config _ hQ hid,
    join_releaseDir config _ hP hid', List.append_assoc, List.append_cancel_left_eq,
    List.cons_append, List.cons.injEq] at hpath
  exact hne hpath.2.1

/-- The files a step on the file system makes or writes: none but the archive of its release. -/
theorem files_of_in {projectId id path : String} {f : FsOp} {s : Server} {o : Outside}
    (hin : f.In (releaseDir config projectId id)) (hne : archivePath config projectId id ≠ path) :
    (perform o (.fs f) s).2.files path = s.files path := by
  have hupdate : ∀ path' bytes, path' = archivePath config projectId id →
      Function.update s.files path' bytes path = s.files path := by
    rintro path' bytes rfl
    exact Function.update_of_ne (Ne.symm hne) _ _
  simp only [perform]
  cases o.fault with
  | some e => cases f <;> rfl
  | none =>
    cases f with
    | createFile path' => exact hupdate path' _ hin
    | writeAll path' data => exact hupdate path' _ hin
    | _ => rfl

/-! ## Two states -/

/-- `s'` is `s` as the callers of `P` see it. -/
structure Apart (config : Config) (P : String) (s s' : Server) : Prop where
  agree : s.AgreeOn P s'
  fewer : ∀ r' ∈ s'.releases, ∃ r ∈ s.releases, r.id = r'.id
  files : IsPlain P → ∀ id, IsPlain id → (s.files (archivePath config P id)).isSome
    = (s'.files (archivePath config P id)).isSome

theorem Apart.refl (s : Server) : Apart config P s s :=
  ⟨⟨fun _ _ ↦ Iff.rfl, fun _ _ ↦ Iff.rfl⟩, fun r hr ↦ ⟨r, hr, rfl⟩, fun _ _ _ ↦ rfl⟩

variable {s s' : Server} {K : Set Fact} {o : Outside} {q : Op}

/-- Where the tables of both states are as before. -/
theorem Apart.congr {s₁ s₁' : Server} (h : Apart config P s s')
    (hprojects : s₁.projects = s.projects) (hreleases : s₁.releases = s.releases)
    (hprojects' : s₁'.projects = s'.projects) (hreleases' : s₁'.releases = s'.releases)
    (hfiles : IsPlain P → ∀ id, IsPlain id → (s₁.files (archivePath config P id)).isSome
      = (s₁'.files (archivePath config P id)).isSome) : Apart config P s₁ s₁' where
  agree := by
    refine ⟨?_, ?_⟩
    · rw [hprojects, hprojects']
      exact h.agree.project
    · rw [hreleases, hreleases']
      exact h.agree.releases
  fewer := by
    rw [hreleases, hreleases']
    exact h.fewer
  files := hfiles

/-- The rows a fact is about. -/
theorem Wellformed.plain_of_release {id : String} (hwf : Wellformed s)
    (h : (Fact.release id P).Holds s) : IsPlain P ∧ IsPlain id := by
  obtain ⟨r, hr, rfl, rfl⟩ := h
  exact hwf.isPlain hr

/-- **An operation for another project** changes nothing that the callers of `P` see. -/
theorem Apart.other (h : Apart config P s s') (hne : Q ≠ P) (hwf : Wellformed s)
    (hK : ∀ x ∈ K, x.Holds s) (hq : scopedAllowed config Q K q) :
    Apart config P (perform o q s).2 s' := by
  cases q with
  | fs f =>
    obtain ⟨id, hknown, hin⟩ := hq
    obtain ⟨hQ, hid⟩ := hwf.plain_of_release (hK _ hknown)
    obtain ⟨-, -, hprojects, hreleases⟩ := perform_tables (q := .fs f) (o := o) (by simp) s
    refine h.congr hprojects hreleases rfl rfl fun hP id' hid' ↦ ?_
    rw [files_of_in hin (archivePath_ne hP hQ hid hid' hne)]
    exact h.files hP id' hid'
  | sql st =>
    cases hf : o.fault with
    | some e => rwa [perform_sql_fault hf]
    | none =>
      rw [perform_sql_ok hf]
      cases st with
      | insertRelease id projectId status message now =>
        obtain ⟨rfl, -, -⟩ := hq
        obtain ⟨-, -, hs⟩ | ⟨-, -, hmem⟩ := insertRelease_cases s id projectId status message now
        · rwa [hs]
        refine ⟨⟨h.agree.project, fun r hr ↦ ?_⟩, fun r' hr' ↦ ?_, h.files⟩
        · refine Iff.trans ?_ (h.agree.releases r hr)
          refine (hmem r).trans (or_iff_left ?_)
          rintro rfl
          exact hne hr
        · obtain ⟨r, hr, hid⟩ := h.fewer r' hr'
          exact ⟨r, (hmem r).mpr (.inl hr), hid⟩
      | setReleaseStatus id status error now =>
        obtain ⟨r₀, hr₀, hid₀, hproject₀⟩ := hK _ hq
        refine ⟨⟨h.agree.project, fun r hr ↦ ?_⟩, fun r' hr' ↦ ?_, h.files⟩
        · refine Iff.trans ?_ (h.agree.releases r hr)
          rw [mem_releases_setReleaseStatus]
          constructor
          · rintro ⟨r₁, hr₁, he⟩
            split at he
            · -- the row set is that of the other project
              rename_i hid₁
              obtain rfl : r₁ = r₀ := Table.eq_of_key (List.mem_singleton_self _) hr₁ hr₀
                (hid₁.trans hid₀.symm)
              rw [← he] at hr
              exact absurd (hproject₀.symm.trans hr) hne
            · exact he ▸ hr₁
          · intro hmem
            refine ⟨r, hmem, if_neg fun hid ↦ ?_⟩
            obtain rfl : r = r₀ := Table.eq_of_key (List.mem_singleton_self _) hmem hr₀
              (hid.trans hid₀.symm)
            exact hne (hproject₀.symm.trans hr)
        · obtain ⟨r, hr, hid⟩ := h.fewer r' hr'
          refine ⟨_, mem_releases_setReleaseStatus.mpr ⟨r, hr, rfl⟩, ?_⟩
          split <;> exact hid
      | projectById | listReleases | listProjects => exact h
      | _ => exact hq.elim
  | recordNonce => exact hq.elim
  | joinBlocking =>
    simp only [perform]
    cases o.fault <;> exact h
  | _ => exact h

/-- An operation on the files of `P` is told the same in both states. -/
theorem Apart.own_fs (h : Apart config P s s') (hP : IsPlain P) {id : String} (hid : IsPlain id)
    {f : FsOp} (hin : f.In (releaseDir config P id)) :
    (perform o (.fs f) s).1 = (perform o (.fs f) s').1 ∧
      Apart config P (perform o (.fs f) s).2 (perform o (.fs f) s').2 := by
  have hfile : (s.files (archivePath config P id)).isSome
      = (s'.files (archivePath config P id)).isSome := h.files hP id hid
  obtain ⟨-, -, hprojects, hreleases⟩ := perform_tables (q := .fs f) (o := o) (by simp) s
  obtain ⟨-, -, hprojects', hreleases'⟩ := perform_tables (q := .fs f) (o := o) (by simp) s'
  refine ⟨?_, h.congr hprojects hreleases hprojects' hreleases' fun _ id' hid' ↦ ?_⟩
  · simp only [perform]
    cases o.fault with
    | some e => rfl
    | none =>
      cases f with
      | openFile path =>
        obtain rfl : path = archivePath config P id := hin
        simp only [FsOp.exec, hfile]
      | _ => rfl
  · by_cases heq : archivePath config P id = archivePath config P id'
    · rw [← heq]
      have hupdate : ∀ bytes bytes', (Function.update s.files (archivePath config P id)
          (some bytes) (archivePath config P id)).isSome = (Function.update s'.files
          (archivePath config P id) (some bytes') (archivePath config P id)).isSome := by
        intro bytes bytes'
        rw [Function.update_self, Function.update_self]
        rfl
      simp only [perform]
      cases o.fault with
      | some e => cases f <;> exact hfile
      | none =>
        cases f with
        | createFile path =>
          obtain rfl : path = archivePath config P id := hin
          exact hupdate _ _
        | writeAll path data =>
          obtain rfl : path = archivePath config P id := hin
          exact hupdate _ _
        | _ => exact hfile
    · rw [files_of_in hin heq, files_of_in hin heq]
      exact h.files hP id' hid'

/-- What belongs to `P` in the one state does in the other. -/
theorem Apart.storing {id : String} (h : Apart config P s s')
    (hrelease : (Fact.release id P).Holds s) : Storing P id s s' := by
  obtain ⟨r₀, hr₀, hid₀, hproject₀⟩ := hrelease
  have hr₀' := (h.agree.releases r₀ hproject₀).mp hr₀
  refine ⟨h.agree, fun r hr hid ↦ ?_, fun r hr hid ↦ ?_⟩
  · obtain rfl : r = r₀ := Table.eq_of_key (List.mem_singleton_self _) hr hr₀
      (hid.trans hid₀.symm)
    exact hproject₀
  · obtain rfl : r = r₀ := Table.eq_of_key (List.mem_singleton_self _) hr hr₀'
      (hid.trans hid₀.symm)
    exact hproject₀

/-- The id an operation is about to insert a release under is that of none. -/
def InsertsUnused (s : Server) (q : Op) : Prop :=
  ∀ id projectId status message now, q = .sql (.insertRelease id projectId status message now) →
    ∀ r ∈ s.releases, r.id ≠ id

/-- **An operation for `P`** is answered so that its caller cannot tell the states apart, which are
again the same to the callers of `P`. -/
theorem Apart.own (h : Apart config P s s') (hwf : Wellformed s) (hK : ∀ x ∈ K, x.Holds s)
    (hq : scopedAllowed config P K q) (hunused : InsertsUnused s q) :
    AlikeTo P q (perform o q s).1 (perform o q s').1 ∧
      Apart config P (perform o q s).2 (perform o q s').2 := by
  cases q with
  | fs f =>
    obtain ⟨id, hknown, hin⟩ := hq
    obtain ⟨hP, hid⟩ := hwf.plain_of_release (hK _ hknown)
    exact h.own_fs hP hid hin
  | sql st =>
    have hread : (st.exec s).2 = s → (st.exec s').2 = s' →
        Apart config P (perform o (.sql st) s).2 (perform o (.sql st) s').2 := by
      intro hs hs'
      rwa [perform_read hs, perform_read hs']
    cases st with
    | projectById id =>
      obtain rfl : id = P := hq
      exact ⟨perform_read_congr (projectById_reply_congr h.agree) o, hread rfl rfl⟩
    | listReleases id =>
      obtain rfl : id = P := hq
      exact ⟨perform_read_congr (listReleases_reply_congr h.agree) o, hread rfl rfl⟩
    | listProjects =>
      refine ⟨?_, hread rfl rfl⟩
      cases hf : o.fault with
      | some e =>
        rw [perform_sql_fault hf, perform_sql_fault hf]
        exact .inl ⟨e, rfl, rfl⟩
      | none =>
        rw [perform_sql_ok hf, perform_sql_ok hf]
        refine .inr ⟨_, _, rfl, rfl, ?_⟩
        rw [Table.filter_insertionSort_key (by simp), Table.filter_insertionSort_key (by simp)]
        exact Table.select_key_congr (by simp) h.agree.project
    | insertRelease id projectId status message now =>
      obtain ⟨rfl, -, -⟩ := hq
      have hnew : ∀ r ∈ s.releases, r.id ≠ id := hunused _ _ _ _ _ rfl
      have hnew' : ∀ r ∈ s'.releases, r.id ≠ id := by
        intro r' hr' hid
        obtain ⟨r, hr, hsame⟩ := h.fewer r' hr'
        exact hnew r hr (hsame.trans hid)
      cases hf : o.fault with
      | some e =>
        rw [perform_sql_fault hf, perform_sql_fault hf]
        exact ⟨rfl, h⟩
      | none =>
        rw [perform_sql_ok hf, perform_sql_ok hf]
        obtain ⟨hok, hok', hstoring⟩ := insertRelease_coupled h.agree hnew hnew'
        refine ⟨hok.trans hok'.symm, hstoring.agree, fun r' hr' ↦ ?_, h.files⟩
        obtain ⟨⟨r, hr, he⟩, -⟩ | ⟨-, -, hmem⟩ :=
          insertRelease_cases s id projectId status message now
        · exact absurd he (hnew r hr)
        obtain ⟨⟨r, hr, he⟩, -⟩ | ⟨-, -, hmem'⟩ :=
          insertRelease_cases s' id projectId status message now
        · exact absurd he (hnew' r hr)
        rcases (hmem' r').mp hr' with hr' | rfl
        · obtain ⟨r, hr, hid⟩ := h.fewer r' hr'
          exact ⟨r, (hmem r).mpr (.inl hr), hid⟩
        · exact ⟨_, (hmem _).mpr (.inr rfl), rfl⟩
    | setReleaseStatus id status error now =>
      have hstoring := h.storing (hK _ hq)
      cases hf : o.fault with
      | some e =>
        rw [perform_sql_fault hf, perform_sql_fault hf]
        exact ⟨rfl, h⟩
      | none =>
        rw [perform_sql_ok hf, perform_sql_ok hf]
        refine ⟨setReleaseStatus_reply_congr hstoring, setReleaseStatus_agree h.agree,
          fun r' hr' ↦ ?_, h.files⟩
        obtain ⟨r₀', hr₀', rfl⟩ := mem_releases_setReleaseStatus.mp hr'
        obtain ⟨r₀, hr₀, hid⟩ := h.fewer r₀' hr₀'
        refine ⟨_, mem_releases_setReleaseStatus.mpr ⟨r₀, hr₀, rfl⟩, ?_⟩
        split <;> split <;> exact hid
    | _ => exact hq.elim
  | recordNonce => exact hq.elim
  | joinBlocking =>
    simp only [perform]
    cases o.fault <;> exact ⟨rfl, h⟩
  | _ => exact ⟨rfl, h⟩

/-! ## New ids -/

/-- The release id made of what was drawn for one. -/
def drawnReleaseId : Event Op Op.Reply → Option String
  | ⟨.fillBytes .releaseId, bs⟩ => some ("rel_" ++ Encoding.hexEncode bs.val)
  | _ => none

/-- Release ids are new when they are drawn: none was drawn before, and no release has one. -/
def FreshReleaseIds (c : ScopedPool) (a : Act Outside ScopedRequest) : Prop :=
  c.NewKey perform drawnReleaseId a ∧
    ∀ e ∈ c.event? perform a, ∀ id ∈ drawnReleaseId e, ∀ r ∈ c.shared.releases, r.id ≠ id

instance (c : ScopedPool) (a : Act Outside ScopedRequest) : Decidable (FreshReleaseIds c a) :=
  inferInstanceAs (Decidable (_ ∧ ∀ e ∈ c.event? perform a, ∀ id ∈ drawnReleaseId e,
    ∀ r ∈ c.shared.releases.rows, r.id ≠ id))

/-- Scoped requests at work next to each other. -/
abbrev Serving (config : Config) (crates : Crates) (c c' : ScopedPool) : Prop :=
  Reaches perform (ScopedRequest.prog config crates) FreshReleaseIds c c'

variable {c c' d : ScopedPool}

/-- A release with an id that was drawn has been inserted by who drew it. -/
theorem drawn_inserted (h : Serving config crates ⟨s, []⟩ c) {i : ℕ} {e : Event Op Op.Reply}
    (hd : c.Did i e) {id : String} (hid : drawnReleaseId e = some id) :
    ∀ r ∈ c.shared.releases, r.id = id →
      ∃ e', c.Did i e' ∧ ∃ projectId status message now,
        e'.1 = .sql (.insertRelease id projectId status message now) := by
  refine h.did (φ := fun c i e ↦ drawnReleaseId e = some id → ∀ r ∈ c.shared.releases, r.id = id →
    ∃ e', c.Did i e' ∧ ∃ projectId status message now,
      e'.1 = .sql (.insertRelease id projectId status message now)) ?_ ?_ i e hd hid
  · intro c₁ c₂ a i e hr ha hs hd hφ hid r hrow hrid
    obtain ⟨call, rfl, rfl⟩ | ⟨j, o, t, q, k, rfl, hj, hk, rfl⟩ := Conf.step_eq_some _ _ hs
    · obtain ⟨e', hd', hinsert⟩ := hφ hid r hrow hrid
      exact ⟨e', hd'.step hs, hinsert⟩
    rcases perform_releases o q c₁.shared with
      hsame | ⟨r₁, he, -, -, hmem⟩ | ⟨id', status, error, now, n, he, hmem⟩
    · dsimp only at hrow
      rw [hsame] at hrow
      obtain ⟨e', hd', hinsert⟩ := hφ hid r hrow hrid
      exact ⟨e', hd'.step hs, hinsert⟩
    · rcases (hmem r).mp hrow with hrow | rfl
      · obtain ⟨e', hd', hinsert⟩ := hφ hid r hrow hrid
        exact ⟨e', hd'.step hs, hinsert⟩
      · -- the row is inserted under an id that only its inserter has drawn
        obtain ⟨rfl, -⟩ := eventOf_eq he
        have hafter := hr.after t (List.mem_of_getElem? hj)
        rw [hk] at hafter
        obtain ⟨rows, created, bs, hrid', hτ⟩ := t.call.insert hafter
        have hdrew : c₁.Did j ⟨.fillBytes .releaseId, bs⟩ := ⟨t, hj, by rw [hτ]; simp⟩
        obtain ⟨rfl, -⟩ := hr.unique_key (fun _ _ ha ↦ ha.1) hd hdrew hid
          (congrArg some (hrid'.symm.trans hrid))
        exact ⟨_, (Conf.did_advance hj).mpr (.inr ⟨rfl, rfl⟩), _, _, _, _,
          by rw [hrid]⟩
    · obtain ⟨r₀, hrow₀, rfl⟩ := (hmem r).mp hrow
      have hrid₀ : r₀.id = id := by
        rw [← hrid]
        split <;> rfl
      obtain ⟨e', hd', hinsert⟩ := hφ hid r₀ hrow₀ hrid₀
      exact ⟨e', hd'.step hs, hinsert⟩
  · rintro c₁ c₂ i o t q k hr ha hi hk rfl hid r hrow hrid
    have hq : q = .fillBytes .releaseId := by
      unfold drawnReleaseId at hid
      split at hid
      · rename_i heq
        exact (Sigma.mk.inj heq).1
      · cases hid
    subst hq
    exact absurd hrid (ha.2 _ (Conf.event?_step hi hk) id hid r hrow)

/-- Ids are new when releases are inserted under them. -/
theorem insert_unused (h : Serving config crates ⟨s, []⟩ c) {i : ℕ}
    {t : Thread ScopedRequest Op Op.Reply Response} (hi : c.threads[i]? = some t) {q : Op}
    {k : q.Reply → Task Response} (hk : t.code = .op q k) : InsertsUnused c.shared q := by
  rintro id projectId status message now rfl r hrow hrid
  have hafter := h.after t (List.mem_of_getElem? hi)
  rw [hk] at hafter
  obtain ⟨rows, created, bs, hid, hτ⟩ := t.call.insert hafter
  have hdrew : c.Did i ⟨.fillBytes .releaseId, bs⟩ := ⟨t, hi, by rw [hτ]; simp⟩
  obtain ⟨e', ⟨t', hi', he'⟩, projectId', status', message', now', hinsert⟩ :=
    drawn_inserted h hdrew (congrArg some hid.symm) r hrow hrid
  -- the request that is about to insert it has inserted nothing
  cases hi.symm.trans hi'
  rw [hτ] at he'
  simp only [List.mem_cons, List.not_mem_nil, or_false] at he'
  rcases he' with rfl | rfl | rfl <;> cases hinsert

/-! ## Runs -/

/-- The requests of callers scoped to `P`. -/
abbrev ofProject (P : String) (call : ScopedRequest) : Bool := decide (call.projectId = P)

/-- The requests of the callers of `P` in the one run and in the other. -/
abbrev ApartRuns (config : Config) (P : String) (c d : ScopedPool) : Prop :=
  Purged (AlikeTo P) (ofProject P) (Apart config P) c d

theorem drawnReleaseId_congr (e e' : Event Op Op.Reply) (h : AlikeEvents (AlikeTo P) e e') :
    drawnReleaseId e' = drawnReleaseId e := by
  obtain ⟨q, halike⟩ := h
  by_cases hq : q = .sql .listProjects
  · subst hq
    rfl
  · rw [halike.eq hq]

theorem FreshReleaseIds.apart {a a' : Act Outside ScopedRequest} (hfresh : FreshReleaseIds c a)
    (h : ApartRuns config P c d) (hevent : Conf.AlikeEvent? (AlikeTo P) perform c d a a') :
    FreshReleaseIds d a' := by
  refine ⟨hfresh.1.purged drawnReleaseId_congr h hevent, fun e he id hid r hr ↦ ?_⟩
  obtain ⟨r₀, hr₀, hsame⟩ := h.shared.fewer r hr
  rw [Option.mem_def] at he
  rw [Conf.AlikeEvent?, he] at hevent
  generalize hc : c.event? perform a = e₁ at hevent
  cases hevent with
  | some halike =>
    rw [drawnReleaseId_congr _ _ halike] at hid
    exact hsame ▸ hfresh.2 _ hc id hid r₀ hr₀

/-- An action of a run does to the run of the callers of `P` what it should. -/
theorem purges_apart (hwf : Wellformed s) (h : Serving config crates ⟨s, []⟩ c)
    (hpurged : ApartRuns config P c d) (a : Act Outside ScopedRequest) :
    Purges (AlikeTo P) perform (ofProject P) (Apart config P) c d a := by
  rintro i o t q k - hi hk
  obtain ⟨hwf', hthreads⟩ := h.follows_each (D := fun call ↦ scopedDiscipline config call.projectId)
    (fun call ↦ sound_scopedDiscipline config call.projectId) ScopedRequest.follows hwf
  obtain ⟨K, hK, hcode⟩ := (hthreads t (List.mem_of_getElem? hi)).code
  rw [hk] at hcode
  by_cases hP : t.call.projectId = P
  · rw [if_pos (decide_eq_true hP)]
    have hallowed : scopedAllowed config P K q := hP ▸ hcode.1
    exact hpurged.shared.own hwf' hK hallowed (insert_unused h hi hk)
  · rw [if_neg (by simpa using hP)]
    exact hpurged.shared.other hP hwf' hK hcode.1

/-- **Projects are apart**, in every run of requests of scoped callers on well-formed tables,
interleaved as may be.  The callers of any one project are answered as in a run with nobody else
at work, which ends with the same rows of the project; what the other projects had stored before
may be missing there as well. -/
theorem projects_apart {s' : Server} (hwf : Wellformed s) (h : Serving config crates ⟨s, []⟩ c)
    (hstart : Apart config P s s') :
    ∃ d, Serving config crates ⟨s', []⟩ d ∧ c.shared.AgreeOn P d.shared ∧
      List.Forall₂ (fun t t' ↦ t'.call = t.call ∧ t'.code.ended = t.code.ended)
        (c.threads.filter fun t ↦ t.call.projectId = P) d.threads := by
  have hrun : ∃ d, Serving config crates ⟨s', []⟩ d ∧ ApartRuns config P c d := by
    refine h.purge (.start hstart) (fun call hcall ↦ ?_)
      (fun c₁ d₁ a hr _ _ hpurged ↦ purges_apart hwf hr hpurged a)
      fun c₁ d₁ a a' hfresh hpurged _ hevent ↦ hfresh.apart hpurged hevent
    obtain rfl : call.projectId = P := of_decide_eq_true hcall
    exact call.alike
  obtain ⟨d, hd, hpurged⟩ := hrun
  exact ⟨d, hd, hpurged.shared.agree, hpurged.threads.imp fun t t' halike ↦
    ⟨halike.call, halike.code.ended⟩⟩

/-! ## Two projects at work -/

section Sample

/-- An upload of a release of the project by its own key. -/
def scopedUpload (projectId : String) : ScopedRequest where
  req := { method := "POST"
           pathAndQuery := some ("/api/projects/" ++ projectId ++ "/releases")
           body := [.data [1]]
           caller := some ⟨"usr_1", "bob", some projectId⟩ }
  projectId := projectId
  scopedTo := ⟨_, rfl, rfl⟩

/-- What is drawn for the release of the other project. -/
def otherDraw : Outside where
  random d := ⟨List.replicate d.size (.ofNat 1), List.length_replicate⟩

/-- Both projects upload, in turns. -/
def twoUploads : List (Act Outside ScopedRequest) :=
  .spawn (scopedUpload "prj_00000000000000aa") :: .spawn (scopedUpload "prj_00000000000000bb") ::
    (List.replicate 14 [.step 0 {}, .step 1 otherDraw]).flatten

theorem wellformed_twoProjects : Wellformed Server.twoProjects where
  project := by
    intro p hp
    simp only [Server.twoProjects, Table.mem_def, List.mem_cons, List.not_mem_nil, or_false] at hp
    rcases hp with rfl | rfl <;> decide
  user := by
    intro u hu id hid
    have hnone : ∀ u ∈ Server.twoProjects.users.rows, u.projectId = none := by decide
    rw [hnone u hu] at hid
    cases hid
  release r hr := absurd hr (Table.not_mem_empty r)

theorem apart_twoProjects (config : Config) :
    Apart config "prj_00000000000000aa" .twoProjects .oneProject where
  agree := ⟨fun p hp ↦ (oneProject_agreeOn.project p hp).symm, fun _ _ ↦ Iff.rfl⟩
  fewer r hr := absurd hr (Table.not_mem_empty r)
  files _ _ _ := rfl

theorem projects_apart_twoUploads :
    ∃ c ∈ (⟨.twoProjects, []⟩ : ScopedPool).run? perform
        (ScopedRequest.prog ⟨"", "", "", [], ""⟩ .sample) twoUploads,
      c.shared.releases.rows.map ReleaseRow.status = ["ready", "ready"] ∧
      ∃ d : ScopedPool, Serving ⟨"", "", "", [], ""⟩ .sample ⟨.oneProject, []⟩ d ∧
        c.shared.AgreeOn "prj_00000000000000aa" d.shared ∧
        List.Forall₂ (fun t t' ↦ t'.call = t.call ∧ t'.code.ended = t.code.ended)
          (c.threads.filter fun t ↦ t.call.projectId = "prj_00000000000000aa") d.threads := by
  have hadm : (⟨.twoProjects, []⟩ : ScopedPool).Admits perform
      (ScopedRequest.prog ⟨"", "", "", [], ""⟩ .sample) FreshReleaseIds twoUploads := by
    decide +kernel
  have hrun : ((⟨.twoProjects, []⟩ : ScopedPool).run? perform
      (ScopedRequest.prog ⟨"", "", "", [], ""⟩ .sample) twoUploads).map
        (fun c ↦ c.shared.releases.rows.map ReleaseRow.status) = some ["ready", "ready"] := by
    decide +kernel
  obtain ⟨c, hc, hready⟩ := Option.map_eq_some_iff.mp hrun
  exact ⟨c, hc, hready, projects_apart wellformed_twoProjects
    (Reaches.of_run? twoUploads hc hadm) (apart_twoProjects _)⟩

end Sample

end Railyard
