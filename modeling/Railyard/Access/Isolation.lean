import Railyard.Access.Authorisation
import Railyard.Effects.Noninterference

/-!
# Isolation of projects

Two servers that agree on a project, and on nothing else, answer a caller scoped to it alike and
agree on it again afterwards (`project_isolation`).  So nothing such a caller is told depends on
another project, a user or an invite.

The two runs are put side by side with the rules of `Effects.Noninterference`, handler by handler:
reads of what belongs to the project are answered alike (`reads_coupled`), the list of projects is
not, but what is left of it after the filter is (`listProjects_coupled`), and an upload writes the
same rows to both servers (`uploadRelease_coupled`).
-/

set_option autoImplicit false

namespace Railyard

open Effects Prog

/-! ## Agreement on a project -/

/-- Two states agree on what belongs to `P`: the row of the project and those of its releases. -/
structure Server.AgreeOn (P : String) (s s' : Server) : Prop where
  project : ∀ p : ProjectRow, p.id = P → (p ∈ s.projects ↔ p ∈ s'.projects)
  releases : ∀ r : ReleaseRow, r.projectId = P → (r ∈ s.releases ↔ r ∈ s'.releases)

theorem listReleases_reply_congr {P : String} {s s' : Server} (h : s.AgreeOn P s') :
    ((Stmt.listReleases P).exec s).1 = ((Stmt.listReleases P).exec s').1 := by
  have hnodup : ∀ t : Releases, (t.select fun r ↦ r.projectId = P).Nodup := fun t ↦
    (List.Nodup.of_map _ (t.nodup ReleaseRow.id (by simp))).filter _
  have hperm : (s.releases.select fun r ↦ r.projectId = P).Perm
      (s'.releases.select fun r ↦ r.projectId = P) := by
    refine (List.perm_ext_iff_of_nodup (hnodup _) (hnodup _)).mpr fun r ↦ ?_
    simp only [Table.mem_select, decide_eq_true_eq]
    exact and_congr_left fun hr ↦ h.releases r hr
  refine congrArg Except.ok (List.Perm.eq_of_pairwise ?_ (List.pairwise_insertionSort _ _)
    (List.pairwise_insertionSort _ _) ?_)
  · intro a b ha hb hab hba
    rw [List.mem_insertionSort, Table.mem_select] at ha hb
    have hb' := (h.releases b (of_decide_eq_true hb.2)).mpr hb.1
    refine Table.eq_of_key (List.mem_singleton.mpr rfl) ha.1 hb' ?_
    unfold newestFirst at hab hba
    rcases hab with h₁ | ⟨h₁, hid⟩ <;> rcases hba with h₂ | ⟨h₂, hid'⟩
    · omega
    · omega
    · omega
    · exact String.le_antisymm hid' hid
  · exact ((List.perm_insertionSort _ _).trans hperm).trans (List.perm_insertionSort _ _).symm

variable {P : String} {s s' : Server}

theorem projectById_reply_congr (h : s.AgreeOn P s') :
    ((Stmt.projectById P).exec s).1 = ((Stmt.projectById P).exec s').1 :=
  congrArg Except.ok (Table.select_key_congr (by simp) h.project)

/-- A statement that only reads is answered alike in both states if its rows are. -/
theorem perform_read_congr {q : Stmt} (h : (q.exec s).1 = (q.exec s').1) (o : Outside) :
    (perform o (.sql q) s).1 = (perform o (.sql q) s').1 := by
  simp only [perform]
  cases o.fault with
  | some e => rfl
  | none => exact h

/-! ## Uploads, twice -/

/-- The id made of what is drawn for a release is that of none in the table. -/
def FreshRelease (releases : Releases) (o : Outside) : Prop :=
  ∀ r ∈ releases, r.id ≠ "rel_" ++ Encoding.hexEncode (o.random .releaseId).val

/-- The archive's file is there in both states or in neither. -/
def SameFile (path : String) (s s' : Server) : Prop :=
  (s.files path).isSome = (s'.files path).isSome

/-- What two runs of an upload keep: they agree on `P`, whose release is the one under this id. -/
structure Storing (P releaseId : String) (s s' : Server) : Prop where
  agree : s.AgreeOn P s'
  owns : Owns P releaseId s
  owns' : Owns P releaseId s'

theorem setReleaseStatus_agree {id status : String} {error : Option String} {now : ℕ}
    (h : s.AgreeOn P s') :
    ((Stmt.setReleaseStatus id status error now).exec s).2.AgreeOn P
      ((Stmt.setReleaseStatus id status error now).exec s').2 := by
  have hmem : ∀ {s s' : Server}, s.AgreeOn P s' → ∀ r : ReleaseRow, r.projectId = P →
      r ∈ ((Stmt.setReleaseStatus id status error now).exec s).2.releases →
        r ∈ ((Stmt.setReleaseStatus id status error now).exec s').2.releases := by
    intro s s' h r hr hmem
    obtain ⟨r₀, hr₀, he⟩ := mem_releases_setReleaseStatus.mp hmem
    have hr₀P : r₀.projectId = P := by
      rw [← hr, ← he]
      split <;> rfl
    exact mem_releases_setReleaseStatus.mpr ⟨r₀, (h.releases r₀ hr₀P).mp hr₀, he⟩
  have hsymm : s'.AgreeOn P s :=
    ⟨fun p hp ↦ (h.project p hp).symm, fun r hr ↦ (h.releases r hr).symm⟩
  exact ⟨h.project, fun r hr ↦ ⟨hmem h r hr, hmem hsymm r hr⟩⟩

theorem setReleaseStatus_reply_congr {id status : String} {error : Option String} {now : ℕ}
    (h : Storing P id s s') :
    ((Stmt.setReleaseStatus id status error now).exec s).1
      = ((Stmt.setReleaseStatus id status error now).exec s').1 := by
  have hiff : ∀ r : ReleaseRow, r.id = id → (r ∈ s.releases ↔ r ∈ s'.releases) := by
    intro r hid
    constructor
    · exact fun hr ↦ (h.agree.releases r (h.owns r hr hid)).mp hr
    · exact fun hr ↦ (h.agree.releases r (h.owns' r hr hid)).mpr hr
  have hselect := Table.select_key_congr (t := s.releases) (List.mem_singleton.mpr rfl) hiff
  simp only [Stmt.exec, Table.count, List.countP_eq_length_filter]
  exact congrArg (fun l ↦ Except.ok (List.length l)) hselect

theorem Storing.of_not_sql {releaseId : String} (h : Storing P releaseId s s') {q : Op}
    (hq : ∀ st, q ≠ .sql st) (o : Outside) :
    Storing P releaseId (perform o q s).2 (perform o q s').2 := by
  obtain ⟨-, -, hp, hr⟩ := perform_tables (o := o) hq s
  obtain ⟨-, -, hp', hr'⟩ := perform_tables (o := o) hq s'
  refine ⟨⟨?_, ?_⟩, ?_, ?_⟩
  · rw [hp, hp']; exact h.agree.project
  · rw [hr, hr']; exact h.agree.releases
  · rw [Owns, hr]; exact h.owns
  · rw [Owns, hr']; exact h.owns'

theorem Stores.coupled {dir releaseId : String} {verified : Prop} {o : Outside} {q : Op}
    (h : Stores dir releaseId verified q) (hs : Storing P releaseId s s')
    (hfile : verified → SameFile (joinPath dir "archive.tar.gz") s s') :
    (perform o q s).1 = (perform o q s').1 ∧
      Storing P releaseId (perform o q s).2 (perform o q s').2 ∧
      (verified →
        SameFile (joinPath dir "archive.tar.gz") (perform o q s).2 (perform o q s').2) := by
  have howns := (h.sameOutside (o := o) hs.owns).2
  have howns' := (h.sameOutside (o := o) hs.owns').2
  have hset : ∀ {status error now}, q = .sql (.setReleaseStatus releaseId status error now) →
      (perform o q s).1 = (perform o q s').1 ∧ (perform o q s).2.AgreeOn P (perform o q s').2 ∧
        (perform o q s).2.files = s.files ∧ (perform o q s').2.files = s'.files := by
    rintro status error now rfl
    simp only [perform]
    cases o.fault with
    | some e => exact ⟨rfl, hs.agree, rfl, rfl⟩
    | none => exact ⟨setReleaseStatus_reply_congr hs, setReleaseStatus_agree hs.agree, rfl, rfl⟩
  cases h with
  | failed error now =>
    obtain ⟨hreply, hagree, hf, hf'⟩ := hset rfl
    exact ⟨hreply, ⟨hagree, howns, howns'⟩, fun hv ↦ by rw [SameFile, hf, hf']; exact hfile hv⟩
  | ready hv now =>
    obtain ⟨hreply, hagree, hf, hf'⟩ := hset rfl
    exact ⟨hreply, ⟨hagree, howns, howns'⟩, fun hv ↦ by rw [SameFile, hf, hf']; exact hfile hv⟩
  | openFile hv =>
    refine ⟨?_, hs.of_not_sql (by simp) o, fun hv ↦ ?_⟩
    · simp only [perform, FsOp.exec]
      cases o.fault with
      | some e => rfl
      | none => dsimp only; rw [hfile hv]
    · simp only [perform]
      cases o.fault <;> exact hfile hv
  | createFile =>
    refine ⟨?_, hs.of_not_sql (by simp) o, fun hv ↦ ?_⟩
    · simp only [perform]
      cases o.fault <;> rfl
    · simp only [perform]
      cases o.fault with
      | some e => exact hfile hv
      | none => simp [SameFile, FsOp.exec]
  | writeAll data =>
    refine ⟨?_, hs.of_not_sql (by simp) o, fun hv ↦ ?_⟩
    · simp only [perform]
      cases o.fault <;> rfl
    · simp only [perform]
      cases o.fault with
      | some e => exact hfile hv
      | none => simp [SameFile, FsOp.exec]
  | _ =>
    refine ⟨?_, hs.of_not_sql (by simp) o, fun hv ↦ ?_⟩
    · simp only [perform]
      try cases o.fault
      all_goals rfl
    · simp only [perform]
      try cases o.fault
      all_goals exact hfile hv

variable {config : Config} {crates : Crates} {A : Outside → Prop}

/-- What is left of an upload once the archive's file has been created. -/
def archiveRelease (crates : Crates) (dir : String) (req : Request) : Action Unit := do
  receiveBody crates (joinPath dir "archive.tar.gz") req.body req.signedHash
  spawnBlocking (unpackArchive dir)

theorem archiveRelease_doesOk (dir releaseId : String) (req : Request) :
    DoesOk (Stores dir releaseId (Verified crates req.body req.signedHash))
      (fun _ ↦ Verified crates req.body req.signedHash) (archiveRelease crates dir req) :=
  (receiveBody_doesOk req.body req.signedHash).bind fun _ hv ↦
    (unpackArchive_doesOk hv).mono (fun _ h ↦ h) fun _ _ _ _ ↦ hv

theorem storeRelease_eq {projectId dir : String} {release : Release} (req : Request)
    (hdir : releaseDir config projectId release.id = dir) :
    storeRelease config crates projectId release req =
      .op (.fs (.createDirAll dir)) fun
        | .error e => finishRelease projectId release (.error e)
        | .ok () => .op (.fs (.createFile (joinPath dir "archive.tar.gz"))) fun
          | .error e => finishRelease projectId release (.error e)
          | .ok () =>
            (archiveRelease crates dir req).run.bind (finishRelease projectId release) := by
  subst hdir
  refine Prog.op_congr fun r ↦ ?_
  rcases r with e | ⟨⟩
  · rfl
  refine Prog.op_congr fun r ↦ ?_
  rcases r with e | ⟨⟩ <;> rfl

/-- The result of two runs for a caller scoped to `P`. -/
abbrev SameFor (P : String) (r r' : Response) (s s' : Server) : Prop := r = r' ∧ s.AgreeOn P s'

theorem finishRelease_coupled (release : Release) (e : Error) :
    Coupled perform A (Storing P release.id) (finishRelease P release (.error e))
      (finishRelease P release (.error e)) (SameFor P) := by
  have hnot : ∀ a : Unit, (.error e : Except Error Unit) = .ok a → False := fun _ h ↦ nomatch h
  refine ((finishRelease_does "" P release hnot).coupled fun o q s s' hq _ hs ↦ ?_).mono
    (fun _ _ h ↦ h) fun _ _ _ _ h ↦ ⟨h.1, h.2.2.agree⟩
  obtain ⟨hreply, hstoring, -⟩ := hq.coupled hs (fun h ↦ h.elim)
  exact ⟨hreply, hstoring⟩

theorem storeRelease_coupled (release : Release) (req : Request) :
    Coupled perform A (Storing P release.id) (storeRelease config crates P release req)
      (storeRelease config crates P release req) (SameFor P) := by
  obtain ⟨dir, hdir⟩ : ∃ dir, releaseDir config P release.id = dir := ⟨_, rfl⟩
  rw [storeRelease_eq req hdir]
  refine .op_eq (Storing P release.id) (fun o s s' _ hs ↦ ?_) fun r ↦ ?_
  · have hop : Stores dir release.id False (.fs (.createDirAll dir)) := .createDir
    obtain ⟨hreply, hstoring, -⟩ := hop.coupled hs (fun h ↦ h.elim)
    exact ⟨hreply, hstoring⟩
  rcases r with e | ⟨⟩
  · exact finishRelease_coupled release e
  -- once the file has been created, it is there in both runs
  refine .op (fun r r' s s' ↦ r = r' ∧ Storing P release.id s s' ∧
    (r = .ok () → SameFile (joinPath dir "archive.tar.gz") s s')) (fun o s s' _ hs ↦ ?_)
    fun r r' ↦ ?_
  · have hop : Stores dir release.id False (.fs (.createFile (joinPath dir "archive.tar.gz"))) :=
      .createFile
    obtain ⟨hreply, hstoring, -⟩ := hop.coupled hs (fun h ↦ h.elim)
    refine ⟨hreply, hstoring, fun hok ↦ ?_⟩
    simp only [perform] at hok ⊢
    cases hf : o.fault with
    | some e => rw [hf] at hok; cases hok
    | none => simp [SameFile, FsOp.exec]
  rintro w hw s s' ⟨rfl, hs, hfile⟩
  rcases r with e | ⟨⟩
  · exact finishRelease_coupled release e w hw s s' hs
  have hdoes : ((archiveRelease crates dir req).run.bind (finishRelease P release)).Does
      (Stores dir release.id (Verified crates req.body req.signedHash)) fun _ ↦ True :=
    Does.bind (archiveRelease_doesOk dir release.id req) fun _ hv ↦
      finishRelease_does dir P release hv
  refine ((hdoes.coupled (P := fun s s' ↦ Storing P release.id s s' ∧
    (Verified crates req.body req.signedHash → SameFile (joinPath dir "archive.tar.gz") s s'))
    fun o q s s' hq _ hs ↦ hq.coupled hs.1 hs.2).mono
    (fun _ _ h ↦ h) fun _ _ _ _ h ↦ ⟨h.1, h.2.2.1.agree⟩) w hw s s' ⟨hs, fun _ ↦ hfile rfl⟩

/-! ## The other requests of a scoped caller -/

/-- An operation that only reads what belongs to `P`. -/
def ReadsOwn (P : String) (q : Op) : Prop :=
  q = .sql (.projectById P) ∨ q = .sql (.listReleases P)

theorem reads_coupled {p : Task Response} (h : p.Does (ReadsOwn P) fun _ ↦ True) :
    Coupled perform A (Server.AgreeOn P) p p (SameFor P) := by
  refine (h.coupled fun o q s s' hq _ hs ↦ ?_).mono (fun _ _ h ↦ h) fun _ _ _ _ h ↦ ⟨h.1, h.2.2⟩
  rcases hq with rfl | rfl
  · rw [perform_read rfl, perform_read rfl]
    exact ⟨perform_read_congr (projectById_reply_congr hs) o, hs⟩
  · rw [perform_read rfl, perform_read rfl]
    exact ⟨perform_read_congr (listReleases_reply_congr hs) o, hs⟩

theorem listProjects_coupled {req : Request} (hreq : req.ScopedTo P) :
    Coupled perform A (Server.AgreeOn P) (listProjects req) (listProjects req) (SameFor P) := by
  obtain ⟨caller, hcaller, hscope⟩ := hreq
  rw [listProjects, Request.callerExtension, hcaller, extract_ok, Db.listProjects_run]
  -- the replies differ, but not in what is left of them
  refine .op (fun r r' s s' ↦ s.AgreeOn P s' ∧ ((∃ e, r = .error e ∧ r' = .error e) ∨
    ∃ ps ps' : List ProjectRow, r = .ok ps ∧ r' = .ok ps' ∧
      (ps.filter fun p ↦ p.id = P) = ps'.filter fun p ↦ p.id = P)) (fun o s s' _ hs ↦ ?_)
    fun r r' ↦ ?_
  · rw [perform_read rfl, perform_read rfl]
    refine ⟨hs, ?_⟩
    simp only [perform]
    cases o.fault with
    | some e => exact .inl ⟨e, rfl, rfl⟩
    | none =>
      refine .inr ⟨_, _, rfl, rfl, ?_⟩
      rw [Table.filter_insertionSort_key (by simp), Table.filter_insertionSort_key (by simp)]
      exact Table.select_key_congr (by simp) hs.project
  · rintro w hw s s' ⟨hs, ⟨e, rfl, rfl⟩ | ⟨ps, ps', rfl, rfl, hfilter⟩⟩
    · exact ⟨rfl, rfl, hs⟩
    · refine ⟨rfl, ?_, hs⟩
      simp only [hscope]
      exact congrArg (fun ps ↦ Response.json (.projects ps)) hfilter

/-- Up to the row of the release, the tables of the two states are the ones at the start. -/
def Starting (P : String) (t t' : Releases) (s s' : Server) : Prop :=
  s.AgreeOn P s' ∧ s.releases = t ∧ s'.releases = t'

/-- A release inserted under a new id is stored alike in both states. -/
theorem insertRelease_coupled {id status : String} {message : Option String} {now : ℕ}
    (hs : s.AgreeOn P s') (hid : ∀ r ∈ s.releases, r.id ≠ id)
    (hid' : ∀ r ∈ s'.releases, r.id ≠ id) :
    ((Stmt.insertRelease id P status message now).exec s).1 = .ok 1 ∧
      ((Stmt.insertRelease id P status message now).exec s').1 = .ok 1 ∧
      Storing P id ((Stmt.insertRelease id P status message now).exec s).2
        ((Stmt.insertRelease id P status message now).exec s').2 := by
  obtain ⟨⟨r, hr, he⟩, -⟩ | ⟨-, hok, hmem⟩ := insertRelease_cases s id P status message now
  · exact absurd he (hid r hr)
  obtain ⟨⟨r, hr, he⟩, -⟩ | ⟨-, hok', hmem'⟩ := insertRelease_cases s' id P status message now
  · exact absurd he (hid' r hr)
  refine ⟨hok, hok', ⟨hs.project, fun r hr ↦ ?_⟩, fun r hr he ↦ ?_, fun r hr he ↦ ?_⟩
  · rw [hmem, hmem']
    exact or_congr_left (hs.releases r hr)
  · rcases (hmem r).mp hr with hr | rfl
    · exact absurd he (hid r hr)
    · rfl
  · rcases (hmem' r).mp hr with hr | rfl
    · exact absurd he (hid' r hr)
    · rfl

theorem uploadRelease_coupled {t t' : Releases} (message : Option String) (req : Request) :
    Coupled perform (fun o ↦ FreshRelease t o ∧ FreshRelease t' o) (Starting P t t')
      (uploadRelease config crates P message req) (uploadRelease config crates P message req)
      (SameFor P) := by
  refine .op_eq (Starting P t t') (fun o s s' _ hs ↦ ?_) fun r ↦ ?_
  · rw [perform_read rfl, perform_read rfl]
    exact ⟨perform_read_congr (projectById_reply_congr hs.1) o, hs⟩
  rcases r with e | _ | ⟨p, ps⟩
  · exact .ret fun s s' hs ↦ ⟨rfl, hs.1⟩
  · exact .ret fun s s' hs ↦ ⟨rfl, hs.1⟩
  refine .op_eq (Starting P t t') (fun o s s' _ hs ↦ ⟨rfl, hs⟩) fun now ↦ ?_
  refine .op (fun bs bs' s s' ↦ bs = bs' ∧ Starting P t t' s s' ∧
    ∀ r : ReleaseRow, (r ∈ t ∨ r ∈ t') → r.id ≠ "rel_" ++ Encoding.hexEncode bs.val)
    (fun o s s' ho hs ↦ ⟨rfl, hs, fun r hr ↦ hr.elim (ho.1 r) (ho.2 r)⟩) fun bs bs' ↦ ?_
  rintro w hw s s' ⟨rfl, hs, hnew⟩
  -- both inserts go through or both fail
  refine (Coupled.op (A := fun o ↦ FreshRelease t o ∧ FreshRelease t' o) (P := Starting P t t')
    (fun r r' s s' ↦
    (∃ e, r = .error e ∧ r' = .error e ∧ s.AgreeOn P s') ∨
      r = .ok 1 ∧ r' = .ok 1 ∧ Storing P ("rel_" ++ Encoding.hexEncode bs.val) s s')
    (fun o s s' _ hs ↦ ?_) fun r r' ↦ ?_) w hw s s' hs
  · obtain ⟨hagree, rfl, rfl⟩ := hs
    simp only [perform]
    cases o.fault with
    | some e => exact .inl ⟨e, rfl, rfl, hagree⟩
    | none => exact .inr (insertRelease_coupled hagree (fun r hr ↦ hnew r (.inl hr))
        fun r hr ↦ hnew r (.inr hr))
  · rintro w hw s s' (⟨e, rfl, rfl, hagree⟩ | ⟨rfl, rfl, hstoring⟩)
    · exact ⟨rfl, rfl, hagree⟩
    · exact storeRelease_coupled (A := fun o ↦ FreshRelease t o ∧ FreshRelease t' o) _ req w hw s s'
        hstoring

/-! ## The result -/

theorem protected_coupled {req₀ req : Request} {handler : Handler} {t t' : Releases}
    (h : (protectedRoutes config crates).find req₀ = some handler) (hreq : req.ScopedTo P) :
    Coupled perform (fun o ↦ FreshRelease t o ∧ FreshRelease t' o) (Starting P t t')
      (handler req) (handler req) (SameFor P) := by
  obtain ⟨next, hnext, rfl⟩ | hstream := protectedRoutes_cases h
  · obtain ⟨response, hret⟩ | ⟨body, hret⟩ := verifyBodyHash_cases crates next req
    · rw [hret]
      exact .ret fun s s' hs ↦ ⟨rfl, hs.1⟩
    rw [hret]
    have hreq' : Request.ScopedTo { req with body := body } P := hreq
    rcases buffered_scoped hnext hreq' with rfl | hdoes
    · exact (listProjects_coupled hreq').mono (fun s s' hs ↦ hs.1) fun _ _ _ _ h ↦ h
    · exact (reads_coupled (hdoes.mono (fun q hq ↦ .inl hq) fun _ h ↦ h)).mono
        (fun s s' hs ↦ hs.1) fun _ _ _ _ h ↦ h
  · cases hstream with
    | methodNotAllowed => exact .ret fun s s' hs ↦ ⟨rfl, hs.1⟩
    | listReleases raw =>
      exact (reads_coupled (listReleases_scoped hreq raw)).mono (fun s s' hs ↦ hs.1)
        fun _ _ _ _ h ↦ h
    | createRelease raw =>
      obtain ⟨response, hret⟩ | ⟨message, hret⟩ := createRelease_scoped hreq raw
      · rw [hret]
        exact .ret fun s s' hs ↦ ⟨rfl, hs.1⟩
      · rw [hret]
        exact uploadRelease_coupled message req

/-- **A caller scoped to `P` cannot tell two servers apart that agree on `P`**, whatever their
other rows, files and nonces are: the answers are the same, and the two servers agree on `P`
again. -/
theorem project_isolation (config : Config) (crates : Crates) {req : Request} {P : String}
    (hreq : req.ScopedTo P) {s s' : Server} (hagree : s.AgreeOn P s') {w : ℕ → Outside}
    (hfresh : ∀ n, FreshRelease s.releases (w n) ∧ FreshRelease s'.releases (w n)) :
    (((protectedRoutes config crates).serve req).run perform w s).1
        = (((protectedRoutes config crates).serve req).run perform w s').1 ∧
      (((protectedRoutes config crates).serve req).run perform w s).2.AgreeOn P
        (((protectedRoutes config crates).serve req).run perform w s').2 := by
  rw [Router.serve]
  cases hfind : (protectedRoutes config crates).find req with
  | none => exact ⟨rfl, hagree⟩
  | some handler =>
    obtain ⟨-, hresponse, hagree'⟩ :=
      protected_coupled hfind hreq w hfresh s s' ⟨hagree, rfl, rfl⟩
    dsimp only
    rw [run_bind_ret, run_bind_ret, hresponse]
    exact ⟨rfl, hagree'⟩

/-- A server with one project. -/
def Server.oneProject : Server :=
  { Server.fresh with projects := ⟨[⟨"prj_00000000000000aa", "web", 0⟩], by decide⟩ }

/-- The same server with another project and an admin. -/
def Server.twoProjects : Server :=
  { Server.fresh with
    users := Server.invited.users
    projects := ⟨[⟨"prj_00000000000000bb", "api", 0⟩, ⟨"prj_00000000000000aa", "web", 0⟩],
      by decide⟩ }

/-- A caller scoped to the one project uploads a release of the other. -/
def foreignUpload : Request where
  method := "POST"
  pathAndQuery := some "/api/projects/prj_00000000000000bb/releases"
  caller := some ⟨"usr_1", "bob", some "prj_00000000000000aa"⟩

theorem oneProject_agreeOn :
    Server.oneProject.AgreeOn "prj_00000000000000aa" Server.twoProjects := by
  refine ⟨fun p hp ↦ ?_, fun r _ ↦ Iff.rfl⟩
  simp only [Server.oneProject, Server.twoProjects, Table.mem_def, List.mem_cons,
    List.not_mem_nil, or_false]
  constructor
  · exact .inr
  · rintro (rfl | h)
    · exact absurd hp (by decide)
    · exact h

theorem project_isolation_foreignUpload :
    (((protectedRoutes ⟨"", "", "", [], ""⟩ .sample).serve foreignUpload).run perform (fun _ ↦ {})
        Server.oneProject).1
      = (((protectedRoutes ⟨"", "", "", [], ""⟩ .sample).serve foreignUpload).run perform
        (fun _ ↦ {}) Server.twoProjects).1 :=
  (project_isolation ⟨"", "", "", [], ""⟩ .sample ⟨_, rfl, rfl⟩ oneProject_agreeOn fun _ ↦
    ⟨fun r hr ↦ absurd hr (Table.not_mem_empty r),
      fun r hr ↦ absurd hr (Table.not_mem_empty r)⟩).1

end Railyard
