import Railyard.Server.Restart
import Railyard.Storage.Releases

/-!
# Releases on a server that is restarted

Nothing goes on with an upload that a restart has cut off, and nothing looks for its release when
the server starts.  So what is `unpacking` at a restart stays so (`unpacking_stays`), and all else
about the rows is as without restarts: an upload asks for the tables and for which files are there,
and a restart keeps both (`Uploading.purge`).
-/

set_option autoImplicit false

namespace Railyard

open Effects Prog

variable {config : Config} {crates : Crates} {s : Server}

/-- A server that takes uploads and is restarted: its state, and the uploads so far. -/
abbrev ReleaseHost := Host Server ReleaseRequest Op Op.Reply Response

/-- Uploads on a server that is restarted. -/
abbrev Uploading (config : Config) (crates : Crates) (h h' : ReleaseHost) : Prop :=
  Host.Runs perform (ReleaseRequest.prog config crates) Server.boot (fun _ _ ↦ True) h h'

variable {h h' : ReleaseHost} {c d : ReleasePool}

/-! ## What uploads see -/

/-- The two states have the same tables, and the same files are there. -/
structure SameTables (s s' : Server) : Prop where
  users : s.users = s'.users
  invites : s.invites = s'.invites
  projects : s.projects = s'.projects
  releases : s.releases = s'.releases
  files : ∀ path, (s.files path).isSome = (s'.files path).isSome

theorem SameTables.refl (s : Server) : SameTables s s := ⟨rfl, rfl, rfl, rfl, fun _ ↦ rfl⟩

theorem SameTables.boot {s s' : Server} (hs : SameTables s s') (written : String → ℕ) :
    SameTables (s.boot written) s' where
  users := hs.users
  invites := hs.invites
  projects := hs.projects
  releases := hs.releases
  files path := by
    rw [← hs.files path]
    exact Option.isSome_map

/-- The operation does not look at the replay map. -/
def Op.Unlocked (q : Op) : Prop := ∀ window now nonce, q ≠ .recordNonce window now nonce

theorem SameTables.sql {s s' : Server} (hs : SameTables s s') (st : Stmt) :
    (st.exec s).1 = (st.exec s').1 ∧ SameTables (st.exec s).2 (st.exec s').2 := by
  obtain ⟨users, invites, projects, releases, seenNonces, files, unpacked⟩ := s
  obtain ⟨users', invites', projects', releases', seenNonces', files', unpacked'⟩ := s'
  obtain ⟨husers, hinvites, hprojects, hreleases, hfiles⟩ := hs
  obtain rfl : users = users' := husers
  obtain rfl : invites = invites' := hinvites
  obtain rfl : projects = projects' := hprojects
  obtain rfl : releases = releases' := hreleases
  cases st <;> exact ⟨rfl, rfl, rfl, rfl, rfl, hfiles⟩

theorem SameTables.fs {s s' : Server} (hs : SameTables s s') (f : FsOp) :
    (f.exec s).1 = (f.exec s').1 ∧ SameTables (f.exec s).2 (f.exec s').2 ∧
      SameTables (f.failed s) (f.failed s') := by
  have hupdate : ∀ path bytes bytes' p, (Function.update s.files path (some bytes) p).isSome
      = (Function.update s'.files path (some bytes') p).isSome := by
    intro path bytes bytes' p
    by_cases hp : p = path
    · rw [hp, Function.update_self, Function.update_self]
      rfl
    · rw [Function.update_of_ne hp, Function.update_of_ne hp]
      exact hs.files p
  obtain ⟨husers, hinvites, hprojects, hreleases, hfiles⟩ := hs
  have hsame : SameTables s s' := ⟨husers, hinvites, hprojects, hreleases, hfiles⟩
  cases f with
  | createDirAll | flush => exact ⟨rfl, hsame, hsame⟩
  | createFile path =>
    exact ⟨rfl, ⟨husers, hinvites, hprojects, hreleases, hupdate path _ _⟩, hsame⟩
  | writeAll path data =>
    exact ⟨rfl, ⟨husers, hinvites, hprojects, hreleases, hupdate path _ _⟩, hsame⟩
  | openFile path =>
    refine ⟨?_, hsame, hsame⟩
    simp only [FsOp.exec, hfiles path]
  | unpack archive dir =>
    exact ⟨rfl, ⟨husers, hinvites, hprojects, hreleases, hfiles⟩,
      ⟨husers, hinvites, hprojects, hreleases, hfiles⟩⟩

/-- Whoever does not look at the replay map is told the same. -/
theorem SameTables.perform {s s' : Server} (hs : SameTables s s') {q : Op} (hq : q.Unlocked)
    (o : Outside) : (perform o q s).1 = (perform o q s').1 ∧
      SameTables (perform o q s).2 (perform o q s').2 := by
  cases q with
  | recordNonce window now nonce => exact absurd rfl (hq window now nonce)
  | sql st =>
    simp only [Railyard.perform]
    cases o.fault with
    | some e => exact ⟨rfl, hs⟩
    | none => exact hs.sql st
  | fs f =>
    simp only [Railyard.perform]
    cases o.fault with
    | some e => exact ⟨rfl, (hs.fs f).2.2⟩
    | none => exact ⟨(hs.fs f).1, (hs.fs f).2.1⟩
  | joinBlocking =>
    simp only [Railyard.perform]
    cases o.fault <;> exact ⟨rfl, hs⟩
  | _ => exact ⟨rfl, hs⟩

/-- No upload looks at the replay map. -/
theorem createRelease_unlocked (raw : String) (req : Request) :
    (createRelease config crates raw req).Does Op.Unlocked fun _ ↦ True := by
  obtain ⟨response, hret⟩ | ⟨caller, projectId, message, -, -, hupload⟩ :=
    createRelease_cases config crates raw req
  · rw [hret]
    exact trivial
  rw [hupload]
  refine uploadRelease_does (fun _ _ _ ↦ Op.noConfusion) (fun _ _ _ ↦ Op.noConfusion)
    (fun _ _ _ ↦ Op.noConfusion) (fun _ _ _ _ _ ↦ Op.noConfusion) fun dir id verified q hq ↦ ?_
  cases hq <;> exact fun _ _ _ ↦ Op.noConfusion

/-- The uploads of `c` and of `d` are the same, and so are the tables. -/
abbrev SameUploads (c d : ReleasePool) : Prop :=
  Purged (fun _ r r' ↦ r = r') (fun _ ↦ true) SameTables c d

/-- Uploads on a server that is restarted are uploads on one that is not. -/
theorem Uploading.purge (hfresh : Uploading config crates (.fresh s) h)
    (hr : Uploading config crates h h') (hstart : SameUploads h.conf d) :
    ∃ d', Reaches perform (ReleaseRequest.prog config crates) (fun _ _ ↦ True) d d' ∧
      SameUploads h'.conf d' := by
  refine Host.Runs.purge hr hstart (fun _ _ ↦ alike_eq _) (fun b s s' hs ↦ hs.boot b) ?_
    fun _ _ _ _ _ _ _ _ ↦ trivial
  rintro h₁ d₁ a hr₁ - - hpurged i o t q k - hi hk
  rw [if_pos rfl]
  have hafter := Host.Runs.after (Host.Runs.trans hfresh hr₁) t (List.mem_of_getElem? hi)
  rw [hk] at hafter
  have hunlocked := ((createRelease_unlocked _ _).after hafter).2.1
  exact hpurged.shared.perform hunlocked o

theorem SameUploads.releases (h : SameUploads c d) : d.shared.releases = c.shared.releases :=
  h.shared.releases.symm

theorem SameUploads.threads_same (h : SameUploads c d) : d.threads = c.threads := by
  rw [Purged.threads_eq h]
  exact List.filter_eq_self.mpr fun _ _ ↦ rfl

/-! ## Outcomes -/

theorem ready_ne_unpacking : ReleaseStatus.ready.asStr ≠ ReleaseStatus.unpacking.asStr := by decide

theorem failed_ne_unpacking : ReleaseStatus.failed.asStr ≠ ReleaseStatus.unpacking.asStr := by
  decide

/-- An outcome that was stored is in the row. -/
theorem stored_settles (h : Uploads config crates s c) {i : ℕ} {id status : String}
    {error : Option String} {now n : ℕ}
    (hd : c.Did i ⟨.sql (.setReleaseStatus id status error now), .ok n⟩) :
    ∀ r ∈ c.shared.releases, r.id = id → r.status ≠ ReleaseStatus.unpacking.asStr := by
  have houtcome : ∀ unpacked, (outcomeOf unpacked).1 ≠ ReleaseStatus.unpacking.asStr := by
    intro unpacked
    cases unpacked with
    | ok a => exact ready_ne_unpacking
    | error e => exact failed_ne_unpacking
  let e : Event Op Op.Reply := ⟨.sql (.setReleaseStatus id status error now), .ok n⟩
  have hboth := h.did (φ := fun c _ e' ↦ e' = e → (∃ r ∈ c.shared.releases, r.id = id) ∧
    ∀ r ∈ c.shared.releases, r.id = id → r.status ≠ ReleaseStatus.unpacking.asStr) ?_ ?_ i e hd rfl
  · exact hboth.2
  · rintro c₁ c₂ a j e' hr - hs - hφ he
    obtain ⟨⟨r, hr₁, hid⟩, hsettled⟩ := hφ he
    obtain ⟨r', hr', hprogress, -⟩ := (release_step hr hs).1 r hr₁
    refine ⟨⟨r', hr', hprogress.id.trans hid⟩, fun r'' hr'' hid'' ↦ ?_⟩
    obtain rfl : r'' = r' := Table.eq_of_key (List.mem_singleton_self _) hr'' hr'
      (hid''.trans (hprogress.id.trans hid).symm)
    rcases hprogress.status with heq | ⟨hunpacking, -⟩
    · rw [heq]
      exact hsettled r hr₁ hid
    · exact absurd hunpacking (hsettled r hr₁ hid)
  · rintro c₁ c₂ j o t q k hr - hj hk rfl he
    obtain ⟨rfl, hreply⟩ := eventOf_eq he
    obtain ⟨⟨e₀, hinsert, hinserts⟩, -, unpacked, hstatus⟩ := outcome_pending hr hj hk
    obtain ⟨⟨r, hrow, hid⟩, -⟩ := inserted_kept hr hinsert hinserts
    obtain ⟨hexec, -⟩ := perform_sql_eq_ok hreply
    rw [hexec]
    refine ⟨⟨_, mem_releases_setReleaseStatus.mpr ⟨r, hrow, rfl⟩, ?_⟩, fun r' hr' hid' ↦ ?_⟩
    · split <;> exact hid
    · obtain ⟨r₀, -, hset⟩ := mem_releases_setReleaseStatus.mp hr'
      split at hset
      · rw [← hset, (Prod.mk.inj hstatus).1]
        exact houtcome unpacked
      · rename_i hne
        exact absurd (hset ▸ hid') hne

/-- What is unpacking where all uploads were cut off stays as it is. -/
theorem unpacking_stays (hfresh : Uploading config crates (.fresh s) h)
    (hdead : h.dead = h.conf.threads.length) (hr : Uploading config crates h h') {r : ReleaseRow}
    (hrow : r ∈ h.conf.shared.releases) (hstatus : r.status = ReleaseStatus.unpacking.asStr) :
    r ∈ h'.conf.shared.releases := by
  obtain ⟨d, hd, hsame⟩ := Uploading.purge .refl hfresh (.start (.refl s))
  obtain ⟨d', hd', hsame'⟩ := Uploading.purge hfresh hr hsame
  rw [← hsame.releases] at hrow
  rw [← hsame'.releases]
  obtain ⟨r', hr', hprogress, hstart⟩ := release_progresses hd hd' r hrow
  rcases hprogress.status with rfl | ⟨-, houtcome⟩
  · exact hr'
  obtain ⟨i, ⟨n, hinsert⟩, -⟩ | hold := (row_origin hd r hrow).symm
  rotate_left
  · exact hstart hold ▸ hr'
  -- the row was made by an upload that was cut off, so nothing was stored since
  obtain ⟨j, ⟨n', hinsert'⟩, ⟨hstatus', -⟩ | ⟨now, k, hset⟩⟩ | hold' :=
    (row_origin (hd.trans hd') r' hr').symm
  · rw [hstatus'] at houtcome
    exact houtcome.elim (absurd · (Ne.symm ready_ne_unpacking))
      (absurd · (Ne.symm failed_ne_unpacking))
  · rw [hprogress.id, hprogress.projectId, hprogress.message, hprogress.createdAt] at hinsert'
    obtain ⟨rfl, -⟩ := insert_unique (hd.trans hd') (hinsert.reaches hd') hinsert'
      ⟨_, _, _, _, _, rfl⟩ ⟨_, _, _, _, _, rfl⟩
    obtain ⟨t, hi, -⟩ := hinsert
    rw [hsame.threads_same] at hi
    have hlt : i < h.dead := hdead ▸ (List.getElem?_eq_some_iff.mp hi).1
    have hi' := (Host.Runs.cut hr hi hlt).1
    obtain ⟨t', ht', he⟩ := hset
    rw [hsame'.threads_same, hi'] at ht'
    cases ht'
    have hset₀ : d.Did i ⟨.sql (.setReleaseStatus r'.id r'.status r'.error now), .ok k⟩ :=
      ⟨t, by rw [hsame.threads_same, hi], he⟩
    exact absurd hstatus (stored_settles hd hset₀ r hrow hprogress.id.symm)
  · obtain ⟨hlate, hnever⟩ := inserted_kept hd hinsert ⟨_, _, _, _, _, rfl⟩
    exact absurd hprogress.id (hnever r' hold')

/-- **Releases across restarts**, in every run of uploads on whatever the server holds.  No row is
deleted or changes what it is of, and its status changes at most once, to an outcome.  When the
server is restarted, a release that is unpacking stays so for good, with no error, and no upload of
another process touches it. -/
theorem releases_across_restarts (hfresh : Uploading config crates (.fresh s) h) :
    (∀ h', Uploading config crates h h' → ∀ r ∈ h.conf.shared.releases,
      ∃ r' ∈ h'.conf.shared.releases, r.Progresses r') ∧
    ∀ written h', Uploading config crates (h.restart Server.boot written) h' →
      ∀ r ∈ h.conf.shared.releases, r.status = ReleaseStatus.unpacking.asStr →
        r ∈ h'.conf.shared.releases := by
  refine ⟨fun h' hr r hrow ↦ ?_, fun written h' hr r hrow hstatus ↦ ?_⟩
  · obtain ⟨d, hd, hsame⟩ := Uploading.purge .refl hfresh (.start (.refl s))
    obtain ⟨d', hd', hsame'⟩ := Uploading.purge hfresh hr hsame
    rw [← hsame.releases] at hrow
    rw [← hsame'.releases]
    obtain ⟨r', hr', hprogress, -⟩ := release_progresses hd hd' r hrow
    exact ⟨r', hr', hprogress⟩
  · have hrestarted : Uploading config crates (.fresh s) (h.restart Server.boot written) :=
      Host.Runs.restart hfresh written
    exact unpacking_stays hrestarted rfl hr hrow hstatus

/-- The server is restarted when the row of the upload is there. -/
def uploadCutOff : List (HostAct Outside (String → ℕ) ReleaseRequest) :=
  (.spawn ownUpload :: List.replicate 6 (.step 0 {})).map .act

theorem releases_across_restarts_uploadCutOff :
    ∃ h ∈ (Host.fresh .oneProject : ReleaseHost).run? perform
        (ReleaseRequest.prog ⟨"", "", "", [], ""⟩ .sample) Server.boot uploadCutOff,
      ∃ r ∈ h.conf.shared.releases, r.status = ReleaseStatus.unpacking.asStr ∧
        ∀ h', Uploading ⟨"", "", "", [], ""⟩ .sample (h.restart Server.boot fun _ ↦ 0) h' →
          r ∈ h'.conf.shared.releases := by
  have hadm : (Host.fresh .oneProject : ReleaseHost).Admits perform
      (ReleaseRequest.prog ⟨"", "", "", [], ""⟩ .sample) Server.boot (fun _ _ ↦ True)
      uploadCutOff := by decide +kernel
  have hrun : ∃ h ∈ (Host.fresh .oneProject : ReleaseHost).run? perform
      (ReleaseRequest.prog ⟨"", "", "", [], ""⟩ .sample) Server.boot uploadCutOff,
        ∃ r ∈ h.conf.shared.releases.rows, r.status = ReleaseStatus.unpacking.asStr := by
    decide +kernel
  obtain ⟨h, hh, r, hr, hstatus⟩ := hrun
  refine ⟨h, hh, r, hr, hstatus, fun h' hlater ↦ ?_⟩
  exact (releases_across_restarts (Host.Runs.of_run? uploadCutOff hh hadm)).2 _ h' hlater r hr
    hstatus

end Railyard
