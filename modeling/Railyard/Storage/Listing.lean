import Railyard.Storage.Conflicts
import Railyard.Storage.Releases

/-!
# The order of the releases

`listReleases` sorts by the second a release was created in, and within one second by the id, which
is drawn at random.  That is the order in which the rows were inserted as long as the clock readings
and the ids that the uploads drew say so.

* `insertions_run`: the rows of the table are what a run has inserted, in this order.
* `insertionSort_eq_reverse_iff`: when sorting reverses a list.
* `listReleases_reverse_iff`: when releases are listed newest first.
-/

set_option autoImplicit false

namespace Railyard

open Effects Prog

/-! ## What was inserted -/

/-- What stays of a row from its insertion on. -/
def ReleaseRow.insertion (r : ReleaseRow) : Insertion := ⟨r.id, r.projectId, r.createdAt⟩

/-- What stays of a release from its insertion on. -/
def Release.insertion (r : Release) : Insertion := ⟨r.id, r.projectId, r.createdAt⟩

/-- An operation adds to the rows, at their end, the one it inserts, and changes no row in what it
was inserted as. -/
theorem perform_insertion (o : Outside) (q : Op) (s : Server) :
    (perform o q s).2.releases.rows.map ReleaseRow.insertion
      = s.releases.rows.map ReleaseRow.insertion ++ (insertionOf (eventOf o q s)).toList := by
  by_cases hq : ∃ st, q = .sql st
  · obtain ⟨st, rfl⟩ := hq
    cases hf : o.fault with
    | some e =>
      have hnone : insertionOf (eventOf o (.sql st) s) = none := by
        rw [eventOf, perform_sql_fault hf]
        cases st <;> rfl
      rw [hnone, perform_sql_fault hf]
      exact (List.append_nil _).symm
    | none =>
      rw [eventOf, perform_sql_ok hf]
      cases st with
      | insertRelease id projectId status message now =>
        simp only [Stmt.exec]
        cases hinsert : s.releases.insert? ⟨id, projectId, status, message, none, now, now⟩ with
        | none => exact (List.append_nil _).symm
        | some t =>
          simp only [inserted]
          rw [(Table.insert?_eq_some hinsert).1, List.map_append]
          rfl
      | setReleaseStatus id status error now =>
        refine Eq.trans ?_ (List.append_nil _).symm
        simp only [Stmt.exec, Table.update, List.map_map]
        refine List.map_congr_left fun r _ ↦ ?_
        rw [Function.comp_apply]
        split <;> rfl
      | _ => exact (List.append_nil _).symm
  · have hnone : insertionOf (eventOf o q s) = none := by
      cases q with
      | sql st => exact absurd ⟨st, rfl⟩ hq
      | _ => rfl
    rw [hnone, (perform_tables (fun st h ↦ hq ⟨st, h⟩) s).2.2.2]
    exact (List.append_nil _).symm

/-- The releases of a run of uploads, in the order in which their rows were inserted. -/
def insertions (config : Config) (crates : Crates) (c : ReleasePool)
    (as : List (Act Outside ReleaseRequest)) : List Insertion :=
  (c.history perform (ReleaseRequest.prog config crates) as).filterMap insertionOf

theorem insertions_run {config : Config} {crates : Crates} {c c' : ReleasePool}
    {as : List (Act Outside ReleaseRequest)}
    (h : c.run? perform (ReleaseRequest.prog config crates) as = some c') :
    c'.shared.releases.rows.map ReleaseRow.insertion
      = c.shared.releases.rows.map ReleaseRow.insertion ++ insertions config crates c as :=
  Conf.record_run? (f := fun s ↦ s.releases.rows.map ReleaseRow.insertion) perform_insertion
    as h

/-! ## Sorting -/

/-- In the order of a sort by time, and by id within one second. -/
def Insertion.Before (x y : Insertion) : Prop :=
  x.createdAt < y.createdAt ∨ x.createdAt = y.createdAt ∧ x.id ≤ y.id

theorem newestFirst_iff {a b : ReleaseRow} :
    newestFirst a b ↔ b.insertion.Before a.insertion := by
  simp only [newestFirst, Insertion.Before, ReleaseRow.insertion, eq_comm (a := a.createdAt)]

/-- Sorting by an order reverses a list exactly if the list is in the opposite order.  What the
items are ordered by may be read off their images under `f`. -/
theorem map_insertionSort_eq_reverse_iff {α β : Type} {r : α → α → Prop} [DecidableRel r]
    [Std.Total r] [IsTrans α r] {r' : β → β → Prop} {f : α → β}
    (hr : ∀ a b, r a b ↔ r' (f b) (f a)) {l : List α}
    (hanti : ∀ a ∈ l, ∀ b ∈ l, r a b → r b a → a = b) :
    (l.insertionSort r).map f = (l.map f).reverse ↔ (l.map f).Pairwise r' := by
  constructor
  · intro hsort
    have hsorted : ((l.insertionSort r).map f).Pairwise fun x y ↦ r' y x :=
      List.pairwise_map.mpr ((List.pairwise_insertionSort r l).imp fun {a b} hab ↦ (hr a b).mp hab)
    rw [hsort] at hsorted
    exact List.pairwise_reverse.mp hsorted
  · intro hpairwise
    have hreverse : l.reverse.Pairwise r :=
      List.pairwise_reverse.mpr ((List.pairwise_map.mp hpairwise).imp fun {a b} hab ↦
        (hr b a).mpr hab)
    have hperm : (l.insertionSort r).Perm l.reverse :=
      (List.perm_insertionSort r l).trans (List.reverse_perm l).symm
    have heq : l.insertionSort r = l.reverse := by
      refine hperm.eq_of_pairwise (fun a b ha hb ↦ ?_) (List.pairwise_insertionSort r l) hreverse
      exact hanti a ((List.mem_insertionSort r).mp ha) b (List.mem_reverse.mp hb)
    rw [heq, List.map_reverse]

/-! ## Listing -/

section Runs

variable {config : Config} {crates : Crates}

/-- The rows of a run that started without releases have a status that can be read. -/
theorem status_read {s : Server} (hs : s.releases = Table.empty) {c : ReleasePool}
    (h : Uploads config crates s c) :
    ∀ r ∈ c.shared.releases, ∃ st : ReleaseStatus, r.status = st.asStr := by
  intro r hr
  rcases row_origin h r hr with hstart | ⟨i, hmade⟩
  · rw [hs] at hstart
    exact absurd hstart (Table.not_mem_empty r)
  rcases hmade.stored with ⟨hstatus, -⟩ | ⟨now, n, hd⟩
  · exact ⟨.unpacking, hstatus⟩
  · obtain ⟨t, τ₁, τ₂, k, -, -, hafter⟩ := h.issued hd
    obtain ⟨unpacked, houtcome⟩ := (createRelease_pending hafter).outcome_status
    cases unpacked with
    | ok a => exact ⟨.ready, houtcome⟩
    | error e => exact ⟨.failed, houtcome⟩

/-- Rows with a status that can be read are all read, in order. -/
theorem mapM_releaseOfRow {rows : List ReleaseRow}
    (h : ∀ r ∈ rows, ∃ st : ReleaseStatus, r.status = st.asStr) :
    ∃ releases, rows.mapM Db.releaseOfRow = .ok releases ∧
      releases.map Release.insertion = rows.map ReleaseRow.insertion := by
  induction rows with
  | nil => exact ⟨[], rfl, rfl⟩
  | cons r rows ih =>
    obtain ⟨st, hst⟩ := h r List.mem_cons_self
    obtain ⟨releases, hreleases, hmap⟩ := ih fun r' hr' ↦ h r' (List.mem_cons_of_mem _ hr')
    have hread : Db.releaseOfRow r
        = .ok ⟨r.id, r.projectId, st, r.message, r.error, r.createdAt, r.updatedAt⟩ := by
      rw [Db.releaseOfRow, hst, ReleaseStatus.parse_asStr]
    refine ⟨⟨r.id, r.projectId, st, r.message, r.error, r.createdAt, r.updatedAt⟩ :: releases, ?_,
      congrArg (r.insertion :: ·) hmap⟩
    rw [List.mapM_cons, hread, hreleases]
    rfl

variable (config crates) in
/-- The releases of one project. -/
def insertionsOf (projectId : String) (c : ReleasePool) (as : List (Act Outside ReleaseRequest)) :
    List Insertion :=
  (insertions config crates c as).filter fun x ↦ x.projectId = projectId

/-- The rows of a project, as they were inserted in a run that started without releases. -/
theorem select_insertion {s : Server} (hs : s.releases = Table.empty) {c : ReleasePool}
    {as : List (Act Outside ReleaseRequest)} (hrun : (⟨s, []⟩ : ReleasePool).run? perform
      (ReleaseRequest.prog config crates) as = some c) (projectId : String) :
    (c.shared.releases.select fun r ↦ r.projectId = projectId).map ReleaseRow.insertion
      = insertionsOf config crates projectId ⟨s, []⟩ as := by
  have hrows : c.shared.releases.rows.map ReleaseRow.insertion
      = insertions config crates ⟨s, []⟩ as := by
    rw [insertions_run hrun, hs]
    rfl
  rw [insertionsOf, ← hrows, List.filter_map]
  rfl

/-- **When releases are listed newest first**, for every run of uploads on a server without
releases.  Listing a project returns each of its releases exactly once and no other's, and in the
reverse of the order in which their rows were inserted exactly if each was created in a later second
than those inserted before it, or in the same second under a larger id. -/
theorem listReleases_reverse_iff {s : Server} (hs : s.releases = Table.empty) {c : ReleasePool}
    {as : List (Act Outside ReleaseRequest)} (hrun : (⟨s, []⟩ : ReleasePool).run? perform
      (ReleaseRequest.prog config crates) as = some c) (projectId : String) {w : ℕ → Outside}
    (hw : (w 0).fault = none) :
    ∃ releases, ((Db.listReleases projectId).run.run perform w c.shared).1 = .ok releases ∧
      (releases.map Release.insertion).Perm (insertionsOf config crates projectId ⟨s, []⟩ as) ∧
      (releases.map Release.id).Nodup ∧
      (releases.map Release.insertion
          = (insertionsOf config crates projectId ⟨s, []⟩ as).reverse ↔
        (insertionsOf config crates projectId ⟨s, []⟩ as).Pairwise Insertion.Before) := by
  have hreach : Uploads config crates s c :=
    Reaches.of_run? as hrun (Conf.admits_of_forall (fun _ _ ↦ trivial) as _)
  generalize hrows : (c.shared.releases.select fun r ↦ r.projectId = projectId) = rows
  have hmem : ∀ r ∈ rows, r ∈ c.shared.releases := by
    intro r hr
    rw [← hrows, Table.mem_select] at hr
    exact hr.1
  have hids : (rows.map ReleaseRow.id).Nodup := by
    rw [← hrows]
    exact (List.filter_sublist.map _).nodup (c.shared.releases.nodup _ List.mem_cons_self)
  have hinsertions : rows.map ReleaseRow.insertion =
      insertionsOf config crates projectId ⟨s, []⟩ as :=
    hrows ▸ select_insertion hs hrun projectId
  have hsorted := List.perm_insertionSort newestFirst rows
  have hread : ∀ r ∈ rows.insertionSort newestFirst, ∃ st : ReleaseStatus, r.status = st.asStr :=
    fun r hr ↦ status_read hs hreach r (hmem r (hsorted.mem_iff.mp hr))
  obtain ⟨releases, hreleases, hmap⟩ := mapM_releaseOfRow hread
  have hlist : ((Db.listReleases projectId).run.run perform w c.shared).1 = .ok releases := by
    rw [Db.listReleases_run, run_op, perform_sql_ok hw]
    show (run perform (.ret (((c.shared.releases.select fun r ↦
      r.projectId = projectId).insertionSort newestFirst).mapM Db.releaseOfRow)) _ _).1 = _
    rw [hrows, hreleases]
    rfl
  refine ⟨releases, hlist, ?_, ?_, ?_⟩
  · rw [hmap, ← hinsertions]
    exact hsorted.map _
  · have hid : releases.map Release.id = (rows.insertionSort newestFirst).map ReleaseRow.id := by
      have hids := congrArg (List.map Insertion.id) hmap
      rw [List.map_map, List.map_map] at hids
      exact hids
    rw [hid]
    exact (hsorted.map _).nodup_iff.mpr hids
  · rw [hmap, ← hinsertions]
    refine map_insertionSort_eq_reverse_iff (r := newestFirst) (fun _ _ ↦ newestFirst_iff)
      fun a ha b hb hab hba ↦ ?_
    refine List.inj_on_of_nodup_map hids ha hb ?_
    rcases hab with hlt | ⟨heq, hab⟩
    · rcases hba with hlt' | ⟨heq', -⟩
      · exact absurd hlt (lt_asymm hlt')
      · omega
    · rcases hba with hlt' | ⟨-, hba⟩
      · omega
      · exact String.le_antisymm hba hab

end Runs

/-! ## Two uploads in a second -/

/-- What a step sees of the outside at this time, every draw returning these bytes. -/
def atSecond (now : ℕ) (b : UInt8) : Outside := { drawing b with now := now }

/-- The upload as call `i`, alone. -/
def uploadAt (i now : ℕ) (b : UInt8) : List (Act Outside ReleaseRequest) :=
  .spawn ownUpload :: List.replicate 14 (.step i (atSecond now b))

/-- One after the other, the first drawing the smaller id. -/
def ascendingUploads : List (Act Outside ReleaseRequest) := uploadAt 0 7 1 ++ uploadAt 1 7 2

/-- One after the other, the first drawing the larger id. -/
def descendingUploads : List (Act Outside ReleaseRequest) := uploadAt 0 7 2 ++ uploadAt 1 7 1

/-- What `listReleases` returns for a project. -/
def listed (projectId : String) (c : ReleasePool) : Option (List Insertion) :=
  ((Db.listReleases projectId).run.run perform (fun _ ↦ {}) c.shared).1.toOption.map
    (List.map Release.insertion)

theorem listReleases_reverse_iff_ascending :
    ∃ c ∈ (⟨.oneProject, []⟩ : ReleasePool).run? perform
        (ReleaseRequest.prog ⟨"", "", "", [], ""⟩ .sample) ascendingUploads,
      ∃ releases, ((Db.listReleases "prj_00000000000000aa").run.run perform (fun _ ↦ {})
          c.shared).1 = .ok releases ∧
        releases.map Release.insertion = [⟨"rel_0202020202020202", "prj_00000000000000aa", 7⟩,
          ⟨"rel_0101010101010101", "prj_00000000000000aa", 7⟩] := by
  have hinsertions : insertionsOf ⟨"", "", "", [], ""⟩ .sample "prj_00000000000000aa"
      ⟨.oneProject, []⟩ ascendingUploads = [⟨"rel_0101010101010101", "prj_00000000000000aa", 7⟩,
        ⟨"rel_0202020202020202", "prj_00000000000000aa", 7⟩] := by
    decide +kernel
  have hrun : ((⟨.oneProject, []⟩ : ReleasePool).run? perform
      (ReleaseRequest.prog ⟨"", "", "", [], ""⟩ .sample) ascendingUploads).isSome := by
    decide +kernel
  obtain ⟨c, hc⟩ := Option.isSome_iff_exists.mp hrun
  obtain ⟨releases, hlist, -, -, hiff⟩ :=
    listReleases_reverse_iff rfl hc "prj_00000000000000aa" (w := fun _ ↦ {}) rfl
  rw [hinsertions] at hiff
  refine ⟨c, hc, releases, hlist, hiff.mpr ?_⟩
  simp [Insertion.Before]

/-- Two releases of one second are listed in the order in which they were inserted. -/
theorem descendingUploads_misordered :
    ∃ c ∈ (⟨.oneProject, []⟩ : ReleasePool).run? perform
        (ReleaseRequest.prog ⟨"", "", "", [], ""⟩ .sample) descendingUploads,
      insertionsOf ⟨"", "", "", [], ""⟩ .sample "prj_00000000000000aa" ⟨.oneProject, []⟩
          descendingUploads = [⟨"rel_0202020202020202", "prj_00000000000000aa", 7⟩,
            ⟨"rel_0101010101010101", "prj_00000000000000aa", 7⟩] ∧
        listed "prj_00000000000000aa" c ≠ some (insertionsOf ⟨"", "", "", [], ""⟩ .sample
          "prj_00000000000000aa" ⟨.oneProject, []⟩ descendingUploads).reverse := by
  have hinsertions : insertionsOf ⟨"", "", "", [], ""⟩ .sample "prj_00000000000000aa"
      ⟨.oneProject, []⟩ descendingUploads = [⟨"rel_0202020202020202", "prj_00000000000000aa", 7⟩,
        ⟨"rel_0101010101010101", "prj_00000000000000aa", 7⟩] := by
    decide +kernel
  have hrun : ((⟨.oneProject, []⟩ : ReleasePool).run? perform
      (ReleaseRequest.prog ⟨"", "", "", [], ""⟩ .sample) descendingUploads).map
        (listed "prj_00000000000000aa")
      = some (some [⟨"rel_0202020202020202", "prj_00000000000000aa", 7⟩,
        ⟨"rel_0101010101010101", "prj_00000000000000aa", 7⟩]) := by
    decide +kernel
  obtain ⟨c, hc, hlisted⟩ := Option.map_eq_some_iff.mp hrun
  refine ⟨c, hc, hinsertions, ?_⟩
  rw [hlisted, hinsertions]
  decide

end Railyard
