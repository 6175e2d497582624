import Railyard.Access.Handlers

/-!
# Uploads

What `createRelease` asks for, in the order in which it does.  The body of an upload is not read
before the handler runs, as other bodies are, but written to a file as it arrives and hashed on the
way.  So the handler itself compares the hash with the signed one, and what it may do before and
after that comparison is what matters here.

* `Verified`: all of the body has arrived and has the signed hash;
* `Stores`: what may be asked for while a release is stored, some of it only once that is so;
* `storeRelease_does`: unpacking the archive and marking the release ready come after the check of
  the body, whatever the replies;
* `uploadRelease`: the part up to the row of the release.
-/

set_option autoImplicit false

namespace Railyard

open Effects Prog

/-! ## Receiving and unpacking -/

/-- All of a body has arrived, and it hashes to what was signed, if anything was. -/
def Verified (crates : Crates) (body : List Frame) (signedHash : Option String) : Prop :=
  ∃ bs, bodyBytes body = some bs ∧ ∀ expected ∈ signedHash, crates.sha256Hex bs = expected

/-- What storing a release may do: once the body is verified, unpack it and mark the release
ready, and before that neither. -/
inductive Stores (dir releaseId : String) (verified : Prop) : Op → Prop
  | clock : Stores dir releaseId verified .unixTimestamp
  | createDir : Stores dir releaseId verified (.fs (.createDirAll dir))
  | createFile : Stores dir releaseId verified (.fs (.createFile (joinPath dir "archive.tar.gz")))
  | writeAll (data : Bytes) :
      Stores dir releaseId verified (.fs (.writeAll (joinPath dir "archive.tar.gz") data))
  | flush : Stores dir releaseId verified (.fs (.flush (joinPath dir "archive.tar.gz")))
  | failed (error : Option String) (now : ℕ) :
      Stores dir releaseId verified (.sql (.setReleaseStatus releaseId "failed" error now))
  | openFile (h : verified) :
      Stores dir releaseId verified (.fs (.openFile (joinPath dir "archive.tar.gz")))
  | createSource (h : verified) :
      Stores dir releaseId verified (.fs (.createDirAll (joinPath dir "source")))
  | unpack (h : verified) :
      Stores dir releaseId verified
        (.fs (.unpack (joinPath dir "archive.tar.gz") (joinPath dir "source")))
  | join (h : verified) : Stores dir releaseId verified .joinBlocking
  | ready (h : verified) (now : ℕ) :
      Stores dir releaseId verified (.sql (.setReleaseStatus releaseId "ready" none now))

variable {config : Config} {crates : Crates} {dir releaseId : String} {verified : Prop}

/-- One step on the file system. -/
theorem fs_doesOk {φ : Op → Prop} {f : FsOp} (h : φ (.fs f)) : DoesOk φ (fun _ ↦ True) (fs f) :=
  ⟨h, fun _ _ _ ↦ trivial⟩

/-- The frames are written one after the other, and what is hashed is what they hold. -/
theorem receiveFrames_doesOk (frames : List Frame) (received : ℕ) (hashed : Bytes) :
    DoesOk (Stores dir releaseId verified)
      (fun r ↦ ∃ bs, bodyBytes frames = some bs ∧ r.2 = hashed ++ bs)
      (receiveFrames (joinPath dir "archive.tar.gz") frames received hashed) := by
  induction frames generalizing received hashed with
  | nil => exact .pure ⟨[], rfl, (List.append_nil _).symm⟩
  | cons frame frames ih =>
    cases frame with
    | data data =>
      rw [receiveFrames]
      dsimp only
      split
      · exact .throw _
      · refine .bind (fs_doesOk (.writeAll data)) fun _ _ ↦ ?_
        refine (ih _ _).mono (fun _ h ↦ h) ?_
        rintro r hr a rfl
        obtain ⟨bs, hbs, he⟩ := hr a rfl
        exact ⟨data ++ bs, by rw [bodyBytes, hbs, Option.map_some], by rw [he, List.append_assoc]⟩
    | trailers => exact ih received hashed
    | error e => exact .throw _

/-- Receiving succeeds only with a body that hashes to what was signed. -/
theorem receiveBody_doesOk (body : List Frame) (signedHash : Option String) :
    DoesOk (Stores dir releaseId verified) (fun _ ↦ Verified crates body signedHash)
      (receiveBody crates (joinPath dir "archive.tar.gz") body signedHash) := by
  refine .bind (receiveFrames_doesOk body 0 []) fun ⟨received, hashed⟩ hframes ↦ ?_
  obtain ⟨_, hbs, rfl⟩ := hframes
  refine .bind (fs_doesOk .flush) fun _ _ ↦ ?_
  dsimp only
  split
  · exact .throw _
  · cases signedHash with
    | none => exact .pure ⟨_, hbs, fun _ h ↦ nomatch h⟩
    | some expected =>
      dsimp only
      split
      · exact .throw _
      · rename_i hhash
        exact .pure ⟨_, hbs, fun _ h ↦ Option.some.inj h ▸ not_not.mp hhash⟩

/-- Unpacking is for a body that has been verified. -/
theorem unpackArchive_doesOk (h : verified) :
    DoesOk (Stores dir releaseId verified) (fun _ ↦ True) (spawnBlocking (unpackArchive dir)) := by
  have hunpack : DoesOk (Stores dir releaseId verified) (fun _ ↦ True) (unpackArchive dir) :=
    .bind (fs_doesOk (.openFile h)) fun _ _ ↦ .bind (fs_doesOk (.createSource h)) fun _ _ ↦
      fs_doesOk (.unpack h)
  refine Does.bind hunpack fun result _ ↦ ⟨.join h, fun r ↦ ?_⟩
  cases r <;> exact fun _ _ ↦ trivial

/-- The release is marked ready only where unpacking succeeded. -/
theorem finishRelease_does (dir projectId : String) (release : Release)
    {unpacked : Except Error Unit} (h : ∀ a, unpacked = .ok a → verified) :
    (finishRelease projectId release unpacked).Does (Stores dir release.id verified)
      fun _ ↦ True := by
  cases unpacked with
  | error e =>
    exact ⟨.clock, fun now ↦ ⟨.failed (some e) now, fun r ↦ by cases r <;> exact trivial⟩⟩
  | ok a =>
    exact ⟨.clock, fun now ↦ ⟨.ready (h a rfl) now, fun r ↦ by cases r <;> exact trivial⟩⟩

theorem storeRelease_does (config : Config) (projectId : String) (release : Release)
    (req : Request) :
    (storeRelease config crates projectId release req).Does
      (Stores (releaseDir config projectId release.id) release.id
        (Verified crates req.body req.signedHash)) fun _ ↦ True := by
  refine Does.bind (χ := fun r ↦ ∀ a, r = .ok a → Verified crates req.body req.signedHash) ?_
    fun unpacked h ↦ finishRelease_does _ projectId release h
  refine DoesOk.bind (χ := fun _ ↦ Verified crates req.body req.signedHash) ?_ fun _ h ↦ ?_
  · exact .bind (fs_doesOk .createDir) fun _ _ ↦ .bind (fs_doesOk .createFile) fun _ _ ↦
      receiveBody_doesOk _ _
  · exact (unpackArchive_doesOk h).mono (fun _ h ↦ h) fun _ _ _ _ ↦ h

/-! ## Up to the row -/

variable (config crates)

/-- `createRelease` from where the caller may touch the project. -/
def uploadRelease (projectId : String) (message : Option String) (req : Request) : Task Response :=
  .op (.sql (.projectById projectId)) fun
    | .error _ => .ret internalServerError
    | .ok [] => .ret (.text 404 ("no project " ++ projectId ++ " on this server"))
    | .ok (_ :: _) => .op .unixTimestamp fun now ↦ .op (.fillBytes .releaseId) fun bs ↦
      let id := "rel_" ++ Encoding.hexEncode bs.val
      .op (.sql (.insertRelease id projectId "unpacking" message now)) fun
        | .error _ => .ret internalServerError
        | .ok _ => storeRelease config crates projectId
            ⟨id, projectId, .unpacking, message, none, now, now⟩ req

/-- `createRelease` answers at once, or the caller may touch the project of its path. -/
theorem createRelease_cases (raw : String) (req : Request) :
    (∃ response, createRelease config crates raw req = .ret response) ∨
      ∃ caller projectId message, req.caller = some caller ∧
        (∀ scope ∈ caller.projectId, scope = projectId) ∧
        createRelease config crates raw req
          = uploadRelease config crates projectId message req := by
  rw [createRelease]
  unfold Request.callerExtension
  cases hcaller : req.caller with
  | none => exact .inl ⟨_, rfl⟩
  | some caller =>
    cases pathParam "project_id" raw with
    | error response => exact .inl ⟨_, rfl⟩
    | ok projectId =>
      cases crates.queryCreateRelease (Encoding.query req.target) with
      | error response => exact .inl ⟨_, rfl⟩
      | ok message =>
        simp only [extract_ok]
        obtain ⟨response, hconf⟩ | ⟨hscope, hconf⟩ := confirmProjectAccess_cases caller projectId
        · rw [hconf]; exact .inl ⟨_, rfl⟩
        · refine .inr ⟨caller, projectId, message.filter (· ≠ ""), rfl, hscope, ?_⟩
          rw [hconf]
          refine Prog.op_congr fun r ↦ ?_
          rcases r with e | _ | ⟨p, ps⟩
          · rfl
          · rfl
          · refine Prog.op_congr fun now ↦ ?_
            exact Prog.op_congr fun bs ↦ Prog.op_congr fun r ↦ by cases r <;> rfl

variable {config crates} {req : Request} {P : String}

/-- For a caller of the project it is an upload without a check of its scope. -/
theorem createRelease_scoped (hreq : req.ScopedTo P) (raw : String) :
    (∃ response, createRelease config crates raw req = .ret response) ∨
      ∃ message, createRelease config crates raw req
        = uploadRelease config crates P message req := by
  obtain ⟨caller, hcaller, hscope⟩ := hreq
  obtain h | ⟨caller', projectId, message, hcaller', hown, h⟩ :=
    createRelease_cases config crates raw req
  · exact .inl h
  · cases hcaller.symm.trans hcaller'
    obtain rfl := hown P hscope
    exact .inr ⟨message, h⟩

/-- What an upload may do, told by what its parts may do. -/
theorem uploadRelease_does {φ : Op → Prop} {message : Option String}
    (hlookup : φ (.sql (.projectById P))) (hclock : φ .unixTimestamp)
    (hdraw : φ (.fillBytes .releaseId))
    (hinsert : ∀ id now, φ (.sql (.insertRelease id P "unpacking" message now)))
    (hstore : ∀ dir id verified q, Stores dir id verified q → φ q) :
    (uploadRelease config crates P message req).Does φ fun _ ↦ True := by
  refine ⟨hlookup, fun rows ↦ ?_⟩
  rcases rows with e | _ | ⟨row, rows⟩
  · exact trivial
  · exact trivial
  refine ⟨hclock, fun now ↦ ⟨hdraw, fun bs ↦ ⟨hinsert _ now, fun r ↦ ?_⟩⟩⟩
  cases r with
  | error e => exact trivial
  | ok n => exact (storeRelease_does config P _ req).mono (hstore _ _ _) fun _ h ↦ h

end Railyard
