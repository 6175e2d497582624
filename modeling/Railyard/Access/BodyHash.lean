import Railyard.Access.Upload

/-!
# Bodies that do not match the signature

A signature covers a claimed hash of the body; the body is checked against the claim later, in
`verifyBodyHash` or while an upload is streamed to disk.  `only_verified_bodies` says what is not
done until then, as an equation or a bound on the program that serves the request, so that it holds
whatever the replies to its operations are and whatever runs next to it.
-/

set_option autoImplicit false

namespace Railyard

open Effects Prog

variable {config : Config} {crates : Crates} {req : Request} {head : SignedHead}

/-- The whole body has arrived, and it hashes to what the signature covers. -/
def BodyVerified (crates : Crates) (req : Request) (head : SignedHead) : Prop :=
  ∃ bs, bodyBytes req.body = some bs ∧
    crates.sha256Hex bs = Encoding.toAsciiLowercase head.contentSha256

/-- Unpacking an archive, and marking a release as ready. -/
def Op.ActsOnArchive : Op → Prop
  | .fs (.unpack _ _) => True
  | .sql (.setReleaseStatus _ status _ _) => status = "ready"
  | .sql (.insertRelease _ _ status _ _) => status = "ready"
  | _ => False

theorem checkedRequest_does (hhead : req.signedHead = .ok head) :
    DoesOk (fun q ↦ q = .unixTimestamp ∨ q = .sql (.keyOwner head.keyId) ∨
        ∃ window now, q = .recordNonce window now head.nonce)
      (fun req' ↦ ∃ user, req' = req.authenticated head user) (checkedRequest crates req) := by
  rw [DoesOk, checkedRequest_run, hhead]
  refine ⟨.inl rfl, fun now ↦ ?_⟩
  dsimp only
  split
  · exact fun _ h ↦ nomatch h
  refine ⟨.inr (.inl rfl), fun r ↦ ?_⟩
  rcases r with e | _ | ⟨row, rows⟩
  · exact fun _ h ↦ nomatch h
  · exact fun _ h ↦ nomatch h
  dsimp only
  cases verifyHead crates req head row.1 with
  | error e => exact fun _ h ↦ nomatch h
  | ok _ =>
    refine ⟨.inr (.inr ⟨_, _, rfl⟩), fun r ↦ ?_⟩
    cases r with
    | true => exact fun _ h ↦ nomatch h
    | false => exact fun _ h ↦ ⟨_, (Except.ok.inj h).symm⟩

/-- The body hash layer passes an accepted request on with the bytes that were verified, or
answers without what comes after it. -/
theorem verifyBodyHash_authenticated (crates : Crates) (req : Request) (head : SignedHead) :
    (∃ response, (response.status = 400 ∨ response.status = 401) ∧
        ∀ next user, verifyBodyHash crates next (req.authenticated head user) = .ret response) ∨
      ∃ bs, bodyBytes req.body = some bs ∧
        crates.sha256Hex bs = Encoding.toAsciiLowercase head.contentSha256 ∧
        ∀ next user, verifyBodyHash crates next (req.authenticated head user)
          = next { req.authenticated head user with body := [.data bs] } := by
  simp only [verifyBodyHash, Request.authenticated]
  cases hb : toBytes req.body maxBodyBytes with
  | none => exact .inl ⟨_, .inl rfl, fun _ _ ↦ rfl⟩
  | some bs =>
    dsimp only
    split
    · exact .inl ⟨_, .inr rfl, fun _ _ ↦ rfl⟩
    · rename_i hhash
      exact .inr ⟨bs, bodyBytes_of_toBytes hb, not_not.mp hhash, fun _ _ ↦ rfl⟩

/-- The check, and then what is done with a request it accepts. -/
def checkedThen (crates : Crates) (req : Request) (f : Request → Task Response) : Task Response :=
  (checkedRequest crates req).run.bind fun
    | .ok req' => (f req').bind fun response ↦ .ret (stripBody req.method response)
    | .error reason => .ret (stripBody req.method (.text 401 ("unauthorized: " ++ reason)))

theorem serve_protected {handler : Handler}
    (h : (protectedRoutes config crates).find req = some handler) :
    (signedRoutes config crates).serve req = checkedThen crates req handler := by
  rw [Router.serve, signedRoutes, Router.find_append, Router.find_routeLayer, h, Option.map_some,
    Option.some_or]
  refine (Prog.bind_assoc _ _ _).trans (congrArg (Prog.bind _) (funext fun r ↦ ?_))
  cases r <;> rfl


theorem checkedThen_congr (hhead : req.signedHead = .ok head) {f g : Request → Task Response}
    (h : ∀ user, f (req.authenticated head user) = g (req.authenticated head user)) :
    checkedThen crates req f = checkedThen crates req g := by
  refine Does.bind_congr (checkedRequest_does hhead) fun r hr ↦ ?_
  cases r with
  | error reason => rfl
  | ok req' =>
    obtain ⟨user, rfl⟩ := hr req' rfl
    dsimp only
    rw [h]

theorem checkedThen_does (hhead : req.signedHead = .ok head) {φ : Op → Prop}
    (hclock : φ .unixTimestamp) (hkey : ∀ keyId, φ (.sql (.keyOwner keyId)))
    (hnonce : ∀ window now nonce, φ (.recordNonce window now nonce)) {f : Request → Task Response}
    (h : ∀ user, (f (req.authenticated head user)).Does φ fun _ ↦ True) :
    (checkedThen crates req f).Does φ fun _ ↦ True := by
  refine Does.bind ((checkedRequest_does hhead).mono (fun q hq ↦ ?_) fun _ hr ↦ hr) fun r hr ↦ ?_
  · rcases hq with rfl | rfl | ⟨window, now, rfl⟩
    · exact hclock
    · exact hkey _
    · exact hnonce _ _ _
  · cases r with
    | error reason => exact trivial
    | ok req' =>
      obtain ⟨user, rfl⟩ := hr req' rfl
      exact (h user).bind fun _ _ ↦ trivial

/-- Storing an unverified archive does neither. -/
theorem Stores.not_actsOnArchive {dir releaseId : String} {verified : Prop} {q : Op}
    (h : Stores dir releaseId verified q) (hv : ¬ verified) : ¬ q.ActsOnArchive := by
  cases h with
  | failed error now => exact fun h : "failed" = "ready" ↦ absurd h (by decide)
  | openFile h | createSource h | unpack h | join h | ready h => exact absurd h hv
  | _ => exact id

theorem uploadRelease_unverified {projectId : String} {message : Option String}
    (h : ¬ Verified crates req.body req.signedHash) :
    (uploadRelease config crates projectId message req).Does (fun q ↦ ¬ q.ActsOnArchive)
      fun _ ↦ True := by
  refine ⟨id, fun r ↦ ?_⟩
  rcases r with e | _ | ⟨p, ps⟩
  · exact trivial
  · exact trivial
  refine ⟨id, fun now ↦ ⟨id, fun bs ↦ ⟨fun h : "unpacking" = "ready" ↦ absurd h (by decide),
    fun r ↦ ?_⟩⟩⟩
  cases r with
  | error e => exact trivial
  | ok n =>
    exact (storeRelease_does config projectId _ req).mono (fun q hq ↦ hq.not_actsOnArchive h)
      fun _ h ↦ h

/-- An operation that neither unpacks nor marks a release as ready unpacks nothing, and leaves no
release ready that was not. -/
theorem perform_not_actsOnArchive {o : Outside} {q : Op} {s : Server} (h : ¬ q.ActsOnArchive) :
    (perform o q s).2.unpacked = s.unpacked ∧
      ∀ r ∈ (perform o q s).2.releases, r.status = "ready" → r ∈ s.releases := by
  by_cases hq : ∃ st, q = .sql st
  · obtain ⟨st, rfl⟩ := hq
    cases hf : o.fault with
    | some e => rw [perform_sql_fault hf]; exact ⟨rfl, fun r hr _ ↦ hr⟩
    | none =>
      rw [perform_sql_ok hf]
      cases st with
      | insertRelease id projectId status message now =>
        refine ⟨rfl, fun r hr hready ↦ ?_⟩
        obtain ⟨-, -, hs⟩ | ⟨-, -, hmem⟩ := insertRelease_cases s id projectId status message now
        · rwa [hs] at hr
        · rcases (hmem r).mp hr with hr | rfl
          · exact hr
          · exact absurd hready h
      | setReleaseStatus id status error now =>
        refine ⟨rfl, fun r hr hready ↦ ?_⟩
        obtain ⟨r₀, hr₀, rfl⟩ := mem_releases_setReleaseStatus.mp hr
        by_cases hid : r₀.id = id
        · rw [if_pos hid] at hready
          exact absurd hready h
        · rwa [if_neg hid]
      | _ => exact ⟨rfl, fun r hr _ ↦ hr⟩
  · refine ⟨?_, fun r hr _ ↦ ?_⟩
    · cases q with
      | sql st => exact absurd ⟨st, rfl⟩ hq
      | fs f =>
        simp only [perform]
        cases f with
        | unpack archive dir => exact absurd trivial h
        | _ => cases o.fault <;> rfl
      | joinBlocking => simp only [perform]; cases o.fault <;> rfl
      | _ => rfl
    · rwa [(perform_tables (fun st h ↦ hq ⟨st, h⟩) s).2.2.2] at hr

theorem streamed_unverified {handler : Handler} (hs : Streamed config crates handler)
    (h : ¬ Verified crates req.body req.signedHash) :
    (handler req).Does (fun q ↦ ¬ q.ActsOnArchive) fun _ ↦ True := by
  cases hs with
  | methodNotAllowed => exact trivial
  | listReleases raw =>
    obtain ⟨response, hret⟩ | ⟨caller, projectId, -, -, hdoes⟩ := listReleases_cases raw req
    · rw [hret]; exact trivial
    · refine hdoes.mono (fun q hq ↦ ?_) fun _ h ↦ h
      rcases hq with rfl | rfl <;> exact id
  | createRelease raw =>
    obtain ⟨response, hret⟩ | ⟨caller, projectId, message, -, -, hret⟩ :=
      createRelease_cases config crates raw req
    · rw [hret]; exact trivial
    · rw [hret]; exact uploadRelease_unverified h

/-- The path of the releases route is that of no other. -/
theorem find_buffered_of_releases {handler : Handler}
    (h : (releaseRoutes config crates).find req = some handler) :
    (bufferedRoutes config crates).find req = none := by
  obtain ⟨r, hr, params, hpath, -⟩ := Router.find_eq_some h
  obtain rfl := List.mem_singleton.mp hr
  have hlength := matchPath_length hpath
  rw [Router.find, List.findSome?_eq_none_iff]
  intro r' hr'
  rw [Option.map_eq_none_iff, Option.eq_none_iff_forall_ne_some]
  intro params' hpath'
  have hlength' := matchPath_length hpath'
  simp only [bufferedRoutes, List.mem_cons, List.not_mem_nil, or_false] at hr'
  rcases hr' with rfl | rfl | rfl | rfl | rfl <;>
    exact absurd (hlength.symm.trans hlength')
      (by simp [route, routeParam, projectsPath, usersPath, whoamiPath])

/-- **Only verified bodies are acted on.**  Take a request with these signature headers, and any
body, in any frames.

* On a route other than the releases route, a request that the signature layer accepts is answered
  without the handler, whatever the handler is; or its whole body hashes to the signed hash, and
  the handler gets these bytes.
* On the releases route, a body that does not hash to the signed hash is never unpacked, and no
  release is marked ready: the request asks for neither, whatever the replies, and a run of it
  leaves no release ready that was not. -/
theorem only_verified_bodies (config : Config) (crates : Crates) {req : Request}
    {head : SignedHead} (hhead : req.signedHead = .ok head) {handler : Handler} :
    ((bufferedRoutes config crates).find req = some handler →
      (∃ response, (response.status = 400 ∨ response.status = 401) ∧
        (signedRoutes config crates).serve req = checkedThen crates req fun _ ↦ .ret response) ∨
      ∃ bs, bodyBytes req.body = some bs ∧
        crates.sha256Hex bs = Encoding.toAsciiLowercase head.contentSha256 ∧
        (signedRoutes config crates).serve req = checkedThen crates req fun req' ↦
          handler { req' with body := [.data bs] }) ∧
    ((releaseRoutes config crates).find req = some handler → ¬ BodyVerified crates req head →
      ((signedRoutes config crates).serve req).Does (fun q ↦ ¬ q.ActsOnArchive) (fun _ ↦ True) ∧
      ∀ w s, (((signedRoutes config crates).serve req).run perform w s).2.unpacked = s.unpacked ∧
        ∀ r ∈ (((signedRoutes config crates).serve req).run perform w s).2.releases,
          r.status = "ready" → r ∈ s.releases) := by
  constructor
  · intro hfind
    have hfind' : (protectedRoutes config crates).find req
        = some (verifyBodyHash crates handler) := by
      rw [protectedRoutes_find, hfind, Option.map_some, Option.some_or]
    rw [serve_protected hfind']
    obtain ⟨response, hstatus, hret⟩ | ⟨bs, hbs, hhash, hret⟩ :=
      verifyBodyHash_authenticated crates req head
    · exact .inl ⟨response, hstatus, checkedThen_congr hhead fun user ↦ hret handler user⟩
    · exact .inr ⟨bs, hbs, hhash, checkedThen_congr hhead fun user ↦ hret handler user⟩
  · intro hfind hbody
    have hfind' : (protectedRoutes config crates).find req = some handler := by
      rw [protectedRoutes_find, find_buffered_of_releases hfind, Option.map_none, Option.none_or,
        hfind]
    have hdoes : ((signedRoutes config crates).serve req).Does (fun q ↦ ¬ q.ActsOnArchive)
        fun _ ↦ True := by
      rw [serve_protected hfind']
      refine checkedThen_does hhead id (fun _ ↦ id) (fun _ _ _ ↦ id) fun user ↦ ?_
      refine streamed_unverified (streamed_of_find hfind) ?_
      rintro ⟨bs, hbs, hhash⟩
      exact hbody ⟨bs, hbs, hhash _ rfl⟩
    refine ⟨hdoes, fun w s ↦ ?_⟩
    refine (hdoes.run (I := fun s' : Server ↦ s'.unpacked = s.unpacked ∧
      ∀ r ∈ s'.releases, r.status = "ready" → r ∈ s.releases) (fun o q s' hq hs' ↦ ?_) w
      ⟨rfl, fun r hr _ ↦ hr⟩).2
    obtain ⟨hunpacked, hready⟩ := perform_not_actsOnArchive hq (o := o) (s := s')
    exact ⟨hunpacked.trans hs'.1, fun r hr h ↦ hs'.2 r (hready r hr h) h⟩

/-- A server with a project, and a user with a key. -/
def uploadServer : Server :=
  { Server.fresh with
    users := ⟨[⟨"usr_0", "carol", some neutralKey, none, 0⟩], by decide⟩
    projects := ⟨[⟨"prj_00000000000000aa", "shop", 0⟩], by decide⟩ }

/-- An upload of that user whose body does not hash to the signed hash. -/
def forgedUpload : Request where
  method := "POST"
  pathAndQuery := some "/api/projects/prj_00000000000000aa/releases"
  headers := [("host", "railyard"), (headerSignatureVersion, signatureVersion),
    (headerKeyId, "usr_0"), (headerTimestamp, "1000"), (headerNonce, "n"),
    (headerContentSha256, "00"), (headerSignature, neutralSignature)]
  body := [.data [1]]

/-- The request is accepted and its upload received, and nothing is unpacked: the release fails. -/
theorem only_verified_bodies_forgedUpload :
    let after := (((signedRoutes ⟨"", "", "", [], ""⟩ .sample).serve forgedUpload).run perform
      (fun _ ↦ { now := 1000 }) uploadServer).2
    after.releases.rows.map ReleaseRow.status = ["failed"] ∧ after.unpacked = [] := by
  have hhead : forgedUpload.signedHead = .ok ⟨"usr_0", "n", "00", neutralSignature, 1000⟩ := rfl
  have hbody : ¬ BodyVerified .sample forgedUpload
      ⟨"usr_0", "n", "00", neutralSignature, 1000⟩ := by
    rintro ⟨bs, -, hhash⟩
    have hhash' : Encoding.hexEncode zeroTokenDigest = "00" := hhash
    exact absurd hhash' (by decide)
  refine ⟨by decide +kernel, ?_⟩
  exact (((only_verified_bodies ⟨"", "", "", [], ""⟩ .sample hhead).2 rfl hbody).2
    (fun _ ↦ { now := 1000 }) uploadServer).1

end Railyard
