import Railyard.Storage.Confinement
import Railyard.Storage.Releases

/-!
# What has been answered stays true

Projects and releases are never deleted, and user ids are minted by the platform.  So the ids that
an answer of the API names go on standing for what they stood for, whatever other requests do.

* `Response.Backed`: the ids that a response names are those of rows;
* `telling`: what replies teach about them, and what operations must rest on;
* `sound_telling`: what was taught stays true, and the tables stay `Sound`;
* `answers_stay_true`: every answer is backed by the tables, in every state after it.
-/

set_option autoImplicit false

namespace Railyard

open Effects Prog

/-! ## What is known -/

/-- A user id as the platform mints it. -/
def isUserId (id : String) : Prop :=
  ∃ bs : Bytes, bs.length = Draw.userId.size ∧ id = "usr_" ++ Encoding.hexEncode bs

/-- What may be known of the tables and of ids. -/
inductive Known
  | fact (x : Fact)
  | userId (id : String)

def Known.Holds : Known → Server → Prop
  | fact x, s => x.Holds s
  | userId id, _ => isUserId id

abbrev Known.project (id : String) : Known := .fact (.project id)

abbrev Known.release (id projectId : String) : Known := .fact (.release id projectId)

/-- What a reply teaches. -/
def teaches : (q : Op) → q.Reply → Set Known
  | .sql (.projectById id), .ok rows => {x | ∃ row ∈ rows, x = .project id ∨ x = .project row.id}
  | .sql .listProjects, .ok rows => {x | ∃ row ∈ rows, x = .project row.id}
  | .sql (.insertProject id _ _), .ok _ => {.project id}
  | .sql (.keyOwner _), .ok rows => {x | ∃ row ∈ rows, ∃ id ∈ row.2.2.2, x = .project id}
  | .sql (.inviteUserId _), .ok userIds => {x | ∃ id ∈ userIds, x = .userId id}
  | .sql (.insertRelease id projectId ..), .ok _ => {.release id projectId}
  | .sql (.listReleases _), .ok rows => {x | ∃ row ∈ rows, x = .release row.id row.projectId}
  | .fillBytes .userId, bs => {.userId ("usr_" ++ Encoding.hexEncode bs.val)}
  | _, _ => ∅

/-- The user id an operation stores. -/
def Op.userId : Op → Option String
  | .sql (.insertUser id ..) => some id
  | .sql (.insertInvite _ userId ..) => some userId
  | _ => none

/-- The facts among what is known. -/
def factsOf (K : Set Known) : Set Fact := {x | Known.fact x ∈ K}

/-- What operations rest on, and what they teach. -/
def telling (config : Config) : Discipline Op Op.Reply Known where
  learnt := teaches
  allowed K q := allowed config (factsOf K) q ∧ ∀ id ∈ q.userId, .userId id ∈ K
  allowed_mono hK h := ⟨(discipline config).allowed_mono (fun _ hx ↦ hK hx) h.1,
    fun id hid ↦ hK (h.2 id hid)⟩

/-- What the tables satisfy. -/
structure Sound (s : Server) : Prop where
  wellformed : Wellformed s
  user : ∀ u ∈ s.users, isUserId u.id
  invite : ∀ i ∈ s.invites, isUserId i.userId

theorem sound_fresh : Sound Server.fresh where
  wellformed := wellformed_fresh
  user u hu := absurd hu (Table.not_mem_empty u)
  invite i hi := absurd hi (Table.not_mem_empty i)

/-! ## It stays true -/

section Stays

variable {o : Outside} {q : Op} {s : Server}

theorem Known.stable (o : Outside) (q : Op) (s : Server) (x : Known) (h : x.Holds s) :
    x.Holds (perform o q s).2 := by
  cases x with
  | fact x => exact Fact.stable o q s x h
  | userId id => exact h

/-- What a statement teaches holds of the tables after it. -/
theorem Sound.teaches (h : Sound s) (o : Outside) (q : Op) :
    ∀ x ∈ teaches q (perform o q s).1, x.Holds (perform o q s).2 := by
  intro x hx
  cases q with
  | sql st =>
    cases hf : o.fault with
    | some e =>
      rw [perform_sql_fault hf] at hx
      cases st <;> exact absurd hx (Set.notMem_empty x)
    | none =>
      rw [perform_sql_ok hf] at hx ⊢
      cases st with
      | projectById id =>
        obtain ⟨row, hrow, hx⟩ := hx
        obtain ⟨hmem, hid⟩ := Table.mem_select.mp hrow
        have hid : row.id = id := by simpa using hid
        rcases hx with rfl | rfl
        · exact ⟨row, hmem, hid⟩
        · exact ⟨row, hmem, rfl⟩
      | listProjects =>
        obtain ⟨row, hrow, rfl⟩ := hx
        exact ⟨row, (List.mem_insertionSort _).mp hrow, rfl⟩
      | insertProject id name now =>
        obtain ⟨-, ⟨e, herror⟩, -⟩ | ⟨-, hok, hmem⟩ := insertProject_cases s id name now
        · rw [herror] at hx
          exact absurd hx (Set.notMem_empty x)
        · rw [hok] at hx
          rw [Set.mem_singleton_iff.mp hx]
          exact ⟨_, (hmem _).mpr (.inr rfl), rfl⟩
      | keyOwner keyId =>
        obtain ⟨row, hrow, id, hid, rfl⟩ := hx
        obtain ⟨u, hu, -, -, hrow⟩ := mem_keyOwner_reply rfl hrow
        rw [hrow] at hid
        exact h.wellformed.user u hu id hid
      | inviteUserId tokenHash =>
        obtain ⟨id, hid, rfl⟩ := hx
        obtain ⟨i, hi, -, rfl⟩ := (mem_inviteUserId_reply rfl).mp hid
        exact h.invite i hi
      | insertRelease id projectId status message now =>
        obtain ⟨-, ⟨e, herror⟩, -⟩ | ⟨-, hok, hmem⟩ :=
          insertRelease_cases s id projectId status message now
        · rw [herror] at hx
          exact absurd hx (Set.notMem_empty x)
        · rw [hok] at hx
          rw [Set.mem_singleton_iff.mp hx]
          exact ⟨_, (hmem _).mpr (.inr rfl), rfl, rfl⟩
      | listReleases projectId =>
        obtain ⟨row, hrow, rfl⟩ := hx
        have hmem := (List.mem_insertionSort _).mp hrow
        exact ⟨row, (Table.mem_select.mp hmem).1, rfl, rfl⟩
      | _ => exact absurd hx (Set.notMem_empty x)
  | fillBytes d =>
    cases d with
    | userId =>
      rw [Set.mem_singleton_iff.mp hx]
      exact ⟨_, (perform o (.fillBytes .userId) s).1.property, rfl⟩
    | _ => exact absurd hx (Set.notMem_empty x)
  | _ => exact absurd hx (Set.notMem_empty x)

/-- The ids of the users stay minted. -/
theorem Sound.user_exec (h : Sound s) (st : Stmt)
    (hid : ∀ id ∈ (Op.sql st).userId, isUserId id) :
    (∀ u ∈ (st.exec s).2.users, isUserId u.id) ∧
      ∀ i ∈ (st.exec s).2.invites, isUserId i.userId := by
  cases st with
  | insertUser id name projectId now =>
    obtain ⟨-, -, hs⟩ | ⟨-, -, hmem⟩ := insertUser_cases s id name projectId now
    · rw [hs]
      exact ⟨h.user, h.invite⟩
    refine ⟨fun u hu ↦ ?_, h.invite⟩
    rcases (hmem u).mp hu with hu | rfl
    · exact h.user u hu
    · exact hid _ rfl
  | deleteUser userId => exact ⟨fun u hu ↦ h.user u (mem_users_deleteUser.mp hu).1, h.invite⟩
  | setPublicKey publicKey userId =>
    refine ⟨fun u hu ↦ ?_, h.invite⟩
    obtain ⟨u₀, hu₀, rfl⟩ := mem_users_setPublicKey.mp hu
    have hold := h.user u₀ hu₀
    split <;> exact hold
  | insertInvite tokenHash userId expiresAt now =>
    obtain ⟨-, -, hs⟩ | ⟨-, -, hmem⟩ := insertInvite_cases s tokenHash userId expiresAt now
    · rw [hs]
      exact ⟨h.user, h.invite⟩
    refine ⟨h.user, fun i hi ↦ ?_⟩
    rcases (hmem i).mp hi with hi | rfl
    · exact h.invite i hi
    · exact hid _ rfl
  | consumeInvite tokenHash now =>
    refine ⟨h.user, fun i hi ↦ ?_⟩
    obtain ⟨i₀, hi₀, rfl⟩ := mem_invites_consumeInvite.mp hi
    have hold := h.invite i₀ hi₀
    split <;> exact hold
  | deleteInvitesOf userId =>
    exact ⟨h.user, fun i hi ↦ h.invite i (mem_invites_deleteInvitesOf.mp hi).1⟩
  | _ => exact ⟨h.user, h.invite⟩

theorem Sound.perform (h : Sound s) {config : Config} {K : Set Known} (hK : ∀ x ∈ K, x.Holds s)
    (o : Outside) (hallowed : (telling config).allowed K q) : Sound (perform o q s).2 := by
  have hwf := h.wellformed.perform (fun x hx ↦ hK (.fact x) hx) o hallowed.1
  by_cases hq : ∃ st, q = .sql st
  · obtain ⟨st, rfl⟩ := hq
    cases hf : o.fault with
    | some e => rwa [perform_sql_fault hf]
    | none =>
      rw [perform_sql_ok hf] at hwf ⊢
      obtain ⟨huser, hinvite⟩ := h.user_exec st fun id hid ↦ hK _ (hallowed.2 id hid)
      exact ⟨hwf, huser, hinvite⟩
  · have htables := perform_tables (fun st hst ↦ hq ⟨st, hst⟩) s (o := o)
    refine ⟨hwf, ?_, ?_⟩
    · rw [htables.1]
      exact h.user
    · rw [htables.2.1]
      exact h.invite

end Stays

theorem sound_telling (config : Config) :
    (telling config).Sound perform Known.Holds Sound where
  stable := Known.stable
  learnt o q _ h := h.teaches o q
  keeps o _ _ _ hK hallowed h := h.perform hK o hallowed

/-! ## What responses say -/

variable {config : Config} {crates : Crates} {known known' : Known → Prop} {K : Set Known}
  {req : Request}

/-- The ids of projects, releases and users that a response names are known.  The blob of an invite
names a project of this server, if any. -/
def Response.Backed (config : Config) (crates : Crates) (known : Known → Prop)
    (response : Response) : Prop :=
  match response.body with
  | .redeemInvite keyId => known (.userId keyId)
  | .whoami _ _ projectId _ => ∀ id ∈ projectId, known (.project id)
  | .project p => known (.project p.id)
  | .projects ps => ∀ p ∈ ps, known (.project p.id)
  | .createUser userId blob _ => known (.userId userId) ∧ ∃ invite : InvitePayload,
      blob = invite.encode crates ∧ invite.serverUrl = config.serverUrl ∧
        invite.userId = userId ∧ ∀ project ∈ invite.project, known (.project project.id)
  | .release r => known (.release r.id r.projectId)
  | .releases rs => ∀ r ∈ rs, known (.release r.id r.projectId)
  | .empty | .text _ | .users _ => True

theorem Response.Backed.mono {response : Response} (h : response.Backed config crates known)
    (hle : ∀ x, known x → known' x) : response.Backed config crates known' := by
  rcases response with ⟨status, body⟩
  cases body with
  | whoami | projects | releases => exact fun x hx ↦ hle _ (h x hx)
  | redeemInvite | project | release => exact hle _ h
  | createUser =>
    obtain ⟨hid, invite, hblob, hurl, huser, hproject⟩ := h
    exact ⟨hle _ hid, invite, hblob, hurl, huser, fun project hp ↦ hle _ (hproject project hp)⟩
  | empty | text | users => exact trivial

/-- The body is a text, if there is one. -/
def Response.Plain (response : Response) : Prop :=
  response.body = .empty ∨ ∃ s, response.body = .text s

theorem Response.Plain.backed {response : Response} (h : response.Plain) :
    response.Backed config crates known := by
  rw [Response.Backed]
  rcases h with hempty | ⟨s, hs⟩
  · rw [hempty]
    exact trivial
  · rw [hs]
    exact trivial

theorem plain_text (status : ℕ) (s : String) : (Response.text status s).Plain := .inr ⟨s, rfl⟩

theorem plain_empty (status : ℕ) : (⟨status, .empty⟩ : Response).Plain := .inl rfl

/-- The extractors reject requests with texts. -/
structure Crates.RejectPlainly (crates : Crates) : Prop where
  redeemInvite : ∀ req response, crates.jsonRedeemInvite req = .error response → response.Plain
  createProject : ∀ req response, crates.jsonCreateProject req = .error response → response.Plain
  createUser : ∀ req response, crates.jsonCreateUser req = .error response → response.Plain
  createRelease : ∀ query response,
    crates.queryCreateRelease query = .error response → response.Plain

/-! ## What requests are answered -/

/-- The program rests on what it knows, and so does its response. -/
abbrev Tells (config : Config) (crates : Crates) (K : Set Known) (p : Task Response) : Prop :=
  p.Follows (telling config) (fun K response ↦ response.Backed config crates (· ∈ K)) K

/-- An operation that needs no knowledge and stores no user id. -/
def Op.Idle (q : Op) : Prop := q.Harmless ∧ q.userId = none

theorem telling_of_idle {q : Op} (h : q.Idle) : (telling config).allowed K q := by
  refine ⟨allowed_of_harmless q h.1, ?_⟩
  rw [h.2]
  simp

theorem tells_ret {response : Response} (h : response.Plain) :
    Tells config crates K (.ret response) := h.backed

theorem tells_op {q : Op} {k : q.Reply → Task Response} (hq : q.Idle)
    (h : ∀ r, Tells config crates (K ∪ teaches q r) (k r)) : Tells config crates K (.op q k) :=
  ⟨telling_of_idle hq, h⟩

theorem tells_extract {α : Type} {found : Except Response α} {f : α → Task Response}
    (herror : ∀ response, found = .error response → response.Plain)
    (h : ∀ a, found = .ok a → Tells config crates K (f a)) :
    Tells config crates K (extract found f) := by
  cases found with
  | error response => exact tells_ret (herror response rfl)
  | ok a => exact h a rfl

theorem callerExtension_plain {response : Response}
    (h : req.callerExtension = .error response) : response.Plain := by
  rw [Request.callerExtension] at h
  split at h
  · cases h
  · rw [← Except.error.inj h]
    exact plain_text ..

theorem pathParam_plain {name raw : String} {response : Response}
    (h : pathParam name raw = .error response) : response.Plain := by
  rw [pathParam] at h
  split at h
  · cases h
  · rw [← Except.error.inj h]
    exact plain_text ..

/-! ### Reading -/

theorem tells_whoami (hcaller : ∀ user ∈ req.caller, ∀ id ∈ user.projectId, .project id ∈ K) :
    Tells config crates K (whoami req) := by
  refine tells_extract (fun _ ↦ callerExtension_plain) fun caller hfound ↦ ?_
  have hproject : ∀ id ∈ caller.projectId, .project id ∈ K := by
    rw [Request.callerExtension] at hfound
    split at hfound
    · rename_i user huser
      obtain rfl := Except.ok.inj hfound
      exact hcaller user huser
    · cases hfound
  cases hscope : caller.projectId with
  | none => exact fun id hid ↦ by cases hid
  | some projectId =>
    simp only [Db.projectById_run]
    refine tells_op ⟨trivial, rfl⟩ fun r ↦ ?_
    cases r with
    | error e => exact tells_ret (plain_empty _)
    | ok rows =>
      intro id hid
      obtain rfl := Option.some.inj hid
      exact .inl (hproject _ hscope)

theorem tells_listUsers : Tells config crates K (listUsers req) := by
  refine tells_extract (fun _ ↦ callerExtension_plain) fun caller _ ↦ ?_
  split
  · exact tells_ret (plain_text ..)
  · refine tells_op ⟨trivial, rfl⟩ fun r ↦ ?_
    cases r with
    | error e => exact tells_ret (plain_empty _)
    | ok users => exact trivial

theorem tells_listProjects : Tells config crates K (listProjects req) := by
  refine tells_extract (fun _ ↦ callerExtension_plain) fun caller _ ↦
    tells_op ⟨trivial, rfl⟩ fun r ↦ ?_
  cases r with
  | error e => exact tells_ret (plain_empty _)
  | ok projects => exact fun p hp ↦ .inr ⟨p, (List.mem_filter.mp hp).1, rfl⟩

theorem tells_removeUser (name : String) : Tells config crates K (removeUser name req) := by
  refine tells_extract (fun _ ↦ callerExtension_plain) fun caller _ ↦
    tells_extract (fun _ ↦ pathParam_plain) fun name _ ↦ ?_
  split
  · exact tells_ret (plain_text ..)
  · rw [Db.removeUser_run]
    refine tells_op ⟨trivial, rfl⟩ fun r ↦ ?_
    rcases r with e | _ | ⟨userId, userIds⟩
    · exact tells_ret (plain_empty _)
    · exact tells_ret (plain_text ..)
    · refine tells_op ⟨trivial, rfl⟩ fun r ↦ ?_
      cases r with
      | error e => exact tells_ret (plain_empty _)
      | ok n =>
        refine tells_op ⟨trivial, rfl⟩ fun r ↦ ?_
        cases r <;> exact tells_ret (plain_empty _)

/-- Reading a row keeps its ids. -/
theorem mem_mapM_releaseOfRow {rows : List ReleaseRow} {releases : List Release}
    (h : rows.mapM Db.releaseOfRow = .ok releases) {release : Release} (hmem : release ∈ releases) :
    ∃ row ∈ rows, row.id = release.id ∧ row.projectId = release.projectId := by
  induction rows generalizing releases with
  | nil =>
    obtain rfl := Except.ok.inj h
    cases hmem
  | cons row rows ih =>
    rw [List.mapM_cons] at h
    cases hrow : Db.releaseOfRow row with
    | error e => simp [hrow, Bind.bind, Except.bind] at h
    | ok first =>
    cases hrest : rows.mapM Db.releaseOfRow with
    | error e => simp [hrow, hrest, Bind.bind, Except.bind] at h
    | ok rest =>
      obtain rfl : first :: rest = releases := by
        simpa [hrow, hrest, Bind.bind, Except.bind, Pure.pure, Except.pure] using h
      rcases List.mem_cons.mp hmem with rfl | hmem
      · refine ⟨row, List.mem_cons_self, ?_⟩
        rw [Db.releaseOfRow] at hrow
        split at hrow
        · rw [← Except.ok.inj hrow]
          exact ⟨rfl, rfl⟩
        · cases hrow
      · obtain ⟨row', hrow', hsame⟩ := ih hrest hmem
        exact ⟨row', List.mem_cons_of_mem _ hrow', hsame⟩

theorem tells_confirm {caller : AuthUser} {projectId : String} {f : Task Response}
    (h : ∀ K', K ⊆ K' → .project projectId ∈ K' → Tells config crates K' f) :
    Tells config crates K ((confirmProjectAccess caller projectId).bind fun
      | .error response => .ret response
      | .ok () => f) := by
  rw [confirmProjectAccess]
  split
  · exact tells_ret (plain_text ..)
  · rw [Db.projectById_run]
    refine tells_op ⟨trivial, rfl⟩ fun r ↦ ?_
    rcases r with e | _ | ⟨p, ps⟩
    · exact tells_ret (plain_empty _)
    · exact tells_ret (plain_text ..)
    · exact h _ Set.subset_union_left (.inr ⟨p, List.mem_cons_self, .inl rfl⟩)

theorem tells_listReleases (raw : String) : Tells config crates K (listReleases raw req) := by
  refine tells_extract (fun _ ↦ callerExtension_plain) fun caller _ ↦
    tells_extract (fun _ ↦ pathParam_plain) fun projectId _ ↦ ?_
  refine tells_confirm fun K' _ _ ↦ ?_
  rw [Db.listReleases_run]
  refine tells_op ⟨trivial, rfl⟩ fun r ↦ ?_
  cases r with
  | error e => exact tells_ret (plain_empty _)
  | ok rows =>
    simp only [Prog.bind]
    cases hread : rows.mapM Db.releaseOfRow with
    | error e => exact tells_ret (plain_empty _)
    | ok releases =>
      intro release hrelease
      obtain ⟨row, hrow, hid, hproject⟩ := mem_mapM_releaseOfRow hread hrelease
      exact .inr ⟨row, hrow, by rw [hid, hproject]⟩

/-! ### Creating projects and releases -/

/-- A project that is inserted with a valid id and name is known. -/
theorem rests_insertProject {name projectId : String} {now : ℕ}
    (hid : isValidProjectId projectId = true) (hname : isValidProjectName name = true) :
    (Db.insertProject name now projectId).Follows (telling config)
      (fun K r ↦ ∀ p, r = .ok (some p) → .project p.id ∈ K) K := by
  refine ⟨⟨⟨hid, hname⟩, by simp [Op.userId]⟩, fun r ↦ ?_⟩
  rcases r with e | n
  · rintro p ⟨⟩
  · rintro p ⟨⟩
    exact .inr rfl

theorem rests_createProject {name : String} {id : Option String} {now : ℕ}
    (hid : ∀ id' ∈ id, isValidProjectId id' = true) (hname : isValidProjectName name = true) :
    (Db.createProject name id now).run.Follows (telling config)
      (fun K r ↦ ∀ p, r = .ok (some p) → .project p.id ∈ K) K := by
  rw [Db.createProject_run]
  refine ⟨telling_of_idle ⟨trivial, rfl⟩, fun r ↦ ?_⟩
  rcases r with e | _ | ⟨p, ps⟩
  · rintro p ⟨⟩
  · cases id with
    | none =>
      refine ⟨telling_of_idle ⟨trivial, rfl⟩, fun bs ↦ ?_⟩
      exact rests_insertProject (isValidProjectId_minted bs.property) hname
    | some id =>
      refine ⟨telling_of_idle ⟨trivial, rfl⟩, fun r ↦ ?_⟩
      rcases r with e | _ | ⟨p, ps⟩
      · rintro p ⟨⟩
      · exact rests_insertProject (hid id rfl) hname
      · rintro p ⟨⟩
  · rintro p ⟨⟩

theorem tells_createProject (hreject : crates.RejectPlainly) :
    Tells config crates K (createProject crates req) := by
  refine tells_extract (fun _ ↦ callerExtension_plain) fun caller _ ↦
    tells_extract (hreject.createProject req) fun request _ ↦ ?_
  split
  · exact tells_ret (plain_text ..)
  split
  · exact tells_ret (plain_text ..)
  rename_i hname
  split
  · exact tells_ret (plain_text ..)
  rename_i hid
  have hvalid : ∀ id ∈ request.id, isValidProjectId id = true := fun id hmem ↦ by
    simpa [Option.mem_def.mp hmem] using hid
  refine tells_op ⟨trivial, rfl⟩ fun now ↦ ?_
  show Tells config crates _ (Prog.bind (Db.createProject request.name request.id now).run _)
  refine Follows.bind (rests_createProject hvalid (by simpa using hname)) fun K' r _ hr ↦ ?_
  rcases r with e | _ | project
  · exact tells_ret (plain_empty _)
  · exact tells_ret (plain_text ..)
  · exact hr project rfl

/-- Storing a release needs no more than its row. -/
theorem tells_storeRelease {projectId : String} {release : Release}
    (h : .release release.id projectId ∈ K) :
    Tells config crates K (storeRelease config crates projectId release req) := by
  have hanswer : (storeRelease config crates projectId release req).Does (fun _ ↦ True)
      fun response ↦ response.Plain ∨ ∃ r, response.body = .release r ∧ r.id = release.id ∧
        r.projectId = projectId := by
    rw [storeRelease_eq_bind]
    refine Does.bind (Does.of_anything _) fun unpacked _ ↦ ?_
    rw [finishRelease_run]
    refine ⟨trivial, fun now ↦ ⟨trivial, fun _ ↦ ?_⟩⟩
    cases unpacked with
    | error e => exact .inl (plain_text ..)
    | ok _ => exact .inr ⟨_, rfl, rfl, rfl⟩
  refine Follows.of_does_known ((storeRelease_does config projectId release req).and hanswer) ?_ ?_
  · rintro q ⟨hq, -⟩
    cases q with
    | fs f => exact ⟨⟨release.id, projectId, h, FsOp.in_of_stores hq⟩, by simp [Op.userId]⟩
    | sql st => cases hq <;> exact telling_of_idle ⟨trivial, rfl⟩
    | _ => exact telling_of_idle ⟨trivial, rfl⟩
  · rintro K' response hK ⟨-, hplain | ⟨r, hr, hid, hproject⟩⟩
    · exact hplain.backed
    · rw [Response.Backed, hr]
      show Known.release r.id r.projectId ∈ K'
      rw [hid, hproject]
      exact hK h

theorem tells_createRelease (hreject : crates.RejectPlainly) (raw : String) :
    Tells config crates K (createRelease config crates raw req) := by
  refine tells_extract (fun _ ↦ callerExtension_plain) fun caller _ ↦
    tells_extract (fun _ ↦ pathParam_plain) fun projectId _ ↦
    tells_extract (hreject.createRelease _) fun message _ ↦ ?_
  refine tells_confirm fun K' _ hproject ↦ ?_
  refine tells_op ⟨trivial, rfl⟩ fun now ↦ tells_op ⟨trivial, rfl⟩ fun bs ↦ ?_
  refine ⟨⟨⟨.inl (.inl hproject), bs.val, bs.property, rfl⟩, by simp [Op.userId]⟩, fun r ↦ ?_⟩
  cases r with
  | error e => exact tells_ret (plain_empty _)
  | ok n => exact tells_storeRelease (.inr rfl)

/-! ### Enrolling users -/

theorem serverName_idle : serverName.run.Does Op.Idle fun _ ↦ True := by
  refine ⟨⟨trivial, rfl⟩, fun r ↦ ?_⟩
  cases r with
  | some name => exact trivial
  | none =>
    refine ⟨⟨trivial, rfl⟩, fun r ↦ ?_⟩
    cases r <;> exact trivial

/-- What is minted for a user: its id, and the blob of an invite to this server. -/
def MintedInvite.Minted (crates : Crates) (serverUrl : String) (project : Option InviteProject)
    (K : Set Known) (minted : MintedInvite) : Prop :=
  .userId minted.userId ∈ K ∧ ∃ invite : InvitePayload, minted.blob = invite.encode crates ∧
    invite.serverUrl = serverUrl ∧ invite.userId = minted.userId ∧ invite.project = project

theorem rests_mintInvite {serverUrl name : String} {project : Option InviteProject}
    (h : ∀ id ∈ project.map InviteProject.id, .project id ∈ K) :
    (mintInvite crates serverUrl name project).run.Follows (telling config)
      (fun K r ↦ ∀ minted, r = .ok (some minted) → minted.Minted crates serverUrl project K) K := by
  rw [mintInvite_run]
  cases validatedName name with
  | error e => rintro minted ⟨⟩
  | ok name =>
    refine Follows.bind (χ := fun _ _ ↦ True)
      (Follows.of_does serverName_idle (fun _ ↦ telling_of_idle) fun _ _ ↦ id) fun K' r hK _ ↦ ?_
    cases r with
    | error e => rintro minted ⟨⟩
    | ok serverName =>
      refine ⟨telling_of_idle ⟨trivial, rfl⟩, fun token ↦ ⟨telling_of_idle ⟨trivial, rfl⟩,
        fun now ↦ ⟨telling_of_idle ⟨trivial, rfl⟩, fun r ↦ ?_⟩⟩⟩
      rcases r with e | _ | ⟨u, us⟩
      · rintro minted ⟨⟩
      · refine ⟨telling_of_idle ⟨trivial, rfl⟩, fun bs ↦
          ⟨⟨fun id hmem ↦ .inl (.inl (.inl (.inl (hK (h id hmem))))), ?_⟩, fun r ↦ ?_⟩⟩
        · rintro id ⟨⟩
          exact .inr rfl
        cases r with
        | error e => rintro minted ⟨⟩
        | ok n =>
          refine ⟨⟨trivial, ?_⟩, fun r ↦ ?_⟩
          · rintro id ⟨⟩
            exact .inl (.inr rfl)
          cases r with
          | error e => rintro minted ⟨⟩
          | ok n =>
            rintro minted ⟨⟩
            exact ⟨.inl (.inl (.inr rfl)), _, rfl, rfl, rfl, rfl⟩
      · rintro minted ⟨⟩

/-- The blob that is answered is that of an invite to a project that was found. -/
theorem tells_mintInvite {name : String} {project : Option InviteProject}
    (h : ∀ id ∈ project.map InviteProject.id, .project id ∈ K)
    {f : Except Error (Option MintedInvite) → Task Response}
    (hminted : ∀ minted, f (.ok (some minted)) =
      .ret (.json (.createUser minted.userId minted.blob minted.expiresAt)))
    (htaken : ∃ response : Response, f (.ok none) = .ret response ∧ response.Plain)
    (herror : ∀ e, f (.error e) = .ret internalServerError) :
    Tells config crates K ((mintInvite crates config.serverUrl name project).run.bind f) := by
  refine Follows.bind (rests_mintInvite h) fun K' r hK hr ↦ ?_
  rcases r with e | _ | minted
  · rw [herror]
    exact tells_ret (plain_empty _)
  · obtain ⟨response, hf, hplain⟩ := htaken
    rw [hf]
    exact tells_ret hplain
  · rw [hminted]
    obtain ⟨hid, invite, hblob, hurl, huser, rfl⟩ := hr minted rfl
    refine ⟨hid, invite, hblob, hurl, huser, fun project hproject ↦ hK (h project.id ?_)⟩
    exact Option.mem_map_of_mem _ hproject

theorem tells_createUser (hreject : crates.RejectPlainly) :
    Tells config crates K (createUser config crates req) := by
  refine tells_extract (fun _ ↦ callerExtension_plain) fun caller _ ↦
    tells_extract (hreject.createUser req) fun request _ ↦ ?_
  split
  · exact tells_ret (plain_text ..)
  split
  · exact tells_ret (plain_text ..)
  cases request.projectId with
  | none => exact tells_mintInvite (by simp) (fun _ ↦ rfl) ⟨_, rfl, plain_text ..⟩ fun _ ↦ rfl
  | some id =>
    simp only [Db.projectById_run]
    refine tells_op ⟨trivial, rfl⟩ fun r ↦ ?_
    rcases r with e | _ | ⟨p, ps⟩
    · exact tells_ret (plain_empty _)
    · exact tells_ret (plain_text ..)
    · refine tells_mintInvite (?_ : ∀ id ∈ (some (⟨p.id, p.name⟩ : InviteProject)).map
        InviteProject.id, _) (fun _ ↦ rfl) ⟨_, rfl, plain_text ..⟩ fun _ ↦ rfl
      intro id hid
      obtain rfl : p.id = id := by simpa using hid
      exact .inr ⟨p, List.mem_cons_self, .inr rfl⟩

theorem tells_redeemInvite (hreject : crates.RejectPlainly) :
    Tells config crates K (redeemInvite crates req) := by
  rw [redeemInvite_eq]
  refine tells_extract (hreject.redeemInvite req) fun request _ ↦ ?_
  split
  · exact tells_ret (plain_text ..)
  refine tells_op ⟨trivial, rfl⟩ fun now ↦ ?_
  rw [Db.redeemInvite_run]
  refine tells_op ⟨trivial, rfl⟩ fun r ↦ ?_
  rcases r with e | _ | n
  · exact tells_ret (plain_empty _)
  · exact tells_ret (plain_text ..)
  refine tells_op ⟨trivial, rfl⟩ fun r ↦ ?_
  rcases r with e | _ | ⟨userId, userIds⟩
  · exact tells_ret (plain_empty _)
  · exact tells_ret (plain_empty _)
  refine tells_op ⟨trivial, rfl⟩ fun r ↦ ?_
  cases r with
  | error e => exact tells_ret (plain_empty _)
  | ok n => exact .inl (.inr ⟨userId, List.mem_cons_self, rfl⟩)

/-! ### Requests -/

/-- The project of the caller, if it has one, is known. -/
def Request.CallerKnown (K : Set Known) (req : Request) : Prop :=
  ∀ user ∈ req.caller, ∀ id ∈ user.projectId, .project id ∈ K

theorem tells_buffered {handler : Handler} (hreject : crates.RejectPlainly)
    (h : Buffered config crates handler) (hcaller : req.CallerKnown K) :
    Tells config crates K (handler req) := by
  cases h with
  | root => exact tells_ret (plain_text ..)
  | listProjects => exact tells_listProjects
  | createProject => exact tells_createProject hreject
  | listUsers => exact tells_listUsers
  | createUser => exact tells_createUser hreject
  | removeUser name => exact tells_removeUser name
  | whoami => exact tells_whoami hcaller
  | methodNotAllowed => exact tells_ret (plain_empty _)

theorem tells_streamed {handler : Handler} (hreject : crates.RejectPlainly)
    (h : Streamed config crates handler) : Tells config crates K (handler req) := by
  cases h with
  | listReleases projectId => exact tells_listReleases projectId
  | createRelease projectId => exact tells_createRelease hreject projectId
  | methodNotAllowed => exact tells_ret (plain_empty _)

theorem tells_protected {handler : Handler} (hreject : crates.RejectPlainly) {req' : Request}
    (h : (protectedRoutes config crates).find req = some handler) (hcaller : req'.CallerKnown K) :
    Tells config crates K (handler req') := by
  obtain ⟨next, hnext, rfl⟩ | hstreamed := protectedRoutes_cases h
  · rw [verifyBodyHash]
    split
    · exact tells_buffered hreject hnext hcaller
    split
    · exact tells_ret (plain_text ..)
    split
    · exact tells_ret (plain_text ..)
    · exact tells_buffered hreject hnext hcaller
  · exact tells_streamed hreject hstreamed

/-- The check passes a request on with a caller it has read off the tables. -/
theorem rests_checkedRequest (req : Request) :
    (checkedRequest crates req).run.Follows (telling config)
      (fun K r ↦ ∀ req', r = .ok req' → req'.CallerKnown K) K := by
  rw [checkedRequest_run]
  cases req.signedHead with
  | error e => rintro req' ⟨⟩
  | ok head =>
    refine ⟨telling_of_idle ⟨trivial, rfl⟩, fun now ↦ ?_⟩
    dsimp only
    split
    · rintro req' ⟨⟩
    refine ⟨telling_of_idle ⟨trivial, rfl⟩, fun r ↦ ?_⟩
    rcases r with e | _ | ⟨⟨publicKey, id, name, projectId⟩, rows⟩
    · rintro req' ⟨⟩
    · rintro req' ⟨⟩
    dsimp only
    cases verifyHead crates req head publicKey with
    | error e => rintro req' ⟨⟩
    | ok _ =>
      refine ⟨telling_of_idle ⟨trivial, rfl⟩, fun seen ↦ ?_⟩
      cases seen with
      | true => rintro req' ⟨⟩
      | false =>
        rintro req' ⟨⟩ user ⟨⟩ id hid
        exact .inl (.inr ⟨_, List.mem_cons_self, id, hid, rfl⟩)

theorem tells_serve {router : Router}
    (h : ∀ handler, router.find req = some handler → Tells config crates K (handler req)) :
    Tells config crates K (router.serve req) := by
  rw [Router.serve]
  cases hfind : router.find req with
  | none => exact tells_ret (plain_empty _)
  | some handler =>
    refine Follows.bind (h handler hfind) fun K' response _ hbacked ↦ ?_
    show (stripBody req.method response).Backed config crates (· ∈ K')
    rw [stripBody]
    split
    · exact trivial
    · exact hbacked

/-- **Every request tells what it knows**, on either listener. -/
theorem tells_prog (hreject : crates.RejectPlainly) (call : ApiRequest) :
    Tells config crates K (call.prog config crates) := by
  cases call with
  | signed req =>
    refine tells_serve fun handler h ↦ ?_
    rw [signedRoutes, Router.find_append, Router.find_routeLayer] at h
    rcases Option.or_eq_some_iff.mp h with h | ⟨-, h⟩
    · obtain ⟨next, hnext, rfl⟩ := Option.map_eq_some_iff.mp h
      show Tells config crates K (Prog.bind (checkedRequest crates req).run _)
      refine Follows.bind (rests_checkedRequest req) fun K' r _ hr ↦ ?_
      cases r with
      | error reason => exact tells_ret (plain_text ..)
      | ok req' => exact tells_protected hreject hnext (hr req' rfl)
    · obtain ⟨-, rfl⟩ | rfl | rfl := publicRoutes_cases h
      · exact tells_redeemInvite hreject
      · exact tells_ret (plain_text ..)
      · exact tells_ret (plain_empty _)
  | admin req =>
    refine tells_serve fun handler h ↦ ?_
    rw [adminRoutes, Router.find_routeLayer] at h
    obtain ⟨next, hnext, rfl⟩ := Option.map_eq_some_iff.mp h
    refine tells_protected hreject hnext ?_
    rintro user ⟨⟩ id ⟨⟩

/-! ## Answers stay true -/

/-- **What has been answered stays true.**  In every state that requests on either listener bring an
empty database to, under every interleaving of what they ask for, and in every state after it, the
ids that a request was answered with are good.  Projects that were listed or created, and that
somebody is confirmed to be scoped to, exist; releases exist for their projects; the ids of users
are minted; and an invite is to this server, and names a project that exists on it, if any. -/
theorem answers_stay_true (config : Config) (crates : Crates) (hreject : crates.RejectPlainly)
    {c c' : ApiPool}
    (h : Reaches perform (ApiRequest.prog config crates) (fun _ _ ↦ True) ⟨Server.fresh, []⟩ c)
    (hlater : Reaches perform (ApiRequest.prog config crates) (fun _ _ ↦ True) c c') {i : ℕ}
    {t : Thread ApiRequest Op Op.Reply Response} (hi : c.threads[i]? = some t)
    {response : Response} (hreturned : t.Returned response) :
    response.Backed config crates fun x ↦ x.Holds c'.shared := by
  have hprog : ∀ call : ApiRequest, Tells config crates ∅ (call.prog config crates) :=
    tells_prog hreject
  obtain ⟨hsound, -, hthreads⟩ := h.backed (sound_telling config) hprog sound_fresh (by simp)
  obtain ⟨K, hK, hcode⟩ := hthreads t (List.mem_of_getElem? hi)
  rw [hreturned] at hcode
  obtain ⟨-, hkept, -⟩ := hlater.backed (sound_telling config) hprog hsound hthreads
  exact Response.Backed.mono hcode fun x hx ↦ hkept x (hK x hx)

/-! ## An invite to a project -/

section Sample

/-- The body that asks for a user of the project, named `bob`. -/
def bobBody : Bytes :=
  Encoding.asBytes "\x7b\"name\":\"bob\",\"project_id\":\"prj_0000000000000000\"\x7d"

/-- Of the bodies of requests to create a user, only that one can be read. -/
def bobCrates : Crates :=
  { webCrates with
    jsonCreateUser := fun req ↦
      if bodyBytes req.body = some bobBody then .ok ⟨"bob", some "prj_0000000000000000"⟩
      else .error missingJsonContentType }

/-- The project is created, and then the user. -/
def bobInvited : List (Act Outside ApiRequest) :=
  .spawn (.admin { method := "POST", pathAndQuery := some "/api/projects"
                   body := [.data webBody] }) ::
    List.replicate 4 (.step 0 {}) ++
  .spawn (.admin { method := "POST", pathAndQuery := some "/api/users"
                   body := [.data bobBody] }) ::
    List.replicate 9 (.step 1 {})

/-- The user is removed. -/
def bobRemoved : List (Act Outside ApiRequest) :=
  .spawn (.admin { method := "DELETE", pathAndQuery := some "/api/users/bob" }) ::
    List.replicate 3 (.step 2 {})

/-- The blob a request was answered with. -/
def answeredBlob (c : ApiPool) (i : ℕ) : Option String :=
  (c.threads[i]?).bind fun t ↦
    match t.code with
    | .ret ⟨_, .createUser _ blob _⟩ => some blob
    | _ => none

theorem answeredBlob_eq_some {c : ApiPool} {i : ℕ} {blob : String}
    (h : answeredBlob c i = some blob) : ∃ t status userId expiresAt, c.threads[i]? = some t ∧
      t.Returned ⟨status, .createUser userId blob expiresAt⟩ := by
  obtain ⟨t, ht, hblob⟩ := Option.bind_eq_some_iff.mp h
  split at hblob
  · rename_i hcode
    obtain rfl := Option.some.inj hblob
    exact ⟨t, _, _, _, ht, hcode⟩
  · cases hblob

theorem bobCrates_rejectPlainly : bobCrates.RejectPlainly where
  redeemInvite _ _ h := by
    obtain rfl := Except.error.inj h
    exact plain_text ..
  createProject req _ h := by
    dsimp only [bobCrates, webCrates] at h
    split at h
    · cases h
    · rw [← Except.error.inj h]
      exact plain_text ..
  createUser req _ h := by
    dsimp only [bobCrates] at h
    split at h
    · cases h
    · rw [← Except.error.inj h]
      exact plain_text ..
  createRelease _ _ h := by cases h

theorem answers_stay_true_bobRemoved :
    ∃ c ∈ (⟨.fresh, []⟩ : ApiPool).run? perform (ApiRequest.prog webConfig bobCrates) bobInvited,
      ∃ c' ∈ c.run? perform (ApiRequest.prog webConfig bobCrates) bobRemoved,
        c'.shared.users.rows = [] ∧ ∃ invite : InvitePayload,
          answeredBlob c 1 = some (invite.encode bobCrates) ∧
            ∀ project ∈ invite.project, ∃ p ∈ c'.shared.projects, p.id = project.id := by
  obtain ⟨c, hc, c', hc', blob, hblob, husers⟩ :
      ∃ c ∈ (⟨.fresh, []⟩ : ApiPool).run? perform (ApiRequest.prog webConfig bobCrates) bobInvited,
        ∃ c' ∈ c.run? perform (ApiRequest.prog webConfig bobCrates) bobRemoved,
          ∃ blob, answeredBlob c 1 = some blob ∧ c'.shared.users.rows = [] := by
    have hrun : ((⟨.fresh, []⟩ : ApiPool).run? perform (ApiRequest.prog webConfig bobCrates)
        bobInvited).bind (fun c ↦ (c.run? perform (ApiRequest.prog webConfig bobCrates)
          bobRemoved).map fun c' ↦ ((answeredBlob c 1).isSome, c'.shared.users.rows.length))
          = some (true, 0) := by decide +kernel
    obtain ⟨c, hc, hrun⟩ := Option.bind_eq_some_iff.mp hrun
    obtain ⟨c', hc', hpair⟩ := Option.map_eq_some_iff.mp hrun
    obtain ⟨hsome, hlength⟩ := Prod.mk.inj hpair
    obtain ⟨blob, hblob⟩ := Option.isSome_iff_exists.mp hsome
    exact ⟨c, hc, c', hc', blob, hblob, List.eq_nil_of_length_eq_zero hlength⟩
  obtain ⟨t, status, userId, expiresAt, ht, hreturned⟩ := answeredBlob_eq_some hblob
  have hadm : ∀ (as : List (Act Outside ApiRequest)) (c : ApiPool), c.Admits perform
      (ApiRequest.prog webConfig bobCrates) (fun _ _ ↦ True) as :=
    Conf.admits_of_forall fun _ _ ↦ trivial
  obtain ⟨-, invite, rfl, -, -, hproject⟩ := answers_stay_true webConfig bobCrates
    bobCrates_rejectPlainly (Reaches.of_run? _ hc (hadm _ _)) (Reaches.of_run? _ hc' (hadm _ _)) ht
    hreturned
  exact ⟨c, hc, c', hc', husers, invite, hblob, hproject⟩

end Sample

end Railyard
