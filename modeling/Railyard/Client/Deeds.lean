import Railyard.Client.Home
import Railyard.Client.Relink
import Railyard.Client.Supersede
import Railyard.Client.Target
import Railyard.Enrolment.Accounts

/-!
# Whatever the client does

A client starts with nothing on disk, logs in, creates and links projects, and does so in any order
and with requests that fail at any point.  Its bindings lead home all the time.

* `Init.run`, `Login.run`: the two commands that come with a state of their own, among the others;
* `safe_init`, `moves_login`: they keep the bindings leading home;
* `Deed` is one of the commands, or what the servers do in between, and `bindings_lead_home` says
  what holds after any number of them.
-/

set_option autoImplicit false

namespace Client

open Data (Path Float64)
open Manifest (Project)
open Effects Encoding
open Railyard (ApiPool InvitePayload InviteProject ProjectRow Sound Server perform telling)

variable {F : Type} (site : Site F)

/-! ## Creating a project -/

/-- Everything as `init` takes it. -/
def World.machine (w : World) : Machine := ⟨w.files, w.store, fun url ↦ (w.servers url).shared, []⟩

/-- Everything as `init` leaves it. -/
def World.withMachine (w : World) (m : Machine) : World :=
  { w with
    files := m.files
    store := m.store
    servers := fun url ↦ { w.servers url with shared := m.servers url } }

/-- `railyard init` -/
def Init.run [Float64 F] (run : Invocation) : Command Error World Outcome := .act fun w ↦
  let (outcome, m) := init site.toWorkspace run w.machine
  (outcome, w.withMachine m)

/-- What happens to a server keeps what is known of it. -/
structure Meanwhile.Keeps (others : Meanwhile) : Prop where
  sound : ∀ s, Sound s → Sound (others.change s)
  kept : ∀ s (x : Railyard.Known), x.Holds s → x.Holds (others.change s)

section Init

variable {site} {m m' : Machine} {server : ServerConfig}

/-- Every run of the API does. -/
theorem Meanwhile.keeps_ofRun (hreject : site.crates.RejectPlainly) (url : String) (acts : Acts) :
    (Meanwhile.ofRun (site.config url) site.crates acts).Keeps := by
  have hchange : ∀ s, (Meanwhile.ofRun (site.config url) site.crates acts).change s =
      (site.serve url acts ⟨s, []⟩).shared := by
    intro s
    rw [Meanwhile.ofRun, Site.serve]
    dsimp only
    cases (⟨s, []⟩ : ApiPool).run? perform
      (Railyard.ApiRequest.prog (site.config url) site.crates) acts <;> rfl
  constructor
  · intro s hs
    rw [hchange]
    exact (serve_backs hreject acts (c := ⟨s, []⟩) ⟨hs, fun _ ht ↦ absurd ht List.not_mem_nil⟩).1
  · intro s x hx
    rw [hchange]
    exact serve_kept acts ⟨s, []⟩ x hx

/-- What happens to the server before a request keeps what is known of it. -/
def Fate.Keeps : Fate → Prop
  | .unsent _ => True
  | .lost others _ => others.Keeps
  | .answered others _ _ => others.Keeps

/-- The servers are sound, and what was known of them before is known still. -/
structure Machine.Since (m m' : Machine) : Prop where
  store : m'.store = m.store
  sound : ∀ url, Sound (m'.servers url)
  kept : ∀ url (x : Railyard.Known), x.Holds (m.servers url) → x.Holds (m'.servers url)

theorem Machine.Since.trans {m₁ m₂ m₃ : Machine} (h : m₁.Since m₂) (h' : m₂.Since m₃) :
    m₁.Since m₃ :=
  ⟨h'.store.trans h.store, h'.sound, fun url x hx ↦ h'.kept url x (h.kept url x hx)⟩

/-- The server of an entry has a project. -/
def Machine.Knows (m : Machine) (server : ServerConfig) (p : ProjectRow) : Prop :=
  (Railyard.Known.project p.id).Holds (m.servers server.serverUrl)

/-- One step of `init` that asks servers: it keeps what is known of them, and what it learns is so.
-/
def Learns {α : Type} (f : Machine → Except Error α × Machine) (Q : α → Machine → Prop) : Prop :=
  ∀ m, (∀ url, Sound (m.servers url)) → m.Since (f m).2 ∧ ∀ a, (f m).1 = .ok a → Q a (f m).2

theorem since_update {s : Server} (hm : ∀ url, Sound (m.servers url)) (hs : Sound s)
    (hkept : ∀ x : Railyard.Known, x.Holds (m.servers server.serverUrl) → x.Holds s)
    {sent : List (String × ProjectRequest)} : m.Since { m with
      servers := Function.update m.servers server.serverUrl s
      sent := sent } := by
  refine ⟨rfl, fun url ↦ ?_, fun url x hx ↦ ?_⟩
  all_goals
    dsimp only
    by_cases hurl : url = server.serverUrl
  · rw [hurl, Function.update_self]
    exact hs
  · rw [Function.update_of_ne hurl]
    exact hm url
  · subst hurl
    rw [Function.update_self]
    exact hkept x hx
  · rw [Function.update_of_ne hurl]
    exact hx

/-- The answer to a request says what is so of the server that was asked. -/
theorem learns_exchange (hreject : site.crates.RejectPlainly) (server : ServerConfig)
    (request : ProjectRequest) {fate : Fate} (hfate : fate.Keeps) :
    Learns (exchange site.toWorkspace server request fate) fun response m ↦
      response.Backed (site.config server.serverUrl) site.crates
        fun x ↦ x.Holds (m.servers server.serverUrl) := by
  intro m hm
  cases fate with
  | unsent e => exact ⟨⟨rfl, hm, fun _ _ ↦ id⟩, fun _ h ↦ by cases h⟩
  | lost others e =>
    exact ⟨since_update hm (hfate.sound _ (hm _)) (hfate.kept _), fun _ h ↦ by cases h⟩
  | answered others caller outside =>
    have htells : Railyard.Tells (site.config server.serverUrl) site.crates ∅
        (request.handler site.toWorkspace (request.arriving site.toWorkspace caller)) := by
      cases request with
      | list => exact Railyard.tells_listProjects
      | create request => exact Railyard.tells_createProject hreject
    obtain ⟨hsound, hkept, K, hK, hbacked⟩ := htells.run (Railyard.sound_telling _) outside
      (hfate.sound _ (hm server.serverUrl)) fun _ hx ↦ absurd hx (Set.notMem_empty _)
    refine ⟨since_update hm hsound fun x hx ↦ hkept x (hfate.kept _ x hx), ?_⟩
    rintro response hresponse
    rw [← Except.ok.inj hresponse]
    simp only [exchange, Function.update_self]
    exact hbacked.mono hK

/-- The two ways a step can end. -/
theorem Learns.cases {α : Type} {p : Machine → Except Error α × Machine}
    {P : α → Machine → Prop} (h : Learns p P) (hm : ∀ url, Sound (m.servers url)) :
    (∃ e m₁, p m = (.error e, m₁) ∧ m.Since m₁) ∨
      ∃ a m₁, p m = (.ok a, m₁) ∧ m.Since m₁ ∧ P a m₁ := by
  obtain ⟨hsince, hvalue⟩ := h m hm
  rcases hrun : p m with ⟨e | a, m₁⟩
  · rw [hrun] at hsince
    exact .inl ⟨e, m₁, rfl, hsince⟩
  · rw [hrun] at hsince hvalue
    exact .inr ⟨a, m₁, rfl, hsince, hvalue a rfl⟩

theorem learns_listProjects (hreject : site.crates.RejectPlainly) (server : ServerConfig)
    {fate : Fate} (hfate : fate.Keeps) :
    Learns (listProjects site.toWorkspace server fate) fun projects m ↦
      ∀ p ∈ projects, m.Knows server p := by
  intro m hm
  rw [listProjects]
  obtain ⟨e, m₁, hrun, hsince⟩ | ⟨response, m₁, hrun, hsince, hbacked⟩ :=
    (learns_exchange hreject server .list hfate).cases hm
  all_goals
    rw [hrun]
    dsimp only
  · exact ⟨hsince, fun _ h ↦ by cases h⟩
  split
  · exact ⟨hsince, fun _ h ↦ by cases h⟩
  split
  · rename_i projects hbody
    rw [Railyard.Response.Backed, hbody] at hbacked
    refine ⟨hsince, fun found hfound ↦ ?_⟩
    rw [← Except.ok.inj hfound]
    exact hbacked
  · exact ⟨hsince, fun _ h ↦ by cases h⟩

theorem learns_createProject (hreject : site.crates.RejectPlainly) (server : ServerConfig)
    (name : String) (id : Option String) {fate : Fate} (hfate : fate.Keeps) :
    Learns (createProject site.toWorkspace server name id fate) fun p m ↦ m.Knows server p := by
  intro m hm
  rw [createProject]
  obtain ⟨e, m₁, hrun, hsince⟩ | ⟨response, m₁, hrun, hsince, hbacked⟩ :=
    (learns_exchange hreject server (.create ⟨name, id⟩) hfate).cases hm
  all_goals
    rw [hrun]
    dsimp only
  · exact ⟨hsince, fun _ h ↦ by cases h⟩
  split
  · exact ⟨hsince, fun _ h ↦ by cases h⟩
  split
  · rename_i project hbody
    rw [Railyard.Response.Backed, hbody] at hbacked
    refine ⟨hsince, fun found hfound ↦ ?_⟩
    rw [← Except.ok.inj hfound]
    exact hbacked
  · exact ⟨hsince, fun _ h ↦ by cases h⟩

theorem learns_newProject (hreject : site.crates.RejectPlainly) {run : Invocation}
    (hcreation : run.creation.Keeps) (server : ServerConfig) (name : String)
    (id : Option String) : Learns (newProject site.toWorkspace run server name id)
      fun found m ↦ m.Knows server found.2 := by
  intro m hm
  rw [newProject]
  obtain ⟨e, m₁, hrun, hsince⟩ | ⟨p, m₁, hrun, hsince, hp⟩ :=
    (learns_createProject hreject server name id hcreation).cases hm
  all_goals
    rw [hrun]
    dsimp only
  · exact ⟨hsince, fun _ h ↦ by cases h⟩
  · refine ⟨hsince, fun found hfound ↦ ?_⟩
    rw [← Except.ok.inj hfound]
    exact hp

/-- **The project of a run** is on the server that was asked. -/
theorem learns_obtainProject (hreject : site.crates.RejectPlainly) {run : Invocation}
    (hlisting : run.listing.Keeps) (hcreation : run.creation.Keeps) (server : ServerConfig)
    (existingId : Option String) (serverName name : String) :
    Learns (obtainProject site.toWorkspace run existingId serverName server name)
      fun found m ↦ m.Knows server found.2 := by
  intro m hm
  cases existingId with
  | none => exact learns_newProject hreject hcreation server name none m hm
  | some id =>
    rw [obtainProject]
    obtain ⟨e, m₁, hrun, hsince⟩ | ⟨projects, m₁, hrun, hsince, hprojects⟩ :=
      (learns_listProjects hreject server hlisting).cases hm
    all_goals
      rw [hrun]
      dsimp only
    · exact ⟨hsince, fun _ h ↦ by cases h⟩
    have hnew : ∀ name id,
        m.Since (newProject site.toWorkspace run server name id m₁).2 ∧
          ∀ found, (newProject site.toWorkspace run server name id m₁).1 = .ok found →
            (newProject site.toWorkspace run server name id m₁).2.Knows server found.2 := by
      intro name id
      obtain ⟨hsince', hvalue⟩ := learns_newProject hreject hcreation server name id m₁
        hsince.sound
      exact ⟨hsince.trans hsince', hvalue⟩
    split
    · rename_i existing hfind
      rw [adoptProject]
      split
      · exact ⟨hsince, fun _ h ↦ by cases h⟩
      split
      · exact ⟨hsince, fun _ h ↦ by cases h⟩
      split
      · refine ⟨hsince, fun found hfound ↦ ?_⟩
        rw [← Except.ok.inj hfound]
        exact hprojects existing (List.mem_of_find?_eq_some hfind)
      split
      · split
        · exact ⟨hsince, fun _ h ↦ by cases h⟩
        · exact hnew _ none
      · exact hnew name none
    · exact hnew name (some id)

/-- A server that was resolved is that of an entry. -/
theorem entry_of_resolveServer {store : Store} {explicit : Option String} {name : String}
    (hexplicit : ∀ flag ∈ explicit, IsServerName flag)
    (h : resolveServer site.disk store explicit = .ok (name, server)) :
    store.entry name = some server := by
  cases explicit with
  | some flag =>
    obtain ⟨hname, hsep⟩ := hexplicit flag rfl
    simp only [resolveServer] at h
    split at h
    · rename_i found hread
      obtain ⟨rfl, rfl⟩ : flag = name ∧ found = server := by simpa using h
      rw [readServer, locate_entry site.disk.root hname hsep] at hread
      rw [Store.entry, show store.readServer flag = .ok found from hread]
      rfl
    · cases h
  | none =>
    simp only [resolveServer] at h
    split at h
    · cases h
    · rename_i found hlist
      obtain rfl := Except.ok.inj h
      refine Store.mem_listServers.mp ?_
      rw [hlist]
      exact List.mem_singleton_self _
    · cases h

/-- The entry that a run records. -/
theorem entry_of_resolveServerForInit {store : Store} {run : Invocation} {name : String}
    (hflag : ∀ flag ∈ run.server, IsServerName flag)
    (h : resolveServerForInit site.toWorkspace run store = .ok (name, server)) :
    store.entry name = some server := by
  rw [resolveServerForInit] at h
  split at h
  · exact entry_of_resolveServer hflag h
  · split at h
    · cases h
    · obtain hchosen := Except.ok.inj h
      refine Store.mem_listServers.mp ?_
      rw [← hchosen]
      exact List.get_mem ..

/-- **What a run comes to**: it leaves the bindings as they were, or records a project for an entry
whose server has it. -/
theorem init_since [Float64 F] (hreject : site.crates.RejectPlainly) {run : Invocation}
    (hlisting : run.listing.Keeps) (hcreation : run.creation.Keeps)
    (hflag : ∀ flag ∈ run.server, IsServerName flag) (m : Machine)
    (hm : ∀ url, Sound (m.servers url)) :
    ∃ m₁, m.Since m₁ ∧ ((init site.toWorkspace run m).2 = m₁ ∨
      ∃ name server project, m.store.entry name = some server ∧ m₁.Knows server project ∧
        (init site.toWorkspace run m).2 =
          { m₁ with store := (m₁.store.recordProjectBinding project.id name).2 }) := by
  have hleft : m.Since m := ⟨rfl, hm, fun _ _ ↦ id⟩
  rw [init]
  split
  · exact ⟨m, hleft, .inl rfl⟩
  rename_i opened _
  split
  · exact ⟨m, hleft, .inl rfl⟩
  · exact ⟨m, hleft, .inl rfl⟩
  split
  · exact ⟨m, hleft, .inl rfl⟩
  rename_i name _
  split
  · exact ⟨m, hleft, .inl rfl⟩
  rename_i serverName server hresolve
  obtain ⟨e, m₁, hobtain, hsince⟩ | ⟨⟨way, project⟩, m₁, hobtain, hsince, hknows⟩ :=
    (learns_obtainProject hreject hlisting hcreation server
      (opened.manifest.project.bind Project.id) serverName name).cases hm
  all_goals
    rw [hobtain]
    dsimp only
  · exact ⟨m₁, hsince, .inl rfl⟩
  · let manifest := opened.manifest.linkProject project.name project.id
    refine ⟨{ m₁ with
        files := Function.update m₁.files opened.path (.text (manifest.toJsonString site.text)) },
      ⟨hsince.store, hsince.sound, hsince.kept⟩, .inr ⟨serverName, server, project,
        entry_of_resolveServerForInit hflag hresolve, hknows, ?_⟩⟩
    split
    · rename_i e m₂ hlink
      exact (congrArg Prod.snd hlink).symm
    · rename_i m₂ hlink
      exact (congrArg Prod.snd hlink).symm

/-- What the servers become while a run asks them leaves the bindings leading home. -/
theorem Site.Home.since {w : World} (h : site.Home w) {m : Machine} (hm : w.machine.Since m) :
    site.Home (w.withMachine m) := by
  have honwards : site.Onwards w.servers (w.withMachine m).servers := by
    refine ⟨fun hsane url ↦ ⟨hm.sound url, fun t ht ↦ ?_⟩, fun url ↦ hm.kept url⟩
    obtain ⟨K, hK, hcode⟩ := (hsane url).2 t ht
    exact ⟨K, fun x hx ↦ hm.kept url x (hK x hx), hcode⟩
  have hmove : site.Onward w { w.withMachine m with files := w.files } := ⟨rfl, hm.store, honwards⟩
  obtain ⟨hready, hentries, hbound⟩ := Site.Homeward.of_onward hmove h
  exact ⟨hready, hentries, hbound⟩

/-- **`railyard init`** -/
theorem safe_init [Float64 F] (hreject : site.crates.RejectPlainly) {run : Invocation}
    (hlisting : run.listing.Keeps) (hcreation : run.creation.Keeps)
    (hflag : ∀ flag ∈ run.server, IsServerName flag) : site.Safe (Init.run site run) := by
  intro w hw
  suffices hhome : site.Home ((Init.run site run).start w).2 from
    ⟨fun _ ↦ hhome, fun _ _ ↦ hhome⟩
  obtain ⟨m, hsince, hleft | ⟨name, server, project, hentry, hknows, hrecorded⟩⟩ :=
    init_since hreject hlisting hcreation hflag w.machine fun url ↦ (hw.ready url).1
  · show site.Home (w.withMachine (init site.toWorkspace run w.machine).2)
    rw [hleft]
    exact hw.since hsince
  · show site.Home (w.withMachine (init site.toWorkspace run w.machine).2)
    rw [hrecorded]
    have hentry' : m.store.entry name = some server := by
      rw [hsince.store]
      exact hentry
    have hleads : Leads (w.withMachine m) project.id name := ⟨server, hentry', hknows⟩
    exact (hw.since hsince).record hleads

end Init

/-! ## Logging in -/

/-- `railyard login`, with a blob. -/
def Login.run (traffic : LoginTraffic) (blob : String) (name : Option String) (now : ℕ)
    (key : SigningKey) : Command Error World Unit := .act fun w ↦
  let (result, store, servers) :=
    (Target.loginBlob site.env (site.net traffic) .specified name now key w.store w.servers blob).1
  (result, { w with store := store, servers := servers })

/-- The blob of an invite to a project is what its server answered when the invite was made, with
whatever white space around it. -/
def HandedOut (w : World) (blob : String) : Prop :=
  ∀ invite, InvitePayload.parse .specified blob = .ok invite → invite.project.isSome →
    ∃ i response userId minted expiresAt before after,
      answerOf (w.servers invite.serverUrl) i = some response ∧
      response.body = .createUser userId minted expiresAt ∧ blob = before ++ minted ++ after ∧
      (∀ c ∈ before.toList, isWhitespace c = true) ∧ ∀ c ∈ after.toList, isWhitespace c = true

section Login

variable {site} {w : World} {invite : InvitePayload} {serverName id : String} {key : SigningKey}

/-- The server of an invite to a project has the project. -/
theorem HandedOut.hasProject (hcrates : site.crates.Specified) (hw : site.Ready w) {blob : String}
    (h : HandedOut w blob) (hparse : InvitePayload.parse .specified blob = .ok invite)
    {project : InviteProject} (hproject : invite.project = some project) :
    HasProject w.servers invite.serverUrl project.id := by
  obtain ⟨i, response, userId, minted, expiresAt, before, after, hanswer, hbody, rfl, hbefore,
    hafter⟩ := h invite hparse (by rw [hproject]; rfl)
  have hbacked := means_of_answerOf (hw invite.serverUrl) hanswer
  rw [Railyard.Response.Backed, hbody] at hbacked
  obtain ⟨-, invite', rfl, -, -, hbacked⟩ := hbacked
  rw [InvitePayload.parse_blob hcrates invite' hbefore hafter] at hparse
  have hsame := congrArg InvitePayload.project (Except.ok.inj hparse)
  exact hbacked project (hsame.trans hproject)

/-- The id of a user is one component of a path. -/
theorem noSeparator_of_isUserId {id : String} (h : Railyard.isUserId id) : '/' ∉ id.toList := by
  obtain ⟨bs, -, rfl⟩ := h
  intro hmem
  rw [String.toList_append] at hmem
  rcases List.mem_append.mp hmem with hmem | hmem
  · exact absurd hmem (by decide)
  · rcases mem_hexEncode hmem with hdigit | ⟨hlo, -⟩
    · exact absurd hdigit (by decide)
    · exact absurd hlo (by decide)

/-- Redeeming an invite keeps what is known of the servers, and the key id it gives is that of a
user. -/
theorem redeemInvite_onwards (hreject : site.crates.RejectPlainly) (traffic : LoginTraffic)
    (invite : InvitePayload) (publicKey : String) (servers : String → ApiPool) :
    site.Onwards servers (site.redeemInvite traffic invite publicKey servers).2 ∧
      (site.Sane servers → ∀ id,
        (site.redeemInvite traffic invite publicKey servers).1 = .ok id →
          Railyard.isUserId id) := by
  have hbefore : site.Onwards servers
      fun url ↦ site.serve url (traffic.before url) (servers url) := onwards_each hreject _
  rw [Site.redeemInvite]
  split
  · exact ⟨refl_of site.Onwards servers, fun _ _ h ↦ by cases h⟩
  rename_i url _
  obtain ⟨hmove, hmeans⟩ := deliver_onwards hreject invite.serverUrl
    (fun url ↦ site.serve url (traffic.before url) (servers url))
    (redeemRequest site url invite publicKey) traffic.redeem
  have honwards := trans_of site.Onwards hbefore hmove
  split
  · rename_i e servers' hdeliver
    rw [hdeliver] at honwards
    exact ⟨honwards, fun _ _ h ↦ by cases h⟩
  · rename_i response servers' hdeliver
    rw [hdeliver] at honwards hmeans
    split
    · split
      · rename_i keyId hbody
        refine ⟨honwards, fun hsane id hid ↦ ?_⟩
        rw [← Except.ok.inj hid]
        have hbacked := hmeans (hbefore.sane hsane) response rfl
        rw [Site.Means, Railyard.Response.Backed, hbody] at hbacked
        exact hbacked
      · exact ⟨honwards, fun _ _ h ↦ by cases h⟩
    · exact ⟨honwards, fun _ _ h ↦ by cases h⟩

theorem isServerName_of_sanitize {raw : String} (h : sanitizeServerName raw ≠ "") :
    IsServerName (sanitizeServerName raw) := by
  refine ⟨h, fun hmem ↦ ?_⟩
  rw [sanitizeServerName, String.toList_ofList, trimDashes] at hmem
  have hmapped := (List.dropWhile_suffix _).subset
    (List.mem_reverse.mp ((List.dropWhile_suffix _).subset (List.mem_reverse.mp hmem)))
  obtain ⟨c, -, hc⟩ := List.mem_map.mp hmapped
  split at hc
  · rename_i hplain
    rw [hc] at hplain
    revert hplain
    decide
  · revert hc
    decide

theorem isServerName_of_resolveServerName {env : Env} {explicit : Option String}
    (h : resolveServerName env explicit invite = .ok serverName) : IsServerName serverName := by
  cases explicit with
  | some raw =>
    rw [resolveServerName] at h
    split at h
    · cases h
    · rename_i hne
      rw [← Except.ok.inj h]
      exact isServerName_of_sanitize hne
  | none =>
    rw [resolveServerName] at h
    split at h
    · rename_i found hfind
      obtain rfl := Except.ok.inj h
      obtain ⟨raw, -, rfl⟩ := List.mem_map.mp (List.mem_of_find?_eq_some hfind)
      exact isServerName_of_sanitize (by simpa using List.find?_some hfind)
    · cases h

/-! ### The stores after it -/

/-- The new entry has the place of one for the same server, if of any. -/
theorem Site.Home.written (h : site.Home w) (hname : IsServerName serverName)
    (hid : '/' ∉ id.toList) (hfree : squatter w.store serverName invite = none) :
    site.Home { w with store := written site.env invite serverName id key w.store } := by
  have hkeys : AmongKeys site.disk.root (keyPath site.disk.root id) :=
    ⟨_, keyPath_of_simple site.disk.root hid⟩
  have hentry : ∀ name, (Client.written site.env invite serverName id key w.store).entry name =
      if serverName = name then some (newServer site.env invite id) else w.store.entry name :=
    entry_written hkeys.locate
  refine ⟨h.ready, fun name server hserver ↦ ?_, fun projectId name hbinding ↦ ?_⟩
  · have hserver' := (hentry name).symm.trans hserver
    split at hserver'
    · rename_i hsame
      rw [← hsame, ← Option.some.inj hserver']
      exact ⟨hname, hkeys⟩
    · exact h.entries name server hserver'
  · have hbound := (binding_written hkeys.locate projectId).symm.trans hbinding
    obtain ⟨server, hserver, hproject⟩ := h.bound projectId name hbound
    by_cases hsame : serverName = name
    · subst hsame
      have hurl : server.serverUrl = invite.serverUrl := by
        rw [squatter, hserver] at hfree
        simpa [Option.filter] using hfree
      refine ⟨newServer site.env invite id, (hentry serverName).trans (if_pos rfl), ?_⟩
      show HasProject w.servers invite.serverUrl projectId
      rw [← hurl]
      exact hproject
    · exact ⟨server, (hentry name).trans ((if_neg hsame).trans hserver), hproject⟩

/-- Superseding moves bindings to an entry for the same server. -/
theorem Site.Home.drops (h : site.Home w) {store' : Store} {admin : ServerConfig}
    {gone : List (String × ServerConfig)}
    (hadmin : w.store.entry serverName = some admin)
    (hgone : ∀ found ∈ gone, w.store.entry found.1 = some found.2 ∧ found.1 ≠ serverName ∧
      found.2.serverUrl = admin.serverUrl)
    (hdrops : Drops site.disk.root serverName gone w.store store') :
    site.Home { w with store := store' } := by
  have hstays : serverName ∉ gone.map Prod.fst := by
    intro hmem
    obtain ⟨found, hfound, hname⟩ := List.mem_map.mp hmem
    exact (hgone found hfound).2.1 hname
  refine ⟨h.ready, fun name server hserver ↦ ?_, fun projectId name hbinding ↦ ?_⟩
  · have hserver' := (hdrops.entry name).symm.trans hserver
    split at hserver'
    · cases hserver'
    · exact h.entries name server hserver'
  · obtain ⟨old, hold, hmoved⟩ := Option.map_eq_some_iff.mp
      ((hdrops.binding projectId).symm.trans hbinding)
    obtain ⟨server, hserver, hproject⟩ := h.bound projectId old hold
    split at hmoved
    · rename_i hmem
      subst hmoved
      obtain ⟨found, hfound, rfl⟩ := List.mem_map.mp hmem
      obtain ⟨hfoundEntry, -, hurl⟩ := hgone found hfound
      have hsame : server = found.2 := Option.some.inj (hserver.symm.trans hfoundEntry)
      refine ⟨admin, (hdrops.entry serverName).trans ((if_neg hstays).trans hadmin), ?_⟩
      show HasProject w.servers admin.serverUrl projectId
      rw [← hurl, ← hsame]
      exact hproject
    · rename_i hmem
      subst hmoved
      exact ⟨server, (hdrops.entry old).trans ((if_neg hmem).trans hserver), hproject⟩

/-- Recording an identity leads home, if the project of the invite is there. -/
theorem Site.Home.recordIdentity (h : site.Home w) (hname : IsServerName serverName)
    (hid : '/' ∉ id.toList) (hfree : squatter w.store serverName invite = none)
    (hproject : ∀ project, invite.project = some project →
      HasProject w.servers invite.serverUrl project.id) (net : Net (String → ApiPool))
    (servers : String → ApiPool) :
    site.Home { w with store :=
      (Client.recordIdentity site.env net invite serverName id key w.store servers).2 } := by
  have hwritten : site.Home { w with
      store := Client.written site.env invite serverName id key w.store } :=
    h.written hname hid hfree
  have hkeys : AmongKeys site.env.root (keyPath site.env.root id) :=
    ⟨_, keyPath_of_simple site.env.root hid⟩
  have hadmin : (Client.written site.env invite serverName id key w.store).entry serverName =
      some (newServer site.env invite id) :=
    (entry_written hkeys.locate serverName).trans (if_pos rfl)
  rw [recordIdentity_eq]
  split
  · obtain ⟨store', hrun, hdrops⟩ | ⟨-, e, hrun⟩ :=
      @supersedeProjectEntries_cases _ site.env net
        (Client.written site.env invite serverName id key w.store) servers invite.serverUrl
        serverName
    · rw [hrun]
      refine hwritten.drops (w := { w with
        store := Client.written site.env invite serverName id key w.store }) hadmin
        (fun found hfound ↦ ?_) hdrops
      obtain ⟨⟨hentry, ⟨hne, hurl⟩, -⟩, -⟩ := mem_dropped_iff.mp hfound
      exact ⟨hentry, hne, hurl⟩
    · rw [hrun]
      exact hwritten
  · rename_i project hsome
    exact hwritten.record (w := { w with
      store := Client.written site.env invite serverName id key w.store })
      ⟨_, hadmin, hproject project hsome⟩

/-- **`railyard login`** -/
theorem moves_login (hreject : site.crates.RejectPlainly) (hcrates : site.crates.Specified)
    (traffic : LoginTraffic) (blob : String) (name : Option String) (now : ℕ) (key : SigningKey) :
    Command.Moves site.Homeward (fun w ↦ site.Home w ∧ HandedOut w blob)
      (Login.run site traffic blob name now key) fun _ w ↦ site.Home w := by
  rintro w ⟨hw, hblob⟩
  suffices hhome : site.Home ((Login.run site traffic blob name now key).start w).2 from
    ⟨fun _ ↦ hhome, fun _ _ ↦ hhome⟩
  rw [Login.run, Command.start_act, Target.loginBlob]
  cases hparse : InvitePayload.parse .specified blob with
  | error e => exact hw
  | ok invite =>
    dsimp only
    have hproject : ∀ project, invite.project = some project →
        HasProject w.servers invite.serverUrl project.id :=
      fun _ hsome ↦ hblob.hasProject hcrates hw.ready hparse hsome
    have hcases := login_cases site.env (site.net traffic) invite name now key w.store w.servers
    generalize login site.env (site.net traffic) invite name now key w.store w.servers = outcome
      at hcases
    cases hcases with
    | refused e => exact hw
    | linked hsome haccess hrecord =>
      obtain ⟨server, hserver, hurl, -, -⟩ := findIdentity_eq_some haccess
      have hstore := congrArg Prod.snd hrecord
      dsimp only at hstore ⊢
      rw [← hstore]
      refine hw.record ⟨server, hserver, ?_⟩
      rw [hurl]
      exact hproject _ hsome
    | rejected hredeem =>
      obtain ⟨honwards, -⟩ := redeemInvite_onwards hreject traffic invite
        (site.env.publicKeyBase64 key) w.servers
      rw [show site.redeemInvite traffic invite (site.env.publicKeyBase64 key) w.servers = _
        from hredeem] at honwards
      exact hw.served honwards
    | redeemed hredeems hrecord =>
      obtain ⟨honwards, hminted⟩ := redeemInvite_onwards hreject traffic invite
        (site.env.publicKeyBase64 key) w.servers
      rw [show site.redeemInvite traffic invite (site.env.publicKeyBase64 key) w.servers = _
        from hredeems.reply] at honwards hminted
      have hstore := congrArg Prod.snd hrecord
      dsimp only at hstore ⊢
      rw [← hstore]
      exact (hw.served honwards).recordIdentity (isServerName_of_resolveServerName hredeems.name)
        (noSeparator_of_isUserId (hminted hw.ready _ rfl)) hredeems.free
        (fun project hsome ↦ honwards.kept _ _ (hproject project hsome)) _ _

end Login

/-! ## Whatever is done -/

/-- What happens next: one of the commands, or something the servers do. -/
inductive Deed
  | meanwhile (acts : String → Acts)
  | login (traffic : LoginTraffic) (blob : String) (name : Option String) (now : ℕ)
      (key : SigningKey)
  | init (run : Invocation)
  | link (console : Console)
  | unlink (console : Console)
  | up (console : Console) (tree : Up.Tree) (args : Up.Args)
  | userAdd (console : Console) (name : String) (admin : Bool) (server : Option String)
  | userList (server : Option String)
  | userRemove (name : String) (server : Option String)
  | whoami (console : Console) (server : Option String)

/-- Invites that are logged in with were made by their server, and servers are named by one
component of a path. -/
def Deed.Fair (w : World) : Deed → Prop
  | .login _ blob _ _ _ => HandedOut w blob
  | .init run => run.listing.Keeps ∧ run.creation.Keeps ∧ ∀ flag ∈ run.server, IsServerName flag
  | _ => True

variable [Float64 F]

/-- What it leaves. -/
def Deed.after (w : World) : Deed → World
  | .meanwhile acts => { w with servers := fun url ↦ site.serve url (acts url) (w.servers url) }
  | .login traffic blob name now key => ((Login.run site traffic blob name now key).start w).2
  | .init run => ((Init.run site run).start w).2
  | .link console => ((Link.run site console).start w).2
  | .unlink console => ((Unlink.run site console).start w).2
  | .up console tree args => ((Up.run site console tree args).start w).2
  | .userAdd console name admin server =>
    ((User.add site console name admin server).start w).2
  | .userList server => ((User.list site server).start w).2
  | .userRemove name server => ((User.remove site name server).start w).2
  | .whoami console server => ((Whoami.run site console server).start w).2

/-- Everything after any number of deeds. -/
inductive Becomes (w : World) : World → Prop
  | start : Becomes w w
  | step {w' : World} (h : Becomes w w') (deed : Deed) (hfair : deed.Fair w') :
    Becomes w (deed.after site w')

section Deeds

variable {site} {w w' : World}

/-- **One deed** keeps the bindings leading home. -/
theorem Site.Home.after (hreject : site.crates.RejectPlainly) (hcrates : site.crates.Specified)
    (hw : site.Home w) (deed : Deed) (hfair : deed.Fair w) : site.Home (deed.after site w) := by
  cases deed with
  | meanwhile acts => exact hw.served (onwards_each hreject acts)
  | login traffic blob name now key =>
    exact (moves_login hreject hcrates traffic blob name now key w ⟨hw, hfair⟩).1 hw
  | init run =>
    obtain ⟨hlisting, hcreation, hflag⟩ := hfair
    exact (safe_init hreject hlisting hcreation hflag w hw).1 hw
  | link console => exact (safe_link hreject w hw).1 hw
  | unlink console => exact (safe_unlink w hw).1 hw
  | up console tree args => exact (safe_up hreject tree args w hw).1 hw
  | userAdd console name admin server =>
    exact (safe_userAdd hreject name admin server w hw).1 hw
  | userList server => exact (safe_userList hreject server w hw).1 hw
  | userRemove name server => exact (safe_userRemove hreject name server w hw).1 hw
  | whoami console server => exact (safe_whoami hreject server w hw).1 hw

theorem Becomes.home (hreject : site.crates.RejectPlainly) (hcrates : site.crates.Specified)
    (h : Becomes site w w') (hw : site.Home w) : site.Home w' := by
  induction h with
  | start => exact hw
  | step _ deed hfair ih => exact ih.after hreject hcrates deed hfair

/-- **Bindings lead home.**  Whatever the client does, and however its requests fare: a project that
it has bound to a server is found there, and the server has the project. -/
theorem bindings_lead_home (site : Site F) (hreject : site.crates.RejectPlainly)
    (hcrates : site.crates.Specified) {w w' : World} (hw : site.Home w) (h : Becomes site w w')
    {projectId name : String} (hbinding : w'.store.binding projectId = some name) :
    ∃ server, projectBinding site.disk w'.store projectId = .ok (.bound name server) ∧
      ∃ p ∈ (w'.servers server.serverUrl).shared.projects, p.id = projectId :=
  (h.home hreject hcrates hw).projectBinding hbinding

end Deeds

/-! ## A project that is created -/

section Sample

def homeCrates : Railyard.Crates :=
  { Railyard.bobCrates with
    urlSafeNoPad := Data.Base64.encode
    inviteJson := InvitePayload.toVec }

theorem homeCrates_rejectPlainly : homeCrates.RejectPlainly :=
  have h := Railyard.bobCrates_rejectPlainly
  ⟨h.redeemInvite, h.createProject, h.createUser, h.createRelease⟩

/-- The directory of the project `web`. -/
def homeSite : Site ℤ where
  toWorkspace := { webSpace with crates := homeCrates }
  client := fragmentCrates
  publicKeyBase64 := id
  urlHost _ := none
  config _ := Railyard.webConfig
  createUserJson _ := []
  redeemInviteJson _ := []

/-- A client that knows one server, and no project on it. -/
def homeWorld : World where
  files := webMachine.files
  store := webMachine.store
  servers _ := ⟨.fresh, []⟩
  ahead _ := ⟨sampleMoment, fun _ ↦ [], .unsent (.network "offline")⟩

theorem homeWorld_home : homeSite.Home homeWorld := by
  refine ⟨fun url ↦ ⟨Railyard.sound_fresh, fun _ ht ↦ absurd ht List.not_mem_nil⟩,
    fun name server hserver ↦ ?_, fun projectId name hbinding ↦ ?_⟩
  · have hentry : (if "prod" = name then some _ else Store.empty.entry name) = some server :=
      (Store.entry_writeServer name).symm.trans hserver
    split at hentry
    · rename_i hname
      rw [← hname, ← Option.some.inj hentry]
      exact ⟨⟨by decide, by decide⟩, "usr_1.json", rfl⟩
    · rw [Store.entry_eq_some_iff] at hentry
      simp [Store.empty] at hentry
  · have hnone : Store.empty.binding projectId = some name := hbinding
    simp [Store.binding, Store.empty] at hnone

theorem bindings_lead_home_web :
    ∃ w, Becomes homeSite homeWorld w ∧
      ∃ server, projectBinding homeSite.disk w.store "prj_0000000000000000" =
          .ok (.bound "prod" server) ∧
        ∃ p ∈ (w.servers server.serverUrl).shared.projects, p.id = "prj_0000000000000000" := by
  have hfair : (Deed.init webInit).Fair homeWorld :=
    ⟨trivial, ⟨fun _ ↦ id, fun _ _ ↦ id⟩, fun _ h ↦ by cases h⟩
  have hrun : Becomes homeSite homeWorld ((Deed.init webInit).after homeSite homeWorld) :=
    .step .start (.init webInit) hfair
  have hbinding : ((Deed.init webInit).after homeSite homeWorld).store.binding
      "prj_0000000000000000" = some "prod" := by decide +kernel
  exact ⟨_, hrun, bindings_lead_home homeSite homeCrates_rejectPlainly ⟨rfl, rfl⟩ homeWorld_home
    hrun hbinding⟩

end Sample

end Client
