import Railyard.Client.Commands

/-!
# Bindings lead home

What the client keeps says of each project which server it is on.  A binding leads home when there
is an entry with the name it holds, and the server of that entry has the project.

* `Site.Home`: every binding does, and the servers are sane;
* `Site.Safe`: a command that keeps it;
* `safe_link`, `safe_unlink`, `safe_up` and the others: the commands on a project keep it, however
  their requests fare and wherever they end.
-/

set_option autoImplicit false

namespace Client

open Data (Path Float64)
open Effects Encoding
open Railyard (ApiPool ProjectRow)

/-! ## Home -/

/-- The name of a server, as it is typed. -/
def IsServerName (name : String) : Prop := name ≠ "" ∧ '/' ∉ name.toList

/-- There is an entry with this name, and its server has the project. -/
def Leads (w : World) (projectId name : String) : Prop :=
  ∃ server, w.store.entry name = some server ∧ HasProject w.servers server.serverUrl projectId

variable {F : Type} (site : Site F)

/-- Every binding leads to a server that has the project. -/
structure Site.Home (w : World) : Prop where
  ready : site.Ready w
  entries : ∀ name server, w.store.entry name = some server →
    IsServerName name ∧ AmongKeys site.disk.root server.privateKeyPath
  bound : ∀ projectId name, w.store.binding projectId = some name → Leads w projectId name

/-- The bindings lead home if they did before. -/
def Site.Homeward (w w' : World) : Prop := site.Home w → site.Home w'

instance : IsPreorder World site.Homeward where
  refl _ := id
  trans _ _ _ h h' := h' ∘ h

section Homeward

variable {site} {w w' : World} {α : Type}

theorem Leads.onwards {projectId name : String} (h : Leads w projectId name)
    (hentry : w'.store.entry name = w.store.entry name)
    (hservers : site.Onwards w.servers w'.servers) : Leads w' projectId name := by
  obtain ⟨server, hserver, hproject⟩ := h
  exact ⟨server, hentry.trans hserver, hservers.kept _ _ hproject⟩

/-- While a command asks, the bindings lead home. -/
theorem Site.Homeward.of_onward (h : site.Onward w w') : site.Homeward w w' := by
  obtain ⟨-, hstore, hservers⟩ := h
  refine fun hw ↦ ⟨hservers.sane hw.ready, ?_, fun projectId name hbinding ↦ ?_⟩
  · rw [hstore]
    exact hw.entries
  · rw [hstore] at hbinding
    exact (hw.bound projectId name hbinding).onwards (by rw [hstore]) hservers

theorem Site.Home.served (h : site.Home w) {servers : String → ApiPool}
    (hservers : site.Onwards w.servers servers) : site.Home { w with servers := servers } := by
  have hmove : site.Onward w { w with servers := servers } := ⟨rfl, rfl, hservers⟩
  exact Site.Homeward.of_onward hmove h

/-- What a command is told while the stores are as they were. -/
theorem Site.Asks.homeward {ε : Type} {p : Command ε World α} {Q : α → World → Prop}
    (h : site.Asks p Q) (store : Store) :
    Command.Moves site.Homeward (fun w ↦ site.Home w ∧ w.store = store) p
      fun a w ↦ Q a w ∧ site.Home w ∧ w.store = store := by
  have hframe : ∀ w w', site.Onward w w' →
      (site.Home w ∧ w.store = store) → site.Home w' ∧ w'.store = store :=
    fun w w' hmove hw ↦ ⟨Site.Homeward.of_onward hmove hw.1, hmove.store.trans hw.2⟩
  exact (Command.Moves.frame h hframe).mono (fun _ _ ↦ .of_onward)
    (fun _ hw ↦ ⟨hw.1.ready, hw⟩) fun _ _ hw ↦ ⟨hw.1.2, hw.2⟩

/-- A change of the bindings alone, to such as lead home. -/
theorem Site.Home.rebound {store' : Store} (h : site.Home w)
    (hservers : store'.servers = w.store.servers)
    (hbound : ∀ projectId name, store'.binding projectId = some name → Leads w projectId name) :
    site.Home { w with store := store' } := by
  have hentry : ∀ name, store'.entry name = w.store.entry name := Store.entry_congr hservers
  refine ⟨h.ready, fun name server hserver ↦ h.entries name server ?_, fun projectId name hb ↦ ?_⟩
  · exact (hentry name).symm.trans hserver
  · exact (hbound projectId name hb).onwards (hentry name) (refl_of site.Onwards w.servers)

/-- With nothing on disk, no binding leads astray. -/
theorem home_empty (hready : site.Ready w) (hempty : w.store = .empty) : site.Home w := by
  refine ⟨hready, fun name server h ↦ ?_, fun projectId name h ↦ ?_⟩
  · rw [hempty, Store.entry_eq_some_iff] at h
    simp [Store.empty] at h
  · rw [hempty] at h
    simp [Store.binding, Store.empty] at h

/-- A binding that leads home is found, and so is its server. -/
theorem Site.Home.projectBinding (hw : site.Home w) {projectId name : String}
    (hbinding : w.store.binding projectId = some name) :
    ∃ server, Client.projectBinding site.disk w.store projectId = .ok (.bound name server) ∧
      HasProject w.servers server.serverUrl projectId := by
  obtain ⟨server, hserver, hproject⟩ := hw.bound projectId name hbinding
  obtain ⟨hname, hsep⟩ := (hw.entries name server hserver).1
  have hget := Store.entry_eq_some_iff.mp hserver
  have hread : readServer site.disk w.store name = .ok server := by
    simp only [readServer, locate_entry site.disk.root hname hsep]
    simp [Store.readServer, hget]
  obtain ⟨projects, hconfig, hprojects⟩ := Option.bind_eq_some_iff.mp hbinding
  refine ⟨server, ?_, hproject⟩
  simp only [Client.projectBinding, Store.readProjectBinding, hconfig, hprojects, hread]

/-- To record where a project is leads home, if it is there. -/
theorem Site.Home.record (h : site.Home w) {projectId name : String}
    (hleads : Leads w projectId name) :
    site.Home { w with store := (w.store.recordProjectBinding projectId name).2 } := by
  obtain ⟨-, e, hrecord⟩ | ⟨store', hrecord, -, hservers, -, hbinding⟩ :=
    w.store.recordProjectBinding_cases projectId name
  · rw [hrecord]
    exact h
  · rw [hrecord]
    refine h.rebound hservers fun other found hfound ↦ ?_
    rw [hbinding] at hfound
    split at hfound
    · rename_i hid
      rw [← hid, ← Option.some.inj hfound]
      exact hleads
    · exact h.bound other found hfound

theorem Site.Home.forget (h : site.Home w) (projectId : String) :
    site.Home { w with store := (w.store.removeProjectBinding projectId).2 } := by
  obtain ⟨-, e, hremove⟩ | ⟨store', hremove, hservers, -, hbinding⟩ :=
    w.store.removeProjectBinding_cases projectId
  · rw [hremove]
    exact h
  · rw [hremove]
    refine h.rebound hservers fun other found hfound ↦ h.bound other found ?_
    rw [hbinding] at hfound
    split at hfound
    · cases hfound
    · exact hfound

end Homeward

/-! ## The server of a project -/

section Linking

variable {site} {console : Console} {project : LinkedProject}

/-- A project that is present on a server is there. -/
theorem asks_serverProjectPresence (hreject : site.crates.RejectPlainly) (server : ServerConfig) :
    site.Asks (serverProjectPresence site server project) fun presence w ↦
      presence = .present → HasProject w.servers server.serverUrl project.id := by
  refine Command.Moves.bind (Http.asks_whoami hreject).attempt fun r ↦ ?_
  rcases r with e | ⟨identity, _⟩ | reason | _
  · exact .pure fun w hw ↦ ⟨hw.1, fun h ↦ by cases h⟩
  · dsimp only
    split
    · rename_i scope hscope
      refine .pure fun w hw ↦ ⟨hw.1, fun h ↦ ?_⟩
      split at h
      · rename_i hid
        rw [← hid]
        exact hw.2 _ rfl _ _ rfl _ hscope
      · cases h
    · refine Command.Moves.bind ((Http.asks_listProjects hreject).attempt.pre fun w hw ↦ hw.1)
        fun r ↦ ?_
      rcases r with e | projects
      · exact .pure fun w hw ↦ ⟨hw.1, fun h ↦ by cases h⟩
      · refine .pure fun w hw ↦ ⟨hw.1, fun h ↦ ?_⟩
        split at h
        · rename_i hany
          obtain ⟨p, hp, hid⟩ := List.any_eq_true.mp hany
          rw [← of_decide_eq_true hid]
          exact hw.2 _ rfl p hp
        · cases h
  · exact .pure fun w hw ↦ ⟨hw.1, fun h ↦ by cases h⟩
  · exact .pure fun w hw ↦ ⟨hw.1, fun h ↦ by cases h⟩

/-- The servers that turn out to have a project have it. -/
theorem asks_lookForProject (hreject : site.crates.RejectPlainly)
    (entries : List (String × ServerConfig)) :
    site.Asks (lookForProject site project entries) fun found w ↦
      ∀ entry ∈ found.1, entry ∈ entries ∧ HasProject w.servers entry.2.serverUrl project.id := by
  induction entries with
  | nil => exact .pure fun w hw ↦ ⟨hw, fun _ h ↦ absurd h List.not_mem_nil⟩
  | cons entry rest ih =>
    obtain ⟨name, server⟩ := entry
    refine Command.Moves.bind (asks_serverProjectPresence hreject server) fun presence ↦ ?_
    have hkept : ∀ w w', site.Onward w w' →
        (presence = .present → HasProject w.servers server.serverUrl project.id) →
          presence = .present → HasProject w'.servers server.serverUrl project.id :=
      fun w w' hmove h hpresent ↦ hmove.servers.kept _ _ (h hpresent)
    refine Command.Moves.bind (Command.Moves.frame ih hkept) fun found ↦ ?_
    obtain ⟨candidates, unchecked⟩ := found
    have hrest : ∀ w : World, (∀ entry ∈ candidates, entry ∈ rest ∧
        HasProject w.servers entry.2.serverUrl project.id) → ∀ entry ∈ candidates,
          entry ∈ (name, server) :: rest ∧ HasProject w.servers entry.2.serverUrl project.id :=
      fun w h entry hentry ↦ ⟨List.mem_cons_of_mem _ (h entry hentry).1, (h entry hentry).2⟩
    cases presence with
    | present =>
      refine .pure fun w hw ↦ ⟨hw.1.1, fun entry hentry ↦ ?_⟩
      rcases List.mem_cons.mp hentry with rfl | hentry
      · exact ⟨List.mem_cons_self, hw.2 rfl⟩
      · exact hrest w hw.1.2 entry hentry
    | absent => exact .pure fun w hw ↦ ⟨hw.1.1, hrest w hw.1.2⟩
    | unknown reason => exact .pure fun w hw ↦ ⟨hw.1.1, hrest w hw.1.2⟩

/-- However a command ends, the bindings lead home if they did before. -/
def Site.Safe {ε α : Type} (site : Site F) (p : Command ε World α) : Prop :=
  Command.Moves site.Homeward site.Home p fun _ w ↦ site.Home w

/-- To link a project to an entry whose server has it. -/
theorem moves_linkProject (name : String) (server : ServerConfig) :
    Command.Moves site.Homeward
      (fun w ↦ site.Home w ∧ w.store.entry name = some server ∧
        HasProject w.servers server.serverUrl project.id)
      (linkProject project name server) fun _ w ↦ site.Home w := by
  refine Command.Moves.bind (Q := fun _ w ↦ site.Home w) (fun w hw ↦ ?_) fun _ ↦ .pure fun _ ↦ id
  have hhome := hw.1.record ⟨server, hw.2⟩
  exact ⟨fun _ ↦ hhome, fun _ _ ↦ hhome⟩

theorem safe_offerProjectLink (hreject : site.crates.RejectPlainly) :
    site.Safe (offerProjectLink site console project) := by
  refine Command.Moves.bind .get fun w₀ ↦ ?_
  refine Command.Moves.bind (((asks_lookForProject hreject _).homeward w₀.store).pre
    fun w hw ↦ ⟨hw.2, by rw [hw.1]⟩) fun found ↦ ?_
  obtain ⟨candidates, unchecked⟩ := found
  have hleads : ∀ w : World, ((∀ entry ∈ candidates, entry ∈ w₀.store.listServers ∧
      HasProject w.servers entry.2.serverUrl project.id) ∧ site.Home w ∧ w.store = w₀.store) →
        ∀ entry ∈ candidates, site.Home w ∧ w.store.entry entry.1 = some entry.2 ∧
          HasProject w.servers entry.2.serverUrl project.id := by
    intro w hw entry hentry
    obtain ⟨hmem, hproject⟩ := hw.1 entry hentry
    rw [hw.2.2]
    exact ⟨hw.2.1, Store.mem_listServers.mp hmem, hproject⟩
  dsimp only
  split
  · split
    · exact .throw _
    · exact .throw _
  · split
    · exact .throw _
    · refine .bind_except fun confirmed _ ↦ ?_
      split
      · exact (moves_linkProject _ _).pre fun w hw ↦ hleads w hw _ (List.mem_singleton_self _)
      · exact .throw _
  · split
    · exact .throw _
    · refine .bind_except fun choice _ ↦ ?_
      exact (moves_linkProject _ _).pre fun w hw ↦ hleads w hw _ (List.get_mem _ _)

theorem safe_resolveProjectServer (hreject : site.crates.RejectPlainly) :
    site.Safe (resolveProjectServer site console project) := by
  refine Command.Moves.bind .get fun w₀ ↦ .bind_except fun binding _ ↦ ?_
  have hoffer : Command.Moves site.Homeward (fun w ↦ w₀ = w ∧ site.Home w)
      (offerProjectLink site console project) fun _ w ↦ site.Home w :=
    (safe_offerProjectLink hreject).pre fun _ hw ↦ hw.2
  cases binding with
  | bound name server => exact .pure fun w hw ↦ hw.2
  | stale name => exact hoffer
  | unbound => exact hoffer

end Linking

/-! ## The commands on a project -/

section Commands

variable {site} {console : Console}

theorem Site.Asks.safe {ε α : Type} {p : Command ε World α} {Q : α → World → Prop}
    (h : site.Asks p Q) : site.Safe p := by
  intro w hw
  obtain ⟨hmove, hvalue⟩ := h.homeward w.store w ⟨hw, rfl⟩
  exact ⟨hmove, fun a ha ↦ (hvalue a ha).2.1⟩

theorem safe_confirmedLinkedProject [Float64 F] :
    site.Safe (confirmedLinkedProject site console) := by
  refine Command.Moves.bind .get fun w₀ ↦ .bind_except fun found _ ↦ ?_
  cases found with
  | none => exact .pure fun w hw ↦ hw.2
  | some project => exact .bind_except fun confirmed _ ↦ .pure fun w hw ↦ hw.2

/-- **`railyard link`** -/
theorem safe_link [Float64 F] (hreject : site.crates.RejectPlainly) :
    site.Safe (Link.run site console) := by
  refine Command.Moves.bind safe_confirmedLinkedProject fun found ↦ ?_
  cases found with
  | none => exact .throw _
  | some project =>
    refine Command.Moves.bind .get fun w₀ ↦ .bind_except fun binding _ ↦ ?_
    dsimp only
    split
    · exact .pure fun w hw ↦ hw.2
    split
    · exact .throw _
    split
    · exact .throw _
    · refine .bind_except fun choice _ ↦ ?_
      refine Command.Moves.bind (((asks_serverProjectPresence hreject _).homeward w₀.store).pre
        fun w hw ↦ ⟨hw.2, by rw [hw.1]⟩) fun presence ↦ ?_
      cases presence with
      | present =>
        refine Command.Moves.bind ((moves_linkProject _ _).pre fun w hw ↦ ⟨hw.2.1, ?_, hw.1 rfl⟩)
          fun _ ↦ .pure fun _ ↦ id
        rw [hw.2.2]
        exact Store.mem_listServers.mp (List.get_mem _ _)
      | absent => exact .throw _
      | unknown reason => exact .throw _

/-- **`railyard unlink`** -/
theorem safe_unlink [Float64 F] : site.Safe (Unlink.run site console) := by
  refine Command.Moves.bind safe_confirmedLinkedProject fun found ↦ ?_
  cases found with
  | none => exact .throw _
  | some project =>
    intro w hw
    have hhome := hw.forget project.id
    exact ⟨fun _ ↦ hhome, fun _ _ ↦ hhome⟩

/-- **`railyard up`** -/
theorem safe_up [Float64 F] (hreject : site.crates.RejectPlainly) (tree : Up.Tree)
    (args : Up.Args) : site.Safe (Up.run site console tree args) := by
  have hopen : site.Safe (Up.openProject site console) := by
    refine Command.Moves.bind .get fun w₀ ↦ .bind_except fun found _ ↦ ?_
    split
    · exact .throw _
    split
    · exact .throw _
    split
    · exact .throw _
    · refine .bind_except fun confirmed _ ↦ ?_
      split
      · exact .pure fun w hw ↦ hw.2
      · exact .throw _
  have hresolve : ∀ project, site.Safe (Up.resolve site console args project) := by
    intro project
    rw [Up.resolve]
    split
    · exact Command.Moves.bind .get fun w₀ ↦ .except fun _ _ _ hw ↦ hw.2
    · exact safe_resolveProjectServer hreject
  refine Command.Moves.bind hopen fun opened ↦ Command.Moves.bind (hresolve opened.2) fun found ↦ ?_
  refine Command.Moves.bind (asks_serverProjectPresence hreject found.2).safe fun presence ↦ ?_
  cases presence with
  | present =>
    exact .bind_except fun archive _ ↦ (Http.asks_createRelease hreject _ _ archive).safe
  | absent => exact .throw _
  | unknown reason => exact .throw _

/-- **`railyard user add`** -/
theorem safe_userAdd [Float64 F] (hreject : site.crates.RejectPlainly) (name : String)
    (admin : Bool) (serverFlag : Option String) :
    site.Safe (User.add site console name admin serverFlag) := by
  have hadmin : ∀ server, site.Asks (User.isAdminIdentity site server) fun _ _ ↦ True := by
    intro server
    refine Command.Moves.bind (Http.asks_whoami hreject).attempt fun outcome ↦ ?_
    split
    · exact .pure fun w hw ↦ ⟨hw.1, trivial⟩
    · exact .pure fun w hw ↦ ⟨hw.1, trivial⟩
  have hentries : ∀ entries, site.Asks (User.adminEntries site entries) fun _ _ ↦ True := by
    intro entries
    induction entries with
    | nil => exact .pure fun w hw ↦ ⟨hw, trivial⟩
    | cons entry rest ih =>
      refine Command.Moves.bind (hadmin entry.2) fun _ ↦ ?_
      exact Command.Moves.bind (ih.pre fun w hw ↦ hw.1) fun _ ↦ .pure fun w hw ↦ hw
  have hresolve : site.Safe (User.resolveAdminServer site console serverFlag) := by
    refine Command.Moves.bind .get fun w₀ ↦ ?_
    dsimp only
    split
    · exact .except fun _ _ _ hw ↦ hw.2
    refine Command.Moves.bind ((hentries _).safe.pre fun w hw ↦ hw.2) fun candidates ↦ ?_
    split
    · exact .throw _
    · refine .bind_except fun confirmed _ ↦ ?_
      split
      · exact .pure fun _ ↦ id
      · exact .throw _
    · exact .bind_except fun choice _ ↦ .pure fun _ ↦ id
  rw [User.add]
  split
  · exact Command.Moves.bind hresolve fun found ↦ (Http.asks_createUser hreject name none).safe
  refine Command.Moves.bind safe_confirmedLinkedProject fun found ↦ ?_
  cases found with
  | none => exact .throw _
  | some project =>
    have hask : ∀ server, site.Safe (Http.createUser site server name (some project.id)) :=
      fun server ↦ (Http.asks_createUser hreject name _).safe
    cases serverFlag with
    | none =>
      exact Command.Moves.bind (safe_resolveProjectServer hreject) fun found ↦ hask found.2
    | some flag =>
      exact Command.Moves.bind .get fun w₀ ↦ .bind_except fun found _ ↦
        (hask found.2).pre fun w hw ↦ hw.2

/-- **`railyard user list`** -/
theorem safe_userList (hreject : site.crates.RejectPlainly) (serverFlag : Option String) :
    site.Safe (User.list site serverFlag) :=
  Command.Moves.bind .get fun _ ↦ .bind_except fun _ _ ↦
    (Http.asks_listUsers hreject).safe.pre fun _ hw ↦ hw.2

/-- **`railyard user remove`** -/
theorem safe_userRemove (hreject : site.crates.RejectPlainly) (name : String)
    (serverFlag : Option String) : site.Safe (User.remove site name serverFlag) :=
  Command.Moves.bind .get fun _ ↦ .bind_except fun _ _ ↦
    (Http.asks_removeUser hreject name).safe.pre fun _ hw ↦ hw.2

/-- **`railyard whoami`** -/
theorem safe_whoami [Float64 F] (hreject : site.crates.RejectPlainly)
    (serverFlag : Option String) : site.Safe (Whoami.run site console serverFlag) := by
  have hreport : ∀ selected entries,
      site.Asks (Whoami.report site selected entries) fun _ _ ↦ True := by
    intro selected entries
    induction entries with
    | nil => exact .pure fun w hw ↦ ⟨hw, trivial⟩
    | cons entry rest ih =>
      refine Command.Moves.bind (Http.asks_whoami hreject).attempt fun who ↦ ?_
      exact Command.Moves.bind (ih.pre fun w hw ↦ hw.1) fun _ ↦ .pure fun w hw ↦ hw
  refine Command.Moves.bind .get fun w₀ ↦ .bind_except fun selection _ ↦ ?_
  exact Command.Moves.bind ((hreport _ _).safe.pre fun w hw ↦ hw.2) fun _ ↦ .pure fun _ ↦ id

end Commands

end Client
