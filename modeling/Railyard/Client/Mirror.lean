import Mathlib.Logic.Relation
import Railyard.Client.Deployment
import Railyard.Client.Identities

/-!
# Servers and what is said of them

`Servers` says of all servers which users there are, and how each may prove who it is.  `Mirrors`
says what this has to do with the tables: a row of `users` is an account of its host, with the key
in the row, or, before there is one, with the token that was drawn for the user.

* `Deployment.Step` is one operation of one server, or one call made to it;
* `Deployed` is what holds of servers that started empty;
* `Mirrors.step`: whatever a server does, an account of `Servers` is created, removed or settled, or
  nothing happens.
-/

set_option autoImplicit false

namespace Client

open Effects Prog
open Railyard (Call Pool Op Outside UserRow perform Enrolling Enrolled Invited Spent
  drawnUserId)

variable (P : Platform)

/-! ## Servers at work -/

/-- What may happen at a host: it enrols users, for whoever its invites lead to, and an id that is
drawn has been drawn at no other host. -/
structure Serves (d : Deployment) (host : String) (a : Act Outside Call) : Prop where
  enrolling : Enrolling P.server (d host) a
  handled : a.Starts (Call.Handled fun url ↦ P.hosts url = host)
  apart : ∀ e ∈ (d host).event? perform a, ∀ id, drawnUserId e = some id →
    ∀ host', host' ≠ host → ∀ j e', (d host').Did j e' → drawnUserId e' ≠ some id

/-- One server makes a step. -/
inductive Deployment.Step : Deployment → Deployment → Prop
  | serve {d : Deployment} {host : String} {a : Act Outside Call} {c : Pool}
      (h : Serves P d host a) (hs : (d host).step perform (Call.prog P.server) a = some c) :
      Deployment.Step d (Function.update d host c)

abbrev Deployment.Steps : Deployment → Deployment → Prop :=
  Relation.ReflTransGen (Deployment.Step P)

/-- Every host has enrolled users only, and none of them under an id of another host. -/
structure Deployed (d : Deployment) : Prop where
  enrolled : ∀ host, Enrolled P.server (d host)
  handled : ∀ host, ∀ t ∈ (d host).threads, t.call.Handled fun url ↦ P.hosts url = host
  apart : ∀ host host' i j e e' id, (d host).Did i e → (d host').Did j e' →
    drawnUserId e = some id → drawnUserId e' = some id → host = host'

variable {P} {d d' : Deployment} {w w' : Servers} {store : Store} {host : String} {c c' : Pool}

/-- Nothing that was done at a host is undone. -/
theorem Deployment.Step.did (hs : d.Step P d') {i : ℕ} {e : Event Op Op.Reply}
    (hd : (d host).Did i e) : (d' host).Did i e := by
  obtain ⟨-, hs⟩ := hs
  rename_i host' a c
  by_cases hhost : host = host'
  · subst hhost
    rw [Function.update_self]
    exact hd.step hs
  · rwa [Function.update_of_ne hhost]

theorem Deployed.start : Deployed P fun _ ↦ ⟨.fresh, []⟩ where
  enrolled _ := .refl
  handled _ t ht := absurd ht List.not_mem_nil
  apart _ _ _ _ _ _ _ hd := by
    obtain ⟨t, ht, -⟩ := hd
    simp at ht

/-- The id of an event that a step adds is new. -/
theorem Serves.fresh {a : Act Outside Call} (h : Serves P d host a)
    (hs : (d host).step perform (Call.prog P.server) a = some c) {i j : ℕ}
    {e e' : Event Op Op.Reply} {id : String} (hd : c.Did i e)
    (hnew : ¬ (d host).Did i e) (hid : drawnUserId e = some id) {host' : String}
    (hother : host' ≠ host) (hd' : (d host').Did j e') : drawnUserId e' ≠ some id := by
  obtain ⟨call, rfl, rfl⟩ | ⟨l, o, t, q, k, rfl, hl, hk, rfl⟩ := Conf.step_eq_some _ _ hs
  · exact absurd (Conf.did_spawn.mp hd) hnew
  · rcases (Conf.did_advance hl).mp hd with hold | ⟨rfl, rfl⟩
    · exact absurd hold hnew
    · exact h.apart _ (Conf.event?_step hl hk) id hid host' hother j e' hd'

theorem Deployed.step (h : Deployed P d) (hs : d.Step P d') : Deployed P d' := by
  obtain ⟨hserves, hstep⟩ := hs
  rename_i host a c
  have hkept : ∀ {host' : String}, host' ≠ host → Function.update d host c host' = d host' :=
    fun hne ↦ Function.update_of_ne hne ..
  refine ⟨fun host' ↦ ?_, fun host' t ht ↦ ?_, ?_⟩
  · by_cases hhost : host' = host
    · subst hhost
      rw [Function.update_self]
      exact (h.enrolled host').tail hserves.enrolling hstep
    · rw [hkept hhost]
      exact h.enrolled host'
  · by_cases hhost : host' = host
    · subst hhost
      rw [Function.update_self] at ht
      obtain ⟨call, rfl, rfl⟩ | ⟨l, o, t', q, k, rfl, hl, hk, rfl⟩ := Conf.step_eq_some _ _ hstep
      · rcases List.mem_append.mp ht with ht | ht
        · exact h.handled host' t ht
        · rw [List.mem_singleton.mp ht]
          exact hserves.handled
      · rcases List.mem_or_eq_of_mem_set ht with ht | rfl
        · exact h.handled host' t ht
        · exact h.handled host' t' (List.mem_of_getElem? hl)
    · rw [hkept hhost] at ht
      exact h.handled host' t ht
  · intro host₁ host₂ i j e e' id hd hd' hid hid'
    by_cases h₁ : host₁ = host <;> by_cases h₂ : host₂ = host
    · rw [h₁, h₂]
    · subst h₁
      rw [Function.update_self] at hd
      rw [hkept h₂] at hd'
      by_cases hold : (d host₁).Did i e
      · exact h.apart _ _ _ _ _ _ _ hold hd' hid hid'
      · exact absurd hid' (hserves.fresh hstep hd hold hid h₂ hd')
    · subst h₂
      rw [hkept h₁] at hd
      rw [Function.update_self] at hd'
      by_cases hold : (d host₂).Did j e'
      · exact h.apart _ _ _ _ _ _ _ hd hold hid hid'
      · exact absurd hid (hserves.fresh hstep hd' hold hid' h₁ hd)
    · rw [hkept h₁] at hd
      rw [hkept h₂] at hd'
      exact h.apart _ _ _ _ _ _ _ hd hd' hid hid'

theorem Deployed.steps (h : Deployed P d) (hs : d.Steps P d') : Deployed P d' := by
  induction hs with
  | refl => exact h
  | tail _ hs ih => exact ih.step hs

theorem Deployment.Steps.did (hs : d.Steps P d') {i : ℕ}
    {e : Event Op Op.Reply} (hd : (d host).Did i e) : (d' host).Did i e := by
  induction hs with
  | refl => exact hd
  | tail _ hs ih => exact hs.did ih

/-- A run of one server is a run of all. -/
theorem Deployment.steps_of_reaches (h : Effects.Reaches perform (Call.prog P.server)
    (fun c a ↦ Serves P (Function.update d host c) host a) (d host) c) :
    d.Steps P (Function.update d host c) := by
  induction h with
  | refl => rw [Function.update_eq_self]
  | @tail c₁ c₂ a _ ha hs ih =>
    refine ih.tail ?_
    have hstep : (Function.update d host c₁ host).step perform (Call.prog P.server) a
        = some c₂ := by
      rw [Function.update_self]
      exact hs
    have hserve := Deployment.Step.serve ha hstep
    rwa [Function.update_idem] at hserve

/-- A user is inserted at one host. -/
theorem Deployed.host_eq (h : Deployed P d) {host' id name name' : String}
    {projectId projectId' : Option String} {i j now now' : ℕ}
    {r : Op.Reply (.sql (.insertUser id name projectId now))}
    {r' : Op.Reply (.sql (.insertUser id name' projectId' now'))}
    (hi : (d host).Did i ⟨_, r⟩) (hj : (d host').Did j ⟨_, r'⟩) : host = host' := by
  obtain ⟨e, he, hid⟩ := Railyard.insertUser_drawn (h.enrolled host) hi
  obtain ⟨e', he', hid'⟩ := Railyard.insertUser_drawn (h.enrolled host') hj
  exact h.apart _ _ _ _ _ _ _ he he' hid hid'

/-- The id of a user that is inserted is one component of a path. -/
theorem Deployed.simple (h : Deployed P d) {id name : String} {projectId : Option String}
    {i now : ℕ} {r : Op.Reply (.sql (.insertUser id name projectId now))}
    (hi : (d host).Did i ⟨_, r⟩) : '/' ∉ id.toList := by
  obtain ⟨e, -, he⟩ := Railyard.insertUser_drawn (h.enrolled host) hi
  obtain ⟨bs, hform⟩ := Railyard.drawnUserId_eq_some he
  rw [hform, String.toList_append]
  intro hmem
  rcases List.mem_append.mp hmem with hmem | hmem
  · exact absurd hmem (by decide)
  · rcases Encoding.mem_hexEncode hmem with hdigit | ⟨hlo, -⟩
    · exact absurd hdigit (by decide)
    · exact absurd hlo (by decide)

/-! ## Accounts -/

/-- The account is what a row of `users` says. -/
structure Shows (host : String) (u : UserRow) (account : Account) : Prop where
  host : account.host = host
  name : account.name = u.name
  projectId : account.projectId = u.projectId
  enrolled : ∀ publicKey, u.publicKey = some publicKey → account.credential = .enrolled publicKey
  invited : u.publicKey = none → ∃ token, account.credential = .invited token

/-- Who is enrolled with a key has it in the table. -/
theorem Shows.publicKey {u : UserRow} {account : Account} (h : Shows host u account)
    {publicKey : String} (henrolled : account.credential = .enrolled publicKey) :
    u.publicKey = some publicKey := by
  cases hrow : u.publicKey with
  | none =>
    obtain ⟨token, htoken⟩ := h.invited hrow
    rw [htoken] at henrolled
    cases henrolled
  | some other =>
    rw [h.enrolled other hrow] at henrolled
    exact congrArg some (Credential.enrolled.inj henrolled)

variable (P) in
/-- The accounts of a host are the rows of its table, and a token an account still has was drawn for
the user. -/
structure MirrorsAt (host : String) (c : Pool) (w : Servers) : Prop where
  user : ∀ u ∈ c.shared.users, ∃ account, w[u.id]? = some account ∧ Shows host u account
  account : ∀ (id : String) (account : Account), w[id]? = some account → account.host = host →
    ∃ u ∈ c.shared.users, u.id = id
  token : ∀ (id : String) (account : Account) (token : String), w[id]? = some account →
    account.host = host → account.credential = .invited token →
      ∃ i, Invited P.server c i token id

variable (P) in
/-- What `Servers` says is what is in the tables. -/
def Mirrors (d : Deployment) (w : Servers) : Prop := ∀ host, MirrorsAt P host (d host) w

/-- Other hosts' accounts play no part. -/
theorem MirrorsAt.frame (h : MirrorsAt P host c w)
    (hsame : ∀ (id : String) (account : Account), account.host = host →
      (w'[id]? = some account ↔ w[id]? = some account)) : MirrorsAt P host c w' where
  user u hu := by
    obtain ⟨account, haccount, hshows⟩ := h.user u hu
    exact ⟨account, (hsame _ _ hshows.host).mpr haccount, hshows⟩
  account id account haccount hhost := h.account id account ((hsame _ _ hhost).mp haccount) hhost
  token id account token haccount hhost :=
    h.token id account token ((hsame _ _ hhost).mp haccount) hhost

/-- The users stay. -/
theorem MirrorsAt.same (h : MirrorsAt P host c w) (hdid : ∀ i e, c.Did i e → c'.Did i e)
    (husers : ∀ u, u ∈ c'.shared.users ↔ u ∈ c.shared.users) : MirrorsAt P host c' w where
  user u hu := h.user u ((husers u).mp hu)
  account id account haccount hhost := by
    obtain ⟨u, hu, hid⟩ := h.account id account haccount hhost
    exact ⟨u, (husers u).mpr hu, hid⟩
  token id account token haccount hhost hinvited := by
    obtain ⟨i, hi⟩ := h.token id account token haccount hhost hinvited
    exact ⟨i, hi.mono hdid⟩

variable {id name token publicKey : String} {projectId : Option String} {account : Account}

/-- A user is inserted. -/
theorem MirrorsAt.inserted (h : MirrorsAt P host c w) (hdid : ∀ i e, c.Did i e → c'.Did i e)
    {now : ℕ} (husers : ∀ u, u ∈ c'.shared.users ↔
      u ∈ c.shared.users ∨ u = ⟨id, name, none, projectId, now⟩)
    (hfree : w[id]? = none) (htoken : ∃ i, Invited P.server c' i token id) :
    MirrorsAt P host c' (w.insert id ⟨host, name, projectId, .invited token⟩) := by
  have hget : ∀ id' : String, (w.insert id ⟨host, name, projectId, .invited token⟩)[id']? =
      if id = id' then some ⟨host, name, projectId, .invited token⟩ else w[id']? := by
    intro id'
    rw [Std.TreeMap.getElem?_insert]
    simp
  constructor
  · intro u hu
    rcases (husers u).mp hu with hu | rfl
    · obtain ⟨account, haccount, hshows⟩ := h.user u hu
      refine ⟨account, ?_, hshows⟩
      rw [hget, if_neg, haccount]
      rintro rfl
      rw [hfree] at haccount
      cases haccount
    · refine ⟨_, by rw [hget, if_pos rfl], rfl, rfl, rfl, fun _ hkey ↦ ?_, fun _ ↦ ⟨token, rfl⟩⟩
      cases hkey
  · intro id' account haccount hhost
    rw [hget] at haccount
    split at haccount
    · rename_i heq
      exact ⟨_, (husers _).mpr (.inr rfl), heq⟩
    · obtain ⟨u, hu, hid⟩ := h.account id' account haccount hhost
      exact ⟨u, (husers u).mpr (.inl hu), hid⟩
  · intro id' account token' haccount hhost hinvited
    rw [hget] at haccount
    split at haccount
    · rename_i heq
      obtain rfl := Option.some.inj haccount
      obtain rfl := Credential.invited.inj hinvited
      exact heq ▸ htoken
    · obtain ⟨i, hi⟩ := h.token id' account token' haccount hhost hinvited
      exact ⟨i, hi.mono hdid⟩

/-- A user is given a key. -/
theorem MirrorsAt.keyed (h : MirrorsAt P host c w) (hdid : ∀ i e, c.Did i e → c'.Did i e)
    (husers : ∀ u, u ∈ c'.shared.users ↔ ∃ u₀ ∈ c.shared.users,
      (if u₀.id = id then { u₀ with publicKey := some publicKey } else u₀) = u)
    (haccount : w[id]? = some account) :
    MirrorsAt P host c' (w.insert id { account with credential := .enrolled publicKey }) := by
  have hget : ∀ id' : String,
      (w.insert id { account with credential := .enrolled publicKey })[id']? =
        if id = id' then some { account with credential := .enrolled publicKey } else w[id']? := by
    intro id'
    rw [Std.TreeMap.getElem?_insert]
    simp
  constructor
  · intro u hu
    obtain ⟨u₀, hu₀, hu⟩ := (husers u).mp hu
    obtain ⟨account₀, haccount₀, hshows⟩ := h.user u₀ hu₀
    split at hu
    · rename_i hid
      subst hu hid
      obtain rfl := Option.some.inj (haccount₀.symm.trans haccount)
      refine ⟨{ account₀ with credential := .enrolled publicKey }, by rw [hget, if_pos rfl],
        hshows.host, hshows.name, hshows.projectId, ?_, ?_⟩
      · rintro key ⟨⟩
        rfl
      · rintro ⟨⟩
    · rename_i hid
      subst hu
      exact ⟨account₀, by rw [hget, if_neg (Ne.symm hid), haccount₀], hshows⟩
  · intro id' account' haccount' hhost
    have hrow : ∃ u ∈ c.shared.users, u.id = id' := by
      rw [hget] at haccount'
      split at haccount'
      · rename_i heq
        obtain rfl := Option.some.inj haccount'
        exact h.account id' account (heq ▸ haccount) hhost
      · exact h.account id' account' haccount' hhost
    obtain ⟨u, hu, hid⟩ := hrow
    refine ⟨_, (husers _).mpr ⟨u, hu, rfl⟩, ?_⟩
    split <;> exact hid
  · intro id' account' token haccount' hhost hinvited
    rw [hget] at haccount'
    split at haccount'
    · obtain rfl := Option.some.inj haccount'
      cases hinvited
    · obtain ⟨i, hi⟩ := h.token id' account' token haccount' hhost hinvited
      exact ⟨i, hi.mono hdid⟩

/-- A key that is given to nobody changes nothing. -/
theorem mem_keyed_iff {users : Railyard.Users} (hnobody : ∀ u ∈ users, u.id ≠ id) {u : UserRow} :
    (∃ u₀ ∈ users, (if u₀.id = id then { u₀ with publicKey := some publicKey } else u₀) = u) ↔
      u ∈ users := by
  refine ⟨?_, fun hu ↦ ⟨u, hu, if_neg (hnobody u hu)⟩⟩
  rintro ⟨u₀, hu₀, hu⟩
  rw [if_neg (hnobody u₀ hu₀)] at hu
  exact hu ▸ hu₀

/-- A user is deleted. -/
theorem MirrorsAt.deleted (h : MirrorsAt P host c w) (hdid : ∀ i e, c.Did i e → c'.Did i e)
    (husers : ∀ u, u ∈ c'.shared.users ↔ u ∈ c.shared.users ∧ u.id ≠ id) :
    MirrorsAt P host c' (w.erase id) := by
  have hget : ∀ id' : String, (w.erase id)[id']? = if id = id' then none else w[id']? := by
    intro id'
    rw [Std.TreeMap.getElem?_erase]
    simp
  constructor
  · intro u hu
    obtain ⟨hu, hne⟩ := (husers u).mp hu
    obtain ⟨account, haccount, hshows⟩ := h.user u hu
    exact ⟨account, by rw [hget, if_neg (Ne.symm hne), haccount], hshows⟩
  · intro id' account haccount hhost
    rw [hget, Option.ite_none_left_eq_some] at haccount
    obtain ⟨u, hu, hid⟩ := h.account id' account haccount.2 hhost
    exact ⟨u, (husers u).mpr ⟨hu, hid ▸ Ne.symm haccount.1⟩, hid⟩
  · intro id' account token haccount hhost hinvited
    rw [hget, Option.ite_none_left_eq_some] at haccount
    obtain ⟨i, hi⟩ := h.token id' account token haccount.2 hhost hinvited
    exact ⟨i, hi.mono hdid⟩

/-- Where only accounts of one host differ, the other hosts see no difference. -/
theorem Mirrors.update (h : Mirrors P d w) (hat : MirrorsAt P host c w')
    (hsame : ∀ (id : String) (account : Account), account.host ≠ host →
      (w'[id]? = some account ↔ w[id]? = some account)) :
    Mirrors P (Function.update d host c) w' := by
  intro host'
  by_cases hhost : host' = host
  · subst hhost
    rw [Function.update_self]
    exact hat
  · rw [Function.update_of_ne hhost]
    exact (h host').frame fun id account haccount ↦ hsame id account (haccount ▸ hhost)

/-! ## What the client knows -/

variable (P) in
/-- The invites of the client's key ids have been consumed. -/
def Known (store : Store) (d : Deployment) : Prop :=
  ∀ name server, store.entry name = some server →
    Spent (d (P.hosts server.serverUrl)) server.keyId

theorem Known.step (h : Known P store d) (hs : d.Step P d') : Known P store d' :=
  fun name server hentry ↦ (h name server hentry).mono fun _ _ ↦ hs.did

/-- An entry's user has been inserted at the entry's host. -/
theorem Known.inserted (hd : Deployed P d) (h : Known P store d) {name : String}
    {server : ServerConfig} (hentry : store.entry name = some server) :
    ∃ i name projectId now n, (d (P.hosts server.serverUrl)).Did i
      ⟨.sql (.insertUser server.keyId name projectId now), .ok n⟩ :=
  (h name server hentry).inserted (hd.enrolled _)

/-- An entry's key id can be sent in a header. -/
theorem Known.visible (hd : Deployed P d) (h : Known P store d) {name : String}
    {server : ServerConfig} (hentry : store.entry name = some server) :
    Encoding.headerText server.keyId = some server.keyId := by
  obtain ⟨i, _, _, _, _, hins⟩ := h.inserted hd hentry
  obtain ⟨e, -, he⟩ := Railyard.insertUser_drawn (hd.enrolled _) hins
  obtain ⟨bs, hform⟩ := Railyard.drawnUserId_eq_some he
  rw [hform]
  exact Encoding.headerText_append (by decide) (Encoding.headerText_hexEncode bs)

/-! ## One step of a server -/

/-- An account of a host that takes the place of one of that host, or of none, is none of another
host's. -/
theorem getElem?_insert_of_host (hhost : account.host = host)
    (hold : ∀ old : Account, w[id]? = some old → old.host = host) (id' : String) (other : Account)
    (hother : other.host ≠ host) :
    ((w.insert id account)[id']? = some other ↔ w[id']? = some other) := by
  rw [Std.TreeMap.getElem?_insert]
  split
  · rename_i heq
    obtain rfl := compare_eq_iff_eq.mp heq
    refine iff_of_false (fun h ↦ hother ?_) fun h ↦ hother (hold _ h)
    rw [← Option.some.inj h, hhost]
  · rfl

theorem getElem?_erase_of_host (hold : ∀ old : Account, w[id]? = some old → old.host = host)
    (id' : String) (other : Account) (hother : other.host ≠ host) :
    ((w.erase id)[id']? = some other ↔ w[id']? = some other) := by
  rw [Std.TreeMap.getElem?_erase]
  split
  · rename_i heq
    obtain rfl := compare_eq_iff_eq.mp heq
    exact iff_of_false (fun h ↦ by cases h) fun h ↦ hother (hold _ h)
  · rfl

variable (P) in
/-- There is a state of the abstract run that matches the tables. -/
def Matched (store : Store) (d : Deployment) : Prop :=
  ∃ w, Reachable P.env P.hosts (Genuine P.hosts) store w ∧ Mirrors P d w

/-- A user that is inserted is nobody so far, neither to a server nor to the client. -/
theorem Mirrors.free (hd : Deployed P d) (hm : Mirrors P d w) (hknown : Known P store d) {i : ℕ}
    {name : String} {projectId : Option String} {now : ℕ}
    (hnew : ∀ u ∈ (d host).shared.users, u.id ≠ id)
    (hfirst : ∀ j name projectId now n,
      ¬ (d host).Did j ⟨.sql (.insertUser id name projectId now), .ok n⟩)
    (hd' : Deployed P (Function.update d host c))
    (hdid : ∀ i e, (d host).Did i e → c.Did i e)
    (hins : c.Did i ⟨.sql (.insertUser id name projectId now), .ok 1⟩) :
    w[id]? = none ∧ ∀ name server, store.entry name = some server → server.keyId ≠ id := by
  -- what was done anywhere before is done after the step
  have hlater : ∀ host' j e, (d host').Did j e → (Function.update d host c host').Did j e := by
    intro host' j e hdone
    by_cases hhost : host' = host
    · subst hhost
      rw [Function.update_self]
      exact hdid _ _ hdone
    · rwa [Function.update_of_ne hhost]
  have hinserted : (Function.update d host c host).Did i
      ⟨.sql (.insertUser id name projectId now), .ok 1⟩ := by
    rw [Function.update_self]
    exact hins
  constructor
  · by_contra hsome
    obtain ⟨account, haccount⟩ := Option.ne_none_iff_exists'.mp hsome
    obtain ⟨u, hu, rfl⟩ := (hm account.host).account id account haccount rfl
    obtain ⟨j, hj⟩ := Railyard.users_inserted (hd.enrolled _) u hu
    have hhost := hd'.host_eq hinserted (hlater _ _ _ hj)
    exact hnew u (hhost ▸ hu) rfl
  · rintro other server hentry rfl
    obtain ⟨j, _, _, _, _, hj⟩ := hknown.inserted hd hentry
    have hhost := hd'.host_eq hinserted (hlater _ _ _ hj)
    exact hfirst _ _ _ _ _ (hhost ▸ hj)

/-- **Whatever a server does, an account is created, removed or settled, or nothing happens.** -/
theorem Matched.step (hd : Deployed P d) (hknown : Known P store d) (h : Matched P store d)
    (hs : d.Step P d') : Matched P store d' := by
  have hd' := hd.step hs
  obtain ⟨w, hw, hm⟩ := h
  cases hs with
  | @serve host a c hserves hstep =>
  have hdid : ∀ i e, (d host).Did i e → c.Did i e := fun _ _ hdid ↦ hdid.step hstep
  have hat := hm host
  -- where the users stay, so do the accounts
  have hstay : (∀ u, u ∈ c.shared.users ↔ u ∈ (d host).shared.users) →
      Matched P store (Function.update d host c) := fun husers ↦
    ⟨w, hw, hm.update (hat.same hdid husers) fun _ _ _ ↦ Iff.rfl⟩
  obtain ⟨call, rfl, hc⟩ | ⟨i, o, t, q, k, rfl, hi, hk, hc⟩ := Conf.step_eq_some _ _ hstep
  · exact hstay fun _ ↦ by rw [hc]
  have hshared : c.shared = (perform o q (d host).shared).2 := congrArg Conf.shared hc
  have hevents : c.Did i ⟨q, (perform o q (d host).shared).1⟩ := by
    rw [hc]
    exact (Conf.did_advance hi).mpr (.inr ⟨rfl, rfl⟩)
  rcases Railyard.perform_users_cases o q (d host).shared with husers |
    ⟨id, name, projectId, now, hevent, hnew, husers⟩ | ⟨publicKey, id, m, hevent, husers⟩ |
    ⟨id, m, hevent, husers⟩
  · exact hstay (hshared ▸ husers)
  · obtain ⟨rfl, hreply⟩ := Railyard.eventOf_eq hevent
    rw [hreply] at hevents
    rw [← hshared] at husers
    obtain ⟨hfree, hunused⟩ := hm.free hd hknown hnew
      (fun j _ _ _ _ hj ↦ Railyard.insertUser_not_pending (hd.enrolled host) Enrolling.ids hj hi hk)
      hd' hdid hevents
    have henrolled : Enrolled P.server c := (hd.enrolled host).tail hserves.enrolling hstep
    have hhandled : ∀ t ∈ c.threads, t.call.Handled fun url ↦ P.hosts url = host := by
      simpa using hd'.handled host
    obtain ⟨token, htoken⟩ := Railyard.exists_invited henrolled hhandled hevents
    have hinserted : (Function.update d host c host).Did i
        ⟨.sql (.insertUser id name projectId now), .ok 1⟩ := by
      rw [Function.update_self]
      exact hevents
    refine ⟨_, hw.create id host name projectId token (hd'.simple hinserted) hfree hunused,
      hm.update (hat.inserted hdid husers hfree ⟨i, htoken⟩)
        (getElem?_insert_of_host rfl fun old hold ↦ ?_)⟩
    rw [hfree] at hold
    cases hold
  · obtain ⟨rfl, hreply⟩ := Railyard.eventOf_eq hevent
    rw [← hshared] at husers
    by_cases hrow : ∃ u ∈ (d host).shared.users, u.id = id
    · obtain ⟨u, hu, rfl⟩ := hrow
      obtain ⟨account, haccount, hshows⟩ := hat.user u hu
      -- a key that is there already has been written, and is not written again
      have hnokey : u.publicKey = none := by
        cases hkey : u.publicKey with
        | none => rfl
        | some old =>
          obtain ⟨j, n, hj⟩ := Railyard.keys_set (hd.enrolled host) u hu old hkey
          exact (Railyard.setPublicKey_not_pending (hd.enrolled host) hj hi hk).elim
      obtain ⟨token, htoken⟩ := hshows.invited hnokey
      refine ⟨_, hw.settle haccount htoken (.enrolled publicKey) fun _ ↦ by simp,
        hm.update (hat.keyed hdid husers haccount)
          (getElem?_insert_of_host hshows.host fun old hold ↦ ?_)⟩
      rw [← Option.some.inj (haccount.symm.trans hold)]
      exact hshows.host
    · exact hstay fun u ↦ (husers u).trans (mem_keyed_iff fun u hu hid ↦ hrow ⟨u, hu, hid⟩)
  · obtain ⟨rfl, -⟩ := Railyard.eventOf_eq hevent
    rw [← hshared] at husers
    by_cases hrow : ∃ u ∈ (d host).shared.users, u.id = id
    · obtain ⟨u, hu, rfl⟩ := hrow
      obtain ⟨account, haccount, hshows⟩ := hat.user u hu
      refine ⟨_, hw.remove u.id, hm.update (hat.deleted hdid husers)
        (getElem?_erase_of_host fun old hold ↦ ?_)⟩
      rw [← Option.some.inj (haccount.symm.trans hold)]
      exact hshows.host
    · exact hstay fun u ↦ (husers u).trans
        ⟨fun h ↦ h.1, fun hu ↦ ⟨hu, fun hid ↦ hrow ⟨u, hu, hid⟩⟩⟩

/-- And whatever servers do one after the other. -/
theorem Matched.steps (hd : Deployed P d) (hknown : Known P store d) (h : Matched P store d)
    (hs : d.Steps P d') : Known P store d' ∧ Matched P store d' := by
  induction hs with
  | refl => exact ⟨hknown, h⟩
  | tail hrun hs ih => exact ⟨ih.1.step hs, ih.2.step (hd.steps hrun) ih.1 hs⟩

end Client
