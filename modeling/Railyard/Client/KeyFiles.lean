import Railyard.Client.Supersede

/-!
# What a reply can do to key files

The name of a server entry is sanitized; the key id in the reply of a redemption is not, and names
the key file as it is.  All servers share one directory of key files.

* `KeepsOthers`: the key file lies directly among the key files, and the other entries are as
  they were, with their private keys, unless superseding removed them;
* `HarmlessReply`: the condition for that on the reply and the stores before;
* `login_keeps_others_iff`: a login that returns successfully keeps the others exactly then;
* `written_over`: a reply that leads into another server's entry.
-/

set_option autoImplicit false

namespace Client

open Railyard (InvitePayload InviteProject)

variable {W : Type} (env : Env) (net : Net W)

/-! ## Keeping the other entries -/

section Reply

variable (invite : InvitePayload) (name : Option String) (now : ℕ) (key : SigningKey)
  (store : Store) (w : W)

/-- The entries that superseding removes once the new identity is recorded. -/
def removed (serverName keyId : String) (w' : W) : List (String × ServerConfig) :=
  if invite.project.isNone then
    dropped env net (written env invite serverName keyId key store) w' invite.serverUrl serverName
  else []

/-- The key is written to a file directly among the key files, and an entry that is neither the
one written nor removed by superseding is left as it was, with its private key. -/
structure KeepsOthers (store' : Store) : Prop where
  keyFile : ∀ serverName keyId w',
    Redeems env net invite name now key store w serverName keyId w' →
      AmongKeys env.root (store.writeSigningKey env.root keyId key).1
  others : ∀ other server, store.entry other = some server →
    (∀ serverName keyId w', Redeems env net invite name now key store w serverName keyId w' →
      other ≠ serverName ∧
        (other, server) ∉ removed env net invite key store serverName keyId w') →
    store'.entry other = some server ∧
      store'.readSigningKey env.root server.privateKeyPath =
        store.readSigningKey env.root server.privateKeyPath

/-- What an entry needs to keep its private key.  A redundant entry may share its key file only
when that is the new one and was not there before; and apart from entries that superseding
concerns, none has the new key file unless it held this very key. -/
def KeepsKey (serverName keyId : String) (w' : W) (other : String) (server : ServerConfig) :
    Prop :=
  (invite.project = none ∧ KeyTaken env net (written env invite serverName keyId key store) w'
      invite.serverUrl serverName other server →
    server.privateKeyPath = keyPath env.root keyId ∧
      store.readSigningKey env.root server.privateKeyPath = none) ∧
  (¬ (invite.project = none ∧
        (KeyTaken env net (written env invite serverName keyId key store) w' invite.serverUrl
            serverName other server ∨
          Redundant env net (written env invite serverName keyId key store) w' invite.serverUrl
            serverName other server)) →
    server.privateKeyPath = keyPath env.root keyId →
      store.readSigningKey env.root server.privateKeyPath = some key)

/-- The key id of the reply names a file among the key files, and the other entries keep their
private keys. -/
def HarmlessReply : Prop :=
  ∀ serverName keyId w', Redeems env net invite name now key store w serverName keyId w' →
    AmongKeys env.root (keyPath env.root keyId) ∧
      ∀ other server, store.entry other = some server → other ≠ serverName →
        KeepsKey env net invite key store serverName keyId w' other server

end Reply

variable {env net} {invite : InvitePayload} {name : Option String} {now : ℕ} {key : SigningKey}
  {store store' : Store} {w : W}

/-- The way a login went is determined. -/
theorem Redeems.unique {serverName serverName' keyId keyId' : String} {w₁ w₂ : W}
    (h : Redeems env net invite name now key store w serverName keyId w₁)
    (h' : Redeems env net invite name now key store w serverName' keyId' w₂) :
    serverName' = serverName ∧ keyId' = keyId ∧ w₂ = w₁ := by
  have hname : Except.ok serverName' = Except.ok serverName := h'.name.symm.trans h.name
  have hreply := h'.reply.symm.trans h.reply
  exact ⟨Except.ok.inj hname, by simpa using hreply⟩

section Kept

variable {serverName keyId other : String} {server : ServerConfig} {w' : W}

/-- An entry superseding leaves has its key file taken when some redundant entry has that file. -/
theorem keyTaken_iff_of_not_dropped {adminEntry serverUrl : String}
    (hentry : store.entry other = some server)
    (hkept : (other, server) ∉ dropped env net store w serverUrl adminEntry) :
    KeyTaken env net store w serverUrl adminEntry other server ↔
      ∃ name' server', Redundant env net store w serverUrl adminEntry name' server' ∧
        server'.privateKeyPath = server.privateKeyPath := by
  constructor
  · rintro ⟨name', server', hred, -, hpath, -⟩
    exact ⟨name', server', hred, hpath⟩
  · rintro ⟨name', server', hred, hpath⟩
    by_contra hfree
    have hnotred : ¬ Redundant env net store w serverUrl adminEntry other server :=
      fun h ↦ hkept ((mem_dropped_iff_not_keyTaken h).mpr hfree)
    refine hfree ⟨name', server', hred, ?_, hpath, fun h ↦ absurd h hnotred⟩
    rintro rfl
    obtain rfl : server = server' := Option.some.inj (hentry.symm.trans hred.1)
    exact hnotred hred

/-- What becomes of another entry when the identity is recorded as an admin's. -/
theorem kept_dropped_iff (hproject : invite.project = none)
    (hkeys : AmongKeys env.root (keyPath env.root keyId))
    (hentry : store.entry other = some server) (hother : other ≠ serverName)
    (hdrops : Drops env.root serverName
      (dropped env net (written env invite serverName keyId key store) w' invite.serverUrl
        serverName) (written env invite serverName keyId key store) store') :
    KeepsKey env net invite key store serverName keyId w' other server ↔
      ((other, server) ∉ removed env net invite key store serverName keyId w' →
        store'.entry other = some server ∧
          store'.readSigningKey env.root server.privateKeyPath =
            store.readSigningKey env.root server.privateKeyPath) := by
  have hfile := hkeys.locate
  have hentry₁ : (written env invite serverName keyId key store).entry other = some server := by
    rw [entry_written hfile, if_neg (Ne.symm hother), hentry]
  rw [removed, hproject]
  simp only [Option.isNone_none, if_true, KeepsKey, hproject, true_and]
  by_cases hdropped : (other, server) ∈ dropped env net
      (written env invite serverName keyId key store) w' invite.serverUrl serverName
  · -- removed by superseding
    have hred := (mem_dropped_iff.mp hdropped).1
    have hfree := (mem_dropped_iff_not_keyTaken hred).mp hdropped
    simp [hdropped, hred, hfree]
  have hsame : store'.entry other = some server := by
    rw [hdrops.entry, if_neg (mt (mem_dropped_names_iff hentry₁).mp hdropped), hentry₁]
  have hkey := hdrops.key server.privateKeyPath
  rw [readSigningKey_written hfile] at hkey
  have htakenIff := keyTaken_iff_of_not_dropped hentry₁ hdropped
  have hred : Redundant env net (written env invite serverName keyId key store) w'
      invite.serverUrl serverName other server → KeyTaken env net
        (written env invite serverName keyId key store) w' invite.serverUrl serverName other
        server := by
    intro hred
    by_contra hfree
    exact hdropped ((mem_dropped_iff_not_keyTaken hred).mpr hfree)
  by_cases htaken : KeyTaken env net (written env invite serverName keyId key store) w'
      invite.serverUrl serverName other server
  · -- the key file went with a redundant entry, which was live once the key was written
    have hgone : store'.readSigningKey env.root server.privateKeyPath = none := by
      rw [hkey, if_pos (mem_dropped_paths_iff.mpr (htakenIff.mp htaken))]
    have hnew : store.readSigningKey env.root server.privateKeyPath = none →
        server.privateKeyPath = keyPath env.root keyId := by
      intro hnone
      by_contra hne
      obtain ⟨name', server', hred', hpath⟩ := htakenIff.mp htaken
      obtain ⟨identity, hlive, -⟩ := (Option.any_eq_true _ _).mp hred'.2.2
      rw [liveIdentity, readSigningKey_written hfile, hpath, if_neg hne, hnone] at hlive
      simp at hlive
    simp only [htaken, true_or, not_true, false_imp_iff, and_true, true_imp_iff, hdropped,
      not_false_iff, hsame, true_and, hgone]
    exact ⟨fun h ↦ h.2.symm, fun h ↦ ⟨hnew h.symm, h.symm⟩⟩
  · have hlost : server.privateKeyPath ∉ (dropped env net
        (written env invite serverName keyId key store) w' invite.serverUrl serverName).map
          fun e ↦ e.2.privateKeyPath := fun h ↦ htaken (htakenIff.mpr (mem_dropped_paths_iff.mp h))
    rw [if_neg hlost] at hkey
    have hnotred := mt hred htaken
    simp only [htaken, hnotred, or_self, not_false_iff, false_imp_iff, true_and, true_imp_iff,
      hdropped, hsame, hkey]
    by_cases hpath : server.privateKeyPath = keyPath env.root keyId
    · simp [hpath, eq_comm]
    · simp [hpath]

/-- What becomes of another entry when the identity is recorded as a project's. -/
theorem kept_linked_iff {project : InviteProject} (hproject : invite.project = some project)
    (hkeys : AmongKeys env.root (keyPath env.root keyId))
    (hentry : store.entry other = some server) (hother : other ≠ serverName)
    (hservers : store'.servers = (written env invite serverName keyId key store).servers)
    (hsame : store'.keys = (written env invite serverName keyId key store).keys) :
    KeepsKey env net invite key store serverName keyId w' other server ↔
      ((other, server) ∉ removed env net invite key store serverName keyId w' →
        store'.entry other = some server ∧
          store'.readSigningKey env.root server.privateKeyPath =
            store.readSigningKey env.root server.privateKeyPath) := by
  have hfile := hkeys.locate
  have hentry' : store'.entry other = some server := by
    rw [Store.entry_congr hservers, entry_written hfile, if_neg (Ne.symm hother), hentry]
  have hkey : store'.readSigningKey env.root server.privateKeyPath =
      if server.privateKeyPath = keyPath env.root keyId then some key
      else store.readSigningKey env.root server.privateKeyPath := by
    rw [Store.readSigningKey_congr hsame, readSigningKey_written hfile]
  rw [removed, hproject, hkey]
  simp only [KeepsKey, hproject, hentry', Option.isNone_some, Bool.false_eq_true, if_false,
    reduceCtorEq, false_and, not_false_iff, true_imp_iff, false_imp_iff, true_and,
    List.not_mem_nil]
  by_cases hpath : server.privateKeyPath = keyPath env.root keyId
  · simp [hpath, eq_comm]
  · simp [hpath]

end Kept

/-- **What a reply can do to other identities**, for all stores, invites and replies: a login that
returns successfully writes its key among the key files and leaves the other entries and their
private keys as they were exactly when the reply is harmless. -/
theorem login_keeps_others_iff (env : Env) (net : Net W) (invite : InvitePayload)
    (name : Option String) (now : ℕ) (key : SigningKey) (store store' : Store) (w w' : W)
    (hok : login env net invite name now key store w = (.ok (), store', w')) :
    KeepsOthers env net invite name now key store w store' ↔
      HarmlessReply env net invite name now key store w := by
  have hcases := login_cases env net invite name now key store w
  rw [hok] at hcases
  cases hcases with
  | linked hproject haccess hrecord =>
    rename_i project entryName identity
    have hnot : ∀ serverName keyId w',
        ¬ Redeems env net invite name now key store w serverName keyId w' := by
      intro serverName keyId w' hredeems
      rw [hredeems.notCovered project hproject] at haccess
      simp at haccess
    rcases store.recordProjectBinding_cases project.id entryName with
      ⟨-, e, herror⟩ | ⟨store₁, hrun, -, hservers, hkeys, -⟩
    · simp [herror] at hrecord
    obtain rfl : store₁ = store' := by simpa [hrun] using hrecord
    refine iff_of_true ⟨fun _ _ _ h ↦ absurd h (hnot _ _ _), fun other server hentry _ ↦ ?_⟩
      fun _ _ _ h ↦ absurd h (hnot _ _ _)
    exact ⟨(Store.entry_congr hservers other).trans hentry, Store.readSigningKey_congr hkeys _⟩
  | redeemed hredeems hrecord =>
    rename_i serverName keyId
    have hkept : AmongKeys env.root (keyPath env.root keyId) → ∀ other server,
        store.entry other = some server → other ≠ serverName →
        (KeepsKey env net invite key store serverName keyId w' other server ↔
          ((other, server) ∉ removed env net invite key store serverName keyId w' →
            store'.entry other = some server ∧
              store'.readSigningKey env.root server.privateKeyPath =
                store.readSigningKey env.root server.privateKeyPath)) := by
      intro hkeys other server hentry hother
      rw [recordIdentity_eq] at hrecord
      cases hproject : invite.project with
      | none =>
        rw [hproject] at hrecord
        rcases supersedeProjectEntries_cases (written env invite serverName keyId key store) w'
          invite.serverUrl serverName with ⟨store₁, hrun, hdrops⟩ | ⟨-, e, herror⟩
        · obtain rfl : store₁ = store' := by simpa using hrun.symm.trans hrecord
          exact kept_dropped_iff hproject hkeys hentry hother hdrops
        · have hstep := herror.symm.trans hrecord
          simp at hstep
      | some project =>
        rw [hproject] at hrecord
        rcases (written env invite serverName keyId key store).recordProjectBinding_cases
          project.id serverName with ⟨-, e, herror⟩ | ⟨store₁, hrun, -, hservers, hsame, -⟩
        · simp [herror] at hrecord
        obtain rfl : store₁ = store' := by simpa [hrun] using hrecord
        exact kept_linked_iff hproject hkeys hentry hother hservers hsame
    constructor
    · intro h serverName' keyId' w'' hredeems'
      obtain ⟨rfl, rfl, rfl⟩ := hredeems.unique hredeems'
      have hkeys := h.keyFile _ _ _ hredeems
      refine ⟨hkeys, fun other server hentry hother ↦ ?_⟩
      refine (hkept hkeys other server hentry hother).mpr fun hnot ↦ ?_
      refine h.others other server hentry fun _ _ _ hredeems' ↦ ?_
      obtain ⟨rfl, rfl, rfl⟩ := hredeems.unique hredeems'
      exact ⟨hother, hnot⟩
    · intro h
      obtain ⟨hkeys, hothers⟩ := h _ _ _ hredeems
      refine ⟨fun _ _ _ hredeems' ↦ ?_, fun other server hentry hexcept ↦ ?_⟩
      · obtain ⟨rfl, rfl, rfl⟩ := hredeems.unique hredeems'
        exact hkeys
      · obtain ⟨hother, hnot⟩ := hexcept _ _ _ hredeems
        exact (hkept hkeys other server hentry hother).mp (hothers other server hentry hother) hnot

/-! ## A reply that leads into another entry -/

section Sample

/-- A server that names another server's entry as the key id. -/
def misleadingNet : Net Unit where
  redeemInvite _ _ w := (.ok "../servers/prod", w)
  whoami _ _ _ _ := none

def prodEnv : Env := ⟨["home"], id, fun _ ↦ none⟩

def prodServer : ServerConfig := ⟨"https://prod", "usr_1", keyPath prodEnv.root "usr_1"⟩

def prodStore : Store where
  servers := Std.TreeMap.ofList [("prod", ServerFile.entry prodServer)]
  keys path := if path = keyPath prodEnv.root "usr_1" then some "secret" else none
  config := some ∅

def adminInvite : InvitePayload where
  serverUrl := "https://host"
  serverName := "host"
  userId := "usr_2"
  userName := "ann"
  project := none
  inviteToken := "token"
  expiresAt := 100

/-- Redeeming an invite of that server. -/
def misledLogin : Except Error Unit × Store × Unit :=
  login prodEnv misleadingNet adminInvite none 0 "fresh" prodStore ()

/-- The login succeeds and leaves an entry for another server that cannot be read any more. -/
theorem written_over : misledLogin.1 = .ok () ∧ prodStore.entry "prod" = some prodServer ∧
    misledLogin.2.1.entry "prod" = none ∧
      ¬ KeepsOthers prodEnv misleadingNet adminInvite none 0 "fresh" prodStore ()
        misledLogin.2.1 := by
  have hgone : misledLogin.2.1.entry "prod" = none := by rfl
  refine ⟨by rfl, by rfl, hgone, fun h ↦ ?_⟩
  have hkept : misledLogin.2.1.entry "prod" = some prodServer := by
    refine (h.others "prod" prodServer (by rfl) fun serverName keyId w' hredeems ↦ ?_).1
    have hname : Except.ok serverName = (Except.ok "host" : Except Error String) :=
      hredeems.name.symm.trans (by rfl)
    obtain rfl : serverName = "host" := Except.ok.inj hname
    refine ⟨by decide, fun hmem ↦ ?_⟩
    have hred := (mem_dropped_iff.mp hmem).1.2.1.2
    exact absurd hred (by decide)
  rw [hgone] at hkept
  simp at hkept

theorem login_keeps_others_iff_prod :
    KeepsOthers prodEnv misleadingNet adminInvite none 0 "fresh" prodStore () misledLogin.2.1 ↔
      HarmlessReply prodEnv misleadingNet adminInvite none 0 "fresh" prodStore () :=
  login_keeps_others_iff prodEnv misleadingNet adminInvite none 0 "fresh" prodStore
    misledLogin.2.1 () () (by rfl)

end Sample

end Client
