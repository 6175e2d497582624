import Railyard.Client.Login

/-!
# Servers that answer truthfully

An abstract account of what the client deals with: the users of all servers, each with the invite
that was minted for it or the public key it was enrolled with.  A user has one invite, so it is
enrolled at most once, and its id is also its key id.  Ids are drawn at random, so users of
different servers are taken to have different ids.

* `Servers.net`: redeeming an invite enrols the user its token was minted for, and `whoami`
  confirms a key exactly when it is the enrolled one.
-/

set_option autoImplicit false

namespace Client

open Railyard (InvitePayload)

/-- How a user may prove who it is. -/
inductive Credential
  /-- By a token that has not been redeemed. -/
  | invited (token : String)
  | enrolled (publicKey : String)
  /-- Not at all: the invite expired. -/
  | lapsed
deriving DecidableEq

/-- A user of a server. -/
structure Account where
  host : String
  name : String
  projectId : Option String
  credential : Credential

/-- The users of all servers, by id. -/
abbrev Servers := Std.TreeMap String Account

namespace Servers

/-- Which server answers at a URL. -/
abbrev Hosts := String → String

variable (hosts : Hosts)

/-- The user an invite's token was minted for, while it is not redeemed. -/
def invitee (servers : Servers) (invite : InvitePayload) : Option (String × Account) :=
  servers.toList.find? fun (_, account) ↦
    account.host = hosts invite.serverUrl ∧ account.credential = .invited invite.inviteToken

/-- The identity of a user. -/
def Account.identity (account : Account) (id : String) : WhoamiResponse :=
  ⟨id, account.name, account.projectId⟩

/-- Truthful answers. -/
def net (publicKeyBase64 : SigningKey → String) : Net Servers where
  redeemInvite invite publicKey servers :=
    match invitee hosts servers invite with
    | none => (.error "invite redemption failed", servers)
    | some (id, account) =>
      (.ok id, servers.insert id { account with credential := .enrolled publicKey })
  whoami url keyId key servers :=
    servers[keyId]?.bind fun account ↦
      if account.host = hosts url ∧ account.credential = .enrolled (publicKeyBase64 key) then
        some (Account.identity account keyId)
      else none

variable {hosts} {pub : SigningKey → String} {servers : Servers} {invite : InvitePayload}

theorem invitee_eq_some {id : String} {account : Account}
    (h : invitee hosts servers invite = some (id, account)) :
    servers[id]? = some account ∧ account.host = hosts invite.serverUrl ∧
      account.credential = .invited invite.inviteToken := by
  have hmem := List.mem_of_find?_eq_some h
  have hcond := List.find?_some h
  exact ⟨Std.TreeMap.mem_toList_iff_getElem?_eq_some.mp hmem, by simpa using hcond⟩

theorem redeemInvite_ok {publicKey keyId : String} {servers' : Servers}
    (h : (net hosts pub).redeemInvite invite publicKey servers = (.ok keyId, servers')) :
    ∃ account, invitee hosts servers invite = some (keyId, account) ∧
      servers' = servers.insert keyId { account with credential := .enrolled publicKey } := by
  simp only [net] at h
  cases hinvitee : invitee hosts servers invite with
  | none => simp [hinvitee] at h
  | some found =>
    obtain ⟨id, account⟩ := found
    simp only [hinvitee, Prod.mk.injEq, Except.ok.injEq] at h
    exact ⟨account, by rw [h.1], by rw [← h.2, h.1]⟩

theorem redeemInvite_error {publicKey : String} {e : Error} {servers' : Servers}
    (h : (net hosts pub).redeemInvite invite publicKey servers = (.error e, servers')) :
    servers' = servers := by
  simp only [net] at h
  split at h
  · simpa using (congrArg Prod.snd h).symm
  · simp at h

/-- An identity is that of a user with this id, on this server, enrolled with the key. -/
theorem whoami_eq_some {url keyId : String} {key : SigningKey} {identity : WhoamiResponse} :
    (net hosts pub).whoami url keyId key servers = some identity ↔
      ∃ account, servers[keyId]? = some account ∧ account.host = hosts url ∧
        account.credential = .enrolled (pub key) ∧ identity = Account.identity account keyId := by
  simp only [net, Option.bind_eq_some_iff, Option.ite_none_right_eq_some, Option.some.injEq,
    and_assoc]
  exact exists_congr fun account ↦ by simp [eq_comm (a := identity)]

/-- What happens to other users does not change who a key belongs to. -/
theorem whoami_insert_of_ne {url keyId id : String} {key : SigningKey} {account : Account}
    (h : keyId ≠ id) :
    (net hosts pub).whoami url keyId key (servers.insert id account) =
      (net hosts pub).whoami url keyId key servers := by
  simp only [net]
  rw [Std.TreeMap.getElem?_insert]
  simp [Ne.symm h]

end Servers

end Client
