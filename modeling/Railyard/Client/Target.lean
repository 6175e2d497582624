import Railyard.Client.Login
import Railyard.Enrolment.Blob

/-!
# What a login is given

`railyard login` takes either an invite blob, which it redeems, or the target of an `ssh` that mints
one.  `run` tells them apart by the prefix of the text as it was typed; `InvitePayload.parse` trims
it first.

* `run`, `loginSsh`: the command, and its way over `ssh`; besides their result they tell what they
  did (`Step`);
* `TakenAsInvite`: every blob is redeemed, and nothing else is redeemed as it stands;
* `takenAsInvite_iff`: this holds of the texts that are no invite behind white space.
-/

set_option autoImplicit false

namespace Client.Target

open Encoding (startsWith trim)
open Railyard (Decoders InvitePayload inviteBlobPrefix inviteBlobPrefix_ne
  not_isWhitespace_inviteBlobPrefix)

/-- What the command is given. -/
structure Args where
  target : String
  name : Option String
  user : Option String

/-- What a command printed, read as UTF-8 with replacement characters. -/
structure Output where
  success : Bool
  stdout : String
  stderr : String

/-- The shell a login runs in. -/
structure Shell (W : Type) where
  /-- `USER` -/
  user : Option String
  /-- `USERNAME` -/
  username : Option String
  /-- `str::to_lowercase` -/
  toLowercase : String → String
  /-- Run `ssh` with these arguments, unless it does not start. -/
  ssh : List String → W → Except Error Output × W

/-- What a login does. -/
inductive Step
  /-- A blob is taken, and this is what it holds. -/
  | redeem (invite : InvitePayload)
  /-- `ssh` is started with this target. -/
  | ssh (target : String) (command : List String)

/-! ## The command -/

/-- Squeeze a local user name into the server's charset. -/
def sanitizeUserName (toLowercase : String → String) (raw : String) : String :=
  String.ofList ((toLowercase raw).toList.filter fun c ↦
    ('a' ≤ c ∧ c ≤ 'z') ∨ c.isDigit ∨ c = '-' ∨ c = '_')

/-- `str::lines`: a line break ends a line, and a carriage return before it belongs to it. -/
def lines (s : String) : List String :=
  let parts := s.toList.splitOn '\n'
  let ended := parts.dropLast.map fun line ↦
    if line.getLast? = some '\r' then line.dropLast else line
  (ended ++ (parts.getLast?.filter (· ≠ [])).toList).map String.ofList

variable {W : Type} (env : Env) (net : Net W) (decoders : Decoders) (shell : Shell W)

/-- The user to create: `--user`, else the local user. -/
def userName (flag : Option String) : Except Error String :=
  match flag with
  | some name => .ok name
  | none =>
    let name := sanitizeUserName shell.toLowercase ((shell.user.or shell.username).getD "")
    if name = "" then .error "could not derive a user name from $USER; pass --user <name>"
    else .ok name

variable (name : Option String) (now : ℕ) (key : SigningKey) (store : Store) (w : W)

/-- `login`, from the blob on. -/
def loginBlob (blob : String) : (Except Error Unit × Store × W) × List Step :=
  match InvitePayload.parse decoders blob with
  | .error e => ((.error e, store, w), [])
  | .ok invite => (login env net invite name now key store w, [.redeem invite])

def loginSsh (target : String) (user : Option String) :
    (Except Error Unit × Store × W) × List Step :=
  match userName shell user with
  | .error e => ((.error e, store, w), [])
  | .ok userName =>
    let command := ["railyard-server", "user", "add", userName]
    match shell.ssh (target :: command) w with
    | (.error e, w) => ((.error e, store, w), [.ssh target command])
    | (.ok output, w) =>
      if !output.success then
        ((.error ("`ssh " ++ target ++ " railyard-server user add " ++ userName ++ "` failed:\n" ++
          trim output.stderr), store, w), [.ssh target command])
      else
        match ((lines output.stdout).map trim).find? (startsWith inviteBlobPrefix) with
        | none =>
          ((.error "the remote `user add` printed no invite blob", store, w), [.ssh target command])
        | some blob =>
          let (result, steps) := loginBlob env net decoders name now key store w blob
          (result, .ssh target command :: steps)

def run (args : Args) : (Except Error Unit × Store × W) × List Step :=
  if startsWith inviteBlobPrefix args.target then
    loginBlob env net decoders args.name now key store w args.target
  else loginSsh env net decoders shell args.name now key store w args.target args.user

/-! ## Invites and other targets -/

theorem loginSsh_steps (target : String) (user : Option String) :
    (loginSsh env net decoders shell name now key store w target user).2 = [] ∨
      ∃ command more, (loginSsh env net decoders shell name now key store w target user).2 =
        .ssh target command :: more := by
  rw [loginSsh]
  split
  · exact .inl rfl
  refine .inr ?_
  simp only
  split
  · exact ⟨_, _, rfl⟩
  split
  · exact ⟨_, _, rfl⟩
  split
  · exact ⟨_, _, rfl⟩
  · exact ⟨_, _, rfl⟩

/-- Nothing is redeemed before `ssh` is started. -/
theorem head?_loginSsh (target : String) (user : Option String) (invite : InvitePayload) :
    (loginSsh env net decoders shell name now key store w target user).2.head? ≠
      some (.redeem invite) := by
  obtain hnone | ⟨command, more, hssh⟩ :=
    loginSsh_steps env net decoders shell name now key store w target user
  · rw [hnone]
    nofun
  · rw [hssh]
    nofun

theorem startsWith_of_parse {blob : String} {invite : InvitePayload}
    (h : InvitePayload.parse decoders blob = .ok invite) :
    startsWith inviteBlobPrefix (trim blob) = true := by
  obtain ⟨encoded, -, htrim, -⟩ := InvitePayload.parse_eq_ok_iff.mp h
  rw [htrim, Encoding.startsWith_append]

/-- The target is treated as the invite it is: one that parses is redeemed and nothing else is done,
and one that does not even start with the prefix is not redeemed as it stands. -/
structure TakenAsInvite (args : Args) : Prop where
  redeemed : ∀ invite, InvitePayload.parse decoders args.target = .ok invite →
    run env net decoders shell now key store w args =
      (login env net invite args.name now key store w, [.redeem invite])
  otherwise : startsWith inviteBlobPrefix (trim args.target) = false → ∀ invite,
    (run env net decoders shell now key store w args).2.head? ≠ some (.redeem invite)

/-- **An invite is treated as one unless white space stands in front of it.** -/
theorem takenAsInvite_iff (args : Args) :
    TakenAsInvite env net decoders shell now key store w args ↔
      ¬ ((∃ c ∈ args.target.toList.head?, Encoding.isWhitespace c = true) ∧
        ∃ invite, InvitePayload.parse decoders args.target = .ok invite) := by
  have hraw : ∀ invite, InvitePayload.parse decoders args.target = .ok invite →
      (startsWith inviteBlobPrefix args.target = true ↔
        ∀ c ∈ args.target.toList.head?, Encoding.isWhitespace c = false) := fun invite hparse ↦
    Encoding.startsWith_iff_of_trim inviteBlobPrefix_ne not_isWhitespace_inviteBlobPrefix
      (startsWith_of_parse decoders hparse)
  constructor
  · rintro htaken ⟨⟨c, hc, hspace⟩, invite, hparse⟩
    have hstart : ¬ startsWith inviteBlobPrefix args.target = true := fun hstart ↦ by
      rw [(hraw invite hparse).mp hstart c hc] at hspace
      cases hspace
    have hsteps := congrArg Prod.snd (htaken.redeemed invite hparse)
    rw [run, if_neg hstart] at hsteps
    refine head?_loginSsh env net decoders shell args.name now key store w args.target args.user
      invite ?_
    rw [hsteps]
    rfl
  · intro hplain
    refine ⟨fun invite hparse ↦ ?_, fun hno invite ↦ ?_⟩
    · have hstart := (hraw invite hparse).mpr fun c hc ↦
        eq_false_of_ne_true fun hspace ↦ hplain ⟨⟨c, hc, hspace⟩, invite, hparse⟩
      rw [run, if_pos hstart, loginBlob, hparse]
    · have hstart : ¬ startsWith inviteBlobPrefix args.target = true := fun hstart ↦ by
        rw [Encoding.startsWith_trim inviteBlobPrefix_ne not_isWhitespace_inviteBlobPrefix hstart]
          at hno
        cases hno
      rw [run, if_neg hstart]
      exact head?_loginSsh env net decoders shell args.name now key store w args.target args.user
        invite

/-! ### A blob pasted behind a space -/

/-- No server answers. -/
def offlineNet : Net Unit where
  redeemInvite _ _ w := (.error "connection refused", w)
  whoami _ _ _ _ := none

/-- Every host name is unknown. -/
def offlineShell : Shell Unit where
  user := some "zoe"
  username := none
  toLowercase := Encoding.toAsciiLowercase
  ssh _ w := (.ok ⟨false, "", "ssh: Could not resolve hostname"⟩, w)

def laptopEnv : Env := ⟨["home"], id, fun _ ↦ none⟩

def spacedBlob : String := " " ++ Railyard.pastedPayload.encode Railyard.blobCrates

def spacedArgs : Args := ⟨spacedBlob, none, none⟩

theorem parse_spacedBlob :
    InvitePayload.parse .specified spacedBlob = .ok Railyard.pastedPayload := by
  have hblob : spacedBlob = " " ++ Railyard.pastedPayload.encode Railyard.blobCrates ++ "" := by
    rw [spacedBlob, String.append_empty]
  have hspace : ∀ c ∈ " ".toList, Encoding.isWhitespace c = true :=
    List.all_eq_true.mp (by decide)
  refine InvitePayload.parse_of_trim (by decide) ?_
  rw [hblob]
  exact InvitePayload.trim_encode ⟨rfl, rfl⟩ Railyard.pastedPayload hspace nofun

theorem run_spacedArgs :
    (run laptopEnv offlineNet .specified offlineShell 0 "key" .empty () spacedArgs).2 =
      [.ssh spacedBlob ["railyard-server", "user", "add", "zoe"]] := by
  have hstart : ¬ startsWith inviteBlobPrefix spacedArgs.target = true := by
    rw [startsWith, spacedArgs, spacedBlob, String.toList_append]
    exact nofun
  have huser : userName offlineShell spacedArgs.user = .ok "zoe" := by decide
  rw [run, if_neg hstart, loginSsh, huser]
  rfl

/-- `ssh` is started with the whole invite, its token included. -/
theorem spacedBlob_sent_to_ssh :
    InvitePayload.parse .specified spacedBlob = .ok Railyard.pastedPayload ∧
      (run laptopEnv offlineNet .specified offlineShell 0 "key" .empty () spacedArgs).2 =
        [.ssh spacedBlob ["railyard-server", "user", "add", "zoe"]] ∧
      ¬ TakenAsInvite laptopEnv offlineNet .specified offlineShell 0 "key" .empty ()
        spacedArgs := by
  refine ⟨parse_spacedBlob, run_spacedArgs, fun htaken ↦ ?_⟩
  have hsteps := congrArg Prod.snd (htaken.redeemed _ parse_spacedBlob)
  rw [run_spacedArgs] at hsteps
  cases hsteps

end Client.Target
