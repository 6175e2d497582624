import Railyard.Data.Encoding

/-!
# References in environment values

A value of a service's environment may contain references, each between a dollar sign with two
opening braces and two closing braces.  `parseReferences` finds them from left to right and fails
on the first that is not closed or not of a known form.
-/

set_option autoImplicit false

namespace Manifest

open Encoding

/-- What a reference asks for. -/
inductive Reference
  | serviceHost (name : String)
  | servicePort (name : String)
  | serviceUrl (name : String)
  | serviceEnv (name key : String)
  | secret (key : String)
deriving DecidableEq, Repr

/-- The service a reference names. -/
def Reference.service : Reference → Option String
  | .serviceHost name | .servicePort name | .serviceUrl name | .serviceEnv name _ => some name
  | .secret _ => none

/-- The error of a token that is no reference. -/
def invalidToken (token reason : String) : String :=
  "invalid reference `" ++ token ++ "`: " ++ reason

/-- The reference a token stands for. -/
def parseToken (token : String) : Except String Reference :=
  match stripPrefix "secrets." token with
  | some key =>
    if key = "" then .error (invalidToken token "missing secret name")
    else .ok (.secret key)
  | none =>
  match stripPrefix "services." token with
  | none =>
    .error (invalidToken token "references must start with `services.` or `secrets.`")
  | some rest =>
  match splitOnce ['.'] rest.toList with
  | none =>
    .error (invalidToken token
      "expected `services.<name>.host|port|url` or `services.<name>.env.<KEY>`")
  | some (name, attr) =>
    if name = [] then .error (invalidToken token "missing service name")
    else
      let name := String.ofList name
      match String.ofList attr with
      | "host" => .ok (.serviceHost name)
      | "port" => .ok (.servicePort name)
      | "url" => .ok (.serviceUrl name)
      | attr =>
        match stripPrefix "env." attr with
        | some key =>
          if key = "" then .error (invalidToken token "missing variable name after `env.`")
          else .ok (.serviceEnv name key)
        | none =>
          .error (invalidToken token
            "expected `host`, `port`, `url`, or `env.<KEY>` after the service name")

/-- The opening bracket of a reference. -/
def openBracket : List Char := ['$', '\x7b', '\x7b']

/-- The closing bracket of a reference. -/
def closeBracket : List Char := ['\x7d', '\x7d']

/-- The references of what is left of a value. -/
def parseRest (rest : List Char) : Except String (List Reference) :=
  match _hopen : splitOnce openBracket rest with
  | none => .ok []
  | some (before, afterOpen) =>
    match _hclose : splitOnce closeBracket afterOpen with
    | none =>
      .error ("invalid reference `" ++ String.ofList (rest.drop before.length) ++
        "`: unterminated `$\x7b` (missing `\x7d`)")
    | some (token, rest') => do
      let reference ← parseToken (trim (String.ofList token))
      let references ← parseRest rest'
      return reference :: references
termination_by rest.length
decreasing_by
  have hafter := splitOnce_length (by decide) _hopen
  have hrest := splitOnce_length (by decide) _hclose
  omega

/-- All references of a value. -/
def parseReferences (value : String) : Except String (List Reference) := parseRest value.toList

example : parseReferences "http://$\x7b\x7b services.api.host \x7d\x7d/$\x7b\x7bsecrets.K\x7d\x7d" =
    .ok [.serviceHost "api", .secret "K"] := by decide +kernel

end Manifest
