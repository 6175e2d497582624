import Railyard.Data.Serde
import Railyard.Manifest.Validate

/-!
# The manifest as a JSON document

How each type of the manifest is written and read: its fields under their names in the document,
which of them may be absent, and whether the structure has a default, which lets an array of its
fields end early.

* `RailyardManifest.codec`: the codec of a manifest, correct by construction;
* `parse`, `parseRelaxed`: a text to a validated manifest;
* `toJsonString`, `linkProject`: the text of a manifest, and the manifest linked to a project.

The text of a JSON document is the business of other crates: `JsonText` stands for them.
-/

set_option autoImplicit false

namespace Manifest

open Data

variable {F : Type}

/-! ## The types -/

def Project.codec : Codec F Project :=
  (Codec.struct (.cons "id" (.optional .string) <| .cons "name" (.required .string) .nil)
    false).iso (fun (id, name, _) ↦ ⟨id, name⟩) (fun p ↦ (p.id, p.name, ())) fun _ ↦ rfl

def GithubLink.codec : Codec F GithubLink :=
  (Codec.struct (.cons "repo" (.required .string) <| .cons "branch" (.optional .string) .nil)
    false).iso (fun (repo, branch, _) ↦ ⟨repo, branch⟩) (fun g ↦ (g.repo, g.branch, ()))
    fun _ ↦ rfl

def ServiceGithub.codec : Codec F ServiceGithub :=
  (Codec.struct
    (.cons "repo" (.required .string) <|
      .cons "branch" (.optional .string) <|
      .cons "path" (.optional .string) .nil) false).iso
    (fun (repo, branch, path, _) ↦ ⟨repo, branch, path⟩)
    (fun g ↦ (g.repo, g.branch, g.path, ())) fun _ ↦ rfl

/-- A map that is skipped when empty. -/
def mapField {A : Type} (c : Codec F (IndexMap A)) : Field F (IndexMap A) :=
  .collection c IndexMap.isEmpty .empty fun _ ↦ IndexMap.eq_empty_of_isEmpty

/-- A list that is skipped when empty. -/
def listField : Field F (List String) :=
  .collection (.list .string) List.isEmpty [] fun _ ↦ List.isEmpty_iff.mp

def Build.codec : Codec F Build :=
  (Codec.struct
    (.cons "dockerfile" (.optional .string) <|
      .cons "args" (mapField (.map .string)) <|
      .cons "watch" (.optional (.list .string)) .nil) true).iso
    (fun (dockerfile, args, watch, _) ↦ ⟨dockerfile, args, watch⟩)
    (fun b ↦ (b.dockerfile, b.args, b.watch, ())) fun _ ↦ rfl

def PublicOptions.codec : Codec F PublicOptions :=
  (Codec.struct
    (.cons "domain" (.optional .string) <| .cons "domains" listField .nil) true).iso
    (fun (domain, domains, _) ↦ ⟨domain, domains⟩) (fun o ↦ (o.domain, o.domains, ()))
    fun _ ↦ rfl

def Public.codec : Codec F Public :=
  (Codec.untagged .bool PublicOptions.codec fun _ ↦ rfl).iso
    (fun
      | .inl b => .toggle b
      | .inr o => .options o)
    (fun
      | .toggle b => .inl b
      | .options o => .inr o)
    fun p ↦ by cases p <;> rfl

def u16 : Codec F U16 := .uint 16 (by decide)

def u32 : Codec F U32 := .uint 32 (by decide)

def u64 : Codec F U64 := .uint 64 (by decide)

def Healthcheck.codec : Codec F Healthcheck :=
  (Codec.struct
    (.cons "path" (.required .string) <|
      .cons "timeout" (.optional u64) <|
      .cons "interval" (.optional u64) .nil) false).iso
    (fun (path, timeout, interval, _) ↦ ⟨path, timeout, interval⟩)
    (fun h ↦ (h.path, h.timeout, h.interval, ())) fun _ ↦ rfl

def RestartPolicy.codec : Codec F RestartPolicy :=
  .variant
    (fun
      | .always => "always"
      | .onFailure => "on-failure"
      | .never => "never")
    (fun
      | "always" => some .always
      | "on-failure" => some .onFailure
      | "never" => some .never
      | _ => none)
    fun p ↦ by cases p <;> rfl

def Strategy.codec : Codec F Strategy :=
  .variant
    (fun
      | .rolling => "rolling"
      | .recreate => "recreate")
    (fun
      | "rolling" => some .rolling
      | "recreate" => some .recreate
      | _ => none)
    fun s ↦ by cases s <;> rfl

def Resources.codec [Float64 F] : Codec F (Resources F) :=
  (Codec.struct
    (.cons "cpu" (.optional .float) <| .cons "memory" (.optional .string) .nil) true).iso
    (fun (cpu, memory, _) ↦ ⟨cpu, memory⟩) (fun r ↦ (r.cpu, r.memory, ())) fun _ ↦ rfl

def Autoscale.codec : Codec F Autoscale :=
  (Codec.struct
    (.cons "min" (.required u32) <|
      .cons "max" (.required u32) <|
      .cons "targetCpuPercent" (.optional u32) .nil) false).iso
    (fun (min, max, targetCpuPercent, _) ↦ ⟨min, max, targetCpuPercent⟩)
    (fun a ↦ (a.min, a.max, a.targetCpuPercent, ())) fun _ ↦ rfl

def Scale.codec : Codec F Scale :=
  (Codec.struct
    (.cons "replicas" (.optional u32) <|
      .cons "autoscale" (.optional Autoscale.codec) .nil) true).iso
    (fun (replicas, autoscale, _) ↦ ⟨replicas, autoscale⟩)
    (fun s ↦ (s.replicas, s.autoscale, ())) fun _ ↦ rfl

/-- `de_env_map`: a value may also be a number or a boolean, and is then its text. -/
def readEnvValue [Float64 F] : Json F → Option String
  | .string s => some s
  | .number n => some n.text
  | .bool b => some (if b then "true" else "false")
  | _ => none

/-- The environment of a service. -/
def envCodec [Float64 F] : Codec F (IndexMap String) :=
  .mapWith .string readEnvValue fun _ ↦ rfl

def Service.codec [Float64 F] : Codec F (Service F) :=
  (Codec.struct
    (.cons "path" (.optional .string) <|
      .cons "image" (.optional .string) <|
      .cons "github" (.optional ServiceGithub.codec) <|
      .cons "build" (.optional Build.codec) <|
      .cons "start" (.optional .string) <|
      .cons "port" (.optional u16) <|
      .cons "env" (mapField envCodec) <|
      .cons "envFiles" listField <|
      .cons "public" (.optional Public.codec) <|
      .cons "healthcheck" (.optional Healthcheck.codec) <|
      .cons "restart" (.optional RestartPolicy.codec) <|
      .cons "dependsOn" listField <|
      .cons "cron" (.optional .string) <|
      .cons "strategy" (.optional Strategy.codec) <|
      .cons "drain" (.optional u64) <|
      .cons "volumes" (mapField (.map .string)) <|
      .cons "resources" (.optional Resources.codec) <|
      .cons "scale" (.optional Scale.codec) .nil) true).iso
    (fun (path, image, github, build, start, port, env, envFiles, publicAccess, healthcheck,
        restart, dependsOn, cron, strategy, drain, volumes, resources, scale, _) ↦
      ⟨path, image, github, build, start, port, env, envFiles, publicAccess, healthcheck,
        restart, dependsOn, cron, strategy, drain, volumes, resources, scale⟩)
    (fun s ↦ (s.path, s.image, s.github, s.build, s.start, s.port, s.env, s.envFiles,
      s.publicAccess, s.healthcheck, s.restart, s.dependsOn, s.cron, s.strategy, s.drain,
      s.volumes, s.resources, s.scale, ()))
    fun _ ↦ rfl

def RailyardManifest.codec [Float64 F] : Codec F (RailyardManifest F) :=
  (Codec.struct
    (.cons "$schema" (.optional .string) <|
      .cons "project" (.optional Project.codec) <|
      .cons "github" (.optional GithubLink.codec) <|
      .cons "services" (mapField (.map Service.codec)) .nil) true).iso
    (fun (schema, project, github, services, _) ↦ ⟨schema, project, github, services⟩)
    (fun m ↦ (m.schema, m.project, m.github, m.services, ())) fun _ ↦ rfl

/-! ## Texts -/

/-- The crates that print and parse JSON, strictly and with the relaxed spellings. -/
structure JsonText (F : Type) where
  /-- `serde_json::to_string_pretty`. -/
  print : Json F → String
  /-- `serde_json::from_str`. -/
  parse : String → Option (Json F)
  /-- `json5::from_str`. -/
  parseRelaxed : String → Option (Json F)

/-- Why a text is not accepted as a manifest. -/
inductive ParseError
  | invalidJson
  | invalidShape
  | invalid (errors : List ValidationError)
deriving DecidableEq

variable [Float64 F]

/-- A JSON value of the right shape that passes validation. -/
def parseValue (hash : HashOrder) (raw : Json F) : Except ParseError (RailyardManifest F) :=
  match RailyardManifest.codec.decode raw with
  | none => .error .invalidShape
  | some manifest =>
    if validate hash manifest = [] then .ok manifest
    else .error (.invalid (validate hash manifest))

/-- A manifest from strict JSON. -/
def parse (text : JsonText F) (hash : HashOrder) (input : String) :
    Except ParseError (RailyardManifest F) :=
  match text.parse input with
  | none => .error .invalidJson
  | some raw => parseValue hash raw

/-- A manifest from the relaxed spellings. -/
def parseRelaxed (text : JsonText F) (hash : HashOrder) (input : String) :
    Except ParseError (RailyardManifest F) :=
  match text.parseRelaxed input with
  | none => .error .invalidJson
  | some raw => parseValue hash raw

/-- The text of a manifest, with a line feed at its end. -/
def RailyardManifest.toJsonString (text : JsonText F) (manifest : RailyardManifest F) : String :=
  text.print (RailyardManifest.codec.encode manifest) ++ "\n"

omit [Float64 F] in
/-- Name the project of a manifest and give its id. -/
def RailyardManifest.linkProject (manifest : RailyardManifest F) (name id : String) :
    RailyardManifest F :=
  match manifest.project with
  | some project => { manifest with project := some { project with name := name, id := some id } }
  | none => { manifest with project := some { id := some id, name := name } }

end Manifest
