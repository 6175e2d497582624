import Railyard.Data.IndexMap
import Railyard.Data.Json

/-!
# The project manifest

The types of the manifest `.railyard.json`, field for field.  Numbers with a fixed width carry
their bound; the one `f64` of the format, a service's CPU share, is of a type `F` about which only
`Float64` is known.
-/

set_option autoImplicit false

open Data

namespace Manifest

/-- The values of a `u16`. -/
abbrev U16 := Fin (2 ^ 16)

/-- The values of a `u32`. -/
abbrev U32 := Fin (2 ^ 32)

instance neZero_u16 : NeZero (2 ^ 16) := inferInstance

instance neZero_u32 : NeZero (2 ^ 32) := inferInstance

/-- The project a manifest is linked to. -/
@[ext]
structure Project where
  id : Option String
  name : String

/-- The repository a manifest is deployed from. -/
structure GithubLink where
  repo : String
  branch : Option String

/-- A repository as the source of one service. -/
structure ServiceGithub where
  repo : String
  branch : Option String
  path : Option String

/-- How a service is built. -/
structure Build where
  dockerfile : Option String
  args : IndexMap String
  watch : Option (List String)

/-- The domains of a public service. -/
structure PublicOptions where
  domain : Option String
  domains : List String

/-- Whether a service is public: a boolean, or an object with domains. -/
inductive Public
  | toggle (enabled : Bool)
  | options (options : PublicOptions)

/-- `true`, or any object. -/
def Public.isEnabled : Public → Bool
  | .toggle enabled => enabled
  | .options _ => true

/-- How a service's health is polled. -/
structure Healthcheck where
  path : String
  timeout : Option U64
  interval : Option U64

/-- When a stopped container is started again. -/
inductive RestartPolicy
  | always
  | onFailure
  | never
deriving DecidableEq, Repr

/-- How a rollout replaces containers. -/
inductive Strategy
  | rolling
  | recreate
deriving DecidableEq, Repr

/-- Limits per replica. -/
structure Resources (F : Type) where
  cpu : Option F
  memory : Option String

/-- Bounds of automatic scaling. -/
structure Autoscale where
  min : U32
  max : U32
  targetCpuPercent : Option U32

/-- How many replicas run. -/
structure Scale where
  replicas : Option U32
  autoscale : Option Autoscale

/-- One service of a project; `publicAccess` is the field `public`. -/
structure Service (F : Type) where
  path : Option String
  image : Option String
  github : Option ServiceGithub
  build : Option Build
  start : Option String
  port : Option U16
  env : IndexMap String
  envFiles : List String
  publicAccess : Option Public
  healthcheck : Option Healthcheck
  restart : Option RestartPolicy
  dependsOn : List String
  cron : Option String
  strategy : Option Strategy
  drain : Option U64
  volumes : IndexMap String
  resources : Option (Resources F)
  scale : Option Scale

/-- A manifest. -/
@[ext]
structure RailyardManifest (F : Type) where
  schema : Option String
  project : Option Project
  github : Option GithubLink
  services : IndexMap (Service F)

variable {F : Type}

/-- `Default` for a service: every field absent or empty. -/
def Service.default : Service F where
  path := none
  image := none
  github := none
  build := none
  start := none
  port := none
  env := .empty
  envFiles := []
  publicAccess := none
  healthcheck := none
  restart := none
  dependsOn := []
  cron := none
  strategy := none
  drain := none
  volumes := .empty
  resources := none
  scale := none

/-- `Default` for a manifest. -/
def RailyardManifest.default : RailyardManifest F := ⟨none, none, none, .empty⟩

/-- A service is public when its field is there and enabled. -/
def Service.isPublic (service : Service F) : Bool := service.publicAccess.any Public.isEnabled

end Manifest
