import Railyard.Data.Text
import Railyard.Server.Http

/-!
# The ingress proxy

The proxy is the one port the outside talks to: it decides from the host of a request which upstream
the request belongs to.  The API is the upstream of one hostname, generated from the machine's
address; every other host is looked up by its first label among the services, whose addresses come
from environment variables.

* `apiHostname`: the hostname of the API.
* `configuredServiceUpstreams`: the services of an environment.
* `RoutingTable.routeForRequest`: where a request goes.
-/

set_option autoImplicit false

namespace Railyard

/-! ## Configuration -/

/-- An IPv4 address. -/
structure Ipv4Addr where
  a : UInt8
  b : UInt8
  c : UInt8
  d : UInt8

/-- Dotted decimal. -/
def Ipv4Addr.text (ip : Ipv4Addr) : String :=
  toString ip.a.toNat ++ "." ++ toString ip.b.toNat ++ "." ++ toString ip.c.toNat ++ "." ++
    toString ip.d.toNat

/-- `str::replace` of one character by another. -/
def replaceChar (old new : Char) (s : String) : String :=
  String.ofList (s.toList.map fun c ↦ if c = old then new else c)

/-- `railyard.<a-b-c-d>.nip.io` -/
def apiHostname (ip : Ipv4Addr) : String :=
  "railyard." ++ (replaceChar '.' '-' ip.text ++ ".nip.io")

def upstreamEnvPrefix : String := "RAILYARD_CONTAINER_UPSTREAM_"

/-- Lowercase, with dashes for underscores. -/
def envKeyToServiceName (key : String) : String :=
  replaceChar '_' '-' (Encoding.toAsciiLowercase key)

def invalidEnv (name expected value : String) : Error :=
  name ++ " must be " ++ expected ++ ", got " ++ Encoding.debugQuote value

variable {A : Type} (parse : String → Option A)

/-- The services of an environment, given as its variables in order, with `parse` for reading a
socket address.  Of two variables for one service the later counts. -/
def configuredServiceUpstreams (vars : List (String × String)) :
    Except Error (Std.TreeMap String A) := do
  let configured := vars.filter fun (key, _) ↦ (Encoding.stripPrefix upstreamEnvPrefix key).isSome
  let upstreams ← configured.mapM fun (key, value) ↦
    let service := envKeyToServiceName
      (String.ofList (key.toList.drop upstreamEnvPrefix.toList.length))
    match parse value with
    | some upstream => .ok (service, upstream)
    | none => .error (invalidEnv key "a socket address" value)
  return upstreams.foldl (fun services (service, upstream) ↦ services.insert service upstream) ∅

/-! ## Routing -/

def apiUpstreamName : String := "railyard"

structure RoutingTable (A : Type) where
  apiAddr : A
  apiHostname : String
  serviceUpstreams : Std.TreeMap String A

structure RouteTarget (A : Type) where
  upstreamAddr : A
  upstreamName : String
deriving DecidableEq

/-- The API as an upstream. -/
def RoutingTable.apiTarget (table : RoutingTable A) : RouteTarget A :=
  ⟨table.apiAddr, apiUpstreamName⟩

/-- What stands before the first dot. -/
def firstLabel (host : String) : String := String.ofList (host.toList.takeWhile (· ≠ '.'))

def RoutingTable.routeFor (table : RoutingTable A) (host : Option String) :
    Option (RouteTarget A) :=
  if host = some table.apiHostname then some table.apiTarget
  else do
    let service := firstLabel (← host)
    let upstreamAddr ← table.serviceUpstreams[service]?
    return ⟨upstreamAddr, service⟩

/-- A host without its port, in lowercase. -/
def normalizeHost (host : String) : String :=
  Encoding.toAsciiLowercase (String.ofList (host.toList.takeWhile (· ≠ ':')))

variable (uriHost : String → String)

/-- The text a request names its host by: the host of its URI, which `uriHost` finds in the
authority, or else its `Host` header. -/
def Request.hostText (req : Request) : Option String :=
  match req.authority with
  | some authority => some (uriHost authority)
  | none => req.header? "host"

def requestHost (req : Request) : Option String := (req.hostText uriHost).map normalizeHost

def RoutingTable.routeForRequest (table : RoutingTable A) (req : Request) :
    Option (RouteTarget A) :=
  table.routeFor (requestHost uriHost req)

end Railyard
