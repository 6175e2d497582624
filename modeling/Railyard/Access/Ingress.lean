import Mathlib.Data.List.TakeWhile
import Railyard.Replay.Sequential
import Railyard.Server.Calls
import Railyard.Server.Proxy

/-!
# Hosts at the ingress

The host of a request is read twice: by the proxy, to find an upstream, and by the API, as part of
what was signed.  The proxy takes it from the URI and only without one from the `Host` header; the
API prefers the header.

* `signed_host_iff`: when the two agree on a request that is accepted.
* `upstream_reachable_iff`: which variables of an environment have their upstream reached under the
  name they give it.
-/

set_option autoImplicit false

namespace Railyard

open Effects Effects.Prog

variable {A : Type} {uriHost : String → String} {table : RoutingTable A}

/-! ## Routes -/

theorem RoutingTable.routeFor_api :
    table.routeFor (some table.apiHostname) = some table.apiTarget := if_pos rfl

theorem RoutingTable.routeFor_service {host : String} (h : host ≠ table.apiHostname) :
    table.routeFor (some host) =
      (table.serviceUpstreams[firstLabel host]?).map (⟨·, firstLabel host⟩) := by
  rw [routeFor, if_neg (h ∘ Option.some.inj)]
  show table.serviceUpstreams[firstLabel host]?.bind _ = _
  rw [Option.map_eq_bind]
  rfl

theorem RoutingTable.routeForRequest_of_hostText {req : Request} {host : String}
    (h : req.hostText uriHost = some host) :
    table.routeForRequest uriHost req = table.routeFor (some (normalizeHost host)) := by
  rw [routeForRequest, requestHost, h, Option.map_some]

/-- A request goes to the API's address under the API's name, or through a service that has the
address too. -/
theorem RoutingTable.cases_of_route {req : Request}
    (h : (table.routeForRequest uriHost req).map (·.upstreamAddr) = some table.apiAddr) :
    requestHost uriHost req = some table.apiHostname ∨
      requestHost uriHost req ≠ some table.apiHostname ∧
      ∃ host ∈ requestHost uriHost req,
        table.serviceUpstreams[firstLabel host]? = some table.apiAddr := by
  by_cases hname : requestHost uriHost req = some table.apiHostname
  · exact .inl hname
  · refine .inr ⟨hname, ?_⟩
    rw [routeForRequest] at h
    cases hhost : requestHost uriHost req with
    | none =>
      rw [hhost] at h
      cases h
    | some host =>
      refine ⟨host, rfl, ?_⟩
      rw [hhost, routeFor_service fun heq ↦ hname (by rw [hhost, heq]), Option.map_map] at h
      simpa [Function.comp_def] using h

/-! ## The host that is signed -/

/-- A request that was accepted was signed for the host it names. -/
theorem signed_of_accepted {crates : Crates} {req req' : Request} {τ : List (Event Op Op.Reply)}
    (h : After ((Call.checkedRequest req).prog crates) τ (.ret (.checkedRequest (.ok req')))) :
    ∃ q ∈ req.signed, req.host = .ok q.host ∧
      ∃ key signature, crates.verify key (q.head.canonical req q.host) signature = true := by
  obtain ⟨head, now, row, rows, hhead, -, hverify, -⟩ := Call.returned_checkedRequest h
  rw [verifyHead] at hverify
  split at hverify
  · cases hverify
  rename_i key hkey
  split at hverify
  · cases hverify
  rename_i signature hsignature
  split at hverify
  · cases hverify
  rename_i host hhost
  split at hverify
  · rename_i hok
    refine ⟨⟨head, req.method, req.target, host⟩, ?_, hhost, key, signature, hok⟩
    rw [Request.signed, hhead, hhost]
    rfl
  · cases hverify

/-- The host a request was signed for is its header's, or the authority's. -/
theorem Request.host_of_authority {req : Request} {authority : String}
    (h : req.authority = some authority) :
    req.host = .ok ((req.header? "host").getD authority) := by
  rw [host, h]
  cases req.header? "host" <;> rfl

theorem Request.hostText_of_host {req : Request} {host : String} (hnone : req.authority = none)
    (h : req.host = .ok host) (uriHost : String → String) : req.hostText uriHost = some host := by
  rw [Request.host, hnone] at h
  rw [hostText, hnone]
  cases hheader : req.header? "host" with
  | none =>
    rw [hheader] at h
    cases h
  | some value =>
    rw [hheader] at h
    rw [Except.ok.inj h]

/-- **The host that is signed.**  A request that the proxy routes to the API and that is then
accepted was signed for the API's host exactly if its URI has no authority or the header that the
API prefers names the same host.  A request routed there through a service that has the API's
address was signed for the API's host only if it has an authority for the proxy to read. -/
theorem signed_host_iff {crates : Crates} {req req' : Request} {τ : List (Event Op Op.Reply)}
    (hroute : (table.routeForRequest uriHost req).map (·.upstreamAddr) = some table.apiAddr)
    (haccept : After ((Call.checkedRequest req).prog crates) τ
      (.ret (.checkedRequest (.ok req')))) :
    ∃ q ∈ req.signed,
      (∃ key signature, crates.verify key (q.head.canonical req q.host) signature = true) ∧
      (requestHost uriHost req = some table.apiHostname ∧
        (normalizeHost q.host = table.apiHostname ↔ ∀ authority, req.authority = some authority →
          normalizeHost ((req.header? "host").getD authority)
            = normalizeHost (uriHost authority)) ∨
      requestHost uriHost req ≠ some table.apiHostname ∧
        (∃ host ∈ requestHost uriHost req,
          table.serviceUpstreams[firstLabel host]? = some table.apiAddr) ∧
        (normalizeHost q.host = table.apiHostname ↔ ∃ authority, req.authority = some authority ∧
          normalizeHost ((req.header? "host").getD authority) = table.apiHostname)) := by
  obtain ⟨q, hq, hhost, hverify⟩ := signed_of_accepted haccept
  refine ⟨q, hq, hverify, ?_⟩
  cases hauthority : req.authority with
  | none =>
    have htext := Request.hostText_of_host hauthority hhost uriHost
    have hread : requestHost uriHost req = some (normalizeHost q.host) := by
      rw [requestHost, htext, Option.map_some]
    refine (RoutingTable.cases_of_route hroute).imp (fun hname ↦ ⟨hname, ?_⟩)
      fun ⟨hname, hservice⟩ ↦ ⟨hname, hservice, ?_⟩
    · rw [hread] at hname
      exact iff_of_true (Option.some.inj hname) fun authority h ↦ by cases h
    · rw [hread] at hname
      exact iff_of_false (fun h ↦ hname (congrArg some h)) fun ⟨authority, h, _⟩ ↦ by cases h
  | some authority =>
    have hsigned : (req.header? "host").getD authority = q.host := by
      rw [Request.host_of_authority hauthority] at hhost
      exact Except.ok.inj hhost
    have hread : requestHost uriHost req = some (normalizeHost (uriHost authority)) := by
      rw [requestHost, Request.hostText, hauthority]
      rfl
    refine (RoutingTable.cases_of_route hroute).imp (fun hname ↦ ⟨hname, ?_⟩)
      fun ⟨hname, hservice⟩ ↦ ⟨hname, hservice, ?_⟩
    · rw [hread] at hname
      simp only [Option.some.injEq, forall_eq', hsigned, Option.some.inj hname]
    · simp only [Option.some.injEq, exists_eq_left', hsigned]

/-- The host of an authority that is a name, with or without a port.  An authority is visible. -/
def authorityHost (authority : String) : String :=
  (Encoding.headerText (String.ofList (authority.toList.takeWhile (· ≠ ':')))).getD ""

/-- The table of a server at 8.8.8.8 that serves nothing but its API. -/
def apiTable : RoutingTable String := ⟨"127.0.0.1:3001", apiHostname ⟨8, 8, 8, 8⟩, ∅⟩

/-- A signed request for the API at its hostname, with another text in its `Host` header. -/
def whoamiAt (host : String) : Request where
  method := "GET"
  authority := some "railyard.8-8-8-8.nip.io:3000"
  pathAndQuery := some "/api/whoami"
  headers := ("host", host) :: (whoamiRequest "1000" "n").headers.tail

/-- A check of this request on a server that knows the key. -/
theorem checkedRequest_accepted (req : Request)
    (h : ((checkedRequest .sample req).run.run perform (fun _ ↦ { now := 1000 })
      .keyed).1.isOk = true) :
    ∃ req' τ, After ((Call.checkedRequest req).prog .sample) τ
      (.ret (.checkedRequest (.ok req'))) := by
  obtain ⟨τ, hafter⟩ := after_run perform ((Call.checkedRequest req).prog .sample)
    (fun _ ↦ { now := 1000 }) Server.keyed
  rw [Call.prog, show (Outcome.checkedRequest <$> (checkedRequest .sample req).run).run perform
    (fun _ ↦ { now := 1000 }) Server.keyed = _ from run_bind_ret ..] at hafter
  cases hrun :
      ((checkedRequest .sample req).run.run perform (fun _ ↦ { now := 1000 }) .keyed).1 with
  | error e =>
    rw [hrun] at h
    cases h
  | ok req' =>
    rw [hrun] at hafter
    exact ⟨req', τ, hafter⟩

theorem signed_host_iff_whoamiAt :
    ∃ q ∈ (whoamiAt "RAILYARD.8-8-8-8.nip.io").signed,
      normalizeHost q.host = apiTable.apiHostname := by
  have hroute : (apiTable.routeForRequest authorityHost (whoamiAt "RAILYARD.8-8-8-8.nip.io")).map
      (·.upstreamAddr) = some apiTable.apiAddr := by
    decide +kernel
  obtain ⟨req', τ, haccept⟩ :=
    checkedRequest_accepted (whoamiAt "RAILYARD.8-8-8-8.nip.io") (by decide +kernel)
  obtain ⟨q, hq, -, ⟨-, hiff⟩ | ⟨hname, -⟩⟩ := signed_host_iff hroute haccept
  · exact ⟨q, hq, hiff.mpr fun authority h ↦ by cases h; decide +kernel⟩
  · exact absurd (by decide +kernel) hname

/-- A request for the API, signed for another host, is routed to the API and accepted. -/
theorem whoamiAt_otherHost_accepted :
    apiTable.routeForRequest authorityHost (whoamiAt "staging.example") = some apiTable.apiTarget ∧
      (∃ req' τ, After ((Call.checkedRequest (whoamiAt "staging.example")).prog .sample) τ
        (.ret (.checkedRequest (.ok req')))) ∧
      ∃ q ∈ (whoamiAt "staging.example").signed, q.host = "staging.example" ∧
        normalizeHost q.host ≠ apiTable.apiHostname :=
  ⟨by decide +kernel, checkedRequest_accepted _ (by decide +kernel), by decide +kernel⟩

/-! ## The services of an environment -/

section Upstreams

variable {parse : String → Option A} {vars : List (String × String)}

/-- The service that a variable names, if it is one for an upstream, and its address. -/
def namedUpstream (parse : String → Option A) (var : String × String) : Option (String × A) := do
  let name ← Encoding.stripPrefix upstreamEnvPrefix var.1
  let upstream ← parse var.2
  return (envKeyToServiceName name, upstream)

/-- The address that the last variable for a service gives. -/
def lastUpstream (parse : String → Option A) (vars : List (String × String)) (service : String) :
    Option A :=
  (((vars.filterMap (namedUpstream parse)).filter (·.1 = service)).getLast?).map (·.2)

theorem getElem?_foldl_insert (l : List (String × A)) (services : Std.TreeMap String A)
    (service : String) :
    (l.foldl (fun services (name, upstream) ↦ services.insert name upstream) services)[service]? =
      (((l.filter (·.1 = service)).getLast?).map (·.2)).or services[service]? := by
  induction l generalizing services with
  | nil => rfl
  | cons p l ih =>
    rw [List.foldl_cons, ih, Std.TreeMap.getElem?_insert]
    by_cases hp : p.1 = service
    · rw [List.filter_cons_of_pos (by simpa using hp), List.getLast?_cons,
        if_pos (Std.LawfulEqCmp.compare_eq_iff_eq.mpr hp)]
      cases (l.filter (·.1 = service)).getLast? <;> rfl
    · rw [List.filter_cons_of_neg (by simpa using hp),
        if_neg fun h ↦ hp (Std.LawfulEqCmp.eq_of_compare h)]

/-- An environment that is accepted has a service for every variable that names one, with the
address its last variable gives. -/
theorem configuredServiceUpstreams_ok {services : Std.TreeMap String A}
    (h : configuredServiceUpstreams parse vars = .ok services) (service : String) :
    services[service]? = lastUpstream parse vars service := by
  obtain ⟨upstreams, hmap, hfold⟩ := Encoding.bind_eq_ok h
  have hread : upstreams = vars.filterMap (namedUpstream parse) := by
    clear h hfold
    induction vars generalizing upstreams with
    | nil => exact (Except.ok.inj hmap).symm
    | cons var vars ih =>
      obtain ⟨key, value⟩ := var
      rw [List.filterMap_cons, namedUpstream]
      cases hstrip : Encoding.stripPrefix upstreamEnvPrefix key with
      | none =>
        rw [List.filter_cons_of_neg (by simp [hstrip])] at hmap
        exact ih upstreams hmap
      | some name =>
        rw [List.filter_cons_of_pos (by simp [hstrip]), List.mapM_cons] at hmap
        obtain ⟨upstream, hupstream, hmap⟩ := Encoding.bind_eq_ok hmap
        obtain ⟨rest, hrest, hmap⟩ := Encoding.bind_eq_ok hmap
        obtain rfl : upstream :: rest = upstreams := Except.ok.inj hmap
        rw [ih rest hrest]
        have hname : String.ofList (key.toList.drop upstreamEnvPrefix.toList.length) = name := by
          rw [Encoding.stripPrefix_eq_some_iff.mp hstrip, Encoding.drop_start]
        cases hparse : parse value with
        | none => simp [hparse] at hupstream
        | some addr =>
          simp only [hparse, hname] at hupstream
          rw [← Except.ok.inj hupstream]
          rfl
  rw [← Except.ok.inj hfold, getElem?_foldl_insert, hread]
  simp [lastUpstream]

/-! ### Names and labels -/

theorem normalizeHost_toList (host : String) : (normalizeHost host).toList =
    (Encoding.toAsciiLowercase host).toList.takeWhile (· ≠ ':') := by
  rw [normalizeHost, Encoding.toList_toAsciiLowercase, String.toList_ofList,
    Encoding.takeWhile_map_lowerChar (by decide), ← Encoding.toList_toAsciiLowercase]

/-- The names of services have no capitals. -/
theorem toAsciiLowercase_envKeyToServiceName (key : String) :
    Encoding.toAsciiLowercase (envKeyToServiceName key) = envKeyToServiceName key := by
  refine Encoding.toAsciiLowercase_eq_self fun c hc hupper ↦ ?_
  rw [envKeyToServiceName, replaceChar, String.toList_ofList, Encoding.toList_toAsciiLowercase,
    List.map_map] at hc
  obtain ⟨d, -, rfl⟩ := List.mem_map.mp hc
  rw [Function.comp_apply] at hupper
  split at hupper
  · exact absurd hupper (by decide)
  · have hlo : 65 ≤ (Encoding.lowerChar d).toNat := hupper.1
    have hhi : (Encoding.lowerChar d).toNat ≤ 90 := hupper.2
    rcases Encoding.lowerChar_cases d with ⟨hnot, hsame⟩ | ⟨-, hge, -⟩
    · rw [hsame] at hupper
      exact hnot hupper
    · omega

/-- Of a host below a service, the proxy looks up the first label of the service itself. -/
theorem firstLabel_normalizeHost {host service rest : String}
    (hlower : Encoding.toAsciiLowercase service = service)
    (h : Encoding.toAsciiLowercase host = service ++ "." ++ rest) :
    firstLabel (normalizeHost host) = firstLabel (normalizeHost service) := by
  have hdot : (service ++ "." ++ rest).toList = service.toList ++ '.' :: rest.toList := by
    rw [String.toList_append, String.toList_append, List.append_assoc]
    rfl
  rw [firstLabel, firstLabel, normalizeHost_toList, normalizeHost_toList, hlower, h, hdot,
    Encoding.takeWhile_takeWhile_append]

theorem Ipv4Addr.mem_text {ip : Ipv4Addr} {c : Char} (h : c ∈ ip.text.toList) :
    c.isDigit ∨ c = '.' := by
  have hdigits : ∀ n : ℕ, c ∈ (toString n).toList → c.isDigit := by
    intro n hc
    rw [Nat.toString_eq_repr, Nat.toList_repr] at hc
    exact Nat.isDigit_of_mem_toDigits (by decide) (by decide) hc
  have hdot : c ∈ ".".toList → c = '.' := List.mem_singleton.mp
  simp only [text, String.toList_append, List.mem_append] at h
  rcases h with (((((h | h) | h) | h) | h) | h) | h
  · exact .inl (hdigits _ h)
  · exact .inr (hdot h)
  · exact .inl (hdigits _ h)
  · exact .inr (hdot h)
  · exact .inl (hdigits _ h)
  · exact .inr (hdot h)
  · exact .inl (hdigits _ h)

theorem colon_notMem_apiHostname (ip : Ipv4Addr) : ':' ∉ (apiHostname ip).toList := by
  intro h
  rw [apiHostname, String.toList_append, String.toList_append, List.mem_append,
    List.mem_append] at h
  rcases h with h | h | h
  · exact absurd h (by decide)
  · rw [replaceChar, String.toList_ofList] at h
    obtain ⟨c, hc, heq⟩ := List.mem_map.mp h
    split at heq
    · exact absurd heq (by decide)
    · rw [heq] at hc
      exact absurd (Ipv4Addr.mem_text hc) (by decide)
  · exact absurd h (by decide)

/-- The hostname of the API does not end in a dot. -/
theorem apiHostname_getLast? (ip : Ipv4Addr) : (apiHostname ip).toList.getLast? = some 'o' := by
  rw [apiHostname, String.toList_append, String.toList_append, List.getLast?_append,
    List.getLast?_append]
  rfl

/-- The API's hostname, in any case and with any port, is read as what it is. -/
theorem normalizeHost_api {ip : Ipv4Addr} {host : String}
    (h : Encoding.toAsciiLowercase host = apiHostname ip) (port : String) :
    normalizeHost host = apiHostname ip ∧
      normalizeHost (host ++ ":" ++ port) = apiHostname ip := by
  have hall : ∀ c ∈ (apiHostname ip).toList, decide (c ≠ ':') = true := by
    intro c hc
    refine decide_eq_true fun heq ↦ ?_
    rw [heq] at hc
    exact colon_notMem_apiHostname ip hc
  have hport : (Encoding.toAsciiLowercase (host ++ ":" ++ port)).toList =
      (apiHostname ip).toList ++ ':' :: (Encoding.toAsciiLowercase port).toList := by
    rw [Encoding.toAsciiLowercase_append, Encoding.toAsciiLowercase_append, h,
      String.toList_append, String.toList_append, List.append_assoc]
    rfl
  constructor
  · refine String.toList_injective ?_
    rw [normalizeHost_toList, h, List.takeWhile_eq_self_iff.mpr hall]
  · refine String.toList_injective ?_
    rw [normalizeHost_toList, hport, List.takeWhile_append_of_pos hall,
      List.takeWhile_cons_of_neg (by decide), List.append_nil]

/-- If a service with a dot behind it is read as the API, so is every host below the service. -/
theorem normalizeHost_eq_api {ip : Ipv4Addr} {host service rest : String}
    (hlower : Encoding.toAsciiLowercase service = service)
    (hhost : Encoding.toAsciiLowercase host = service ++ "." ++ rest)
    (h : normalizeHost (service ++ ".") = apiHostname ip) :
    normalizeHost host = apiHostname ip := by
  have hdot : (Encoding.toAsciiLowercase (service ++ ".")).toList = service.toList ++ ['.'] := by
    rw [Encoding.toAsciiLowercase_append, hlower, String.toList_append]
    rfl
  have hchars := congrArg String.toList h
  rw [normalizeHost_toList, hdot, List.takeWhile_append] at hchars
  refine String.toList_injective ?_
  rw [normalizeHost_toList, hhost, String.append_assoc, String.toList_append, List.takeWhile_append]
  split at hchars
  · have hlast := apiHostname_getLast? ip
    rw [← hchars, List.takeWhile_cons_of_pos (by decide), List.takeWhile_nil,
      List.getLast?_append, List.getLast?_singleton, Option.some_or, Option.some.injEq] at hlast
    exact absurd hlast (by decide)
  · rename_i hshort
    rw [if_neg hshort, hchars]

/-! ### Reaching an upstream -/

/-- A host whose first label no variable names. -/
theorem lastUpstream_eq_none {service : String}
    (h : ∀ name value, (upstreamEnvPrefix ++ name, value) ∈ vars →
      envKeyToServiceName name ≠ service) : lastUpstream parse vars service = none := by
  have hempty : (vars.filterMap (namedUpstream parse)).filter (·.1 = service) = [] := by
    refine List.filter_eq_nil_iff.mpr fun p hp hservice ↦ ?_
    obtain ⟨⟨key, value⟩, hvar, hnamed⟩ := List.mem_filterMap.mp hp
    obtain ⟨name, hname, hnamed⟩ := Option.bind_eq_some_iff.mp hnamed
    obtain ⟨upstream, -, hnamed⟩ := Option.bind_eq_some_iff.mp hnamed
    have hkey : key = upstreamEnvPrefix ++ name := Encoding.stripPrefix_eq_some_iff.mp hname
    rw [hkey] at hvar
    rw [← Option.some.inj hnamed] at hservice
    exact h name value hvar (of_decide_eq_true hservice)
  rw [lastUpstream, hempty]
  rfl

/-- The text that names the host of a request is visible. -/
theorem headerText_of_hostText {req : Request} {host : String}
    (huri : ∀ authority, Encoding.headerText (uriHost authority) = some (uriHost authority))
    (h : req.hostText uriHost = some host) : Encoding.headerText host = some host := by
  rw [Request.hostText] at h
  split at h
  · rw [← Option.some.inj h]
    exact huri _
  · obtain ⟨header, -, htext⟩ := Option.bind_eq_some_iff.mp h
    exact Encoding.headerText_of_headerText htext

/-- A request without an authority. -/
def hostRequest (host : String) : Request := { method := "GET", headers := [("host", host)] }

theorem hostText_hostRequest {host : String} (h : Encoding.headerText host = some host) :
    (hostRequest host).hostText uriHost = some host := by
  have hfind : (hostRequest host).headers.find? (fun h ↦ h.1 = "host") = some ("host", host) :=
    List.find?_cons_of_pos (decide_eq_true rfl)
  show (hostRequest host).header? "host" = some host
  rw [Request.header?, hfind, Option.bind_some, h]

/-- Where a request whose host is not the API's goes. -/
theorem route_of_hostText (hservices : configuredServiceUpstreams parse vars
      = .ok table.serviceUpstreams) {req : Request} {host : String}
    (hhost : req.hostText uriHost = some host) (hne : normalizeHost host ≠ table.apiHostname) :
    table.routeForRequest uriHost req =
      (lastUpstream parse vars (firstLabel (normalizeHost host))).map
        (⟨·, firstLabel (normalizeHost host)⟩) := by
  rw [RoutingTable.routeForRequest_of_hostText hhost, RoutingTable.routeFor_service hne,
    configuredServiceUpstreams_ok hservices]

/-- When every host below a service is routed to an address. -/
theorem service_reachable_iff {ip : Ipv4Addr} {service : String} {upstream : A}
    (huri : ∀ authority, Encoding.headerText (uriHost authority) = some (uriHost authority))
    (hname : table.apiHostname = apiHostname ip)
    (hservices : configuredServiceUpstreams parse vars = .ok table.serviceUpstreams)
    (hservice : Encoding.toAsciiLowercase service = service) :
    (∀ req host rest, req.hostText uriHost = some host →
      Encoding.toAsciiLowercase host = service ++ "." ++ rest →
      normalizeHost host ≠ table.apiHostname →
      (table.routeForRequest uriHost req).map (·.upstreamAddr) = some upstream) ↔
    (Encoding.headerText service = some service →
      normalizeHost (service ++ ".") ≠ table.apiHostname →
      lastUpstream parse vars (firstLabel (normalizeHost service)) = some upstream) := by
  constructor
  · intro h htext hne
    have hhost : (hostRequest (service ++ ".")).hostText uriHost = some (service ++ ".") :=
      hostText_hostRequest (Encoding.headerText_append htext (by decide))
    have hlower : Encoding.toAsciiLowercase (service ++ ".") = service ++ "." ++ "" := by
      rw [Encoding.toAsciiLowercase_append, hservice, String.append_empty]
      rfl
    have haddr := h _ _ _ hhost hlower hne
    rw [route_of_hostText hservices hhost hne, Option.map_map,
      firstLabel_normalizeHost hservice hlower] at haddr
    simpa [Function.comp_def] using haddr
  · intro h req host rest hhost hlower hne
    have htext : Encoding.headerText service = some service := by
      have hread := Encoding.headerText_toAsciiLowercase (headerText_of_hostText huri hhost)
      rw [Encoding.headerText_eq_some_iff, hlower] at hread
      refine Encoding.headerText_eq_some_iff.mpr fun c hc ↦ hread c ?_
      rw [String.toList_append, String.toList_append]
      exact List.mem_append_left _ (List.mem_append_left _ hc)
    have hlast := h htext fun hapi ↦ hne (by
      rw [hname] at hapi ⊢
      exact normalizeHost_eq_api hservice hlower hapi)
    rw [route_of_hostText hservices hhost hne, Option.map_map,
      firstLabel_normalizeHost hservice hlower, hlast]
    rfl

/-- **Upstreams by name.**  In an environment that is accepted, every host below the service that a
variable names is routed to the variable's address exactly if the last variable for the first label
of this service gives the same address, or there are no such hosts.  The API's hostname is always
routed to the API, and a host whose first label is no service to nothing. -/
theorem upstream_reachable_iff {ip : Ipv4Addr}
    (huri : ∀ authority, Encoding.headerText (uriHost authority) = some (uriHost authority))
    (hname : table.apiHostname = apiHostname ip)
    (hservices : configuredServiceUpstreams parse vars = .ok table.serviceUpstreams) :
    (∀ name value upstream, (upstreamEnvPrefix ++ name, value) ∈ vars →
      parse value = some upstream →
      ((∀ req host rest, req.hostText uriHost = some host →
        Encoding.toAsciiLowercase host = envKeyToServiceName name ++ "." ++ rest →
        normalizeHost host ≠ table.apiHostname →
        (table.routeForRequest uriHost req).map (·.upstreamAddr) = some upstream) ↔
      (Encoding.headerText (envKeyToServiceName name) = some (envKeyToServiceName name) →
        normalizeHost (envKeyToServiceName name ++ ".") ≠ table.apiHostname →
        lastUpstream parse vars (firstLabel (normalizeHost (envKeyToServiceName name)))
          = some upstream))) ∧
    (∀ req host port, Encoding.toAsciiLowercase host = table.apiHostname →
      req.hostText uriHost = some host ∨ req.hostText uriHost = some (host ++ ":" ++ port) →
      table.routeForRequest uriHost req = some table.apiTarget) ∧
    ∀ req host, req.hostText uriHost = some host → normalizeHost host ≠ table.apiHostname →
      (∀ name value, (upstreamEnvPrefix ++ name, value) ∈ vars →
        envKeyToServiceName name ≠ firstLabel (normalizeHost host)) →
      table.routeForRequest uriHost req = none := by
  refine ⟨fun name value upstream _ _ ↦ service_reachable_iff huri hname hservices
    (toAsciiLowercase_envKeyToServiceName name), fun req host port hlower hhost ↦ ?_,
    fun req host hhost hne hnone ↦ ?_⟩
  · have hread : requestHost uriHost req = some table.apiHostname := by
      rw [hname] at hlower ⊢
      have hnormal := normalizeHost_api hlower port
      rw [requestHost]
      rcases hhost with h | h
      · rw [h, Option.map_some, hnormal.1]
      · rw [h, Option.map_some, hnormal.2]
    rw [RoutingTable.routeForRequest, hread, RoutingTable.routeFor_api]
  · rw [route_of_hostText hservices hhost hne, lastUpstream_eq_none hnone, Option.map_none]

end Upstreams

theorem headerText_authorityHost (authority : String) :
    Encoding.headerText (authorityHost authority) = some (authorityHost authority) := by
  rw [authorityHost]
  cases h : Encoding.headerText (String.ofList (authority.toList.takeWhile (· ≠ ':'))) with
  | none => rfl
  | some host => exact Encoding.headerText_of_headerText h

/-- The addresses that the environments below give. -/
def sampleAddr (value : String) : Option String :=
  if value ∈ ["127.0.0.1:4000", "127.0.0.1:4001"] then some value else none

/-- The table of a server at 8.8.8.8 with these services. -/
def serviceTable (services : Std.TreeMap String String) : RoutingTable String :=
  { apiTable with serviceUpstreams := services }

/-- Two services, with other variables. -/
def webEnvironment : List (String × String) :=
  [("PATH", "/usr/bin"), ("RAILYARD_CONTAINER_UPSTREAM_WEB", "127.0.0.1:4000"),
    ("RAILYARD_CONTAINER_UPSTREAM_MY_APP", "127.0.0.1:4001")]

theorem upstream_reachable_iff_webEnvironment :
    ∃ services, configuredServiceUpstreams sampleAddr webEnvironment = .ok services ∧
      ((serviceTable services).routeForRequest authorityHost
        (hostRequest "My-App.Example.com:3000")).map (·.upstreamAddr) = some "127.0.0.1:4001" := by
  cases h : configuredServiceUpstreams sampleAddr webEnvironment with
  | error e =>
    have hok : (configuredServiceUpstreams sampleAddr webEnvironment).isOk = true := by
      decide +kernel
    rw [h] at hok
    cases hok
  | ok services =>
    refine ⟨services, rfl, ?_⟩
    have hiff := (upstream_reachable_iff headerText_authorityHost
      (show (serviceTable services).apiHostname = apiHostname ⟨8, 8, 8, 8⟩ from rfl) h).1
      "MY_APP" "127.0.0.1:4001" "127.0.0.1:4001" (by decide) (by decide)
    exact hiff.mpr (fun _ _ ↦ by decide +kernel) (hostRequest "My-App.Example.com:3000")
      "My-App.Example.com:3000" "example.com:3000" (by decide +kernel) (by decide +kernel)
      (show normalizeHost "My-App.Example.com:3000" ≠ apiHostname ⟨8, 8, 8, 8⟩ by decide +kernel)

/-- Two variables that name one service. -/
def collidingEnvironment : List (String × String) :=
  [("RAILYARD_CONTAINER_UPSTREAM_MY_APP", "127.0.0.1:4000"),
    ("RAILYARD_CONTAINER_UPSTREAM_my_app", "127.0.0.1:4001")]

/-- The environment is accepted, and the address of the first variable is never used. -/
theorem collidingEnvironment_misrouted :
    ("RAILYARD_CONTAINER_UPSTREAM_" ++ "MY_APP", "127.0.0.1:4000") ∈ collidingEnvironment ∧
      envKeyToServiceName "MY_APP" = "my-app" ∧
      ((configuredServiceUpstreams sampleAddr collidingEnvironment).toOption.bind fun services ↦
        ((serviceTable services).routeForRequest authorityHost
          (hostRequest "my-app.example.com")).map (·.upstreamAddr)) = some "127.0.0.1:4001" := by
  decide +kernel

end Railyard
