import Mathlib.Data.List.TakeWhile
import Railyard.Access.Removal
import Railyard.Client.Signing
import Railyard.Data.PercentEncoding

/-!
# The commands that remove a user

`railyard user remove` and `railyard-server user remove` put the name they are given behind
`/api/users/` and send a `DELETE` there.  Neither encodes it first: what the name does to the path
and query decides whom the server removes.

* `removeUser` and `Cli.remove` make the two requests.
* `PushesSegments` is what the parser of URLs does with the segments of a path: it also passes over
  the tabs and line breaks in them.
* `addressed` and `addressedLocally` are the names that are left of one when its request arrives.
* `removes_removeUser`, `removes_remove`: these are the names the server reads.
* `remove_only_that_user_iff`: a command removes only the user of the name it is given, unless
  another user has the name that is left of it.
-/

set_option autoImplicit false

namespace Client

open Data (Path)
open Railyard (Request RemovesOnly Admits served servedLocally)

/-! ## The requests -/

/-- `USERS_PATH` -/
def usersPath : String := "/api/users"

/-- The request of `railyard user remove`. -/
def removeUser (crates : Crates) (root : Path) (store : Store) (moment : Moment)
    (server : ServerConfig) (name : String) : Except Error Outgoing :=
  signedRequestWithType crates root store moment server "DELETE" (usersPath ++ "/" ++ name) []
    "application/json"

namespace Cli

/-- A request on the admin socket, by `Request::builder`.  `parseUri` reads the path as a URI, and
gives the path and query of that. -/
def adminRequest (parseUri : String → Except Error String) (method path : String)
    (body : Option Bytes) : Except Error Request := do
  let pathAndQuery ← parseUri path
  .ok
    { method := method
      pathAndQuery := some pathAndQuery
      headers := ("host", "railyard") ::
        if body.isSome then [("content-type", "application/json")] else []
      body := if body.getD [] = [] then [] else [.data (body.getD [])] }

/-- The request of `railyard-server user remove`. -/
def remove (parseUri : String → Except Error String) (name : String) : Except Error Request :=
  adminRequest parseUri "DELETE" (usersPath ++ "/" ++ name) none

end Cli

/-! ## What other crates do with the name -/

/-- A text without the tabs and line breaks in it, which the parser of URLs passes over. -/
def dropBreaks (text : String) : String :=
  String.ofList (text.toList.filter fun c ↦ c ≠ '\t' ∧ c ≠ '\n' ∧ c ≠ '\r')

/-- A segment that is a step in the path to its reader, and not a part of it. -/
def IsStep (segment : String) : Prop := segment = "." ∨ segment = ".."

instance : DecidablePred IsStep := fun _ ↦ inferInstanceAs (Decidable (_ ∨ _))

/-- What `PathSegmentsMut::push` does.  It leaves `.` and `..` out.  From any other segment it drops
tabs and line breaks, and writes what is left percent-encoded, so that the reader of the path gets
that back.  If a step is left, an empty segment is written, behind the last one or, for `..`, in its
place.  Of a path that is a slash alone, only what lowercase letters do to it is said. -/
structure PushesSegments (crates : Crates) (encode : (scheme segment : String) → String) :
    Prop where
  skip : ∀ scheme path segment, IsStep segment → crates.pushSegment scheme path segment = path
  root : ∀ scheme segment, (segment.toList.all fun c ↦ 'a' ≤ c ∧ c ≤ 'z') = true →
    crates.pushSegment scheme "/" segment = "/" ++ segment
  push : ∀ scheme path segment, path ≠ "/" → ¬ IsStep (dropBreaks segment) →
    crates.pushSegment scheme path segment = path ++ "/" ++ encode scheme (dropBreaks segment)
  step : ∀ scheme path segment, path ≠ "/" → ¬ IsStep segment → IsStep (dropBreaks segment) →
    crates.pushSegment scheme path segment = path ++ "/" ∨
      ∃ front last, '/' ∉ last.toList ∧ path = front ++ "/" ++ last ∧
        crates.pushSegment scheme path segment = front ++ "/"
  decode : ∀ scheme segment, Encoding.percentDecode (encode scheme segment) = some segment
  clean : ∀ scheme segment, ∀ c ∈ (encode scheme segment).toList, c ≠ '/' ∧ c ≠ '?'
  letters : ∀ scheme segment, (segment.toList.all fun c ↦ 'a' ≤ c ∧ c ≤ 'z') = true →
    encode scheme segment = segment

/-- What the parser of URIs does with a path: it cuts the fragment off, or fails. -/
def ParsesUri (parseUri : String → Except Error String) : Prop :=
  ∀ text uri, text.toList.head? = some '/' → parseUri text = .ok uri →
    uri = String.ofList (text.toList.takeWhile (· ≠ '#'))

/-! ## What is left of the name -/

/-- The segments of a path that `push` keeps. -/
def keptSegments (path : List Char) : List (List Char) :=
  (path.splitOn '/').filter fun s ↦ s ≠ [] ∧ s ≠ ['.'] ∧ s ≠ ['.', '.']

/-- The one segment that is left of a name in the URL of `removeUser`. -/
def addressed (name : String) : Option String :=
  match keptSegments (name.toList.takeWhile (· ≠ '?')) with
  | [s] =>
    let left := dropBreaks (String.ofList s)
    if left = "" ∨ IsStep left then none else some left
  | _ => none

/-- What is left of a name in the URI of `Cli.remove`, decoded. -/
def addressedLocally (name : String) : Option String :=
  let raw := name.toList.takeWhile fun c ↦ c ≠ '#' ∧ c ≠ '?'
  if raw = [] ∨ '/' ∈ raw then none else Encoding.percentDecode (String.ofList raw)

example : ["bob", "bob?x", "/../bob/", "bo\tb", "ada/bob", "..", ".\n."].map addressed
    = [some "bob", some "bob", some "bob", some "bob", none, none, none] := by decide

example : ["bob", "bob?x", "b%6Fb#", "/../bob/", "?x"].map addressedLocally
    = [some "bob", some "bob", some "bob", none, none] := by decide

/-! ## The path of the URL -/

section Path

variable {crates : Crates} {encode : (scheme segment : String) → String} (scheme : String)

/-- `split_once` at one character cuts where that character first stands. -/
theorem splitOnce_takeWhile (c : Char) (cs : List Char) :
    ((Encoding.splitOnce [c] cs).elim cs Prod.fst) = cs.takeWhile (· ≠ c) := by
  induction cs with
  | nil => rfl
  | cons d cs ih =>
    rw [Encoding.splitOnce]
    by_cases hd : d = c
    · subst hd
      simp
    · have hne : List.isPrefixOf [c] (d :: cs) = false := by
        simp [List.isPrefixOf, Ne.symm hd]
      rw [hne, List.takeWhile_cons_of_pos (by simpa using hd), ← ih]
      cases Encoding.splitOnce [c] cs <;> rfl

theorem not_isStep_of_drop {segment : String} (h : ¬ IsStep (dropBreaks segment)) :
    ¬ IsStep segment := by
  rintro (rfl | rfl)
  · exact h (.inl (by decide))
  · exact h (.inr (by decide))

/-- A slash at the end is a segment more, an empty one. -/
theorem splitOn_slash (path : String) :
    (path ++ "/").toList.splitOn '/' = path.toList.splitOn '/' ++ [[]] := by
  have hslash : ("/" : String).toList = '/' :: [] := rfl
  rw [String.toList_append, hslash, List.splitOn_append_cons_self]
  rfl

/-- One segment more: its encoding stands after a slash. -/
theorem PushesSegments.splitOn_push (h : PushesSegments crates encode) {path segment : String}
    (hpath : path ≠ "/") (hstep : ¬ IsStep (dropBreaks segment)) :
    (crates.pushSegment scheme path segment).toList.splitOn '/'
      = path.toList.splitOn '/' ++ [(encode scheme (dropBreaks segment)).toList] := by
  have hnone : '/' ∉ (encode scheme (dropBreaks segment)).toList := fun hmem ↦
    (h.clean scheme (dropBreaks segment) '/' hmem).1 rfl
  have hslash : ("/" : String).toList = ['/'] := rfl
  rw [h.push scheme path segment hpath hstep, String.toList_append, String.toList_append, hslash,
    List.append_assoc, List.singleton_append, List.splitOn_append_cons_self,
    List.splitOn_eq_singleton hnone]

/-- A path with an empty segment, the one before its first slash aside. -/
def Holed (path : String) : Prop := [] ∈ (path.toList.splitOn '/').tail

theorem holed_of_slash (front : String) : Holed (front ++ "/") := by
  obtain ⟨first, others, hsplit⟩ := List.exists_cons_of_ne_nil
    (List.splitOn_ne_nil '/' front.toList)
  rw [Holed, splitOn_slash, hsplit, List.cons_append, List.tail_cons]
  exact List.mem_append_right _ List.mem_cons_self

/-- A path that is long stays long, and one with an empty segment keeps one. -/
structure Lengthens (path path' : String) : Prop where
  long : 2 < (path.toList.splitOn '/').length → 2 < (path'.toList.splitOn '/').length
  mark : '?' ∉ path.toList → '?' ∉ path'.toList
  holed : Holed path → Holed path'

theorem ne_root_of_long {path : String} (h : 2 < (path.toList.splitOn '/').length) :
    path ≠ "/" := by
  rintro rfl
  exact absurd h (by decide)

/-- A step leaves an empty segment. -/
theorem PushesSegments.holed_step (h : PushesSegments crates encode) {path segment : String}
    (hlong : 2 < (path.toList.splitOn '/').length) (hskip : ¬ IsStep segment)
    (hstep : IsStep (dropBreaks segment)) :
    Holed (crates.pushSegment scheme path segment) := by
  rcases h.step scheme path segment (ne_root_of_long hlong) hskip hstep with
    hpush | ⟨front, last, -, -, hpush⟩
  · rw [hpush]
    exact holed_of_slash path
  · rw [hpush]
    exact holed_of_slash front

theorem PushesSegments.lengthens (h : PushesSegments crates encode) {path : String}
    (segment : String) (hlong : 2 < (path.toList.splitOn '/').length) :
    Lengthens path (crates.pushSegment scheme path segment) := by
  have hroot := ne_root_of_long hlong
  have hslash : ("/" : String).toList = ['/'] := rfl
  by_cases hskip : IsStep segment
  · rw [h.skip scheme path segment hskip]
    exact ⟨id, id, id⟩
  by_cases hstep : IsStep (dropBreaks segment)
  · refine ⟨fun _ ↦ ?_, fun hmark ↦ ?_, fun _ ↦ h.holed_step scheme hlong hskip hstep⟩
    all_goals rcases h.step scheme path segment hroot hskip hstep with
      hpush | ⟨front, last, hlast, hpath, hpush⟩
    all_goals rw [hpush]
    · rw [splitOn_slash, List.length_append]
      omega
    · -- the last segment makes way for an empty one
      rw [hpath, String.toList_append, String.toList_append, hslash, List.append_assoc,
        List.singleton_append, List.splitOn_append_cons_self, List.splitOn_eq_singleton hlast,
        List.length_append] at hlong
      rw [splitOn_slash, List.length_append]
      exact hlong
    · rw [String.toList_append, hslash]
      simpa using hmark
    · rw [hpath, String.toList_append] at hmark
      exact fun hmem ↦ hmark (List.mem_append_left _ hmem)
  · have hsplit := h.splitOn_push scheme hroot hstep
    refine ⟨fun _ ↦ ?_, fun hmark hmem ↦ ?_, fun hhole ↦ ?_⟩
    · rw [hsplit, List.length_append]
      omega
    · rw [h.push scheme path segment hroot hstep, String.toList_append, String.toList_append,
        hslash] at hmem
      rcases List.mem_append.mp hmem with hmem | hmem
      · exact hmark (by simpa using hmem)
      · exact (h.clean scheme _ '?' hmem).2 rfl
    · obtain ⟨first, others, hpath⟩ := List.exists_cons_of_ne_nil
        (List.splitOn_ne_nil '/' path.toList)
      rw [Holed, hpath, List.tail_cons] at hhole
      rw [Holed, hsplit, hpath, List.cons_append, List.tail_cons]
      exact List.mem_append_left _ hhole

theorem PushesSegments.foldl_lengthens (h : PushesSegments crates encode) {path : String}
    (segments : List String) (hlong : 2 < (path.toList.splitOn '/').length) :
    Lengthens path (segments.foldl (crates.pushSegment scheme) path) := by
  induction segments generalizing path with
  | nil => exact ⟨id, id, id⟩
  | cons segment segments ih =>
    have hpush := h.lengthens scheme segment hlong
    have hrest := ih (hpush.long hlong)
    exact ⟨hrest.long ∘ hpush.long, hrest.mark ∘ hpush.mark, hrest.holed ∘ hpush.holed⟩

/-- With a step among the segments, the path that is pushed together has an empty segment. -/
theorem PushesSegments.foldl_holed (h : PushesSegments crates encode) {path : String}
    {segments : List String} (hlong : 2 < (path.toList.splitOn '/').length)
    (hstep : ∃ segment ∈ segments, ¬ IsStep segment ∧ IsStep (dropBreaks segment)) :
    Holed (segments.foldl (crates.pushSegment scheme) path) := by
  induction segments generalizing path with
  | nil =>
    obtain ⟨_, hmem, -⟩ := hstep
    exact absurd hmem List.not_mem_nil
  | cons segment segments ih =>
    have hpush := h.lengthens scheme segment hlong
    obtain ⟨found, hmem, hskip, hfound⟩ := hstep
    rcases List.mem_cons.mp hmem with rfl | hmem
    · exact (h.foldl_lengthens scheme segments (hpush.long hlong)).holed
        (h.holed_step scheme hlong hskip hfound)
    · exact ih (hpush.long hlong) ⟨found, hmem, hskip, hfound⟩

/-- Without one, it has the segments that are kept, encoded. -/
theorem PushesSegments.foldl_push (h : PushesSegments crates encode) {path : String}
    {segments : List String} (hlong : 2 < (path.toList.splitOn '/').length)
    (hplain : ∀ segment ∈ segments, IsStep (dropBreaks segment) → IsStep segment) :
    (segments.foldl (crates.pushSegment scheme) path).toList.splitOn '/'
      = path.toList.splitOn '/' ++ (segments.filter fun s ↦ ¬ IsStep s).map fun s ↦
          (encode scheme (dropBreaks s)).toList := by
  induction segments generalizing path with
  | nil => exact (List.append_nil _).symm
  | cons segment segments ih =>
    have hrest := fun s hs ↦ hplain s (List.mem_cons_of_mem _ hs)
    rw [List.foldl_cons, ih ((h.lengthens scheme segment hlong).long hlong) hrest]
    by_cases hskip : IsStep segment
    · rw [h.skip scheme path segment hskip, List.filter_cons_of_neg (by simpa using hskip)]
    · have hstep : ¬ IsStep (dropBreaks segment) := fun hstep ↦
        hskip (hplain segment List.mem_cons_self hstep)
      rw [h.splitOn_push scheme (ne_root_of_long hlong) hstep,
        List.filter_cons_of_pos (by simpa using hskip), List.map_cons, List.append_assoc,
        List.singleton_append]

/-- The path of the URL, below `/api/users`. -/
theorem PushesSegments.usersPath_push (h : PushesSegments crates encode) (rest : List Char) :
    (((((usersPath ++ "/").toList ++ rest).splitOn '/').filter (· ≠ [])).map String.ofList).foldl
        (crates.pushSegment scheme) "/"
      = (((rest.splitOn '/').filter (· ≠ [])).map String.ofList).foldl (crates.pushSegment scheme)
        usersPath := by
  have hfront : (usersPath ++ "/").toList ++ rest = usersPath.toList ++ '/' :: rest := by
    rw [String.toList_append, List.append_assoc]
    rfl
  have hsegments : usersPath.toList.splitOn '/' = [[], "api".toList, "users".toList] := by decide
  have hroot : crates.pushSegment scheme "/" "api" = "/api" := h.root scheme "api" (by decide)
  have husers : crates.pushSegment scheme "/api" "users" = usersPath := by
    rw [h.push _ _ _ (by decide) (by decide), h.letters _ _ (by decide)]
    decide
  rw [hfront, List.splitOn_append_cons_self, hsegments, List.filter_append, List.map_append,
    List.foldl_append]
  show List.foldl _ (crates.pushSegment scheme (crates.pushSegment scheme "/" "api") "users") _ = _
  rw [hroot, husers]

theorem pathSegments_of_clean {path : String} (h : '?' ∉ path.toList) (query : Option String) :
    Encoding.pathSegments (path ++ query.elim "" ("?" ++ ·))
      = ((path.toList.splitOn '/').map String.ofList).tail := by
  have hpath : ∀ c ∈ path.toList, decide (c ≠ '?') = true := by
    refine fun c hc ↦ decide_eq_true ?_
    rintro rfl
    exact h hc
  have hcut : (path ++ query.elim "" ("?" ++ ·)).toList.takeWhile (· ≠ '?') = path.toList := by
    rw [String.toList_append, List.takeWhile_append_of_pos hpath]
    cases query with
    | none => exact List.append_nil _
    | some query =>
      rw [Option.elim_some, String.toList_append]
      exact List.append_nil _
  rw [Encoding.pathSegments, hcut]

/-- The texts that are pushed behind `/api/users`, of what follows it. -/
def pushedSegments (rest : List Char) : List String :=
  ((rest.splitOn '/').filter (· ≠ [])).map String.ofList

theorem filter_pushedSegments (rest : List Char) :
    (pushedSegments rest).filter (fun s ↦ ¬ IsStep s) = (keptSegments rest).map String.ofList := by
  rw [pushedSegments, keptSegments, List.filter_map, List.filter_filter]
  refine congrArg (List.map _) (List.filter_congr fun s _ ↦ ?_)
  have hdot : IsStep (String.ofList s) ↔ s = ['.'] ∨ s = ['.', '.'] :=
    or_congr ⟨fun h ↦ String.ofList_injective h, fun h ↦ congrArg String.ofList h⟩
      ⟨fun h ↦ String.ofList_injective h, fun h ↦ congrArg String.ofList h⟩
  simp only [Function.comp_apply, hdot, not_or, Bool.decide_and]
  cases hnil : decide (s ≠ []) <;> simp_all

/-- **The path that arrives** has the segments that are kept of the name, without tabs and line
breaks; or an empty one, if a step is left of one of them. -/
theorem PushesSegments.segments_url (h : PushesSegments crates encode) {url requestUrl : Url}
    {name : String}
    (hurl : controlPlaneApiUrl crates url (usersPath ++ "/" ++ name) = .ok requestUrl) :
    ((∀ s ∈ keptSegments (name.toList.takeWhile (· ≠ '?')),
        ¬ IsStep (dropBreaks (String.ofList s))) →
      Encoding.pathSegments requestUrl.pathAndQuery
        = "api" :: "users" :: (keptSegments (name.toList.takeWhile (· ≠ '?'))).map fun s ↦
            encode url.scheme (dropBreaks (String.ofList s))) ∧
    ((∃ s ∈ keptSegments (name.toList.takeWhile (· ≠ '?')),
        IsStep (dropBreaks (String.ofList s))) →
      "" ∈ Encoding.pathSegments requestUrl.pathAndQuery) := by
  have hfront : ((usersPath ++ "/" ++ name).toList.takeWhile (· ≠ '?'))
      = (usersPath ++ "/").toList ++ name.toList.takeWhile (· ≠ '?') := by
    rw [String.toList_append]
    exact List.takeWhile_append_of_pos (List.all_eq_true.mp (by decide))
  have hcut := splitOnce_takeWhile '?' (usersPath ++ "/" ++ name).toList
  rw [hfront] at hcut
  obtain ⟨query, hrequest⟩ : ∃ query : Option String, requestUrl.pathAndQuery =
      (pushedSegments (name.toList.takeWhile (· ≠ '?'))).foldl (crates.pushSegment url.scheme)
        usersPath ++ query.elim "" ("?" ++ ·) := by
    rw [controlPlaneApiUrl] at hurl
    cases hsplit : Encoding.splitOnce ['?'] (usersPath ++ "/" ++ name).toList
    all_goals
      simp only [hsplit, Option.elim_none, Option.elim_some] at hurl hcut
      split at hurl
      · cases hurl
      obtain rfl := Except.ok.inj hurl
      rw [hcut]
      exact ⟨_, congrArg (· ++ _) (h.usersPath_push url.scheme _)⟩
  generalize name.toList.takeWhile (· ≠ '?') = rest at hrequest
  have hlong : 2 < (usersPath.toList.splitOn '/').length := by decide
  have hmark := (h.foldl_lengthens url.scheme (pushedSegments rest) hlong).mark (by decide)
  have hroot : usersPath.toList.splitOn '/' = [[], "api".toList, "users".toList] := by decide
  rw [hrequest, pathSegments_of_clean hmark]
  constructor
  · intro hplain
    have hkeep : ∀ segment ∈ pushedSegments rest, IsStep (dropBreaks segment) →
        IsStep segment := by
      intro segment hsegment hstep
      by_contra hskip
      have hmem : segment ∈ (pushedSegments rest).filter fun s ↦ ¬ IsStep s :=
        List.mem_filter.mpr ⟨hsegment, by simpa using hskip⟩
      rw [filter_pushedSegments] at hmem
      obtain ⟨s, hs, rfl⟩ := List.mem_map.mp hmem
      exact hplain s hs hstep
    rw [h.foldl_push url.scheme hlong hkeep, filter_pushedSegments, hroot, List.map_append,
      List.map_map, List.map_map]
    simp only [Function.comp_def, String.ofList_toList]
    rfl
  · rintro ⟨s, hs, hstep⟩
    have hmem : String.ofList s ∈ (pushedSegments rest).filter fun s ↦ ¬ IsStep s := by
      rw [filter_pushedSegments]
      exact List.mem_map_of_mem hs
    obtain ⟨hpushed, hskip⟩ := List.mem_filter.mp hmem
    have hholed := h.foldl_holed url.scheme hlong ⟨_, hpushed, by simpa using hskip, hstep⟩
    rw [← List.map_tail]
    exact List.mem_map.mpr ⟨[], hholed, rfl⟩

end Path

/-! ## The name that arrives -/

section Arrival

variable {crates : Crates} {encode : (scheme segment : String) → String}

/-- A request that is sent goes to the URL that was made for it. -/
theorem signedRequestWithType_url {root : Path} {store : Store} {moment : Moment}
    {server : ServerConfig} {method suffix contentType : String} {body : Bytes} {sent : Outgoing}
    (h : signedRequestWithType crates root store moment server method suffix body contentType
      = .ok sent) :
    ∃ url, sent.method = method ∧ controlPlaneApiUrl crates url suffix = .ok sent.url := by
  rw [signedRequestWithType] at h
  cases hkey : store.readSigningKey root server.privateKeyPath with
  | none => rw [hkey] at h; cases h
  | some key =>
    cases hparse : crates.parseUrl server.serverUrl with
    | error e => rw [hkey, hparse] at h; cases h
    | ok url =>
      cases hurl : controlPlaneApiUrl crates url suffix with
      | error e => rw [hkey, hparse] at h; simp only [bind, Except.bind, hurl] at h; cases h
      | ok requestUrl =>
        cases hhost : requestUrl.host with
        | none =>
          simp only [hkey, hparse, bind, Except.bind, hurl, hhost] at h
          cases h
        | some host =>
          simp only [hkey, hparse, bind, Except.bind, hurl, hhost] at h
          obtain rfl := Except.ok.inj h
          exact ⟨url, rfl, hurl⟩

/-- A target with an empty segment is about no user. -/
theorem removes_of_empty {req : Request} (h : "" ∈ Encoding.pathSegments req.target) :
    req.removes = none := by
  rw [Request.removes]
  split
  · rename_i raw hsegments
    rw [hsegments] at h
    have hraw : raw = "" := by
      rcases List.mem_cons.mp h with heq | h
      · exact absurd heq (by decide)
      rcases List.mem_cons.mp h with heq | h
      · exact absurd heq (by decide)
      · exact (List.mem_singleton.mp h).symm
    exact if_pos hraw
  · rfl

/-- **Of the name given to `railyard user remove`, the server reads what is addressed.** -/
theorem removes_removeUser (h : PushesSegments crates encode) {root : Path} {store : Store}
    {moment : Moment} {server : ServerConfig} {name : String} {sent : Outgoing} {req : Request}
    (hsent : removeUser crates root store moment server name = .ok sent)
    (harrives : Arrives sent req) :
    req.method = "DELETE" ∧ req.removes = addressed name := by
  obtain ⟨url, hmethod, hurl⟩ := signedRequestWithType_url hsent
  have htarget : req.target = sent.url.pathAndQuery := by
    rw [Request.target, harrives.pathAndQuery, Option.getD_some]
  refine ⟨harrives.method.trans hmethod, ?_⟩
  obtain ⟨hplain, hsteps⟩ := h.segments_url hurl
  rw [addressed]
  generalize keptSegments (name.toList.takeWhile (· ≠ '?')) = kept at hplain hsteps ⊢
  by_cases hstep : ∃ s ∈ kept, IsStep (dropBreaks (String.ofList s))
  · rw [removes_of_empty (htarget ▸ hsteps hstep)]
    obtain ⟨s, hs, hstep⟩ := hstep
    rcases kept with _ | ⟨t, _ | ⟨u, rest⟩⟩
    · rfl
    · rw [List.mem_singleton.mp hs] at hstep
      exact (if_pos (.inr hstep)).symm
    · rfl
  · have hnone : ∀ s ∈ kept, ¬ IsStep (dropBreaks (String.ofList s)) := by
      intro s hs hdrop
      exact hstep ⟨s, hs, hdrop⟩
    rw [Request.removes, htarget, hplain hnone]
    rcases kept with _ | ⟨s, _ | ⟨t, rest⟩⟩
    · rfl
    · show (if encode url.scheme (dropBreaks (String.ofList s)) = "" then none else _) = ite _ _ _
      have hdecode := h.decode url.scheme (dropBreaks (String.ofList s))
      by_cases hempty : dropBreaks (String.ofList s) = ""
      · have hencode : encode url.scheme "" = "" := h.letters url.scheme "" (by decide)
        rw [hempty, if_pos hencode, if_pos (.inl rfl)]
      · have hencode : encode url.scheme (dropBreaks (String.ofList s)) ≠ "" := by
          intro hencode
          rw [hencode] at hdecode
          exact hempty (Option.some.inj hdecode).symm
        rw [if_neg hencode, if_neg (not_or.mpr ⟨hempty, hnone s List.mem_cons_self⟩), hdecode]
    · rfl

/-- **Of the name given to `railyard-server user remove`, the server reads what is addressed.** -/
theorem removes_remove {parseUri : String → Except Error String} (h : ParsesUri parseUri)
    {name : String} {req : Request} (hreq : Cli.remove parseUri name = .ok req) :
    req.method = "DELETE" ∧ req.signedHash = none ∧ req.removes = addressedLocally name := by
  rw [Cli.remove, Cli.adminRequest] at hreq
  cases huri : parseUri (usersPath ++ "/" ++ name) with
  | error e => rw [huri] at hreq; cases hreq
  | ok uri =>
    rw [huri] at hreq
    obtain rfl := Except.ok.inj hreq
    refine ⟨rfl, rfl, ?_⟩
    have hfront : ∀ (p : Char → Bool), (usersPath ++ "/").toList.all p = true →
        ∀ rest, ((usersPath ++ "/").toList ++ rest).takeWhile p
          = (usersPath ++ "/").toList ++ rest.takeWhile p := fun p hp rest ↦
      List.takeWhile_append_of_pos (List.all_eq_true.mp hp)
    have htext : (usersPath ++ "/" ++ name).toList = (usersPath ++ "/").toList ++ name.toList :=
      String.toList_append
    have hslash : (usersPath ++ "/" ++ name).toList.head? = some '/' := by
      rw [htext]
      rfl
    have hcut : uri.toList.takeWhile (· ≠ '?') = usersPath.toList ++
        '/' :: name.toList.takeWhile fun c ↦ c ≠ '#' ∧ c ≠ '?' := by
      rw [h _ _ hslash huri, String.toList_ofList, htext, hfront _ (by decide),
        hfront _ (by decide), List.takeWhile_takeWhile, String.toList_append, List.append_assoc]
      simp [and_comm]
    have hroot : usersPath.toList.splitOn '/' = [[], "api".toList, "users".toList] := by decide
    rw [Request.removes, Request.target, Option.getD_some, Encoding.pathSegments, hcut,
      List.splitOn_append_cons_self, hroot, addressedLocally]
    generalize name.toList.takeWhile (fun c ↦ c ≠ '#' ∧ c ≠ '?') = raw
    by_cases hslash : '/' ∈ raw
    · obtain ⟨before, after, rfl⟩ := List.append_of_mem hslash
      obtain ⟨b, bs, hbefore⟩ := List.exists_cons_of_ne_nil (List.splitOn_ne_nil '/' before)
      obtain ⟨a, as, hafter⟩ := List.exists_cons_of_ne_nil (List.splitOn_ne_nil '/' after)
      rw [List.splitOn_append_cons_self, hbefore, hafter, if_pos (.inr hslash)]
      cases bs <;> rfl
    rw [List.splitOn_eq_singleton hslash]
    show (if String.ofList raw = "" then none else _) = _
    by_cases hraw : raw = []
    · subst hraw
      rfl
    · rw [if_neg fun hempty ↦ hraw (String.ofList_injective hempty),
        if_neg (not_or.mpr ⟨hraw, hslash⟩)]

end Arrival

/-! ## Every name -/

/-- **A command removes only the user of the name it is given, unless another user has the name that
is left of it.**  The request of `railyard user remove` also has to be let through as a server
admin's; on the admin socket any is. -/
theorem remove_only_that_user_iff {crates : Crates} {encode : (scheme segment : String) → String}
    {parseUri : String → Except Error String} (hpush : PushesSegments crates encode)
    (huri : ParsesUri parseUri) (config : Railyard.Config) (srv : Railyard.Crates) (name : String)
    (s : Railyard.Server) :
    (∀ root store moment server sent req,
      removeUser crates root store moment server name = .ok sent → Arrives sent req →
        ((∀ w, RemovesOnly name s (served config srv req w s).2) ↔
          (Admits srv req s → ∀ u ∈ s.users, addressed name = some u.name → u.name = name))) ∧
    ∀ req, Cli.remove parseUri name = .ok req →
      ((∀ w, RemovesOnly name s (servedLocally config srv req w s).2) ↔
        ∀ u ∈ s.users, addressedLocally name = some u.name → u.name = name) := by
  refine ⟨fun root store moment server sent req hsent harrives ↦ ?_, fun req hreq ↦ ?_⟩
  · obtain ⟨hmethod, hremoves⟩ := removes_removeUser hpush hsent harrives
    rw [Railyard.removesOnly_signed_iff hmethod, hremoves]
  · obtain ⟨hmethod, hunsigned, hremoves⟩ := removes_remove huri hreq
    rw [Railyard.removesOnly_locally_iff hmethod hunsigned, hremoves]

/-! ### A server with one user -/

/-- Stand-ins that do what the crates do on the URL, the key and the text of one removal. -/
def removalCrates (signed : Signed) : Crates :=
  { Crates.sample "https://[::1]:7300" (sampleUrl none) signed with
    pushSegment := fun _ path segment ↦
      if IsStep segment then path
      else
        let left := dropBreaks segment
        (if path = "/" then path else path ++ "/") ++
          (if IsStep left then "" else Encoding.percentEncode left) }

def removalServerCrates (signed : Signed) : Railyard.Crates :=
  { signed.serverCrates with sha256 := (removalCrates signed).sha256 }

theorem parseUrl_removalCrates (signed : Signed) : (removalCrates signed).parseUrl
    (sampleServer "https://[::1]:7300").serverUrl = .ok (sampleUrl none) := rfl

theorem removalCrates_pushes (signed : Signed) :
    PushesSegments (removalCrates signed) fun _ ↦ Encoding.percentEncode where
  skip _ _ _ hskip := if_pos hskip
  root _ segment h := by
    have hne : ∀ t : String, (t.toList.all fun c ↦ 'a' ≤ c ∧ c ≤ 'z') = false → segment ≠ t := by
      rintro t ht rfl
      rw [ht] at h
      cases h
    have hskip : ¬ IsStep segment := not_or.mpr ⟨hne _ (by decide), hne _ (by decide)⟩
    have hletter : ∀ c ∈ segment.toList, 'a' ≤ c ∧ c ≤ 'z' := fun c hc ↦
      of_decide_eq_true (List.all_eq_true.mp h c hc)
    have hdrop : dropBreaks segment = segment := by
      have hall : segment.toList.filter (fun c ↦ c ≠ '\t' ∧ c ≠ '\n' ∧ c ≠ '\r') =
          segment.toList := by
        refine List.filter_eq_self.mpr fun c hc ↦ decide_eq_true ⟨?_, ?_, ?_⟩
        all_goals
          rintro rfl
          exact absurd (hletter _ hc).1 (by decide)
      rw [dropBreaks, hall, String.ofList_toList]
    show (if IsStep segment then _ else _) = _
    rw [if_neg hskip, hdrop, if_pos rfl, if_neg hskip, Encoding.percentEncode_letters hletter]
  push _ path segment hpath hstep := by
    show (if IsStep segment then _ else _) = _
    rw [if_neg (not_isStep_of_drop hstep), if_neg hpath, if_neg hstep]
  step _ path segment hpath hskip hstep := by
    refine .inl ?_
    show (if IsStep segment then _ else _) = _
    rw [if_neg hskip, if_neg hpath, if_pos hstep, String.append_empty]
  decode _ segment := Encoding.percentDecode_percentEncode segment
  clean _ _ _ hc := Encoding.percentEncode_clean hc
  letters _ _ h := Encoding.percentEncode_letters fun c hc ↦
    of_decide_eq_true (List.all_eq_true.mp h c hc)

/-- A parser that takes every path. -/
def cutFragment (text : String) : Except Error String :=
  .ok (String.ofList (text.toList.takeWhile (· ≠ '#')))

theorem cutFragment_parses : ParsesUri cutFragment := fun _ _ _ h ↦ (Except.ok.inj h).symm

/-- A server whose only user is the admin "bob", enrolled with the sample key. -/
def bobServer : Railyard.Server :=
  { Railyard.Server.fresh with users := ⟨[enrolledUser], by decide⟩ }

/-- The text of a removal. -/
def removalText (path : String) : String :=
  "RAILYARD-REQUEST-V1\nkey_id:usr_0000000000000000\ntimestamp:60\n" ++
    "nonce:00000000000000000000000000000000\nmethod:DELETE\npath:" ++ path ++
    "\nhost:[::1]:7300\n" ++
    "content_sha256:e3b0c44298fc1c149afbf4c8996fb92427ae41e4649b934ca495991b7852b855"

/-- The signature of the removal of "%62ob". -/
def encodedSigned : Signed where
  text := removalText "/api/users/%2562ob"
  signature :=
    [197, 121, 180, 54, 74, 152, 23, 25, 204, 170, 114, 201, 175, 66, 229, 149, 73, 128, 60, 52,
      213, 49, 113, 235, 197, 162, 172, 4, 17, 132, 72, 106, 76, 73, 121, 183, 5, 126, 122, 148,
      242, 138, 61, 206, 101, 49, 128, 37, 54, 92, 146, 78, 30, 183, 134, 20, 19, 172, 207, 148,
      221, 0, 238, 2]
  encoded :=
    "xXm0NkqYFxnMqnLJr0LllUmAPDTVMXHrxaKsBBGESGpMSXm3BX56lPKKPc5lMYAlNlySTh63hhQTrM+U3QDuAg=="

/-- `railyard` looks for a user of the encoded name, `railyard-server` removes "bob". -/
theorem remove_only_that_user_iff_encoded :
    (∃ sent, removeUser (removalCrates encodedSigned) [] enrolledStore sampleMoment
        (sampleServer "https://[::1]:7300") "%62ob" = .ok sent ∧
      ∀ w, RemovesOnly "%62ob" bobServer (served ⟨"", "", "", [], ""⟩
        (removalServerCrates encodedSigned) sent.onWire w bobServer).2) ∧
    ∃ req, Cli.remove cutFragment "%62ob" = .ok req ∧
      ¬ ∀ w, RemovesOnly "%62ob" bobServer (servedLocally ⟨"", "", "", [], ""⟩
        (removalServerCrates encodedSigned) req w bobServer).2 := by
  obtain ⟨hremote, hlocal⟩ := remove_only_that_user_iff (removalCrates_pushes encodedSigned)
    cutFragment_parses ⟨"", "", "", [], ""⟩ (removalServerCrates encodedSigned) "%62ob" bobServer
  constructor
  · obtain ⟨sent, hsent, -⟩ := signedRequestWithType_ok (removalCrates encodedSigned) sampleMoment
      "DELETE" (usersPath ++ "/" ++ "%62ob") "application/json" [] readSigningKey_enrolled
      (parseUrl_removalCrates encodedSigned) rfl
    refine ⟨sent, hsent,
      (hremote _ _ _ _ sent _ hsent sent.arrives).mpr fun _ u hu haddressed ↦ ?_⟩
    have hself : addressed "%62ob" = some "%62ob" := by decide
    rw [hself] at haddressed
    exact (Option.some.inj haddressed).symm
  · refine ⟨_, rfl, fun h ↦ ?_⟩
    have hbob := (hlocal _ rfl).mp h enrolledUser List.mem_cons_self (by decide)
    exact absurd hbob (by decide)

/-- The signature of the removal of "bob?x". -/
def markSigned : Signed where
  text := removalText "/api/users/bob?x"
  signature :=
    [91, 104, 90, 63, 15, 177, 1, 94, 49, 31, 210, 116, 72, 17, 109, 229, 191, 232, 232, 206, 179,
      204, 66, 136, 116, 227, 129, 212, 133, 159, 139, 66, 75, 70, 167, 148, 165, 22, 130, 131,
      188, 160, 35, 101, 0, 19, 252, 6, 85, 223, 3, 213, 216, 222, 23, 175, 83, 51, 80, 17, 95,
      241, 112, 7]
  encoded :=
    "W2haPw+xAV4xH9J0SBFt5b/o6M6zzEKIdOOB1IWfi0JLRqeUpRaCg7ygI2UAE/wGVd8D1djeF69TM1ARX/FwBw=="

theorem removal_agrees :
    CratesAgree (removalCrates markSigned) (removalServerCrates markSigned) := by
  have hagree : CratesAgree (.sample "https://[::1]:7300" (sampleUrl none) markSigned)
      markSigned.serverCrates :=
    markSigned.agrees rfl (by decide) (by decide +kernel) (by decide +kernel) (sampleUrl_host none)
  exact ⟨hagree.key_length, hagree.key_valid, hagree.key_decoded, hagree.signature_length,
    hagree.signature_valid, hagree.signature_decoded, hagree.signature_visible,
    hagree.host_visible⟩

/-- Removing "bob?x", a user there is not, both commands remove "bob". -/
theorem questionMark_removes_bob :
    (∃ sent, removeUser (removalCrates markSigned) [] enrolledStore sampleMoment
        (sampleServer "https://[::1]:7300") "bob?x" = .ok sent ∧
      ¬ ∀ w, RemovesOnly "bob?x" bobServer (served ⟨"", "", "", [], ""⟩
        (removalServerCrates markSigned) sent.onWire w bobServer).2) ∧
    ∃ req, Cli.remove cutFragment "bob?x" = .ok req ∧
      ¬ ∀ w, RemovesOnly "bob?x" bobServer (servedLocally ⟨"", "", "", [], ""⟩
        (removalServerCrates markSigned) req w bobServer).2 := by
  constructor
  · obtain ⟨sent, hsent, hfragment, hsigns⟩ := signedRequestWithType_ok (removalCrates markSigned)
      sampleMoment "DELETE" (usersPath ++ "/" ++ "bob?x") "application/json" []
      readSigningKey_enrolled (parseUrl_removalCrates markSigned) rfl
    refine ⟨sent, hsent, fun h ↦ ?_⟩
    obtain ⟨hmethod, hremoves⟩ :=
      removes_removeUser (removalCrates_pushes markSigned) hsent sent.arrives
    have hvisible := headerText_hostAndPort (by decide : Encoding.headerText "[::1]" = some "[::1]")
      (some 7300)
    obtain ⟨hhead, hhost⟩ := hsigns.arrives removal_agrees sent.arrives (by decide) hvisible
    have hrebuilt := (rebuilt_eq_signed_iff hsigns sent.arrives).mpr hfragment
    have hbody : sent.body = [] := by
      have hmap : (removeUser (removalCrates markSigned) [] enrolledStore sampleMoment
          (sampleServer "https://[::1]:7300") "bob?x").map Outgoing.body = .ok [] := by
        decide +kernel
      rw [removeUser, hsent] at hmap
      exact Except.ok.inj hmap
    have hpasses : Railyard.BodyPasses (removalServerCrates markSigned) sent.onWire.body
        (some (Encoding.toAsciiLowercase
          (Encoding.hexEncode ((removalCrates markSigned).sha256 [])))) := by
      rw [Outgoing.onWire, hbody]
      rintro _ ⟨⟩
      exact ⟨[], rfl, by decide +kernel⟩
    have hadmits : Admits (removalServerCrates markSigned) sent.onWire bobServer :=
      ⟨_, hhead, ⟨enrolledUser, List.mem_cons_self, rfl, rfl, _, rfl,
          verifyHead_ok removal_agrees hhost hrebuilt⟩,
        ⟨61, (by decide : ReplayWindow.absDiff 61 60 ≤ Railyard.timestampWindowSeconds),
          ReplayWindow.record_of_none rfl⟩, hpasses⟩
    have hbob := (Railyard.removesOnly_signed_iff hmethod "bob?x").mp h hadmits enrolledUser
      List.mem_cons_self (hremoves.trans (by decide))
    exact absurd hbob (by decide)
  · refine ⟨_, rfl, fun h ↦ ?_⟩
    have hreq : Cli.remove cutFragment "bob?x" = .ok _ := rfl
    obtain ⟨hmethod, hunsigned, hremoves⟩ := removes_remove cutFragment_parses hreq
    have hbob := (Railyard.removesOnly_locally_iff hmethod hunsigned "bob?x").mp h enrolledUser
      List.mem_cons_self (hremoves.trans (by decide))
    exact absurd hbob (by decide)

end Client
