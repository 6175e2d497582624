import Railyard.Data.Occurrences
import Railyard.Manifest.References

/-!
# What the scanner of references finds

* `parseReferences_written`: the references of a value that was put together from literal texts and
  printed references are the ones that were printed;
* `references_counted_iff`: a value has as many references as opening brackets exactly when every
  bracket is closed before the next opens.
-/

set_option autoImplicit false

namespace Manifest

open Encoding

/-! ## Printing -/

/-- The text between the brackets of a reference. -/
def Reference.token : Reference → String
  | .serviceHost name => "services." ++ name ++ ".host"
  | .servicePort name => "services." ++ name ++ ".port"
  | .serviceUrl name => "services." ++ name ++ ".url"
  | .serviceEnv name key => "services." ++ name ++ ".env." ++ key
  | .secret key => "secrets." ++ key

/-- A value: a literal text, then references between brackets, each followed by a literal text. -/
def written (literal : String) : List (Reference × String) → String
  | [] => literal
  | (reference, literal') :: rest =>
    literal ++ "$\x7b\x7b " ++ reference.token ++ " \x7d\x7d" ++ written literal' rest

/-- A literal text: no opening bracket stands in it. -/
def IsLiteral (literal : String) : Prop := ¬ openBracket <:+: literal.toList

/-- The name of a service as it can be printed. -/
structure PrintableName (name : String) : Prop where
  ne_empty : name ≠ ""
  no_dot : '.' ∉ name.toList
  no_close : ¬ closeBracket <:+: name.toList

/-- A key as it can be printed. -/
structure PrintableKey (key : String) : Prop where
  ne_empty : key ≠ ""
  no_space_after : ∀ c ∈ key.toList.getLast?, isWhitespace c = false
  no_close : ¬ closeBracket <:+: key.toList

/-- A reference as it can be printed. -/
def Reference.Printable : Reference → Prop
  | .serviceHost name | .servicePort name | .serviceUrl name => PrintableName name
  | .serviceEnv name key => PrintableName name ∧ PrintableKey key
  | .secret key => PrintableKey key

/-! ## Tokens -/

theorem stripPrefix_secrets_services (rest : String) :
    stripPrefix "secrets." ("services." ++ rest) = none := by
  rw [stripPrefix, if_neg]
  rw [String.toList_append]
  exact Bool.false_ne_true

/-- The name ends at the first dot. -/
theorem splitOnce_name {name : String} (hname : PrintableName name) (attr : String) :
    splitOnce ['.'] (name ++ ("." ++ attr)).toList = some (name.toList, attr.toList) := by
  rw [String.toList_append, String.toList_append]
  refine splitOnce_append (List.not_mem_nil) ?_
  rw [List.singleton_infix_iff]
  exact hname.no_dot

theorem PrintableName.toList_ne_nil {name : String} (hname : PrintableName name) :
    name.toList ≠ [] := by
  simpa using hname.ne_empty

/-- A printed token is read back. -/
theorem parseToken_token {reference : Reference} (h : reference.Printable) :
    parseToken reference.token = .ok reference := by
  cases reference with
  | serviceHost name =>
    have hsplit := splitOnce_name h "host"
    have hne := PrintableName.toList_ne_nil h
    rw [show Reference.token _ = "services." ++ (name ++ ("." ++ "host")) from
      String.append_assoc ..]
    simp only [parseToken, stripPrefix_secrets_services, stripPrefix_append, hsplit, hne,
      String.ofList_toList, if_false]
  | servicePort name =>
    have hsplit := splitOnce_name h "port"
    have hne := PrintableName.toList_ne_nil h
    rw [show Reference.token _ = "services." ++ (name ++ ("." ++ "port")) from
      String.append_assoc ..]
    simp only [parseToken, stripPrefix_secrets_services, stripPrefix_append, hsplit, hne,
      String.ofList_toList, if_false]
  | serviceUrl name =>
    have hsplit := splitOnce_name h "url"
    have hne := PrintableName.toList_ne_nil h
    rw [show Reference.token _ = "services." ++ (name ++ ("." ++ "url")) from
      String.append_assoc ..]
    simp only [parseToken, stripPrefix_secrets_services, stripPrefix_append, hsplit, hne,
      String.ofList_toList, if_false]
  | serviceEnv name key =>
    have hsplit := splitOnce_name h.1 ("env." ++ key)
    have hne := PrintableName.toList_ne_nil h.1
    have htoken : (Reference.serviceEnv name key).token =
        "services." ++ (name ++ ("." ++ ("env." ++ key))) := by
      rw [Reference.token, String.append_assoc, String.append_assoc]
      rfl
    rw [htoken]
    simp only [parseToken, stripPrefix_secrets_services, stripPrefix_append, hsplit, hne,
      String.ofList_toList, if_false]
    -- no attribute without a key begins with an `e`
    split
    · rename_i heq
      exact absurd (congrArg (fun s : String ↦ s.toList.head?) heq) (by simp)
    · rename_i heq
      exact absurd (congrArg (fun s : String ↦ s.toList.head?) heq) (by simp)
    · rename_i heq
      exact absurd (congrArg (fun s : String ↦ s.toList.head?) heq) (by simp)
    · simp [stripPrefix_append, h.2.ne_empty]
  | secret key => simp [parseToken, Reference.token, stripPrefix_append, h.ne_empty]

/-! ## Brackets -/

theorem forall_getLast? {s : String} {last : Char} (hlast : s.toList.getLast? = some last)
    (hspace : isWhitespace last = false) : ∀ c ∈ s.toList.getLast?, isWhitespace c = false := by
  intro c hc
  cases hlast.symm.trans hc
  exact hspace

theorem dropWhile_of_head? {cs : List Char} (h : ∀ c ∈ cs.head?, isWhitespace c = false) :
    cs.dropWhile isWhitespace = cs := by
  cases cs with
  | nil => rfl
  | cons c cs => simp [h c rfl]

/-- White space around a text that begins and ends otherwise. -/
theorem trim_spaces {s : String} (hne : s ≠ "")
    (hhead : ∀ c ∈ s.toList.head?, isWhitespace c = false)
    (hlast : ∀ c ∈ s.toList.getLast?, isWhitespace c = false) :
    trim (String.ofList (' ' :: s.toList ++ [' '])) = s := by
  have hnil : s.toList ≠ [] := by simpa using hne
  have hstart : (' ' :: s.toList ++ [' ']).dropWhile isWhitespace = s.toList ++ [' '] := by
    rw [List.cons_append, List.dropWhile_cons_of_pos (by decide)]
    refine dropWhile_of_head? ?_
    rwa [List.head?_append_of_ne_nil _ hnil]
  have hend : (' ' :: s.toList.reverse).dropWhile isWhitespace = s.toList.reverse := by
    rw [List.dropWhile_cons_of_pos (by decide)]
    refine dropWhile_of_head? ?_
    rwa [List.head?_reverse]
  rw [trim, String.toList_ofList, hstart, List.reverse_append, List.reverse_singleton,
    List.singleton_append, hend, List.reverse_reverse, String.ofList_toList]

/-- A printed token holds no closing bracket. -/
theorem no_close_token {reference : Reference} (h : reference.Printable) :
    ¬ closeBracket <:+: reference.token.toList := by
  have hdot : '.' ∉ closeBracket := by decide
  have hnamed : ∀ {name : String} {attr : List Char}, PrintableName name →
      ¬ closeBracket <:+: attr →
        ¬ closeBracket <:+: "services".toList ++ '.' :: (name.toList ++ '.' :: attr) := by
    intro name attr hname hattr
    rw [infix_append_cons_iff hdot, infix_append_cons_iff hdot, not_or, not_or]
    exact ⟨by decide, hname.no_close, hattr⟩
  cases reference with
  | serviceHost name => simpa [Reference.token] using hnamed h (by decide : ¬ _ <:+: "host".toList)
  | servicePort name => simpa [Reference.token] using hnamed h (by decide : ¬ _ <:+: "port".toList)
  | serviceUrl name => simpa [Reference.token] using hnamed h (by decide : ¬ _ <:+: "url".toList)
  | serviceEnv name key =>
    have hattr : ¬ closeBracket <:+: "env".toList ++ '.' :: key.toList := by
      rw [infix_append_cons_iff hdot, not_or]
      exact ⟨by decide, h.2.no_close⟩
    simpa [Reference.token] using hnamed h.1 hattr
  | secret key =>
    have hsecret : ¬ closeBracket <:+: "secrets".toList ++ '.' :: key.toList := by
      rw [infix_append_cons_iff hdot, not_or]
      exact ⟨by decide, h.no_close⟩
    simpa [Reference.token] using hsecret

theorem head?_token (reference : Reference) : reference.token.toList.head? = some 's' := by
  cases reference <;> simp [Reference.token]

/-- A printed token does not end in white space. -/
theorem getLast?_token {reference : Reference} (h : reference.Printable) :
    ∀ c ∈ reference.token.toList.getLast?, isWhitespace c = false := by
  have hend : ∀ {before after : String}, after ≠ "" →
      (∀ c ∈ after.toList.getLast?, isWhitespace c = false) →
        ∀ c ∈ (before ++ after).toList.getLast?, isWhitespace c = false := by
    intro before after hne hafter
    have hnil : after.toList ≠ [] := by simpa using hne
    rwa [String.toList_append, List.getLast?_append_of_ne_nil _ hnil]
  cases reference with
  | serviceHost name => exact hend (by decide) (forall_getLast? (rfl : _ = some 't') rfl)
  | servicePort name => exact hend (by decide) (forall_getLast? (rfl : _ = some 't') rfl)
  | serviceUrl name => exact hend (by decide) (forall_getLast? (rfl : _ = some 'l') rfl)
  | serviceEnv name key => exact hend h.2.ne_empty h.2.no_space_after
  | secret key => exact hend h.ne_empty h.no_space_after

theorem trim_token {reference : Reference} (h : reference.Printable) :
    trim (String.ofList (' ' :: reference.token.toList ++ [' '])) = reference.token := by
  have hhead := head?_token reference
  refine trim_spaces ?_ ?_ (getLast?_token h)
  · intro hempty
    simp [hempty] at hhead
  · intro c hc
    obtain rfl := Option.some.inj (hhead.symm.trans hc)
    decide

/-! ## Values -/

/-- The first bracket opens after the literal text. -/
theorem splitOnce_openBracket {literal : List Char} (hliteral : ¬ openBracket <:+: literal)
    (after : List Char) :
    splitOnce openBracket (literal ++ (openBracket ++ after)) = some (literal, after) :=
  splitOnce_append (by decide) hliteral

/-- It closes after the token and the space behind it. -/
theorem splitOnce_closeBracket {reference : Reference} (h : reference.Printable)
    (rest : List Char) :
    splitOnce closeBracket (' ' :: reference.token.toList ++ ' ' :: (closeBracket ++ rest)) =
      some (' ' :: reference.token.toList ++ [' '], rest) := by
  have hspace : ' ' ∉ closeBracket := by decide
  refine splitOnce_append_cons hspace ?_
  rw [← List.nil_append (' ' :: _), infix_append_cons_iff hspace, not_or]
  exact ⟨by decide, no_close_token h⟩

/-- The first reference of a value is found where it was written. -/
theorem parseRest_reference {literal rest : List Char} {reference : Reference}
    (hliteral : ¬ openBracket <:+: literal) (h : reference.Printable) :
    parseRest (literal ++ (openBracket ++
        (' ' :: reference.token.toList ++ ' ' :: (closeBracket ++ rest)))) =
      (parseRest rest).map (reference :: ·) := by
  rw [parseRest_brackets (splitOnce_openBracket hliteral _) (splitOnce_closeBracket h rest),
    trim_token h, parseToken_token h]
  cases parseRest rest <;> rfl

/-- **The references that were written are found, in their order.** -/
theorem parseReferences_written (literal : String) (pieces : List (Reference × String))
    (hliteral : IsLiteral literal)
    (hpieces : ∀ piece ∈ pieces, piece.1.Printable ∧ IsLiteral piece.2) :
    parseReferences (written literal pieces) = .ok (pieces.map Prod.fst) := by
  induction pieces generalizing literal with
  | nil => exact parseRest_noOpen (splitOnce_eq_none_iff.mpr hliteral)
  | cons piece pieces ih =>
    obtain ⟨reference, literal'⟩ := piece
    obtain ⟨hreference, hliteral'⟩ := hpieces _ List.mem_cons_self
    have hrest := ih literal' hliteral' fun piece hmem ↦ hpieces piece (List.mem_cons_of_mem _ hmem)
    have hwritten : (written literal ((reference, literal') :: pieces)).toList =
        literal.toList ++ (openBracket ++ (' ' :: reference.token.toList ++
          ' ' :: (closeBracket ++ (written literal' pieces).toList))) := by
      simp [written, openBracket, closeBracket]
    rw [parseReferences, hwritten, parseRest_reference hliteral hreference]
    rw [parseReferences] at hrest
    rw [hrest]
    rfl

/-- Dollar signs and braces at the edges of what was written. -/
theorem parseReferences_written_edges :
    parseReferences (written "$" [(.serviceEnv "api\x7d" "$\x7b\x7b.host\x7d", "\x7d$\x7b"),
        (.secret "\x7b", "")])
      = .ok [.serviceEnv "api\x7d" "$\x7b\x7b.host\x7d", .secret "\x7b"] := by
  refine parseReferences_written _ _ (by unfold IsLiteral; decide) fun piece hpiece ↦ ?_
  rcases List.mem_cons.mp hpiece with rfl | hpiece
  · have hkey : PrintableKey "$\x7b\x7b.host\x7d" :=
      ⟨by decide, forall_getLast? (rfl : _ = some '\x7d') rfl, by decide⟩
    exact ⟨⟨⟨by decide, by decide, by decide⟩, hkey⟩, by unfold IsLiteral; decide⟩
  · obtain rfl := List.mem_singleton.mp hpiece
    have hkey : PrintableKey "\x7b" :=
      ⟨by decide, forall_getLast? (rfl : _ = some '\x7b') rfl, by decide⟩
    exact ⟨hkey, by unfold IsLiteral; decide⟩

/-! ## Brackets that are not closed -/

/-- The number of opening brackets. -/
def openings (rest : List Char) : ℕ := occurrences openBracket (by decide) rest

/-- Between any two opening brackets stands a closing one. -/
def BracketsClosed (rest : List Char) : Prop :=
  ∀ before mid after, rest = before ++ (openBracket ++ (mid ++ (openBracket ++ after))) →
    closeBracket <:+: mid

section Counting

variable {rest before afterOpen token rest' : List Char}

/-- What is counted around a reference. -/
theorem openings_brackets (hopen : splitOnce openBracket rest = some (before, afterOpen))
    (hclose : splitOnce closeBracket afterOpen = some (token, rest')) :
    openings rest = 1 + openings token + openings rest' := by
  have hbrace : '\x7d' ∉ openBracket := by decide
  have hafter : afterOpen = token ++ '\x7d' :: ([] ++ '\x7d' :: rest') := by
    rw [splitOnce_eq hclose]
    simp [closeBracket]
  have hnone : occurrences openBracket (by decide) [] = 0 := occurrences_none rfl
  rw [openings, occurrences_some hopen, hafter, occurrences_append_cons hbrace,
    occurrences_append_cons hbrace, hnone, Nat.zero_add, Nat.add_assoc]
  rfl

/-- No closing bracket stands in a token. -/
theorem no_close_of_splitOnce (hclose : splitOnce closeBracket afterOpen = some (token, rest')) :
    ¬ closeBracket <:+: token := by
  rintro ⟨b, a, rfl⟩
  have hoccurs : afterOpen = b ++ (closeBracket ++ (a ++ (closeBracket ++ rest'))) := by
    rw [splitOnce_eq hclose]
    simp
  have hle := splitOnce_first hclose hoccurs
  have hlength : closeBracket.length = 2 := rfl
  simp only [List.length_append, hlength] at hle
  omega

/-- An opening bracket after a token without one is after the bracket that closes the token. -/
theorem opening_after (hclose : splitOnce closeBracket afterOpen = some (token, rest'))
    (htoken : ¬ openBracket <:+: token) {b a : List Char}
    (hoccurs : afterOpen = b ++ (openBracket ++ a)) :
    ∃ b', b = token ++ (closeBracket ++ b') ∧ rest' = b' ++ (openBracket ++ a) := by
  have hbrace : '\x7d' ∉ openBracket := by decide
  have hafter : token ++ '\x7d' :: ('\x7d' :: rest') = b ++ (openBracket ++ a) := by
    rw [← hoccurs, splitOnce_eq hclose]
    simp [closeBracket]
  rcases occurrence_append_cons hbrace hafter with ⟨a', hin, -⟩ | ⟨b₁, rfl, hlater⟩
  · exact absurd ⟨b, a', by rw [hin, List.append_assoc]⟩ htoken
  · rw [← List.nil_append ('\x7d' :: rest')] at hlater
    rcases occurrence_append_cons hbrace hlater with ⟨a', hin, -⟩ | ⟨b', rfl, hrest⟩
    · simp [openBracket] at hin
    · exact ⟨b', by simp [closeBracket], hrest⟩

/-- The brackets of a value are closed when those of the first reference are, and those of the
rest. -/
theorem bracketsClosed_iff (hopen : splitOnce openBracket rest = some (before, afterOpen))
    (hclose : splitOnce closeBracket afterOpen = some (token, rest')) :
    BracketsClosed rest ↔ ¬ openBracket <:+: token ∧ BracketsClosed rest' := by
  have hrest : rest = before ++ (openBracket ++ afterOpen) := by
    rw [splitOnce_eq hopen, List.append_assoc]
  have hafter : afterOpen = token ++ (closeBracket ++ rest') := by
    rw [splitOnce_eq hclose, List.append_assoc]
  constructor
  · intro hclosed
    constructor
    · rintro ⟨b, a, rfl⟩
      refine no_close_of_splitOnce hclose
        ((hclosed before b (a ++ (closeBracket ++ rest')) ?_).trans ⟨[], openBracket ++ a, by simp⟩)
      rw [hrest, hafter]
      simp
    · intro b mid a hb
      refine hclosed (before ++ (openBracket ++ (token ++ (closeBracket ++ b)))) mid a ?_
      rw [hrest, hafter, hb]
      simp
  · rintro ⟨htoken, hclosed⟩ b mid a hoccurs
    have hle := splitOnce_first hopen hoccurs
    rcases occurrences_disjoint (by decide) (hrest.symm.trans hoccurs) hle with
      ⟨rfl, hmid⟩ | ⟨b₁, rfl, hb₁⟩
    · -- the first opening bracket is the one that is found
      obtain ⟨b', rfl, -⟩ := opening_after hclose htoken hmid
      exact ⟨token, b', by simp⟩
    · obtain ⟨b', -, hlater⟩ := opening_after hclose htoken hb₁
      exact hclosed b' mid a hlater

end Counting

/-- Every reference has an opening bracket, and when the brackets are closed it is the other way
around. -/
theorem parseRest_openings {rest : List Char} {references : List Reference}
    (hparse : parseRest rest = .ok references) :
    references.length ≤ openings rest ∧
      (references.length = openings rest ↔ BracketsClosed rest) := by
  induction rest using parseRest.induct generalizing references with
  | case1 rest hopen =>
    rw [parseRest_noOpen hopen] at hparse
    obtain rfl := Except.ok.inj hparse
    have hnone : openings rest = 0 := occurrences_none hopen
    refine ⟨Nat.zero_le _, ⟨fun _ b mid a hoccurs ↦ ?_, fun _ ↦ hnone.symm⟩⟩
    exact absurd ⟨b, _, by rw [hoccurs, List.append_assoc]⟩ (splitOnce_eq_none_iff.mp hopen)
  | case2 rest before afterOpen hopen hclose =>
    exact absurd hparse (parseRest_noClose hopen hclose references)
  | case3 rest before afterOpen hopen token rest' hclose ih =>
    rw [parseRest_brackets hopen hclose] at hparse
    obtain ⟨reference, -, hparse⟩ := bind_eq_ok hparse
    obtain ⟨later, hlater, hparse⟩ := bind_eq_ok hparse
    obtain rfl := Except.ok.inj hparse
    obtain ⟨hle, hiff⟩ := ih hlater
    have hcount := openings_brackets hopen hclose
    have htoken : openings token = 0 ↔ ¬ openBracket <:+: token := occurrences_eq_zero_iff
    rw [bracketsClosed_iff hopen hclose, ← htoken, ← hiff, List.length_cons, hcount]
    omega

/-- **How many references a value has.**  A value that parses has as many references as opening
brackets exactly when a closing bracket stands between any two opening ones. -/
theorem references_counted_iff (value : String) (references : List Reference)
    (hparse : parseReferences value = .ok references) :
    references.length = openings value.toList ↔ BracketsClosed value.toList :=
  (parseRest_openings hparse).2

theorem references_counted_iff_two :
    [Reference.serviceHost "a", .secret "K"].length =
      openings (written "" [(.serviceHost "a", " "), (.secret "K", "")]).toList ↔
        BracketsClosed (written "" [(.serviceHost "a", " "), (.secret "K", "")]).toList :=
  references_counted_iff _ _ (by decide +kernel)

/-- A reference within the brackets of another becomes part of the name of a secret. -/
theorem reference_swallowed :
    ∃ value references, parseReferences value = .ok references ∧
      references = [.secret "a $\x7b\x7b services.db.port"] ∧
      references.length ≠ openings value.toList :=
  ⟨"$\x7b\x7b secrets.a $\x7b\x7b services.db.port \x7d\x7d", _, by decide +kernel, rfl,
    by decide +kernel⟩

end Manifest
