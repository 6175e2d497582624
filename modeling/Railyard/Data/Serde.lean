import Railyard.Data.IndexMap
import Railyard.Data.Json

/-!
# Derived codecs

The rules by which a data type is written to and read from JSON when its codec is derived from
its declaration.  A `Codec` carries the proof that reading inverts writing and that what it writes
is a document, so a codec built from the rules is correct by construction.

* `Codec.string`, `Codec.bool`, `Codec.uint`, `Codec.float`, `Codec.list`, `Codec.map`: the codecs
  of the basic types;
* `Codec.variant`: an enumeration without data, written as the name of its constructor;
* `Codec.untagged`: one of two types, told apart by which of them reads;
* `Field.required`, `Field.optional`, `Field.collection`: what becomes of a field of a structure,
  which may be left out when it is absent or empty;
* `Fields.cons`, `Codec.struct`: the fields of a structure one by one, and the structure, whose
  unknown fields are denied and which may also be read from an array of its fields;
* `Codec.openStruct`: a structure whose unknown fields are ignored.
-/

set_option autoImplicit false

namespace Data

variable {F A B : Type}

/-- How a type is written to JSON and read from it. -/
structure Codec (F A : Type) where
  encode : A → Json F
  decode : Json F → Option A
  decode_encode : ∀ a, decode (encode a) = some a
  wf : ∀ a, (encode a).WF
  ne_null : ∀ a, encode a ≠ .null

namespace Codec

/-! ## Basic types -/

/-- A string. -/
def string : Codec F String where
  encode := .string
  decode
    | .string s => some s
    | _ => none
  decode_encode _ := rfl
  wf := .string
  ne_null _ := nofun

/-- A boolean. -/
def bool : Codec F Bool where
  encode := .bool
  decode
    | .bool b => some b
    | _ => none
  decode_encode _ := rfl
  wf := .bool
  ne_null _ := nofun

/-- An unsigned integer of `width` bits: a natural number below the bound. -/
def uint (width : ℕ) (h : width ≤ 64) : Codec F (Fin (2 ^ width)) where
  encode n := .number (.pos ⟨n.val, Nat.lt_of_lt_of_le n.isLt (Nat.pow_le_pow_right (by decide) h)⟩)
  decode
    | .number (.pos n) => if hn : n.val < 2 ^ width then some ⟨n.val, hn⟩ else none
    | _ => none
  decode_encode n := by simp
  wf _ := .number _
  ne_null _ := nofun

/-- A double: any number, rounded. -/
def float [Float64 F] : Codec F F where
  encode x := .number (.float x)
  decode
    | .number n => some n.toFloat
    | _ => none
  decode_encode _ := rfl
  wf _ := .number _
  ne_null _ := nofun

/-- A list, item by item. -/
def list (c : Codec F A) : Codec F (List A) where
  encode as := .array (as.map c.encode)
  decode
    | .array items => items.mapM c.decode
    | _ => none
  decode_encode as := by
    show (as.map c.encode).mapM c.decode = some as
    induction as with
    | nil => rfl
    | cons a as ih => simp [c.decode_encode, ih]
  wf as := .array fun item hitem ↦ by
    obtain ⟨a, -, rfl⟩ := List.mem_map.mp hitem
    exact c.wf a
  ne_null _ := nofun

/-- Read the values of the entries of an object, in order. -/
def decodeEntries (decode : Json F → Option A) (entries : List (String × Json F)) :
    Option (List (String × A)) :=
  entries.mapM fun (key, value) ↦ (decode value).map fun a ↦ (key, a)

theorem decodeEntries_map {decode : Json F → Option A} {encode : A → Json F}
    (h : ∀ a, decode (encode a) = some a) (entries : List (String × A)) :
    decodeEntries decode (entries.map fun (key, a) ↦ (key, encode a)) = some entries := by
  induction entries with
  | nil => rfl
  | cons entry entries ih =>
    rw [decodeEntries] at ih
    rw [decodeEntries, List.map_cons, List.mapM_cons, ih]
    simp [h]

theorem map_fst_encode (encode : A → Json F) (entries : List (String × A)) :
    (entries.map fun (key, a) ↦ (key, encode a)).map Prod.fst = entries.map Prod.fst := by
  rw [List.map_map]
  rfl

/-- A map from strings, as an object; its values are read by `decode`. -/
def mapWith (c : Codec F A) (decode : Json F → Option A)
    (h : ∀ a, decode (c.encode a) = some a) : Codec F (IndexMap A) where
  encode m := .object (m.entries.map fun (key, a) ↦ (key, c.encode a))
  decode
    | .object entries => (decodeEntries decode entries).map IndexMap.ofList
    | _ => none
  decode_encode m := by
    show (decodeEntries decode _).map IndexMap.ofList = some m
    rw [decodeEntries_map h, Option.map_some, IndexMap.ofList_entries]
  wf m := by
    refine .object ?_ fun entry hentry ↦ ?_
    · rw [map_fst_encode]
      exact m.nodup
    · obtain ⟨⟨key, a⟩, -, rfl⟩ := List.mem_map.mp hentry
      exact c.wf a
  ne_null _ := nofun

/-- A map from strings, as an object. -/
def map (c : Codec F A) : Codec F (IndexMap A) := mapWith c c.decode c.decode_encode

/-- An enumeration without data: the name of the constructor, or an object with that name as its
only key and no content. -/
def variant (nameOf : A → String) (ofName : String → Option A)
    (h : ∀ a, ofName (nameOf a) = some a) : Codec F A where
  encode a := .string (nameOf a)
  decode
    | .string name => ofName name
    | .object [(name, .null)] => ofName name
    | _ => none
  decode_encode := h
  wf _ := .string _
  ne_null _ := nofun

/-- Two alternatives without a tag: the first that reads is taken. -/
def untagged (c : Codec F A) (d : Codec F B) (h : ∀ b, c.decode (d.encode b) = none) :
    Codec F (A ⊕ B) where
  encode
    | .inl a => c.encode a
    | .inr b => d.encode b
  decode j := ((c.decode j).map Sum.inl).or ((d.decode j).map Sum.inr)
  decode_encode
    | .inl a => by simp [c.decode_encode]
    | .inr b => by simp [h, d.decode_encode]
  wf
    | .inl a => c.wf a
    | .inr b => d.wf b
  ne_null
    | .inl a => c.ne_null a
    | .inr b => d.ne_null b

/-- The codec of a type that is another one with its fields named. -/
def iso (c : Codec F A) (mk : A → B) (parts : B → A) (h : ∀ b, mk (parts b) = b) : Codec F B where
  encode b := c.encode (parts b)
  decode j := (c.decode j).map mk
  decode_encode b := by rw [c.decode_encode, Option.map_some, h]
  wf b := c.wf (parts b)
  ne_null b := c.ne_null (parts b)

end Codec

/-! ## Fields -/

/-- What becomes of one field of a structure: it may be skipped when written, and has a value
then when it is absent. -/
structure Field (F A : Type) where
  write : A → Option (Json F)
  read : Json F → Option A
  absent : Option A
  read_write : ∀ a j, write a = some j → read j = some a
  absent_write : ∀ a, write a = none → absent = some a
  wf : ∀ a j, write a = some j → j.WF

namespace Field

/-- A field that is always written and must be there. -/
def required (c : Codec F A) : Field F A where
  write a := some (c.encode a)
  read := c.decode
  absent := none
  read_write a j h := by rw [← Option.some.inj h, c.decode_encode]
  absent_write _ h := by simp at h
  wf a j h := Option.some.inj h ▸ c.wf a

/-- An optional field: skipped when it is `none`; absence and `null` are read as `none`. -/
def optional (c : Codec F A) : Field F (Option A) where
  write := Option.map c.encode
  read
    | .null => some none
    | j => (c.decode j).map some
  absent := some none
  read_write a j h := by
    obtain ⟨a, rfl, rfl⟩ := Option.map_eq_some_iff.mp h
    split
    · rename_i hnull
      exact absurd hnull (c.ne_null a)
    · rw [c.decode_encode, Option.map_some]
  absent_write a h := by rw [Option.map_eq_none_iff.mp h]
  wf a j h := by
    obtain ⟨a, rfl, rfl⟩ := Option.map_eq_some_iff.mp h
    exact c.wf a

/-- A collection that is skipped when it is empty and empty when it is absent. -/
def collection (c : Codec F A) (isEmpty : A → Bool) (empty : A)
    (h : ∀ a, isEmpty a = true → a = empty) : Field F A where
  write a := if isEmpty a then none else some (c.encode a)
  read := c.decode
  absent := some empty
  read_write a j hj := by
    split at hj
    · simp at hj
    · rw [← Option.some.inj hj, c.decode_encode]
  absent_write a ha := by
    split at ha
    · rename_i hempty
      rw [h a hempty]
    · simp at ha
  wf a j hj := by
    split at hj
    · simp at hj
    · exact Option.some.inj hj ▸ c.wf a

end Field

/-! ## Structures -/

/-- The fields of a structure, in order.  Reading looks fields up by name (`read`) or takes them
in order from a list that may end early where every field has a default (`readItems`). -/
structure Fields (F A : Type) where
  names : List String
  nodup : names.Nodup
  write : A → List (String × Json F)
  read : (String → Option (Json F)) → Option A
  readItems : Bool → List (Json F) → Option A
  sublist : ∀ a, ((write a).map Prod.fst).Sublist names
  read_congr : ∀ f g, (∀ name ∈ names, f name = g name) → read f = read g
  read_write : ∀ a, read (fun name ↦ (write a).lookup name) = some a
  wf : ∀ a, ∀ entry ∈ write a, entry.2.WF

namespace Fields

/-- No fields. -/
def nil : Fields F Unit where
  names := []
  nodup := List.nodup_nil
  write _ := []
  read _ := some ()
  readItems
    | _, [] => some ()
    | _, _ :: _ => none
  sublist _ := .slnil
  read_congr _ _ _ := rfl
  read_write _ := rfl
  wf _ _ h := by simp at h

/-- One field more, in front. -/
def cons (name : String) (field : Field F A) (rest : Fields F B)
    (h : name ∉ rest.names := by simp) :
    Fields F (A × B) where
  names := name :: rest.names
  nodup := List.nodup_cons.mpr ⟨h, rest.nodup⟩
  write ab := ((field.write ab.1).map fun j ↦ (name, j)).toList ++ rest.write ab.2
  read lookup := do
    let a ← match lookup name with
      | some j => field.read j
      | none => field.absent
    let b ← rest.read lookup
    return (a, b)
  readItems lenient items := do
    let a ← match items with
      | j :: _ => field.read j
      | [] => if lenient then field.absent else none
    let b ← rest.readItems lenient items.tail
    return (a, b)
  sublist ab := by
    have hrest := rest.sublist ab.2
    cases field.write ab.1 <;> simp [hrest]
  read_congr f g hfg := by
    have hname := hfg name (List.mem_cons_self ..)
    have hrest := rest.read_congr f g fun n hn ↦ hfg n (List.mem_cons_of_mem _ hn)
    rw [hname, hrest]
  read_write ab := by
    have hrest : ∀ front : List (String × Json F), (∀ entry ∈ front, entry.1 = name) →
        rest.read (fun n ↦ (front ++ rest.write ab.2).lookup n) = some ab.2 := by
      intro front hfront
      rw [← rest.read_write ab.2]
      refine rest.read_congr _ _ fun n hn ↦ ?_
      have hnone : front.lookup n = none := by
        rw [List.lookup_eq_none_iff]
        intro entry hentry
        simpa [hfront entry hentry] using fun heq : n = name ↦ h (heq ▸ hn)
      rw [List.lookup_append, hnone, Option.none_or]
    cases hwrite : field.write ab.1 with
    | none =>
      have hlookup : (rest.write ab.2).lookup name = none := by
        rw [List.lookup_eq_none_iff]
        intro entry hentry
        have hmem := (rest.sublist ab.2).subset (List.mem_map_of_mem (f := Prod.fst) hentry)
        simpa using fun heq : name = entry.1 ↦ h (heq ▸ hmem)
      have hread := hrest [] (by simp)
      rw [List.nil_append] at hread
      simp [hlookup, field.absent_write ab.1 hwrite, hread]
    | some j =>
      have hread := hrest [(name, j)] (by simp)
      simp only [Option.map_some, Option.toList_some]
      rw [hread]
      simp [field.read_write ab.1 j hwrite]
  wf ab entry hentry := by
    rcases List.mem_append.mp hentry with hmem | hmem
    · obtain ⟨j, hj, rfl⟩ := Option.map_eq_some_iff.mp (Option.mem_toList.mp hmem)
      exact field.wf ab.1 j hj
    · exact rest.wf ab.2 entry hmem

@[simp]
theorem nil_names : (nil : Fields F Unit).names = [] := rfl

@[simp]
theorem cons_names (name : String) (field : Field F A) (rest : Fields F B)
    (h : name ∉ rest.names) : (cons name field rest h).names = name :: rest.names := rfl

end Fields

/-- A structure: an object of its fields, without others.  It may also be read from an array of
its fields, which may end early where the structure has a default (`lenient`). -/
def Codec.struct (fields : Fields F A) (lenient : Bool) : Codec F A where
  encode a := .object (fields.write a)
  decode
    | .object entries =>
      if entries.all fun entry ↦ entry.1 ∈ fields.names then
        fields.read fun name ↦ entries.lookup name
      else none
    | .array items => fields.readItems lenient items
    | _ => none
  decode_encode a := by
    have hknown : ((fields.write a).all fun entry ↦ entry.1 ∈ fields.names) = true := by
      rw [List.all_eq_true]
      intro entry hentry
      simpa using (fields.sublist a).subset (List.mem_map_of_mem (f := Prod.fst) hentry)
    show (if _ then _ else none) = some a
    rw [if_pos hknown, fields.read_write]
  wf a := .object ((fields.sublist a).nodup fields.nodup) (fields.wf a)
  ne_null _ := nofun

/-- A structure whose unknown fields are ignored.  None of its own fields may come twice. -/
def Codec.openStruct (fields : Fields F A) (lenient : Bool) : Codec F A where
  encode a := .object (fields.write a)
  decode
    | .object entries =>
      if ((entries.map Prod.fst).filter fun name ↦ name ∈ fields.names).Nodup then
        fields.read fun name ↦ entries.lookup name
      else none
    | .array items => fields.readItems lenient items
    | _ => none
  decode_encode a := by
    have hnodup : (((fields.write a).map Prod.fst).filter fun name ↦ name ∈ fields.names).Nodup :=
      ((fields.sublist a).nodup fields.nodup).filter _
    show (if _ then _ else none) = some a
    rw [if_pos hnodup, fields.read_write]
  wf a := .object ((fields.sublist a).nodup fields.nodup) (fields.wf a)
  ne_null _ := nofun

end Data
