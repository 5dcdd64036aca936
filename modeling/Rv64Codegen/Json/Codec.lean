namespace Rv64Codegen

/-!
# Codecs of JSON documents

The forms of this library are written and read through a codec, which is all that they
know about JSON: how documents are made of numbers, texts, lists, records and choices,
how they are taken apart again, and how they are turned into text.  What a codec has to
keep to is stated as laws, one for each kind of document.  A reader may refuse documents
that are nested too deeply, so text is only asked to be read up to a number of layers.
-/

/-- A way of writing documents and of reading them. -/
structure Codec where
  Document : Type
  print : Document → String
  parse? : String → Option Document
  integer : Int → Document
  /-- An integer within bounds, the upper one excluded. -/
  integer? : Int → Int → Document → Option Int
  string : String → Document
  string? : Document → Option String
  null : Document
  /-- A document other than null. -/
  present? : Document → Option Document
  array : List Document → Document
  items? : Document → Option (List Document)
  /-- A record, as an object with a member for each field. -/
  record : List (String × Document) → Document
  /-- The fields of a record in the given order; a missing field is `none`. -/
  fields? : List String → Document → Option (List (Option Document))
  /-- A choice without content, as its name. -/
  plain : String → Document
  /-- A choice with content, as an object with one member, tagged from outside. -/
  tagged : String → Document → Document
  /-- The name of a choice, and its content if it is written with one. -/
  choice? : Document → Option (String × Option Document)

namespace Codec

/--
Documents with at most a number of layers, one for each array, record and choice with
content, and with integers of 64 bits, signed or unsigned.
-/
inductive Written (codec : Codec) : Nat → codec.Document → Prop where
  | integer
      {depth : Nat}
      {value : Int}
      (lower : -0x8000000000000000 ≤ value)
      (upper : value < 0x10000000000000000) :
      Written codec depth (codec.integer value)
  | string
      {depth : Nat}
      (text : String) :
      Written codec depth (codec.string text)
  | null
      {depth : Nat} :
      Written codec depth codec.null
  | plain
      {depth : Nat}
      (name : String) :
      Written codec depth (codec.plain name)
  | array
      {depth : Nat}
      {items : List codec.Document}
      (each : ∀ item ∈ items, Written codec depth item) :
      Written codec (depth + 1) (codec.array items)
  | record
      {depth : Nat}
      {members : List (String × codec.Document)}
      (each : ∀ member ∈ members, Written codec depth member.2) :
      Written codec (depth + 1) (codec.record members)
  | tagged
      {depth : Nat}
      (name : String)
      {content : codec.Document}
      (inner : Written codec depth content) :
      Written codec (depth + 1) (codec.tagged name content)

/-- What is asked of a codec: every document is read as what it was made of. -/
structure Lawful (codec : Codec) : Prop where
  /-- Text stands for the document it was printed for, whatever strings it holds. -/
  parse?_print :
    ∀ document, codec.Written 127 document →
      codec.parse? (codec.print document) = some document
  integer?_integer :
    ∀ low high value, low ≤ value → value < high →
      codec.integer? low high (codec.integer value) = some value
  string?_string :
    ∀ text, codec.string? (codec.string text) = some text
  present?_null :
    codec.present? codec.null = none
  present?_integer :
    ∀ value, codec.present? (codec.integer value) = some (codec.integer value)
  items?_array :
    ∀ items, codec.items? (codec.array items) = some items
  /-- The members of an object are found under their names, if no name occurs twice. -/
  fields?_record :
    ∀ members, (members.map Prod.fst).Nodup →
      codec.fields? (members.map Prod.fst) (codec.record members) =
        some (members.map fun member => some member.2)
  choice?_plain :
    ∀ name, codec.choice? (codec.plain name) = some (name, none)
  choice?_tagged :
    ∀ name content, codec.choice? (codec.tagged name content) = some (name, some content)

variable
  (codec : Codec)

/-- A natural number. -/
def ofNat (value : Nat) : codec.Document :=
  codec.integer value

/-- A natural number of the given number of bits. -/
def natOfBits? (bits : Nat) (document : codec.Document) : Option Nat :=
  (codec.integer? 0 (1 <<< bits : Nat) document).map Int.toNat

/-- A two's complement number of the given number of bits. -/
def intOfBits? (bits : Nat) (document : codec.Document) : Option Int :=
  codec.integer? (-(1 <<< (bits - 1) : Nat)) (1 <<< (bits - 1) : Nat) document

/-- A list of values. -/
def ofList (form : α → codec.Document) (values : List α) : codec.Document :=
  codec.array (values.map form)

/-- A list whose items are all read in the same way. -/
def listOf?
    (item? : codec.Document → Option α)
    (document : codec.Document) :
    Option (List α) :=
  (codec.items? document).bind (List.mapM item?)

/-- A value that may be missing. -/
def ofOption (form : α → codec.Document) : Option α → codec.Document
  | some value => form value
  | none => codec.null

/-- A value that may be null. -/
def optional?
    (value? : codec.Document → Option α)
    (document : codec.Document) :
    Option (Option α) :=
  match codec.present? document with
  | none =>
      some none
  | some present =>
      (value? present).map some

/-- The name of a choice without content, which may be written with null. -/
def plain? (document : codec.Document) : Option String :=
  match codec.choice? document with
  | some (name, none) =>
      some name
  | some (name, some content) =>
      match codec.present? content with
      | none =>
          some name
      | some _ =>
          none
  | none =>
      none

end Codec

end Rv64Codegen
