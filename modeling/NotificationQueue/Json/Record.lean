import NotificationQueue.Json.Reader

/-!
Typed values out of JSON trees. A decoder is told how many containers may still be nested, and
either yields its value or refuses the tree; which of several faults it met does not matter. A
record is read from an object, or from an array of its fields in their order.
-/
namespace NotificationQueue.Json

/-- How many arrays and objects may be nested in one another. -/
def maxNesting : Nat := 127

/-- A decoder: the nesting still allowed, then the tree. -/
abbrev Decode (α : Type) := Nat → Tree → Option α

def Decode.text? {α : Type} (decode : Decode α) (s : String) : Option α :=
  read? s >>= decode maxNesting

/-! ## Scalars -/

def decodeBool : Decode Bool
  | _, .bool b => some b
  | _, _ => none

def decodeText : Decode String
  | _, .text pieces => textOfPieces? pieces
  | _, _ => none

def decodeInt (least greatest : Int) : Decode Int
  | _, .number n =>
    match n.value? with
    | some (.int i) => if least ≤ i ∧ i ≤ greatest then some i else none
    | _ => none
  | _, _ => none

def decodeWord : Decode Nat := fun room t =>
  (decodeInt 0 Text.maxWord64 room t).map Int.toNat

def decodeSigned : Decode Int :=
  decodeInt (-(Text.maxSigned64 + 1)) Text.maxSigned64

def decodeNullable {α : Type} (decode : Decode α) : Decode (Option α)
  | _, .null => some none
  | room, t => (decode room t).map some

def decodeList {α : Type} (decode : Decode α) : Decode (List α)
  | room + 1, .array items => items.mapM (decode room)
  | _, _ => none

/-- A member of a fixed set of names: the name itself, or an object with that name alone, bound to
`null`. -/
def decodeName {α : Type} (named? : String → Option α) : Decode α
  | _, .text pieces => textOfPieces? pieces >>= named?
  | _ + 1, .object [(pieces, .null)] => textOfPieces? pieces >>= named?
  | _, _ => none

/-! ## Values of any shape -/

mutual

def decodeValue (room : Nat) : Tree → Option Json
  | .null => some .null
  | .bool b => some (.bool b)
  | .number n => n.value?
  | .text pieces => (textOfPieces? pieces).map .str
  | .array items =>
    if room = 0 then none else (decodeItems (room - 1) items).map .arr
  | .object members =>
    if room = 0 then none else (decodeMembers (room - 1) members).map fun ms => .obj (ofPairs ms)

def decodeItems (room : Nat) : List Tree → Option (List Json)
  | [] => some []
  | t :: rest =>
    match decodeValue room t with
    | none => none
    | some v => (decodeItems room rest).map (v :: ·)

def decodeMembers (room : Nat) : List (List Piece × Tree) → Option (List (String × Json))
  | [] => some []
  | (pieces, t) :: rest =>
    match textOfPieces? pieces, decodeValue room t with
    | some k, some v => (decodeMembers room rest).map ((k, v) :: ·)
    | _, _ => none

end

def decodeMetadata : Decode Metadata := fun room t =>
  match t with
  | .object _ =>
    match decodeValue room t with
    | some (.obj members) => some members
    | _ => none
  | _ => none

/-! ## Records -/

/-- A field of a record. The last fields of an array may be left out if they are `optional`. -/
structure Field where
  name : String
  optional : Bool := false

/-- The trees found for the fields of a record, and the nesting still allowed inside them. -/
structure Fields where
  room : Nat
  found : List (String × Tree)

/-- Adds a member of an object: one of a field's name may come only once, any other is ignored. -/
def Fields.addMember (names : List String) (found : List (String × Tree)) (pieces : List Piece)
    (t : Tree) : Option (List (String × Tree)) := do
  let k ← textOfPieces? pieces
  if names.contains k then
    if found.any (·.1 = k) then none else return (k, t) :: found
  else return found

def Fields.ofItems : List Field → List Tree → Option (List (String × Tree))
  | [], [] => some []
  | [], _ :: _ => none
  | f :: rest, [] => if f.optional then ofItems rest [] else none
  | f :: rest, t :: items => (ofItems rest items).map ((f.name, t) :: ·)

def fields? (fields : List Field) : Decode Fields
  | room + 1, .object members =>
    let names := fields.map Field.name
    (members.foldlM (fun found (k, t) => Fields.addMember names found k t) []).map fun found =>
      ⟨room, found⟩
  | room + 1, .array items => (Fields.ofItems fields items).map fun found => ⟨room, found⟩
  | _, _ => none

def Fields.tree? (fs : Fields) (name : String) : Option Tree :=
  (fs.found.find? (·.1 = name)).map Prod.snd

def Fields.required {α : Type} (fs : Fields) (name : String) (decode : Decode α) : Option α :=
  fs.tree? name >>= decode fs.room

def Fields.orElse {α : Type} (fs : Fields) (name : String) (absent : α) (decode : Decode α) :
    Option α :=
  match fs.tree? name with
  | none => some absent
  | some t => decode fs.room t

def Fields.nullable {α : Type} (fs : Fields) (name : String) (decode : Decode α) :
    Option (Option α) :=
  fs.orElse name none (decodeNullable decode)

end NotificationQueue.Json
