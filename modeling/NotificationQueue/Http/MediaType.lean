import NotificationQueue.Http.Name

/-! Media types: whether the value of a header says that a body is JSON. -/
namespace NotificationQueue.Http

def isQuotedChar (c : Char) : Bool :=
  0x20 ≤ c.toNat && c.toNat ≠ 0x7F

inductive ParameterPlace where
  /-- Before a name, where blanks may stand. -/
  | before
  | name
  | valueStart
  | value
  /-- In quotes, which must not be empty. -/
  | quotedStart
  | quoted
  | afterQuotes
  deriving DecidableEq

def ParameterPlace.step (c : Char) : ParameterPlace → Option ParameterPlace
  | .before => if c = ' ' then some .before else if isNameChar c then some .name else none
  | .name => if isNameChar c then some .name else if c = '=' then some .valueStart else none
  | .valueStart =>
    if c = '"' then some .quotedStart else if isNameChar c then some .value else none
  | .value => if isNameChar c then some .value else if c = ';' then some .before else none
  | .quotedStart => if isQuotedChar c then some .quoted else none
  | .quoted =>
    if c = '"' then some .afterQuotes else if isQuotedChar c then some .quoted else none
  | .afterQuotes => if c = ';' then some .before else if c = ' ' then some .afterQuotes else none

def areParameters (cs : List Char) : Bool :=
  match cs.foldlM (fun place c => ParameterPlace.step c place) .before with
  | some .before | some .valueStart | some .value | some .afterQuotes => true
  | _ => false

/-- The subtype without its last suffix, and that suffix, each in lower case. A plus at the start
begins no suffix. -/
def splitSuffix (subtype : List Char) : List Char × Option (List Char) :=
  match subtype with
  | [] => ([], none)
  | first :: rest =>
    match Text.splitLast '+' rest with
    | some (stem, suffix) => (first :: stem, some suffix)
    | none => (subtype, none)

def isJsonType (value : String) : Bool :=
  match Text.splitFirst '/' value.toList with
  | none => false
  | some (type, rest) =>
    let subtype := rest.takeWhile (· ≠ ';')
    let wellFormed :=
      type ≠ [] && type.all isNameChar && subtype ≠ [] && subtype.all isNameChar &&
        match rest.drop subtype.length with
        | [] => true
        | _ :: parameters => areParameters parameters
    let (stem, suffix) := splitSuffix (subtype.map Char.toLower)
    let json := "json".toList
    wellFormed && type.map Char.toLower = "application".toList &&
      (stem = json || suffix = some json)

end NotificationQueue.Http
