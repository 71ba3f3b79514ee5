import NotificationQueue.Json.Basic

/-! Schemas: what JSON values look like, told as JSON. -/
namespace NotificationQueue.Http

inductive Form where
  | flag
  | text
  | id
  | instant
  | count
  | object
  | named (schema : String)
  /-- An array of values of a named schema. -/
  | list (schema : String)
  deriving DecidableEq, Inhabited

namespace Form

def reference (schema : String) : Json :=
  .obj [("$ref", .str ("#/components/schemas/" ++ schema))]

def typeMember (nullable : Bool) (type : String) : String × Json :=
  ("type", if nullable then .arr [.str type, .str "null"] else .str type)

def members (nullable : Bool) : Form → List (String × Json)
  | .flag => [typeMember nullable "boolean"]
  | .text => [typeMember nullable "string"]
  | .id => [typeMember nullable "string", ("format", .str "uuid")]
  | .instant => [typeMember nullable "string", ("format", .str "date-time")]
  | .count => [typeMember nullable "integer", ("format", .str "int64"), ("minimum", .int 0)]
  | .object => [typeMember nullable "object"]
  | .named schema =>
    if nullable then
      [("oneOf", .arr [.obj [("type", .str "null")], reference schema])]
    else [("$ref", .str ("#/components/schemas/" ++ schema))]
  | .list schema => [typeMember nullable "array", ("items", reference schema)]

end Form

structure Property where
  name : String
  form : Form
  about : Option String := none
  required : Bool := true
  nullable : Bool := false
  deriving DecidableEq, Inhabited

def Property.toJson (p : Property) : Json :=
  .obj (p.form.members p.nullable ++ (p.about.map fun s => ("description", Json.str s)).toList)

/-- A schema: of records, or of texts out of a list. -/
inductive Schema where
  | record (about : Option String) (properties : List Property)
  | choice (about : String) (values : List String)

namespace Schema

def toJson : Schema → Json
  | .record about properties =>
    Json.record [("type", some (.str "object")), ("description", about.map .str),
      ("required",
        some (.arr ((properties.filter Property.required).map fun p => .str p.name))),
      ("properties", some (.obj (properties.map fun p => (p.name, p.toJson))))]
  | .choice about values =>
    .obj [("type", .str "string"), ("description", .str about), ("enum", .arr (values.map .str))]

end Schema

end NotificationQueue.Http
