/-!
JSON values. Whole numbers are those that fit a 64-bit word, signed or not; any other number is a
double, held by its bits. An object keeps its members in the order in which their names first came,
and is written in it; a map that sorts its names writes the same members in another order, which no
reader of the object sees.
-/
namespace NotificationQueue

inductive Json where
  | null
  | bool (b : Bool)
  | int (n : Int)
  | real (bits : UInt64)
  | str (s : String)
  | arr (items : List Json)
  | obj (members : List (String × Json))
  deriving Inhabited

abbrev Metadata := List (String × Json)

namespace Json

def lookup (name : String) : List (String × Json) → Option Json
  | [] => none
  | (k, v) :: rest => if k = name then some v else lookup name rest

/-- The members with a name bound to a value: in the place of the name's earlier value, or at the
end. -/
def setMember (name : String) (value : Json) : List (String × Json) → List (String × Json)
  | [] => [(name, value)]
  | (k, v) :: rest => if k = name then (k, value) :: rest else (k, v) :: setMember name value rest

/-- The members of an object, where a later value of a name replaces an earlier one. -/
def ofPairs (pairs : List (String × Json)) : List (String × Json) :=
  pairs.foldl (fun ms (k, v) => setMember k v ms) []

def record (members : List (String × Option Json)) : Json :=
  .obj (members.filterMap fun (k, v) => v.map (k, ·))

theorem lookup_setMember (name : String) (value : Json) (ms : List (String × Json)) :
    lookup name (setMember name value ms) = some value := by
  induction ms with
  | nil => simp [setMember, lookup]
  | cons m rest ih =>
    obtain ⟨k, v⟩ := m
    by_cases h : k = name <;> simp [setMember, lookup, h, ih]

theorem lookup_setMember_of_ne {name other : String} (value : Json) (ms : List (String × Json))
    (h : other ≠ name) : lookup other (setMember name value ms) = lookup other ms := by
  induction ms with
  | nil => simp [setMember, lookup, h.symm]
  | cons m rest ih =>
    obtain ⟨k, v⟩ := m
    by_cases hk : k = name
    · subst hk
      simp [setMember, lookup, h.symm]
    · simp [setMember, lookup, hk, ih]

end NotificationQueue.Json
