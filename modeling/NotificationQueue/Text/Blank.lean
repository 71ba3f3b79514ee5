/-! Blank characters, the trimming of texts, and the cutting of texts at separators. -/
namespace NotificationQueue.Text

/-- A character with Unicode's White_Space property. -/
def isBlank (c : Char) : Bool :=
  let n := c.toNat
  (9 ≤ n && n ≤ 13) || n == 0x20 || n == 0x85 || n == 0xA0 || n == 0x1680 ||
    (0x2000 ≤ n && n ≤ 0x200A) || n == 0x2028 || n == 0x2029 || n == 0x202F || n == 0x205F ||
    n == 0x3000

/-! ## Trimming -/

def dropBlanks (cs : List Char) : List Char :=
  cs.dropWhile isBlank

def trimmed (cs : List Char) : List Char :=
  (dropBlanks (dropBlanks cs).reverse).reverse

def trim (s : String) : String :=
  String.ofList (trimmed s.toList)

def isBlankText (s : String) : Bool :=
  s.toList.all isBlank

/-! ## Cutting -/

/-- The pieces between separators: one more than there are separators. -/
def splitAll (separator : Char) (cs : List Char) : List (List Char) :=
  cs.foldr
    (fun c pieces =>
      if c = separator then [] :: pieces
      else match pieces with
        | [] => [[c]]
        | piece :: rest => (c :: piece) :: rest)
    [[]]

def splitFirst (separator : Char) (cs : List Char) : Option (List Char × List Char) :=
  let before := cs.takeWhile (· ≠ separator)
  match cs.dropWhile (· ≠ separator) with
  | [] => none
  | _ :: after => some (before, after)

def splitLast (separator : Char) (cs : List Char) : Option (List Char × List Char) :=
  (splitFirst separator cs.reverse).map fun (after, before) => (before.reverse, after.reverse)

def words (cs : List Char) : List (List Char) :=
  (splitAll ' ' (cs.map fun c => if isBlank c then ' ' else c)).filter (· ≠ [])

/-- The trimmed pieces between commas, empty ones left out. -/
def commaList (s : String) : List String :=
  ((splitAll ',' s.toList).map trimmed).filterMap fun piece =>
    if piece = [] then none else some (String.ofList piece)

def asciiLower (s : String) : String :=
  String.ofList (s.toList.map Char.toLower)

end NotificationQueue.Text
