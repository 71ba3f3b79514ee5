import NotificationQueue.Json.Numeral
import NotificationQueue.Text.Hex

/-!
Reading JSON. The reader takes one symbol at a time: a scanner gathers symbols into tokens, and a
builder puts tokens into trees with the containers still open on a stack. A tree keeps numerals and
strings as they were written, so that a value nobody asks for is never judged by its content.
-/
namespace NotificationQueue.Json

/-! ## Trees -/

/-- A piece of a string: a character, a 16-bit unit given by its code, or an undecodable stretch. -/
inductive Piece where
  | char (c : Char)
  | unit (u : Nat)
  | broken
  deriving DecidableEq

inductive Tree where
  | null
  | bool (b : Bool)
  | number (n : Numeral)
  | text (pieces : List Piece)
  | array (items : List Tree)
  | object (members : List (List Piece × Tree))
  deriving Inhabited

/-- The characters so far, last first, and the first half of a pair of units that waits for its
second. -/
abbrev PieceState := List Char × Option Nat

/-- One piece more: units from 0xD800 on stand for a character only in pairs. -/
def joinPiece : PieceState → Piece → Option PieceState
  | (cs, none), .char c => some (c :: cs, none)
  | (cs, none), .unit u =>
    if 0xD800 ≤ u ∧ u < 0xDC00 then some (cs, some u)
    else if 0xDC00 ≤ u ∧ u < 0xE000 then none
    else some (Char.ofNat u :: cs, none)
  | (cs, some high), .unit low =>
    if 0xDC00 ≤ low ∧ low < 0xE000 then
      some (Char.ofNat (0x10000 + 1024 * (high - 0xD800) + (low - 0xDC00)) :: cs, none)
    else none
  | _, _ => none

def textOfPieces? (pieces : List Piece) : Option String :=
  match pieces.foldlM joinPiece (([], none) : PieceState) with
  | some (cs, none) => some (String.ofList cs.reverse)
  | _ => none

/-! ## Builder -/

inductive Token where
  | openArray
  | closeArray
  | openObject
  | closeObject
  | comma
  | colon
  | scalar (t : Tree)

/-- A container still open: its parts so far, last first. An object may wait for a value. -/
inductive Frame where
  | array (items : List Tree)
  | object (members : List (List Piece × Tree))
  | member (members : List (List Piece × Tree)) (name : List Piece)

inductive Expect where
  | value
  | firstItem
  | firstName
  | name
  | colon (name : List Piece)
  | next

inductive Built where
  | open (expect : Expect) (frames : List Frame)
  | complete (t : Tree)

def Built.close (t : Tree) : List Frame → Option Built
  | [] => some (.complete t)
  | .array items :: frames => some (.open .next (.array (t :: items) :: frames))
  | .member ms name :: frames => some (.open .next (.object ((name, t) :: ms) :: frames))
  | .object _ :: _ => none

def Built.start (frames : List Frame) : Token → Option Built
  | .scalar t => Built.close t frames
  | .openArray => some (.open .firstItem (.array [] :: frames))
  | .openObject => some (.open .firstName (.object [] :: frames))
  | _ => none

def Built.step : Expect → List Frame → Token → Option Built
  | .value, frames, token => Built.start frames token
  | .firstItem, .array [] :: frames, .closeArray => Built.close (.array []) frames
  | .firstItem, frames, token => Built.start frames token
  | .firstName, .object [] :: frames, .closeObject => Built.close (.object []) frames
  | .firstName, frames, .scalar (.text k) => some (.open (.colon k) frames)
  | .name, frames, .scalar (.text k) => some (.open (.colon k) frames)
  | .colon k, .object ms :: frames, .colon => some (.open .value (.member ms k :: frames))
  | .next, .array items :: frames, .comma => some (.open .value (.array items :: frames))
  | .next, .array items :: frames, .closeArray => Built.close (.array items.reverse) frames
  | .next, .object ms :: frames, .comma => some (.open .name (.object ms :: frames))
  | .next, .object ms :: frames, .closeObject => Built.close (.object ms.reverse) frames
  | _, _, _ => none

/-! ## Scanner -/

/-- What is being gathered; characters and pieces are kept last first. -/
inductive Lexeme where
  | nothing
  | word (letters : List Char)
  | number (chars : List Char)
  | text (pieces : List Piece)
  | escape (pieces : List Piece)
  | unit (pieces : List Piece) (digits value : Nat)

def Lexeme.scalar? : Lexeme → Option Tree
  | .word letters =>
    match String.ofList letters.reverse with
    | "null" => some .null
    | "true" => some (.bool true)
    | "false" => some (.bool false)
    | _ => none
  | .number chars => (Numeral.ofChars? chars.reverse).map .number
  | _ => none

def isSpace (c : Char) : Bool :=
  c = ' ' || c = '\n' || c = '\t' || c = '\r'

def punctuation? (c : Char) : Option Token :=
  if c = '[' then some .openArray
  else if c = ']' then some .closeArray
  else if c = '{' then some .openObject
  else if c = '}' then some .closeObject
  else if c = ',' then some .comma
  else if c = ':' then some .colon
  else none

def inNumeral (c : Char) : Bool :=
  c.isDigit || c = '-' || c = '+' || c = '.' || c = 'e' || c = 'E'

def escaped? (c : Char) : Option Char :=
  if c = '"' then some '"'
  else if c = '\\' then some '\\'
  else if c = '/' then some '/'
  else if c = 'b' then some '\x08'
  else if c = 'f' then some '\x0c'
  else if c = 'n' then some '\n'
  else if c = 'r' then some '\r'
  else if c = 't' then some '\t'
  else none

structure Reader where
  lexeme : Lexeme := .nothing
  expect : Expect := .value
  frames : List Frame := []

/-- What a symbol leads to. A tree may be complete before the symbol, which then stays unread. -/
inductive Fed where
  | more (r : Reader)
  | complete (t : Tree)
  | completeBefore (t : Tree)
  | refused

def Reader.take (r : Reader) (token : Token) : Fed :=
  match Built.step r.expect r.frames token with
  | some (.open expect frames) => .more ⟨.nothing, expect, frames⟩
  | some (.complete t) => .complete t
  | none => .refused

def Reader.begin (r : Reader) (c : Char) : Fed :=
  if isSpace c then .more { r with lexeme := .nothing }
  else match punctuation? c with
    | some token => r.take token
    | none =>
      if c = '"' then .more { r with lexeme := .text [] }
      else if c.isDigit || c = '-' then .more { r with lexeme := .number [c] }
      else if c.isLower then .more { r with lexeme := .word [c] }
      else .refused

/-- A character that ends a word or a numeral, and may start a token of its own. -/
def Reader.finish (r : Reader) (c : Char) : Fed :=
  match r.lexeme.scalar? with
  | none => .refused
  | some t =>
    match r.take (.scalar t) with
    | .more r => r.begin c
    | .complete t => .completeBefore t
    | fed => fed

/-- One symbol more. A control character may not stand in a string, and only strings can hold an
undecodable stretch. -/
def Reader.feed (r : Reader) : Option Char → Fed
  | none =>
    match r.lexeme with
    | .text ps => .more { r with lexeme := .text (.broken :: ps) }
    | .number _ | .word _ =>
      match r.finish ' ' with
      | .completeBefore t => .completeBefore t
      | _ => .refused
    | _ => .refused
  | some c =>
    match r.lexeme with
    | .nothing => r.begin c
    | .word letters =>
      if c.isLower then .more { r with lexeme := .word (c :: letters) } else r.finish c
    | .number chars =>
      if inNumeral c then .more { r with lexeme := .number (c :: chars) } else r.finish c
    | .text ps =>
      if c = '"' then r.take (.scalar (.text ps.reverse))
      else if c = '\\' then .more { r with lexeme := .escape ps }
      else if c.toNat < 0x20 then .refused
      else .more { r with lexeme := .text (.char c :: ps) }
    | .escape ps =>
      if c = 'u' then .more { r with lexeme := .unit ps 0 0 }
      else match escaped? c with
        | some e => .more { r with lexeme := .text (.char e :: ps) }
        | none => .refused
    | .unit ps digits value =>
      match Text.hexValue? c with
      | none => .refused
      | some v =>
        let value := 16 * value + v
        if digits = 3 then .more { r with lexeme := .text (.unit value :: ps) }
        else .more { r with lexeme := .unit ps (digits + 1) value }

def Reader.run (r : Reader) : List (Option Char) → Option (Tree × List (Option Char))
  | [] =>
    match r.finish ' ' with
    | .completeBefore t => some (t, [])
    | _ => none
  | s :: rest =>
    match r.feed s with
    | .more r => run r rest
    | .complete t => some (t, rest)
    | .completeBefore t => some (t, s :: rest)
    | .refused => none

def readFirst? (symbols : List (Option Char)) : Option Tree :=
  ((({} : Reader).run symbols).map Prod.fst)

/-- The tree that the symbols hold, with nothing but blanks after it. -/
def readSymbols? (symbols : List (Option Char)) : Option Tree :=
  match ({} : Reader).run symbols with
  | some (t, rest) =>
    if rest.all (fun s => match s with | some c => isSpace c | none => false) then some t else none
  | none => none

def read? (s : String) : Option Tree :=
  readSymbols? (s.toList.map some)

end NotificationQueue.Json
