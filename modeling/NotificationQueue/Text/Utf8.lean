/-!
Texts as bytes. Encoding writes a character in one to four bytes; decoding walks the bytes with a
machine that knows how many bytes the character still owes and between which bounds the next one
must lie, so that a sequence is given up at the first byte that rules it out.
-/
namespace NotificationQueue.Utf8

/-! ## Encoding -/

def encodeChar (c : Char) : List UInt8 :=
  let n := c.toNat
  if n < 0x80 then [UInt8.ofNat n]
  else if n < 0x800 then [UInt8.ofNat (0xC0 + n / 64), UInt8.ofNat (0x80 + n % 64)]
  else if n < 0x10000 then
    [UInt8.ofNat (0xE0 + n / 4096), UInt8.ofNat (0x80 + n / 64 % 64), UInt8.ofNat (0x80 + n % 64)]
  else
    [UInt8.ofNat (0xF0 + n / 262144), UInt8.ofNat (0x80 + n / 4096 % 64),
      UInt8.ofNat (0x80 + n / 64 % 64), UInt8.ofNat (0x80 + n % 64)]

def encode (cs : List Char) : List UInt8 :=
  cs.flatMap encodeChar

/-! ## Decoding -/

/-- A character begun: the bytes it still owes, the bounds of the next one, the bits so far. -/
structure Begun where
  owed : Nat
  least : Nat
  greatest : Nat
  bits : Nat
  deriving DecidableEq

/-- What the first byte of a character of more than one byte promises. -/
def Begun.ofLead? (b : Nat) : Option Begun :=
  if 0xC2 ≤ b ∧ b ≤ 0xDF then some ⟨1, 0x80, 0xBF, b - 0xC0⟩
  else if b = 0xE0 then some ⟨2, 0xA0, 0xBF, 0⟩
  else if b = 0xED then some ⟨2, 0x80, 0x9F, 0xD⟩
  else if 0xE1 ≤ b ∧ b ≤ 0xEF then some ⟨2, 0x80, 0xBF, b - 0xE0⟩
  else if b = 0xF0 then some ⟨3, 0x90, 0xBF, 0⟩
  else if 0xF1 ≤ b ∧ b ≤ 0xF3 then some ⟨3, 0x80, 0xBF, b - 0xF0⟩
  else if b = 0xF4 then some ⟨3, 0x80, 0x8F, 4⟩
  else none

/-- The machine between two bytes: the symbols so far, last first, and the character begun. A
symbol is a character, or `none` for bytes that encode none. -/
structure Decoder where
  symbols : List (Option Char) := []
  begun : Option Begun := none

def Decoder.start (symbols : List (Option Char)) (b : Nat) : Decoder :=
  if b < 0x80 then ⟨some (Char.ofNat b) :: symbols, none⟩
  else match Begun.ofLead? b with
    | some p => ⟨symbols, some p⟩
    | none => ⟨none :: symbols, none⟩

/-- One byte more. A byte that the begun character cannot take ends that character as undecodable
and starts anew. -/
def Decoder.step (d : Decoder) (byte : UInt8) : Decoder :=
  let b := byte.toNat
  match d.begun with
  | none => .start d.symbols b
  | some p =>
    if p.least ≤ b ∧ b ≤ p.greatest then
      let bits := 64 * p.bits + (b - 0x80)
      if p.owed = 1 then ⟨some (Char.ofNat bits) :: d.symbols, none⟩
      else ⟨d.symbols, some ⟨p.owed - 1, 0x80, 0xBF, bits⟩⟩
    else .start (none :: d.symbols) b

/-- The symbols of a sequence of bytes: each undecodable stretch is one `none`. -/
def decode (bytes : List UInt8) : List (Option Char) :=
  let d := bytes.foldl Decoder.step {}
  (match d.begun with
    | none => d.symbols
    | some _ => none :: d.symbols).reverse

def decode? (bytes : List UInt8) : Option String :=
  ((decode bytes).mapM id).map String.ofList

/-- The text with a replacement character for each undecodable stretch. -/
def decodeLossy (bytes : List UInt8) : String :=
  String.ofList ((decode bytes).map (·.getD '\uFFFD'))

end NotificationQueue.Utf8
