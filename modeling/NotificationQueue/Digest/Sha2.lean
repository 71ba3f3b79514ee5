/-!
The SHA-2 digests with words of 32 and 64 bits. Their constants are the leading bits of the
fractions of square and cube roots of primes, and are computed as such.
-/
namespace NotificationQueue.Digest

/-! ## Constants -/

def isPrime (n : Nat) : Bool :=
  2 ≤ n && (List.range n).all fun d => d < 2 || n % d ≠ 0

def primes : List Nat :=
  (List.range 410).filter isPrime

/-- The greatest number of at most `bits` bits whose power with exponent `k` does not exceed `n`. -/
def integerRoot (k bits n : Nat) : Nat :=
  (List.range bits).foldr
    (fun i r => if Nat.pow (r + Nat.pow 2 i) k ≤ n then r + Nat.pow 2 i else r) 0

/-- The first `bits` bits of the fraction of a root of `n`. -/
def rootFraction (k bits n : Nat) : Nat :=
  integerRoot k (bits + 5) (n * Nat.pow 2 (k * bits)) % Nat.pow 2 bits

/-! ## Family -/

/-- Two rotations with a third, or with a shift in its place. -/
structure Mix where
  first : Nat
  second : Nat
  third : Nat

structure Sha2 where
  bits : Nat
  initial : List Nat
  rounds : List Nat
  outputBytes : Nat
  /-- How the first and the fifth word of the state are mixed. -/
  headMix : Mix
  middleMix : Mix
  /-- How the second and the fifteenth word of the window are mixed. -/
  earlyMix : Mix
  lateMix : Mix

def sha256 : Sha2 where
  bits := 32
  initial := (primes.take 8).map (rootFraction 2 32)
  rounds := (primes.take 64).map (rootFraction 3 32)
  outputBytes := 32
  headMix := ⟨2, 13, 22⟩
  middleMix := ⟨6, 11, 25⟩
  earlyMix := ⟨7, 18, 3⟩
  lateMix := ⟨17, 19, 10⟩

def sha512 : Sha2 where
  bits := 64
  initial := (primes.take 8).map (rootFraction 2 64)
  rounds := primes.map (rootFraction 3 64)
  outputBytes := 64
  headMix := ⟨28, 34, 39⟩
  middleMix := ⟨14, 18, 41⟩
  earlyMix := ⟨1, 8, 7⟩
  lateMix := ⟨19, 61, 6⟩

def sha384 : Sha2 :=
  { sha512 with
    initial := ((primes.drop 8).take 8).map (rootFraction 2 64)
    outputBytes := 48 }

namespace Sha2

variable (h : Sha2)

def blockBytes : Nat := 2 * h.bits

def sum (ws : List Nat) : Nat := ws.foldl (· + ·) 0 % Nat.pow 2 h.bits

def turn (n x : Nat) : Nat :=
  (x >>> n) ||| ((x <<< (h.bits - n)) % Nat.pow 2 h.bits)

def mixTurns (m : Mix) (x : Nat) : Nat :=
  h.turn m.first x ^^^ h.turn m.second x ^^^ h.turn m.third x

def mixShift (m : Mix) (x : Nat) : Nat :=
  h.turn m.first x ^^^ h.turn m.second x ^^^ (x >>> m.third)

def nextWord (window : List Nat) : Nat :=
  let at_ (i : Nat) : Nat := window.getD i 0
  h.sum [h.mixShift h.lateMix (at_ 14), at_ 9, h.mixShift h.earlyMix (at_ 1), at_ 0]

def round : List Nat × List Nat → Nat → List Nat × List Nat
  | ([a, b, c, d, e, f, g, i], window), k =>
    let choice := (e &&& f) ^^^ ((Nat.pow 2 h.bits - 1 - e) &&& g)
    let majority := (a &&& b) ^^^ (a &&& c) ^^^ (b &&& c)
    let t := h.sum [i, h.mixTurns h.middleMix e, choice, k, window.headD 0]
    ([h.sum [t, h.mixTurns h.headMix a, majority], a, b, c, h.sum [d, t], e, f, g],
      window.tail ++ [h.nextWord window])
  | state, _ => state

/-- Bytes as one number, the first byte highest. -/
def wordOf (bytes : List UInt8) : Nat :=
  bytes.foldl (fun n b => 256 * n + b.toNat) 0

def bytesOf : Nat → Nat → List UInt8
  | 0, _ => []
  | count + 1, n => bytesOf count (n / 256) ++ [UInt8.ofNat n]

def pieces (size : Nat) : Nat → List UInt8 → List (List UInt8)
  | 0, _ => []
  | count + 1, bytes => bytes.take size :: pieces size count (bytes.drop size)

def block (state : List Nat) (bytes : List UInt8) : List Nat :=
  let window := (pieces (h.bits / 8) 16 bytes).map wordOf
  let (after, _) := h.rounds.foldl h.round (state, window)
  List.zipWith (fun x y => h.sum [x, y]) state after

/-- A message in whole blocks: a one, zeros, and the number of its bits. -/
def padded (message : List UInt8) : List UInt8 :=
  let tail := h.bits / 4
  let used := message.length + 1 + tail
  let zeros := (h.blockBytes - used % h.blockBytes) % h.blockBytes
  message ++ 0x80 :: List.replicate zeros 0 ++ bytesOf tail (8 * message.length)

def digest (message : List UInt8) : List UInt8 :=
  let bytes := h.padded message
  let state := (pieces h.blockBytes (bytes.length / h.blockBytes) bytes).foldl h.block h.initial
  (state.flatMap (bytesOf (h.bits / 8))).take h.outputBytes

/-! ## Keyed digests -/

/-- A key as one block: a long one is replaced by its digest. -/
def keyBlock (key : List UInt8) : List UInt8 :=
  let short := if h.blockBytes < key.length then h.digest key else key
  short ++ List.replicate (h.blockBytes - short.length) 0

def authenticate (key message : List UInt8) : List UInt8 :=
  let block := h.keyBlock key
  let inner := h.digest (block.map (· ^^^ 0x36) ++ message)
  h.digest (block.map (· ^^^ 0x5c) ++ inner)

end Sha2

end NotificationQueue.Digest
