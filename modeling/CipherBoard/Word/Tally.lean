/-
CipherBoard.Word.Tally — two ways to sum a word up: how often it holds each byte, and its hash.

Two words that are rearrangements of each other have the same tallies; `isAnagramOf` compares
lengths and all 256 tallies. The hash depends on the order as well.
-/
import CipherBoard.Word

namespace CipherBoard.Word

/-- Every byte once. -/
def allBytes : List UInt8 :=
  (List.range 256).map UInt8.ofNat

/-- Whether two words hold every byte equally often. -/
def isAnagramOf (w v : Word) : Bool :=
  w.length == v.length && allBytes.all fun b => w.count b == v.count b

/-- The hash of the empty word. -/
def hashBasis : UInt64 := 0xcbf29ce484222325

/-- What the hash is multiplied by after each letter. It is odd, so that multiplying by it keeps
parity. -/
def hashPrime : UInt64 := 0x100000001b3

/-- The 64-bit FNV-1a hash. -/
def hash (w : Word) : UInt64 :=
  w.foldl (fun h b => (h ^^^ b.toUInt64) * hashPrime) hashBasis

end CipherBoard.Word
