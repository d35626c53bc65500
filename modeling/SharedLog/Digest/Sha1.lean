/-
# The SHA-1 digest

The message is padded to whole blocks of sixteen big-endian words, and each block is folded into
a state of five words by eighty rounds. Ids of named streams are cut from this digest.
-/
namespace SharedLog.Digest

/-- Big-endian bytes of a word. -/
def bytesOfWord (w : UInt32) : List UInt8 :=
  [(w >>> 24).toUInt8, (w >>> 16).toUInt8, (w >>> 8).toUInt8, w.toUInt8]

/-- A byte string read as big-endian words; a last group of fewer than four bytes is dropped. -/
def wordsOfBytes : List UInt8 → List UInt32
  | a :: b :: c :: d :: rest =>
    (a.toUInt32 <<< 24 ||| b.toUInt32 <<< 16 ||| c.toUInt32 <<< 8 ||| d.toUInt32) ::
      wordsOfBytes rest
  | _ => []

namespace Sha1

/-- A word rotated to the left. -/
def rotate (w : UInt32) (n : UInt32) : UInt32 := (w <<< n) ||| (w >>> (32 - n))

/-- The five words that a digest is computed in. -/
structure State where
  a : UInt32
  b : UInt32
  c : UInt32
  d : UInt32
  e : UInt32

/-- The state before the first block. -/
def initial : State := ⟨0x67452301, 0xEFCDAB89, 0x98BADCFE, 0x10325476, 0xC3D2E1F0⟩

/-- The message followed by a one bit, zero bits up to eight bytes short of a whole block, and the
message's length in bits. -/
def pad (message : List UInt8) : List UInt8 :=
  let length := message.length
  let zeros := (64 - (length + 9) % 64) % 64
  let bits := UInt64.ofNat (8 * length)
  [message, [0x80], List.replicate zeros 0,
    bytesOfWord (bits >>> 32).toUInt32, bytesOfWord bits.toUInt32].flatten

/-- The words of the schedule, newest first, with one more word in front. -/
def extend (schedule : List UInt32) : List UInt32 :=
  rotate (schedule.getD 2 0 ^^^ schedule.getD 7 0 ^^^ schedule.getD 13 0 ^^^ schedule.getD 15 0) 1
    :: schedule

/-- The eighty words of a block's schedule in order. -/
def schedule (block : List UInt32) : List UInt32 := (Nat.repeat extend 64 block.reverse).reverse

/-- The mixing function and the constant of round `t`. -/
def mix (t : Nat) (s : State) : UInt32 :=
  if t < 20 then ((s.b &&& s.c) ||| (~~~s.b &&& s.d)) + 0x5A827999
  else if t < 40 then (s.b ^^^ s.c ^^^ s.d) + 0x6ED9EBA1
  else if t < 60 then ((s.b &&& s.c) ||| (s.b &&& s.d) ||| (s.c &&& s.d)) + 0x8F1BBCDC
  else (s.b ^^^ s.c ^^^ s.d) + 0xCA62C1D6

/-- Round `t` with its schedule word. -/
def round (s : State) (word : UInt32 × Nat) : State :=
  ⟨rotate s.a 5 + mix word.2 s + s.e + word.1, s.a, rotate s.b 30, s.c, s.d⟩

/-- One block folded into the state. -/
def compress (s : State) (block : List UInt32) : State :=
  let t := (schedule block).zipIdx.foldl round s
  ⟨s.a + t.a, s.b + t.b, s.c + t.c, s.d + t.d, s.e + t.e⟩

/-- The blocks of sixteen words that a padded message consists of. -/
def blocks (message : List UInt8) : List (List UInt32) :=
  let words := wordsOfBytes (pad message)
  (List.range (words.length / 16)).map fun i => (words.drop (16 * i)).take 16

end Sha1

/-- The twenty bytes of a message's SHA-1 digest. -/
def sha1 (message : List UInt8) : List UInt8 :=
  let s := (Sha1.blocks message).foldl Sha1.compress Sha1.initial
  [s.a, s.b, s.c, s.d, s.e].flatMap bytesOfWord

end SharedLog.Digest
