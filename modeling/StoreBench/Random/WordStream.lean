/-! Pseudorandom words: ChaCha with twelve rounds in counter mode. A stream is a value; reading
from it gives a word and the stream that follows. Two streams of one seed agree forever. -/
namespace StoreBench

/-- The four by four words that the cipher permutes. -/
abbrev CipherState := Vector UInt32 16

namespace CipherState

def rotateLeft (x : UInt32) (n : UInt32) : UInt32 := (x <<< n) ||| (x >>> (32 - n))

def quarterRound (s : CipherState) (a b c d : Fin 16) : CipherState :=
  let xa := s[a] + s[b]
  let xd := rotateLeft (s[d] ^^^ xa) 16
  let xc := s[c] + xd
  let xb := rotateLeft (s[b] ^^^ xc) 12
  let ya := xa + xb
  let yd := rotateLeft (xd ^^^ ya) 8
  let yc := xc + yd
  let yb := rotateLeft (xb ^^^ yc) 7
  (((s.set a ya).set b yb).set c yc).set d yd

/-- The columns, then the diagonals. -/
def doubleRound (s : CipherState) : CipherState :=
  let s := quarterRound s 0 4 8 12
  let s := quarterRound s 1 5 9 13
  let s := quarterRound s 2 6 10 14
  let s := quarterRound s 3 7 11 15
  let s := quarterRound s 0 5 10 15
  let s := quarterRound s 1 6 11 12
  let s := quarterRound s 2 7 8 13
  quarterRound s 3 4 9 14

/-- The words of the constant "expand 32-byte k", the key, the counter and a zero nonce. -/
def initial (key : Vector UInt32 8) (counter : UInt64) : CipherState :=
  #v[0x61707865, 0x3320646e, 0x79622d32, 0x6b206574,
    key[0], key[1], key[2], key[3], key[4], key[5], key[6], key[7],
    counter.toUInt32, (counter >>> 32).toUInt32, 0, 0]

/-- One block of the key stream: six double rounds, added to the state they started from. -/
def block (key : Vector UInt32 8) (counter : UInt64) : CipherState :=
  let start := initial key counter
  let mixed := Nat.repeat doubleRound 6 start
  mixed.zipWith (· + ·) start

end CipherState

/-- The words still pending come first, then the blocks from `counter` on. -/
structure WordStream where
  key : Vector UInt32 8
  counter : UInt64
  pending : List UInt32
deriving DecidableEq, Repr

namespace WordStream

/-- One step of the generator that stretches a seed. -/
def stretch (state : UInt64) : UInt64 := state * 6364136223846793005 + 11634580027462260723

/-- The key word of one stretched state: a shifted mix, rotated right by its highest bits. -/
def keyWord (state : UInt64) : UInt32 :=
  let mixed := (((state >>> 18) ^^^ state) >>> 27).toUInt32
  let turn := (state >>> 59).toUInt32
  (mixed >>> turn) ||| (mixed <<< ((32 - turn) % 32))

/-- The stream of a 64-bit seed. The key words are those of the next eight stretched states. -/
def ofSeed (seed : UInt64) : WordStream :=
  let s1 := stretch seed
  let s2 := stretch s1
  let s3 := stretch s2
  let s4 := stretch s3
  let s5 := stretch s4
  let s6 := stretch s5
  let s7 := stretch s6
  let s8 := stretch s7
  { key := #v[keyWord s1, keyWord s2, keyWord s3, keyWord s4,
      keyWord s5, keyWord s6, keyWord s7, keyWord s8]
    counter := 0
    pending := [] }

def next32 (stream : WordStream) : UInt32 × WordStream :=
  match stream.pending with
  | word :: rest => (word, { stream with pending := rest })
  | [] =>
    let words := CipherState.block stream.key stream.counter
    (words[0], { stream with counter := stream.counter + 1, pending := words.toList.drop 1 })

/-- Two words, the low half first. -/
def next64 (stream : WordStream) : UInt64 × WordStream :=
  let (low, stream) := stream.next32
  let (high, stream) := stream.next32
  (high.toUInt64 <<< 32 ||| low.toUInt64, stream)

end WordStream

end StoreBench
