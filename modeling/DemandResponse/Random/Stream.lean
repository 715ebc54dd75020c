/-!
# Random streams

A seed determines a key, and a key an endless stream of words, which come in blocks of sixteen.
A block is the stream cipher's block function of twelve rounds at a running counter. Words are
used up in order; a draw of 64 bits takes two of them, the low half first.
-/

namespace DemandResponse.Random

def rotateLeft (x r : UInt32) : UInt32 := (x <<< r) ||| (x >>> (32 - r))

def rotateRight (x r : UInt32) : UInt32 := (x >>> r) ||| (x <<< (32 - r))

/-- The sixteen words of a block, row after row. -/
abbrev Block := Vector UInt32 16

def quarter (a b c d : UInt32) : UInt32 × UInt32 × UInt32 × UInt32 :=
  let a := a + b
  let d := rotateLeft (d ^^^ a) 16
  let c := c + d
  let b := rotateLeft (b ^^^ c) 12
  let a := a + b
  let d := rotateLeft (d ^^^ a) 8
  let c := c + d
  let b := rotateLeft (b ^^^ c) 7
  (a, b, c, d)

/-- Mix the words at four positions of a block. -/
def quarterAt (i j k l : Fin 16) (s : Block) : Block :=
  let (a, b, c, d) := quarter s[i] s[j] s[k] s[l]
  (((s.set i a).set j b).set k c).set l d

def doubleRound (s : Block) : Block :=
  let columns := quarterAt 3 7 11 15 (quarterAt 2 6 10 14 (quarterAt 1 5 9 13
    (quarterAt 0 4 8 12 s)))
  quarterAt 3 4 9 14 (quarterAt 2 7 8 13 (quarterAt 1 6 11 12 (quarterAt 0 5 10 15 columns)))

def doubleRounds : Nat := 6

/-- A key of eight words. -/
abbrev Key := Vector UInt32 8

def constants : Vector UInt32 4 := #v[0x61707865, 0x3320646e, 0x79622d32, 0x6b206574]

/-- The block before mixing: the constants, the key, and the counter. -/
def initial (key : Key) (counter : UInt64) : Block :=
  constants ++ key ++ #v[counter.toUInt32, (counter >>> 32).toUInt32, 0, 0]

def block (key : Key) (counter : UInt64) : Block :=
  let start := initial key counter
  let mixed := (List.range doubleRounds).foldl (fun s _ => doubleRound s) start
  mixed.zipWith (· + ·) start

/-- One step of the generator that expands a seed. -/
def expandStep (state : UInt64) : UInt64 := state * 6364136223846793005 + 11634580027462260723

/-- The word that a state of the expanding generator gives. -/
def expandWord (state : UInt64) : UInt32 :=
  rotateRight (((state >>> 18) ^^^ state) >>> 27).toUInt32 (state >>> 59).toUInt32

/-- The state of the expanding generator after some steps. -/
def expandState (seed : UInt64) : (steps : Nat) → UInt64
  | 0 => seed
  | n + 1 => expandStep (expandState seed n)

def keyOf (seed : UInt64) : Key := Vector.ofFn fun i => expandWord (expandState seed (i + 1))

/-- A stream: its key, the counter of the next block, and the words left of the present one. -/
structure Stream where
  key : Key
  counter : UInt64
  ready : List UInt32

namespace Stream

def ofKey (key : Key) : Stream := ⟨key, 0, []⟩

def ofSeed (seed : UInt64) : Stream := .ofKey (keyOf seed)

instance : Inhabited Stream := ⟨.ofKey default⟩

def next (s : Stream) : UInt32 × Stream :=
  match s.ready with
  | word :: rest => (word, { s with ready := rest })
  | [] =>
    let fresh := block s.key s.counter
    (fresh[0], ⟨s.key, s.counter + 1, fresh.toList.tail⟩)

def draw32 (s : Stream) : UInt32 × Stream := s.next

def draw64 (s : Stream) : UInt64 × Stream :=
  let (low, s) := s.next
  let (high, s) := s.next
  (low.toUInt64 + high.toUInt64 <<< 32, s)

end Stream

end DemandResponse.Random
