/-! # A keystream of random words

The draws of the simulated gateways come from the ChaCha cipher with twelve rounds: the words of
its successive blocks, under a key that is stretched from a seed of 64 bits. -/

namespace Paybook.Gateway

/-- The working state of the cipher: sixteen words. -/
abbrev Block := Vector UInt32 16

def rotateLeft (x : UInt32) (n : UInt32) : UInt32 := (x <<< n) ||| (x >>> (32 - n))

def rotateRight (x : UInt32) (n : UInt32) : UInt32 :=
  if n = 0 then x else (x >>> n) ||| (x <<< (32 - n))

/-- The quarter round on the words at four places. -/
def quarterRound (s : Block) (a b c d : Fin 16) : Block :=
  let s := s.set a (s[a] + s[b])
  let s := s.set d (rotateLeft (s[d] ^^^ s[a]) 16)
  let s := s.set c (s[c] + s[d])
  let s := s.set b (rotateLeft (s[b] ^^^ s[c]) 12)
  let s := s.set a (s[a] + s[b])
  let s := s.set d (rotateLeft (s[d] ^^^ s[a]) 8)
  let s := s.set c (s[c] + s[d])
  s.set b (rotateLeft (s[b] ^^^ s[c]) 7)

/-- A round on the columns and a round on the diagonals. -/
def doubleRound (s : Block) : Block :=
  let s := quarterRound s 0 4 8 12
  let s := quarterRound s 1 5 9 13
  let s := quarterRound s 2 6 10 14
  let s := quarterRound s 3 7 11 15
  let s := quarterRound s 0 5 10 15
  let s := quarterRound s 1 6 11 12
  let s := quarterRound s 2 7 8 13
  quarterRound s 3 4 9 14

/-- The state of the stretching generator after one more step. -/
def stretchStep (state : UInt64) : UInt64 := state * 6364136223846793005 + 11634580027462260723

/-- The word that a state of the stretching generator gives. -/
def stretchWord (state : UInt64) : UInt32 :=
  rotateRight (((state >>> 18) ^^^ state) >>> 27).toUInt32 (state >>> 59).toUInt32

/-- The next words of the stretching generator. -/
def stretch : (count : Nat) → UInt64 → List UInt32
  | 0, _ => []
  | n + 1, state =>
    let state := stretchStep state
    stretchWord state :: stretch n state

theorem length_stretch (n : Nat) (state : UInt64) : (stretch n state).length = n := by
  induction n generalizing state with
  | zero => rfl
  | succ n ih => simp [stretch, ih]

/-- The state before the rounds: four constants, the key, the number of the block and two zeros. -/
def initialBlock (seed : Nat) (number : Nat) : Block :=
  let constants : Array UInt32 := #[0x61707865, 0x3320646e, 0x79622d32, 0x6b206574]
  let key := (stretch 8 (UInt64.ofNat seed)).toArray
  let place : Array UInt32 := #[UInt32.ofNat number, UInt32.ofNat (number >>> 32), 0, 0]
  ⟨constants ++ key ++ place, by simp [constants, key, place, length_stretch]⟩

/-- The words of a block: the state after twelve rounds, added to the state before. -/
def block (seed : Nat) (number : Nat) : Block :=
  let start := initialBlock seed number
  let mixed :=
    (doubleRound ∘ doubleRound ∘ doubleRound ∘ doubleRound ∘ doubleRound ∘ doubleRound) start
  Vector.zipWith (· + ·) mixed start

/-- The `n`-th number of 64 bits of the keystream, two words each, the low one first. -/
def draw (seed : Nat) (n : Nat) : Nat :=
  let words := block seed (n / 8)
  let i := 2 * (n % 8)
  words[i].toNat + words[i + 1].toNat <<< 32

end Paybook.Gateway
