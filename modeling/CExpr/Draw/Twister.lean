import CExpr.Builtin
import CExpr.Double.Rounding
import CExpr.Draw.Uniform

/-!
The Mersenne twister with 19937 bits: a state of 624 words of 32 bits, all renewed when all have
been given out, and an engine on top of it whose numbers have 53 random bits. A seed of any size is
mixed into the state word by word; its sign does not count.
-/
namespace CExpr

structure Twister where
  words : Vector UInt32 624
  /-- How many words have been given out since the last renewal. -/
  used : Nat

namespace Twister

def mix (word : UInt32) : UInt32 := word ^^^ (word >>> 30)

def spread (first : UInt32) : Vector UInt32 624 :=
  Fin.foldl 623 (fun (words : Vector UInt32 624) i =>
      words.set (i.val + 1) (1812433253 * mix words[i.val] + (UInt32.ofNat (i.val + 1))))
    (Vector.replicate 624 first)

/-- The word at a place set, with the last word repeated at the front when the end is reached; and
the next place. -/
def place (words : Vector UInt32 624) (i : Fin 624) (word : UInt32) :
    Vector UInt32 624 × Fin 624 :=
  let words := words.set i word
  if i = 623 then (words.set 0 words[623], 1) else (words, i + 1)

def absorb (key : Array UInt32) (words : Vector UInt32 624) : Vector UInt32 624 × Fin 624 :=
  (List.range (max 624 key.size)).foldl
    (fun (words, i) count =>
      let j := count % key.size
      place words i
        ((words[i] ^^^ (mix words[i - 1] * 1664525)) + key.getD j 0 + UInt32.ofNat j))
    (words, 1)

def stir (start : Vector UInt32 624 × Fin 624) : Vector UInt32 624 :=
  ((List.range 623).foldl
    (fun (words, i) _ =>
      place words i ((words[i] ^^^ (mix words[i - 1] * 1566083941)) - UInt32.ofNat i.val))
    start).1

def keyWords (seed : Nat) : List UInt32 :=
  UInt32.ofNat seed :: if h : seed < 2 ^ 32 then [] else keyWords (seed / 2 ^ 32)
termination_by seed
decreasing_by omega

def ofSeed (seed : Int) : Twister :=
  let words := stir (absorb (keyWords seed.natAbs).toArray (spread 19650218))
  ⟨words.set 0 0x80000000, 624⟩

def renewedWord (word next far : UInt32) : UInt32 :=
  let joined := (word &&& 0x80000000) ||| (next &&& 0x7fffffff)
  far ^^^ (joined >>> 1) ^^^ (if joined &&& 1 = 0 then 0 else 0x9908b0df)

def renew (words : Vector UInt32 624) : Vector UInt32 624 :=
  Fin.foldl 624 (fun words i => words.set i (renewedWord words[i] words[i + 1] words[i + 397])) words

def temper (y : UInt32) : UInt32 :=
  let y := y ^^^ (y >>> 11)
  let y := y ^^^ ((y <<< 7) &&& 0x9d2c5680)
  let y := y ^^^ ((y <<< 15) &&& 0xefc60000)
  y ^^^ (y >>> 18)

def nextWord (twister : Twister) : UInt32 × Twister :=
  if h : twister.used < 624 then
    (temper twister.words[twister.used], ⟨twister.words, twister.used + 1⟩)
  else
    let words := renew twister.words
    (temper words[0], ⟨words, 1⟩)

/-- A number of random bits, filled from the low end in words of 32; the last word gives its upper
bits. -/
def bits (count : Nat) (twister : Twister) : Nat × Twister :=
  let (word, twister) := twister.nextWord
  if count ≤ 32 then (word.toNat >>> (32 - count), twister)
  else
    let (rest, twister) := bits (count - 32) twister
    (word.toNat + rest * 2 ^ 32, twister)
termination_by count

/-- How often a number that is too large is drawn again. Each attempt succeeds with a chance of more
than one half; past the limit, which is never reached in practice, the remainder is taken. -/
def patience : Nat := 4096

def below (bound : Nat) : (attempts : Nat) → Twister → Nat × Twister
  | 0, twister =>
    let (value, twister) := bits (bound.log2 + 1) twister
    (value % bound, twister)
  | attempts + 1, twister =>
    let (value, twister) := bits (bound.log2 + 1) twister
    if value < bound then (value, twister) else below bound attempts twister

def unit (twister : Twister) : Double × Twister :=
  let (high, twister) := twister.nextWord
  let (low, twister) := twister.nextWord
  (.ofRatio false ((high >>> 5).toNat * 2 ^ 26 + (low >>> 6).toNat) (2 ^ 53), twister)

def engine : Engine Twister where
  unit := unit
  integer lo hi twister :=
    let (offset, twister) := below (hi - lo + 1).toNat patience twister
    (lo + offset, twister)
  real lo hi twister :=
    let (unit, twister) := twister.unit
    (lo.add ((hi.sub lo).mul unit), twister)

end Twister
end CExpr
