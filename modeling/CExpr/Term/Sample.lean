import CExpr.Builtin
import CExpr.Term.Basic

/-!
Samples: values of the variables of a term at which terms that differ tend to do so.
-/
namespace CExpr

namespace Term

def names : Term → List String
  | word _ => []
  | symbol name => [name]
  | unary _ operand => operand.names
  | binary _ lhs rhs => (lhs.names ++ rhs.names).eraseDups

def constants : Term → List Word
  | word value => [value]
  | symbol _ => []
  | unary _ operand => operand.constants
  | binary _ lhs rhs => (lhs.constants ++ rhs.constants).eraseDups

end Term

def notable (constants : List Word) : List Word :=
  let near := constants.flatMap fun c => [c, c - 1, c + 1, -c, ~~~c]
  ([0, 1, 2, 3, 5, 7, 63, 64, 65, 255, 0x5555555555555555, 0x123456789abcdef0, -1, -2, -64] ++
    near ++ (List.range 64).map (BitVec.twoPow 64)).eraseDups

def digits (base number : Nat) : (count : Nat) → List Nat
  | 0 => []
  | count + 1 => number % base :: digits base (number / base) count

def scattered (number : Nat) : Word :=
  let w := BitVec.ofNat 64 number * 0x9e3779b97f4a7c15
  let w := (w ^^^ (w >>> 30)) * 0xbf58476d1ce4e5b9
  let w := (w ^^^ (w >>> 27)) * 0x94d049bb133111eb
  w ^^^ (w >>> 31)

/-- A value for every name, and zero for any other. -/
abbrev Sample := List (String × Word)

namespace Sample

def value (sample : Sample) (name : String) : Word := (sample.lookup name).getD 0

/-- A sample of words from a list, by its number in a walk through all combinations that goes in
long strides. -/
def ofNotable (names : List String) (words : List Word) (number : Nat) : Sample :=
  let place := number * (2 ^ 61 - 1) % words.length ^ names.length
  names.zip ((digits words.length place names.length).map fun digit => words.getD digit 0)

def ofNumber (names : List String) (number : Nat) : Sample :=
  names.zipIdx.map fun (name, index) =>
    let word := scattered (2 * (number * names.length + index))
    let cut := (scattered (2 * (number * names.length + index) + 1)).toNat % 64
    (name, if number % 2 = 0 then word else word >>> cut)

end Sample

end CExpr
