import CExpr.Double.Shortest
import CExpr.Expr.Basic
import CExpr.Text.Quoted

/-!
The meaning of integer expressions: words of 64 bits with unsigned arithmetic. Division, remainder
and right shift are unsigned, comparisons and logical operators give zero or one and evaluate both
of their operands, division by zero gives the largest word, the remainder by zero is the dividend,
and a shift by 64 or more gives zero.

The reference value of an expression is the word it evaluates to when its variables are bound to
integers. A double anywhere is reported before an unbound variable, and every unbound variable is
reported whether or not the value depends on it.
-/
namespace CExpr

abbrev Word := BitVec 64

namespace Word

def ofBool (b : Bool) : Word := if b then 1 else 0

def shiftLeft (a b : Word) : Word := if b.toNat < 64 then a <<< b.toNat else 0

def shiftRight (a b : Word) : Word := if b.toNat < 64 then a >>> b.toNat else 0

def divide (a b : Word) : Word := if b = 0 then BitVec.allOnes 64 else a / b

def remainder (a b : Word) : Word := if b = 0 then a else a % b

end Word

def UnOp.apply : UnOp → Word → Word
  | plus, a => a
  | neg, a => -a
  | logicalNot, a => Word.ofBool (a == 0)
  | bitNot, a => ~~~a

def BinOp.apply : BinOp → Word → Word → Word
  | plus, a, b => a + b
  | minus, a, b => a - b
  | mult, a, b => a * b
  | div, a, b => a.divide b
  | mod, a, b => a.remainder b
  | logicalAnd, a, b => Word.ofBool (a != 0 && b != 0)
  | logicalOr, a, b => Word.ofBool (a != 0 || b != 0)
  | bitAnd, a, b => a &&& b
  | bitOr, a, b => a ||| b
  | bitXor, a, b => a ^^^ b
  | shl, a, b => a.shiftLeft b
  | shr, a, b => a.shiftRight b
  | eq, a, b => Word.ofBool (a == b)
  | ne, a, b => Word.ofBool (a != b)
  | lt, a, b => Word.ofBool (a.ult b)
  | le, a, b => Word.ofBool (a.ule b)
  | gt, a, b => Word.ofBool (b.ult a)
  | ge, a, b => Word.ofBool (b.ule a)

/-- An expression over words: no doubles, no parentheses, and constants reduced to a word. -/
inductive Term
  | word (value : Word)
  | symbol (name : String)
  | unary (op : UnOp) (operand : Term)
  | binary (op : BinOp) (lhs rhs : Term)
  deriving DecidableEq, Ord

def Term.isTruth : Term → Bool
  | unary .logicalNot _ => true
  | binary op _ _ =>
    match op with
    | .logicalAnd | .logicalOr | .eq | .ne | .lt | .le | .gt | .ge => true
    | _ => false
  | _ => false

def Term.eval (env : String → Word) : Term → Word
  | word value => value
  | symbol name => env name
  | unary op operand => op.apply (operand.eval env)
  | binary op lhs rhs => op.apply (lhs.eval env) (rhs.eval env)

abbrev SymbolTable := List String

def SymbolTable.add (symbols : SymbolTable) (name : String) : SymbolTable :=
  if symbols.contains name then symbols else symbols ++ [name]

structure NoWord where
  value : Double
  deriving DecidableEq

def NoWord.message (e : NoWord) : String :=
  s!"double constant {e.value.text} has no bit-vector semantics"

/-- The term that an expression means, and the table with the names added that were met on the way.
The expression is read from left to right, and the first double ends it; names met before stay. -/
def Expr.lower : Expr → SymbolTable → Except NoWord Term × SymbolTable
  | integer value, symbols => (.ok (.word (BitVec.ofInt 64 value)), symbols)
  | double value, symbols => (.error ⟨value⟩, symbols)
  | var name, symbols => (.ok (.symbol name), symbols.add name)
  | parens inner, symbols => inner.lower symbols
  | unary op operand, symbols =>
    let (term, symbols) := operand.lower symbols
    (term.map (.unary op), symbols)
  | binary op lhs rhs, symbols =>
    match lhs.lower symbols with
    | (.error e, symbols) => (.error e, symbols)
    | (.ok left, symbols) =>
      let (right, symbols) := rhs.lower symbols
      (right.map (.binary op left), symbols)

/-- Integers of any size and sign for names; they count modulo 2^64. -/
abbrev Bindings := List (String × Int)

inductive ReferenceError
  | noWord (e : NoWord)
  /-- The unbound names, sorted, each once. -/
  | unbound (names : List String)
  deriving DecidableEq

def Bindings.word (bindings : Bindings) (name : String) : Word :=
  BitVec.ofInt 64 ((bindings.lookup name).getD 0)

def Bindings.unbound (bindings : Bindings) (symbols : SymbolTable) : List String :=
  (symbols.filter fun name => (bindings.lookup name).isNone).mergeSort

def Expr.reference (e : Expr) (bindings : Bindings) : Except ReferenceError Word :=
  match e.lower [] with
  | (.error e, _) => .error (.noWord e)
  | (.ok term, symbols) =>
    match bindings.unbound symbols with
    | [] => .ok (term.eval bindings.word)
    | names => .error (.unbound names)

def ReferenceError.message : ReferenceError → String
  | noWord e => e.message
  | unbound names => s!"unbound variables: {Text.bracketed (names.map Text.quoted)}"

end CExpr
