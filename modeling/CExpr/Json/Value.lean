import CExpr.Double.Shortest
import CExpr.Text.Quoted

/-!
JSON values. Integers of any size are kept apart from doubles, texts are code points because an
escape may name a lone surrogate, and an object keeps its entries in the order of the document, each
key once.
-/
namespace CExpr.Json
open Text

inductive Value
  | null
  | truth (value : Bool)
  | integer (value : Int)
  | number (value : Double)
  | text (codePoints : List Nat)
  | list (items : List Value)
  | object (entries : List (List Nat × Value))

/-- An entry in an object: a key that is there already keeps its place and takes the new value. -/
def put (key : List Nat) (value : α) : List (List Nat × α) → List (List Nat × α)
  | [] => [(key, value)]
  | entry :: rest => if entry.1 = key then (key, value) :: rest else entry :: put key value rest

mutual

def Value.description : Value → String
  | .null => "None"
  | .truth true => "True"
  | .truth false => "False"
  | .integer value => String.ofList (integerChars value)
  | .number value => value.text
  | .text codePoints => quotedCodePoints codePoints
  | .list items => bracketed (itemDescriptions items)
  | .object entries => "\x7b" ++ ", ".intercalate (entryDescriptions entries) ++ "\x7d"

def itemDescriptions : List Value → List String
  | [] => []
  | item :: rest => item.description :: itemDescriptions rest

def entryDescriptions : List (List Nat × Value) → List String
  | [] => []
  | (key, value) :: rest =>
    (quotedCodePoints key ++ ": " ++ value.description) :: entryDescriptions rest

end

def Value.typeName : Value → String
  | .null => "NoneType" | .truth _ => "bool" | .integer _ => "int" | .number _ => "float"
  | .text _ => "str" | .list _ => "list" | .object _ => "dict"

def plainText (codePoints : List Nat) : String := String.ofList (codePoints.map fun codePoint =>
  if 0xd800 ≤ codePoint && codePoint < 0xe000 then '\ufffd' else Char.ofNat codePoint)

end CExpr.Json
