import CExpr.Kind
import CExpr.Operator

/-!
The vocabularies that masks range over: those of the operators, kinds and qualifiers, and any other
list of names. A member is a vocabulary together with a number; the numbers count up from zero, but
for the qualifiers, which are flags, and whose zero has a name but takes no place of its own in the
width of a mask.
-/
namespace CExpr

inductive Vocabulary
  | binOp | unOp | exprKind | typeKind | qualifiers
  /-- A vocabulary of any size, given by its name and the names of its members. -/
  | listed (title : String) (titles : List String)
  deriving DecidableEq

namespace Vocabulary

def all : List Vocabulary := [binOp, unOp, exprKind, typeKind, qualifiers]

def name : Vocabulary → String
  | binOp => "BinOp" | unOp => "UnOp" | exprKind => "ExprKind" | typeKind => "TypeKind"
  | qualifiers => "CvQualifiers"
  | listed title _ => title

def memberNames : Vocabulary → List String
  | binOp => BinOp.all.map BinOp.name
  | unOp => UnOp.all.map UnOp.name
  | exprKind => ExprKind.all.map ExprKind.name
  | typeKind => TypeKind.all.map TypeKind.name
  | qualifiers => ["NONE", "CONST", "VOLATILE"]
  | listed _ titles => titles

def width : Vocabulary → Nat
  | binOp => 18 | unOp => 4 | exprKind => 5 | typeKind => 3 | qualifiers => 2
  | listed _ titles => titles.length

def proper : Vocabulary → List (String × Nat)
  | qualifiers => [("CONST", 1), ("VOLATILE", 2)]
  | vocabulary => vocabulary.memberNames.zipIdx

def value? (vocabulary : Vocabulary) (name : String) : Option Nat :=
  vocabulary.memberNames.findIdx? (· = name)

def memberName (vocabulary : Vocabulary) (value : Nat) : String :=
  vocabulary.memberNames[value]?.getD ""

def ofToken? : Vocabulary → List Char → Option Nat
  | binOp, text => BinOp.all.findIdx? (fun op => op.token == text)
  | unOp, text => UnOp.all.findIdx? (fun op => op.token == text)
  | _, _ => none

end Vocabulary

structure Member where
  vocabulary : Vocabulary
  value : Nat
  deriving DecidableEq

namespace Member

def ofBinOp (op : BinOp) : Member := ⟨.binOp, BinOp.all.idxOf op⟩
def ofUnOp (op : UnOp) : Member := ⟨.unOp, UnOp.all.idxOf op⟩
def ofExprKind (kind : ExprKind) : Member := ⟨.exprKind, kind.index⟩

def name (member : Member) : String := member.vocabulary.memberName member.value

end Member
end CExpr
