/-!
The vocabularies a draw can choose from besides the operators. A kind of expression is what one
step of generation decides; parentheses are no kind, since they are added and never chosen.
-/
namespace CExpr

inductive ExprKind
  | integerConstant | doubleConstant | variableExpr | binaryExpr | unaryExpr
  deriving DecidableEq

inductive TypeKind
  | scalarType | taggedType | pointerType
  deriving DecidableEq

structure Qualifiers where
  const : Bool
  volatile : Bool
  deriving DecidableEq

namespace ExprKind

def all : List ExprKind :=
  [integerConstant, doubleConstant, variableExpr, binaryExpr, unaryExpr]

def name : ExprKind → String
  | integerConstant => "INTEGER_CONSTANT" | doubleConstant => "DOUBLE_CONSTANT"
  | variableExpr => "VARIABLE_EXPR" | binaryExpr => "BINARY_EXPR" | unaryExpr => "UNARY_EXPR"

def index : ExprKind → Fin 5
  | integerConstant => 0 | doubleConstant => 1 | variableExpr => 2 | binaryExpr => 3
  | unaryExpr => 4

def isRecursive : ExprKind → Bool
  | binaryExpr | unaryExpr => true
  | _ => false

theorem mem_all (kind : ExprKind) : kind ∈ all := by cases kind <;> decide

theorem all_getElem?_index (kind : ExprKind) : all[kind.index.val]? = some kind := by
  cases kind <;> rfl

end ExprKind

namespace TypeKind

def all : List TypeKind := [scalarType, taggedType, pointerType]

def name : TypeKind → String
  | scalarType => "SCALAR_TYPE" | taggedType => "TAGGED_TYPE" | pointerType => "POINTER_TYPE"

def index : TypeKind → Fin 3
  | scalarType => 0 | taggedType => 1 | pointerType => 2

theorem mem_all (kind : TypeKind) : kind ∈ all := by cases kind <;> decide

theorem all_getElem?_index (kind : TypeKind) : all[kind.index.val]? = some kind := by
  cases kind <;> rfl

end TypeKind

def Qualifiers.flags (qualifiers : Qualifiers) : Nat :=
  (if qualifiers.const then 1 else 0) + (if qualifiers.volatile then 2 else 0)

end CExpr
