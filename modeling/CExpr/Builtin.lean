/-!
Powers, and the zero that sums start from, are those of the language itself. A library may give the
numbers further instances of the same functions; with instances of its own the program means the
same terms whatever is imported beside it.
-/
namespace CExpr

@[default_instance 20000]
instance naturalPower : Pow Nat Nat := ⟨Nat.pow⟩

@[default_instance 15000]
instance integerPower : Pow Int Nat := ⟨Int.pow⟩

instance naturalZero : Zero Nat := ⟨0⟩

end CExpr
