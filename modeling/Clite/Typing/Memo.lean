import Clite.Typing.TypeMap

/-!
# Typing with a memo

Going through a tree, a checker asks for the type of the same expression time and again: at the statement that it
stands in, and at each operator around it.  So what was found is noted down in a memo and not found anew.  An entry
goes by the address of its expression, not by its look, since equal expressions may stand in several places.  The
address of a node is its number among the nodes in pre-order.
-/

namespace Clite

/-- The number of nodes in an expression. -/
def Expr.size : Expr → Nat
  | var _ | literal _ => 1
  | binary _ left right => left.size + right.size + 1
  | unary _ operand => operand.size + 1

/-- The checked types that were found, each at the address of its expression; `some none` is noted for an expression
that has no type. -/
structure Memo where
  entries : Array (Option (Option Ty))

namespace Memo

def empty : Memo := ⟨#[]⟩

def find? (memo : Memo) (address : Nat) : Option (Option Ty) := memo.entries.getD address none

def insert (memo : Memo) (address : Nat) (type : Option Ty) : Memo :=
  let room := memo.entries ++ Array.replicate (address + 1 - memo.entries.size) none
  ⟨room.setIfInBounds address (some type)⟩

@[simp] theorem find?_empty (address : Nat) : empty.find? address = none := rfl

theorem find?_insert (memo : Memo) (address address' : Nat) (type : Option Ty) :
    (memo.insert address type).find? address' = if address' = address then some type else memo.find? address' := by
  simp only [find?, insert, Array.getD_eq_getD_getElem?, Array.getElem?_setIfInBounds, Array.getElem?_append,
    Array.getElem?_replicate, Array.size_append, Array.size_replicate]
  by_cases h : address' = address
  · rw [if_pos h.symm, if_pos h, if_pos (by omega)]
    rfl
  · rw [if_neg (Ne.symm h), if_neg h]
    split
    · rfl
    · rw [Array.getElem?_eq_none (by omega)]
      split <;> rfl

end Memo

/-- The checked type of the expression at an address.  If it is not in the memo, those of the operands are asked
for, and it is noted down. -/
def TypeMap.known (m : TypeMap) (address : Nat) (e : Expr) (memo : Memo) : Option Ty × Memo :=
  match memo.find? address with
  | some type => (type, memo)
  | none =>
    let (type, memo) :=
      match e with
      | .var name => (m.find? name, memo)
      | .literal v => (some v.type, memo)
      | .binary op left right =>
        let (l, memo) := m.known (address + 1) left memo
        let (r, memo) := m.known (address + 1 + left.size) right memo
        (op.checked l r, memo)
      | .unary op operand =>
        let (t, memo) := m.known (address + 1) operand memo
        (op.checked t, memo)
    (type, memo.insert address type)

end Clite
