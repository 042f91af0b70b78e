import Clite.Proofs.Tree.Parts
import Clite.Proofs.Typing.Declarations
import Clite.Proofs.Typing.WellTyped

/-!
# Lenient types

`typeOf` looks below an operator only where the type of the result hangs on those of the operands
(`Node.HangsOnParts`), so it does not know the type of an expression just when a way down through such operators alone
ends at a variable that is not declared (`TypeMap.LeadsToUndeclared`).  `checkedType` looks everywhere and knows fewer
types, but where both know one it is the same.
-/

namespace Clite

/-- The type of the node hangs on the types of its parts. -/
inductive Node.HangsOnParts : Node → Prop
  | arithmetic {op : BinaryOp} {left right : Expr} :
    op ∈ [.add, .sub, .mul, .div] → HangsOnParts (.expr (.binary op left right))
  | negation {operand : Expr} : HangsOnParts (.expr (.unary .negate operand))

namespace TypeMap

variable {m : TypeMap}

/-- A way leads from the node down to a variable that is not declared, past arithmetic operators and negations
alone. -/
def LeadsToUndeclared (m : TypeMap) (n : Node) : Prop :=
  ∃ way name, n.Path (way ++ [.expr (.var name)]) ∧ (∀ above ∈ way, above.HangsOnParts) ∧ name ∉ m.names

/-- Such a way is at its end, or it goes on into one of the parts. -/
theorem leadsToUndeclared_iff {n : Node} :
    m.LeadsToUndeclared n ↔ (∃ name, n = .expr (.var name) ∧ name ∉ m.names) ∨
      n.HangsOnParts ∧ ∃ part ∈ n.parts, m.LeadsToUndeclared part := by
  constructor
  · rintro ⟨way, name, hpath, hway, hname⟩
    cases way with
    | nil =>
      cases hpath with
      | stop => exact .inl ⟨name, rfl, hname⟩
      | down _ hbelow => cases hbelow
    | cons above way =>
      rw [List.cons_append] at hpath
      generalize hend : way ++ [.expr (.var name)] = below at hpath
      cases hpath with
      | stop => simp at hend
      | down hpart hbelow =>
        subst hend
        rw [List.forall_mem_cons] at hway
        exact .inr ⟨hway.1, _, hpart, way, name, hbelow, hway.2, hname⟩
  · rintro (⟨name, rfl, hname⟩ | ⟨hn, part, hpart, way, name, hpath, hway, hname⟩)
    · exact ⟨[], name, .stop _, by simp, hname⟩
    · exact ⟨n :: way, name, .down hpart hpath, List.forall_mem_cons.2 ⟨hn, hway⟩, hname⟩

/-! ### Types that are unknown -/

theorem typeOf_binary_eq_none_iff {op : BinaryOp} {left right : Expr} :
    m.typeOf (.binary op left right) = none ↔
      op ∈ [.add, .sub, .mul, .div] ∧ (m.typeOf left = none ∨ m.typeOf right = none) := by
  rw [← op.opClass_iff.1, typeOf]
  cases op.opClass with
  | arithmetic => cases m.typeOf left <;> cases m.typeOf right <;> simp
  | relational | equality | boolean => simp

theorem typeOf_unary_eq_none_iff {op : UnaryOp} {operand : Expr} :
    m.typeOf (.unary op operand) = none ↔ op = .negate ∧ m.typeOf operand = none := by
  cases op <;> simp [typeOf]

/-- The type is unknown just when it hangs on a variable that is not declared. -/
theorem typeOf_eq_none_iff {e : Expr} : m.typeOf e = none ↔ m.LeadsToUndeclared (.expr e) := by
  induction e with
  | var name =>
    rw [typeOf, find?_eq_none_iff, leadsToUndeclared_iff]
    constructor
    · exact fun h => .inl ⟨name, rfl, h⟩
    · rintro (⟨_, ⟨⟩, h⟩ | ⟨⟨⟩, -⟩)
      exact h
  | literal v =>
    rw [leadsToUndeclared_iff]
    constructor
    · rintro ⟨⟩
    · rintro (⟨_, ⟨⟩, -⟩ | ⟨⟨⟩, -⟩)
  | binary op left right ihl ihr =>
    rw [typeOf_binary_eq_none_iff, leadsToUndeclared_iff, ihl, ihr]
    constructor
    · rintro ⟨hop, hleft | hright⟩
      · exact .inr ⟨.arithmetic hop, _, by simp [Node.parts], hleft⟩
      · exact .inr ⟨.arithmetic hop, _, by simp [Node.parts], hright⟩
    · rintro (⟨_, ⟨⟩, -⟩ | ⟨⟨hop⟩, part, hpart, hleads⟩)
      simp only [Node.parts, List.mem_cons, List.not_mem_nil, or_false] at hpart
      rcases hpart with rfl | rfl
      · exact ⟨hop, .inl hleads⟩
      · exact ⟨hop, .inr hleads⟩
  | unary op operand ih =>
    rw [typeOf_unary_eq_none_iff, leadsToUndeclared_iff, ih]
    constructor
    · rintro ⟨rfl, hleads⟩
      exact .inr ⟨.negation, _, by simp [Node.parts], hleads⟩
    · rintro (⟨_, ⟨⟩, -⟩ | ⟨⟨⟩, part, hpart, hleads⟩)
      obtain rfl : part = .expr operand := by simpa [Node.parts] using hpart
      exact ⟨rfl, hleads⟩

/-! ### Types that are known -/

/-- Over operands whose types are known the result has the type that the operator gives, looked at or not. -/
theorem typeOf_binary {op : BinaryOp} {left right : Expr} {l r : Ty} (hl : m.typeOf left = some l)
    (hr : m.typeOf right = some r) : m.typeOf (.binary op left right) = some (op.result l r) := by
  rw [typeOf, BinaryOp.result, hl, hr]
  cases hclass : op.opClass with
  | arithmetic => simp [BinaryOp.result, hclass]
  | relational | equality | boolean => rfl

theorem typeOf_unary {op : UnaryOp} {operand : Expr} {t : Ty} (h : m.typeOf operand = some t) :
    m.typeOf (.unary op operand) = some (op.result t) := by
  cases op with
  | not => rfl
  | negate => exact h
  | convert target => rfl

theorem typeOf_of_checkedType {e : Expr} {t : Ty} (h : m.checkedType e = some t) : m.typeOf e = some t := by
  rw [checkedType_eq_some_iff] at h
  induction e generalizing t with
  | var name => exact checkedType_eq_some_iff.2 h
  | literal v => exact checkedType_eq_some_iff.2 h
  | binary op left right ihl ihr =>
    obtain ⟨l, r, hl, hr, -, rfl⟩ := hasType_binary_iff.1 h
    exact typeOf_binary (ihl hl) (ihr hr)
  | unary op operand ih =>
    obtain ⟨u, hu, -, rfl⟩ := hasType_unary_iff.1 h
    exact typeOf_unary (ih hu)

/-- A type that is found by looking everywhere is also found by looking no further than need be, which fails at a way
to an undeclared variable through arithmetic and negations alone.  So the two never find different types. -/
theorem typeOf_agrees (m : TypeMap) (e : Expr) :
    (∀ t, m.checkedType e = some t → m.typeOf e = some t) ∧
    (m.typeOf e = none ↔ ∃ way name, (Node.expr e).Path (way ++ [.expr (.var name)]) ∧
      (∀ above ∈ way, above.HangsOnParts) ∧ name ∉ m.names) ∧
    ∀ t u, m.checkedType e = some t → m.typeOf e = some u → t = u := by
  refine ⟨fun t => typeOf_of_checkedType, typeOf_eq_none_iff, fun t u ht hu => ?_⟩
  rw [typeOf_of_checkedType ht] at hu
  exact Option.some.inj hu

/-- The undeclared `x` hides the type of a sum but not of a comparison. -/
theorem typeOf_agrees_undeclared :
    let m : TypeMap := ⟨[("i", .int), ("f", .float)]⟩
    let product : Expr := .binary .mul (.unary .negate (.var "i")) (.var "f")
    (m.checkedType product = some .float ∧ m.typeOf product = some .float) ∧
    m.typeOf (.unary .negate (.binary .add product (.var "x"))) = none ∧
    m.typeOf (.binary .less product (.var "x")) = some .bool := by
  intro m product
  have hchecked : m.checkedType product = some .float := by decide
  refine ⟨⟨hchecked, (typeOf_agrees m product).1 _ hchecked⟩, ?_, rfl⟩
  refine (typeOf_agrees m _).2.1.2 ⟨[.expr (.unary .negate (.binary .add product (.var "x"))),
    .expr (.binary .add product (.var "x"))], "x", ?_, ?_, by decide⟩
  · exact .down (by simp [Node.parts]) (.down (by simp [Node.parts]) (.stop _))
  · simp only [List.forall_mem_cons]
    exact ⟨.negation, .arithmetic (by decide), by simp⟩

end TypeMap

end Clite
