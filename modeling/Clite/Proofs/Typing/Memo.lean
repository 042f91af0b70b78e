import Clite.Proofs.Tree.Parts
import Clite.Typing.Memo

/-!
# What the memo holds

In pre-order the parts of a node come directly behind it (`Node.preorder_isPrefix`).  So a part is found at the
address that it is asked for at, whatever else stands in the tree.  Every entry of a memo is the checked type of the
expression at its address (`Memo.Agrees`).  With such a memo an expression gets its checked type, whether it or
a part of it is noted down or not, and what is noted down agrees with the tree again (`TypeMap.known_spec`).
-/

namespace Clite

/-! ### Addresses -/

theorem Expr.length_preorder (e : Expr) : e.preorder.length = e.size := by
  induction e with
  | var | literal => rfl
  | binary op left right ihl ihr => rw [preorder, List.length_cons, List.length_append, ihl, ihr, size]
  | unary op operand ih => rw [preorder, List.length_cons, ih, size]

namespace Node

variable {n : Node} {nodes behind : List Node} {address : Nat}

private theorem isPrefix_of_suffix_parts {parts : List Node}
    (ih : ∀ part ∈ parts, ∀ behind, n :: behind <:+ part.preorder → n.preorder <+: n :: behind)
    (h : n :: behind <:+ parts.flatMap preorder) : n.preorder <+: n :: behind := by
  induction parts with
  | nil => exact absurd (List.suffix_nil.1 h) (List.cons_ne_nil n behind)
  | cons part parts ihparts =>
    rw [List.forall_mem_cons] at ih
    rw [List.flatMap_cons] at h
    obtain ⟨before, hbefore⟩ := h
    obtain ⟨between, hpart, hbehind⟩ | ⟨between, -, hparts⟩ := List.append_eq_append_iff.1 hbefore
    · cases between with
      | nil => exact ihparts ih.2 (hbehind ▸ List.suffix_refl _)
      | cons x within =>
        -- the node stands in the first part, so that its own parts do not go beyond it
        obtain ⟨rfl, rfl⟩ := List.cons.inj hbehind
        exact (ih.1 within ⟨before, hpart.symm⟩).trans (List.prefix_append (n :: within) _)
    · exact ihparts ih.2 ⟨between, hparts.symm⟩

/-- Behind a node come its parts. -/
theorem preorder_isPrefix {root : Node} (h : n :: behind <:+ root.preorder) : n.preorder <+: n :: behind := by
  induction root using Node.induction generalizing behind with
  | h root ih =>
    rw [preorder_eq, List.suffix_cons_iff] at h
    rcases h with h | h
    · obtain ⟨rfl, rfl⟩ := List.cons.inj h
      exact preorder_eq n ▸ List.prefix_refl _
    · exact isPrefix_of_suffix_parts (fun part hpart behind => ih part hpart) h

/-- The node is at an address of a list of nodes, and its parts come behind it. -/
def StandsAt (n : Node) (nodes : List Node) (address : Nat) : Prop := n.preorder <+: nodes.drop address

theorem StandsAt.getElem? (h : n.StandsAt nodes address) : nodes[address]? = some n := by
  rw [StandsAt, preorder_eq] at h
  obtain ⟨behind, hbehind⟩ := h
  rw [← List.head?_drop, ← hbehind]
  rfl

/-- A part stands behind the node and the parts before it. -/
theorem StandsAt.below (h : n.StandsAt nodes address) {part : Node} (before after : List Node)
    (hparts : n.parts = before ++ part :: after) :
    part.StandsAt nodes (address + 1 + (before.flatMap preorder).length) := by
  rw [StandsAt, preorder_eq, hparts, List.flatMap_append, List.flatMap_cons, ← List.cons_append] at h
  obtain ⟨behind, hbehind⟩ := h
  have hdrop : nodes.drop (address + (n :: before.flatMap preorder).length) =
      part.preorder ++ (after.flatMap preorder ++ behind) := by
    rw [← List.drop_drop, ← hbehind]
    simp
  rw [StandsAt, Nat.add_assoc, Nat.add_comm 1, ← List.length_cons, hdrop]
  exact List.prefix_append ..

/-- The right operand stands behind the whole left one. -/
theorem StandsAt.operands {op : BinaryOp} {left right : Expr}
    (h : (Node.expr (.binary op left right)).StandsAt nodes address) :
    (Node.expr left).StandsAt nodes (address + 1) ∧ (Node.expr right).StandsAt nodes (address + 1 + left.size) := by
  have hsize : ([Node.expr left].flatMap preorder).length = left.size := by
    rw [List.flatMap_singleton, ← left.length_preorder]
    rfl
  exact ⟨h.below [] [.expr right] rfl, hsize ▸ h.below [.expr left] [] rfl⟩

end Node

/-! ### Entries -/

/-- Every entry is the checked type of the expression at its address. -/
def Memo.Agrees (memo : Memo) (m : TypeMap) (nodes : List Node) : Prop :=
  ∀ address type, memo.find? address = some type → ∃ e, nodes[address]? = some (.expr e) ∧ type = m.checkedType e

section Entries

variable {m : TypeMap} {nodes : List Node} {memo : Memo} {address : Nat} {e : Expr}

theorem Memo.agrees_empty : empty.Agrees m nodes := nofun

theorem Memo.Agrees.insert {type : Option Ty} (h : memo.Agrees m nodes) (he : nodes[address]? = some (.expr e))
    (htype : type = m.checkedType e) : (memo.insert address type).Agrees m nodes := by
  intro address' type' hfind
  rw [find?_insert] at hfind
  split at hfind
  case isTrue heq =>
    subst heq
    exact ⟨e, he, (Option.some.inj hfind).symm.trans htype⟩
  case isFalse => exact h address' type' hfind

/-- What is noted down at the address of an expression is its checked type. -/
theorem Memo.Agrees.eq_checkedType {type : Option Ty} (h : memo.Agrees m nodes)
    (he : nodes[address]? = some (.expr e)) (hfind : memo.find? address = some type) : type = m.checkedType e := by
  obtain ⟨e', he', htype⟩ := h address type hfind
  rw [he] at he'
  obtain rfl := Node.expr.inj (Option.some.inj he')
  exact htype

/-- An expression that is noted down is not typed anew. -/
theorem TypeMap.known_of_find? {type : Option Ty} (hfind : memo.find? address = some type) :
    m.known address e memo = (type, memo) := by
  rw [known.eq_def, hfind]

/-- So it is enough to look at expressions that are not noted down. -/
private theorem known_spec_of_miss (h : (Node.expr e).StandsAt nodes address) (hmemo : memo.Agrees m nodes)
    (hmiss : memo.find? address = none →
      (m.known address e memo).1 = m.checkedType e ∧ (m.known address e memo).2.Agrees m nodes) :
    (m.known address e memo).1 = m.checkedType e ∧ (m.known address e memo).2.Agrees m nodes := by
  cases hfind : memo.find? address with
  | none => exact hmiss hfind
  | some type =>
    rw [TypeMap.known_of_find? hfind]
    exact ⟨hmemo.eq_checkedType h.getElem? hfind, hmemo⟩

/-- With a memo that agrees with the tree an expression gets its checked type, and the memo goes on to agree. -/
theorem TypeMap.known_spec (h : (Node.expr e).StandsAt nodes address) (hmemo : memo.Agrees m nodes) :
    (m.known address e memo).1 = m.checkedType e ∧ (m.known address e memo).2.Agrees m nodes := by
  induction e generalizing address memo with
  | var name =>
    refine known_spec_of_miss h hmemo fun hmiss => ?_
    rw [known, hmiss]
    exact ⟨rfl, hmemo.insert h.getElem? rfl⟩
  | literal v =>
    refine known_spec_of_miss h hmemo fun hmiss => ?_
    rw [known, hmiss]
    exact ⟨rfl, hmemo.insert h.getElem? rfl⟩
  | binary op left right ihl ihr =>
    refine known_spec_of_miss h hmemo fun hmiss => ?_
    obtain ⟨hleft, hright⟩ := h.operands
    -- the right operand is typed with the memo that the left one has left
    obtain ⟨hl, hmemol⟩ := ihl hleft hmemo
    obtain ⟨hr, hmemor⟩ := ihr hright hmemol
    have htype : op.checked (m.known (address + 1) left memo).1
          (m.known (address + 1 + left.size) right (m.known (address + 1) left memo).2).1 =
        m.checkedType (.binary op left right) := by
      rw [hl, hr, checkedType]
    rw [known, hmiss]
    exact ⟨htype, hmemor.insert h.getElem? htype⟩
  | unary op operand ih =>
    refine known_spec_of_miss h hmemo fun hmiss => ?_
    have hoperand : (Node.expr operand).StandsAt nodes (address + 1) := h.below [] [] rfl
    obtain ⟨ht, hmemot⟩ := ih hoperand hmemo
    have htype : op.checked (m.known (address + 1) operand memo).1 = m.checkedType (.unary op operand) := by
      rw [ht, checkedType]
    rw [known, hmiss]
    exact ⟨htype, hmemot.insert h.getElem? htype⟩

end Entries

end Clite
