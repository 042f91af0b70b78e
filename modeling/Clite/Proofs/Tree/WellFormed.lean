import Clite.Proofs.Lexing.Terminals
import Clite.Proofs.Parsing.Literal
import Clite.Proofs.Tree.Parts

/-!
# Well-formed trees

The atoms of a tree are the names and the values in it: what is declared, assigned and referenced, and the literals.
Tokens have them too, and the atom of a token that was scanned is a proper name or a value that can be written
(`Terminal.WellFormed.isWritten`).  A tree is well-formed if its atoms are of this kind, each `else` stands with the
nearest `if` that could take it, and not too many constructs are open at a time (`Node.WellFormed`).
-/

namespace Clite

/-! ### Atoms -/

inductive Atom where
  | name (name : String)
  | value (value : Value)
  deriving DecidableEq

namespace Node

/-- The name or the value that the node itself stands for. -/
def atom? : Node → Option Atom
  | decl d => some (.name d.name)
  | target x => some (.name x)
  | expr (.var x) => some (.name x)
  | expr (.literal v) => some (.value v)
  | program _ | stmt _ | expr (.binary _ _ _) | expr (.unary _ _) => none

/-- The atoms of a tree from left to right. -/
def atoms (n : Node) : List Atom := n.preorder.filterMap atom?

theorem atoms_eq (n : Node) : n.atoms = n.atom?.toList ++ n.parts.flatMap atoms := by
  rw [atoms, preorder_eq, List.filterMap_cons, List.filterMap_flatMap]
  cases n.atom? <;> rfl

end Node

/-- The name or the value that a token stands for in a tree, if it has one. -/
def Token.atom? (t : Token) : Option Atom :=
  if t.kind = .identifier then some (.name t.lexeme) else (Value.ofToken? t).map .value

/-- A name is a word that is not reserved, an integer is not negative and has 32 bits with sign, and no character is
a quote. -/
def Atom.IsWritten : Atom → Prop
  | name x => IsName x
  | value (.int v) => 0 ≤ v.toInt ∧ v.toInt ≤ 2147483647
  | value (.char c) => c ≠ '\''
  | value (.float _) | value (.bool _) => True

namespace Terminal

def atom? (t : Terminal) : Option Atom := Token.atom? ⟨.unplaced, t.1, t.2⟩

/-- The atom of a token does not hang on its place. -/
theorem atom?_terminal (t : Token) : atom? t.terminal = t.atom? := rfl

theorem atom?_of_literal {t : Terminal} {v : Value} (h : Grammar.Literal t v) : t.atom? = some (.value v) := by
  have hvalue : Value.ofToken? ⟨.unplaced, t.1, t.2⟩ = some v := Value.ofToken?_eq_some.2 h
  have hkind : t.1 ≠ .identifier := by
    intro hk
    obtain ⟨kind, lexeme⟩ := t
    subst hk
    cases h
  rw [atom?, Token.atom?, if_neg hkind, hvalue]
  rfl

theorem WellFormed.isName {x : String} (h : WellFormed (.identifier, x)) : IsName x := by
  cases h with
  | identifier hx => exact hx
  | keyword hk => exact absurd hk (by decide)
  | operator hk => exact absurd hk (by decide)
  | punctuation hk => cases hk

theorem WellFormed.ne_quote {s : String} (h : WellFormed (.charLiteral, s)) {c : Char} (hc : s.toList.head? = some c) :
    c ≠ '\'' := by
  cases h with
  | @char c' hne =>
    have hcc' : c' = c := by simpa using hc
    rwa [← hcc']
  | keyword hk => exact absurd hk (by decide)
  | operator hk => exact absurd hk (by decide)
  | punctuation hk => cases hk

/-- The value of a literal that was scanned. -/
theorem WellFormed.isWritten_value {t : Terminal} (h : t.WellFormed) {v : Value} (hv : Grammar.Literal t v) :
    (Atom.value v).IsWritten := by
  cases hv with
  | truth => exact trivial
  | @int s n v hs hle hn =>
    have hbounds : 0 ≤ v.toInt ∧ v.toInt ≤ 2147483647 := by omega
    exact hbounds
  | float => exact trivial
  | char hc => exact h.ne_quote hc

theorem WellFormed.isWritten {t : Terminal} (h : t.WellFormed) {a : Atom} (ha : t.atom? = some a) : a.IsWritten := by
  obtain ⟨kind, lexeme⟩ := t
  rw [atom?, Token.atom?] at ha
  split at ha
  · next hk =>
    subst hk
    obtain rfl := Option.some.inj ha
    exact h.isName
  · obtain ⟨v, hv, rfl⟩ := Option.map_eq_some_iff.1 ha
    exact h.isWritten_value (Value.ofToken?_eq_some.1 hv)

end Terminal

/-! ### Well-formed trees -/

namespace Node

/-- The first branch in front of an `else` is closed. -/
def ElseIsNearest : Node → Prop
  | stmt (.ifElse _ thenBranch _) => thenBranch.endsOpen = false
  | _ => True

/-- A node with an atom has no parts. -/
theorem isLeaf_of_atom? {n : Node} {a : Atom} (h : n.atom? = some a) :
    n.parts = [] ∧ n.nests = false ∧ n.ElseIsNearest := by
  cases n with
  | program p => cases h
  | stmt s => cases h
  | expr e =>
    cases e with
    | var x => exact ⟨rfl, rfl, trivial⟩
    | literal v => exact ⟨rfl, rfl, trivial⟩
    | binary op left right => cases h
    | unary op operand => cases h
  | decl d => exact ⟨rfl, rfl, trivial⟩
  | target x => exact ⟨rfl, rfl, trivial⟩

/-- Each `else` in a tree stands with the nearest `if` that could take it. -/
def ElsesAreNearest (n : Node) : Prop := ∀ m ∈ n.preorder, m.ElseIsNearest

theorem elsesAreNearest_of_parts {n : Node} (hn : n.ElseIsNearest) (h : ∀ part ∈ n.parts, part.ElsesAreNearest) :
    n.ElsesAreNearest := by
  intro m hm
  rcases mem_preorder_iff.1 hm with rfl | ⟨part, hpart, hm⟩
  · exact hn
  · exact h part hpart m hm

/-- What every tree is like that comes from a source text. -/
structure WellFormed (n : Node) : Prop where
  atoms : ∀ a ∈ n.atoms, a.IsWritten
  elses : n.ElsesAreNearest
  nesting : n.NestsWithin 64

end Node

end Clite
