import Clite.Parser.Statement

/-!
# Parsing programs

```text
program     := int main ( ) { {declaration} {statement} }
declaration := type identifier {, identifier} ;
```

A token of the frame that is missing is reported and done without, so a program always comes back, with what of
it could be read.
-/

namespace Clite

namespace Parse

open Clite.Parser

/-- The names up to the first that no comma follows, behind those already read, which are given last one
first. -/
def namesOnto (found : List String) (p : Parser) : List String × Parser :=
  match _h : (expect .identifier "declaration").run p with
  | (none, q) => (found.reverse, q)
  | (some name, q) =>
    if q.current.kind = .comma then namesOnto (name.lexeme :: found) q.advance
    else ((name.lexeme :: found).reverse, q)
termination_by p.size
decreasing_by
  have hq := (expect .identifier "declaration").size_run p
  rw [_h] at hq
  exact Nat.lt_of_lt_of_le (size_advance_lt (by simp_all)) hq

theorem reaches_namesOnto (found : List String) (p : Parser) : p.Reaches (namesOnto found p).2 := by
  have step (q : Parser) : ∀ r, (expect .identifier "declaration").run q = r → q.Reaches r.2 :=
    fun r h => h ▸ (expect .identifier "declaration").reaches_run q
  fun_induction namesOnto found p with
  | case1 _ p q h => exact step p _ h
  | case2 _ p name q h _ ih => exact (step p _ h).advance.trans ih
  | case3 _ p name q h => exact step p _ h

/-- Names with commas between them; a name that is missing is reported and ends the list. -/
def names : Parse (List String) where
  run p := let r := namesOnto [] p; (some r.1, r.2)
  reaches_run := reaches_namesOnto []

/-- The variables of one declaration. -/
def declaration : Parse (List Decl) := do
  let type ← typeName
  let names ← names
  require .semicolon "declaration"
  return names.map (⟨·, type⟩)

private theorem consumesAt_typeName (type : Ty) : typeName.ConsumesAt (.typeName type) := by
  intro p hp
  simpa [typeName, run_bind, hp, TokenKind.type?] using size_advance_lt (p := p) (by simp [hp])

theorem size_declaration_lt {p : Parser} (h : p.current.kind.isTypeName = true) :
    (declaration.run p).2.size < p.size := by
  unfold TokenKind.isTypeName at h
  split at h
  · next type hk => exact (consumesAt_typeName type).bind _ p hk
  · cases h

/-- The variables declared up to the first token that is no type name, behind those already declared, which are
given last one first. -/
def declarationsOnto (found : List Decl) (p : Parser) : List Decl × Parser :=
  if _h : p.current.kind.isTypeName then
    let r := declaration.run p
    declarationsOnto ((r.1.getD []).reverse ++ found) r.2
  else (found.reverse, p)
termination_by p.size
decreasing_by exact size_declaration_lt _h

theorem reaches_declarationsOnto (found : List Decl) (p : Parser) :
    p.Reaches (declarationsOnto found p).2 := by
  fun_induction declarationsOnto found p with
  | case1 found p _ r ih => exact (declaration.reaches_run p).trans ih
  | case2 => exact .refl

/-- All declarations that come next. -/
def declarations : Parse (List Decl) where
  run p := let r := declarationsOnto [] p; (some r.1, r.2)
  reaches_run := reaches_declarationsOnto []

/-- A whole program. -/
def program : Parse Program := do
  require (.typeName .int) "program header"
  require .mainWord "program header"
  require .leftParen "program header"
  require .rightParen "program header"
  require .leftBrace "program body"
  let declarations ← declarations
  let body ← statements
  require .rightBrace "program body"
  require .endOfFile "program"
  noteProgram declarations.length body.length
  return ⟨declarations, body⟩

end Parse

/-- Reads a program, which always comes back. -/
def Parser.readProgram (p : Parser) : Program × Parser :=
  let r := Parse.program.run p
  (r.1.getD .empty, r.2)

end Clite
