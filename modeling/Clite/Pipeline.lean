import Clite.Parser.Program
import Clite.Typing.Checker

/-!
# From source text to checked program

The stages one behind the other.  A stage that reports errors rejects the text, with their number; a name that is
declared twice rejects it before any statement is checked.
-/

namespace Clite

inductive Stage where
  | lex
  | parse
  | typeCheck
  deriving DecidableEq, Repr

def Stage.text : Stage → String
  | lex => "lexing"
  | parse => "parsing"
  | typeCheck => "type checking"

/-- Why a source text or a program is refused. -/
inductive CompileError where
  | duplicateDeclaration (name : String)
  | typeError (message : String)
  /-- a stage reported errors -/
  | rejected (stage : Stage) (errors : Nat)
  deriving DecidableEq, Repr

def CompileError.message : CompileError → String
  | duplicateDeclaration name => (TypeError.duplicateDeclaration name).message
  | typeError message => "Type error: " ++ message
  | rejected stage errors => stage.text ++ " failed with " ++ counted errors "error"

/-- A type error that ends the compilation. -/
def TypeError.toCompileError : TypeError → CompileError
  | duplicateDeclaration name => .duplicateDeclaration name
  | e => .typeError e.message

/-- What comes of a source text: a result or a refusal, the diagnostics that went to the listener, and the
events on the way. -/
structure Outcome (α : Type) where
  result : Except CompileError α
  delivered : Log Diagnostic
  trace : Log Event

namespace Pipeline

variable {α : Type}

/-- The result of a stage that reported `errors` errors. -/
def accepted (stage : Stage) (errors : Nat) (result : α) : Except CompileError α :=
  if errors = 0 then .ok result else .error (.rejected stage errors)

def tokenize (source : String) : Outcome (List Token) :=
  let (tokens, l) := (Lexer.ofSource source).tokenize
  ⟨accepted .lex l.errorCount tokens, l.reporter.delivered, l.trace⟩

def parse (source : String) : Outcome Program :=
  let (program, p) := (Parser.ofSource source).readProgram
  ⟨accepted .parse p.errorCount program, p.lexer.reporter.delivered, p.lexer.trace⟩

def check (source : String) : Outcome Program :=
  let parsed := parse source
  match parsed.result with
  | .error e => ⟨.error e, parsed.delivered, parsed.trace⟩
  | .ok program =>
    match Checker.ofProgram program parsed.delivered parsed.trace with
    | .error e => ⟨.error e.toCompileError, parsed.delivered, parsed.trace⟩
    | .ok checker =>
      let checked := checker.check program
      ⟨accepted .typeCheck checked.errorCount program, checked.reporter.delivered, checked.trace⟩

end Pipeline

end Clite
