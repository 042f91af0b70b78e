import Clite.Diagnostic
import Clite.Parser.SyntaxError
import Clite.Token.Piece
import Clite.Tree.Node
import Clite.Typing.TypeMap

/-!
# Events

What happens while a source text is processed, step by step, for those who want to follow along.
-/

namespace Clite

inductive Event where
  /-- a source text of that many characters was opened -/
  | opened (characters : Nat)
  | scanned (token : Token)
  | lexicalError (error : LexicalError) (position : Position)
  | syntaxError (error : SyntaxError)
  /-- a whole program was read; `errors` counts all diagnostics logged by then -/
  | parsed (declarations statements errors : Nat)
  | typeMapBuilt (types : TypeMap)
  | checking (kind : NodeKind)
  | typeError (error : TypeError)
  /-- a whole program was checked -/
  | checked (errors : Nat)

namespace Event

/-- Events of the routine kind, one for each token or node, as opposed to those that stand out. -/
def isRoutine : Event → Bool
  | scanned _ | checking _ => true
  | _ => false

def message : Event → String
  | opened characters => "lexer initialised with " ++ toString characters ++ " characters"
  | scanned token => "scanned " ++ token.text ++ " at " ++ token.position.text
  | lexicalError error position => "lexical error at " ++ position.text ++ ": " ++ error.message
  | syntaxError error => "syntax error at " ++ error.position.text ++ ": " ++ error.message
  | parsed declarations statements errors =>
    "parsed program: " ++ toString declarations ++ " declarations, " ++ toString statements ++
      " statements, " ++ Reporter.summaryOf errors
  | typeMapBuilt types => "type map built: " ++ types.text
  | checking kind => "checking " ++ kind.text
  | typeError error => "type error: " ++ error.message
  | checked errors => "type check finished with " ++ Reporter.summaryOf errors

/-- The message behind its level. -/
def text (e : Event) : String := (if e.isRoutine then "TRACE " else "DEBUG ") ++ e.message

end Event

end Clite
