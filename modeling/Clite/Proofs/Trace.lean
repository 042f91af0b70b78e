import Clite.Proofs.Outcomes
import Clite.Proofs.Parsing.TokenList
import Mathlib.Data.List.Forall2

/-!
# What the trace tells

Every stage notes in one trace what it does.  The scanner and the parser note each error when they report it and each
token when it is handed out, and the checker notes each node that it comes to (`Checker.trace_check`).  So the trace of
a whole check agrees with what the listener has received, with the tokens of the text and with the nodes of the program
(`Pipeline.trace_tells`), wherever the stages have stopped.  It does so in its wording too: the message of an event has
the diagnostic, the name of the token or the name of the node's kind in it.
-/

namespace Clite

/-! ### Names and messages -/

/-- A token is named by its class and its lexeme, or by the word or symbol that it is. -/
inductive Token.Named : Token → String → Prop
  | identifier (place : Position) (word : String) : Named ⟨place, .identifier, word⟩ ("IDENT `" ++ word ++ "`")
  | int (place : Position) (digits : String) : Named ⟨place, .intLiteral, digits⟩ ("INT `" ++ digits ++ "`")
  | float (place : Position) (digits : String) : Named ⟨place, .floatLiteral, digits⟩ ("FLOAT `" ++ digits ++ "`")
  | char (place : Position) (c : String) : Named ⟨place, .charLiteral, c⟩ ("CHAR `" ++ c ++ "`")
  | fixed {t : Token} : t.kind.showsLexeme = false → Named t t.kind.text

theorem Token.named_text (t : Token) : t.Named t.text := by
  obtain ⟨place, kind, lexeme⟩ := t
  cases kind with
  | identifier => exact .identifier place lexeme
  | intLiteral => exact .int place lexeme
  | floatLiteral => exact .float place lexeme
  | charLiteral => exact .char place lexeme
  | _ => exact .fixed rfl

/-- A node is named by its kind. -/
inductive Node.Named : Node → String → Prop
  | program (p : Program) : Named (.program p) "Program"
  | decl (d : Decl) : Named (.decl d) "VariableDecl"
  | skip : Named (.stmt .skip) "Skip"
  | block (members : List Stmt) : Named (.stmt (.block members)) "Block"
  | assignment (target : String) (source : Expr) : Named (.stmt (.assignment target source)) "Assignment"
  | ifThen (test : Expr) (thenBranch : Stmt) : Named (.stmt (.ifThen test thenBranch)) "Conditional"
  | ifElse (test : Expr) (thenBranch elseBranch : Stmt) :
    Named (.stmt (.ifElse test thenBranch elseBranch)) "Conditional"
  | loop (test : Expr) (body : Stmt) : Named (.stmt (.loop test body)) "Loop"
  | var (name : String) : Named (.expr (.var name)) "Variable"
  | target (name : String) : Named (.target name) "Variable"
  | literal (v : Value) : Named (.expr (.literal v)) "Value"
  | binary (op : BinaryOp) (left right : Expr) : Named (.expr (.binary op left right)) "Binary"
  | unary (op : UnaryOp) (operand : Expr) : Named (.expr (.unary op operand)) "Unary"

theorem Node.named_kind (n : Node) : n.Named n.kind.text := by
  cases n with
  | program p => exact .program p
  | decl d => exact .decl d
  | stmt s => cases s <;> constructor
  | expr e => cases e <;> constructor
  | target name => exact .target name

namespace Event

def token? : Event → Option Token
  | scanned token => some token
  | _ => none

/-- The kind of the node that a check has come to. -/
def kind? : Event → Option NodeKind
  | checking kind => some kind
  | _ => none

/-- The diagnostic of a type error. -/
def typing? : Event → Option Diagnostic
  | typeError e => some ⟨e.message, none⟩
  | _ => none

/-- The diagnostic of an error, whichever stage has found it. -/
def announced? (e : Event) : Option Diagnostic := e.diagnostic?.or e.typing?

def isError : Event → Bool
  | lexicalError _ _ | syntaxError _ | typeError _ => true
  | _ => false

def isScanned (e : Event) : Bool := e.token?.isSome

def isChecking (e : Event) : Bool := e.kind?.isSome

/-- The event is written down with the message of the diagnostic and with its place; a type error has none. -/
def Announces (e : Event) (d : Diagnostic) : Prop :=
  match e with
  | lexicalError error place =>
    d = ⟨error.message, some place⟩ ∧ e.message = "lexical error at " ++ place.text ++ ": " ++ d.message
  | syntaxError error =>
    d = ⟨error.message, some error.position⟩ ∧
      e.message = "syntax error at " ++ error.position.text ++ ": " ++ d.message
  | typeError error => d = ⟨error.message, none⟩ ∧ e.message = "type error: " ++ d.message
  | _ => False

/-- The event is written down with the name of the token and with its place. -/
def Scans (e : Event) (t : Token) : Prop :=
  e = scanned t ∧ e.message = "scanned " ++ t.text ++ " at " ++ t.position.text ∧ t.Named t.text

/-- The event is written down with the name of the node's kind. -/
def ComesTo (e : Event) (n : Node) : Prop :=
  e = checking n.kind ∧ e.message = "checking " ++ n.kind.text ∧ n.Named n.kind.text

/-- The events in which a view sees something stand against what it sees there. -/
private theorem forall₂_view {α : Type} (view : Event → Option α) (events : List Event) :
    List.Forall₂ (fun e a => view e = some a) (events.filter fun e => (view e).isSome) (events.filterMap view) := by
  induction events with
  | nil => exact .nil
  | cons e events ih =>
    rw [List.filter_cons, List.filterMap_cons]
    cases hview : view e with
    | none => exact ih
    | some a => exact .cons hview ih

theorem isError_eq (e : Event) : e.isError = e.announced?.isSome := by
  cases e <;> rfl

theorem announces_of_announced? {e : Event} {d : Diagnostic} (h : e.announced? = some d) : e.Announces d := by
  cases e with
  | lexicalError | syntaxError | typeError =>
    obtain rfl := Option.some.inj h
    exact ⟨rfl, rfl⟩
  | _ => cases h

theorem scans_of_token? {e : Event} {t : Token} (h : e.token? = some t) : e.Scans t := by
  cases e with
  | scanned token =>
    obtain rfl : token = t := Option.some.inj h
    exact ⟨rfl, rfl, token.named_text⟩
  | _ => cases h

theorem comesTo_of_kind? {e : Event} {n : Node} (h : e.kind? = some n.kind) : e.ComesTo n := by
  cases e with
  | checking kind =>
    obtain rfl : kind = n.kind := Option.some.inj h
    exact ⟨rfl, rfl, n.named_kind⟩
  | _ => cases h

/-- The errors among the events announce their diagnostics one by one. -/
theorem forall₂_announces (events : List Event) :
    List.Forall₂ Announces (events.filter isError) (events.filterMap announced?) := by
  rw [List.filter_congr fun e _ => e.isError_eq]
  exact (forall₂_view announced? events).imp fun _ _ => announces_of_announced?

theorem forall₂_scans (events : List Event) :
    List.Forall₂ Scans (events.filter isScanned) (events.filterMap token?) :=
  (forall₂_view token? events).imp fun _ _ => scans_of_token?

/-- If the kinds that were checked are those of some nodes, it is these nodes that the events come to. -/
theorem forall₂_comesTo {events : List Event} {ns : List Node} (h : events.filterMap kind? = ns.map Node.kind) :
    List.Forall₂ ComesTo (events.filter isChecking) ns := by
  have hkinds := forall₂_view kind? events
  rw [h, List.forall₂_map_right_iff] at hkinds
  exact hkinds.imp fun _ _ => comesTo_of_kind?

theorem map_message_eq {α : Type} {R : Event → α → Prop} {text : α → String}
    (hmessage : ∀ e a, R e a → e.message = text a) {events : List Event} {as : List α}
    (h : List.Forall₂ R events as) : events.map message = as.map text := by
  induction h with
  | nil => rfl
  | cons he _ ih => rw [List.map_cons, List.map_cons, ih, hmessage _ _ he]

end Event

/-! ### Scanning and parsing -/

theorem Piece.filterMap_token?_eventsFrom (start : Position) (pieces : List Piece) :
    (eventsFrom start pieces).filterMap Event.token? = tokensFrom start pieces := by
  induction pieces generalizing start with
  | nil => rfl
  | cons piece pieces ih =>
    rw [eventsFrom, tokensFrom, List.filterMap_append, ih]
    cases piece.error? start <;> cases piece.token? <;> rfl

namespace Lexer

/-- The tokens of a text, without the end of the file. -/
def tokensOf (source : String) : List Token := (ofSource source).tokenize.1.filter (·.kind ≠ .endOfFile)

theorem tokensOf_eq (source : String) : tokensOf source = Piece.tokensFrom .start (Piece.split source.toList) := by
  have hkinds := List.filter_eq_self.2 (kind_of_mem_tokensFrom source)
  rw [tokensOf, tokens_tokenize, List.filter_append, hkinds]
  exact List.append_nil _

end Lexer

namespace Parser

variable {α : Type} {f : Event → Option α} {source : String} {p : Parser}

/-- Of the events that come from the text a parser has noted the first, and the others are still to come. -/
theorem Reaches.filterMap_trace_ofSource (hsyntactic : ∀ e, f (.syntaxError e) = none)
    (hparsed : ∀ ds ss errors, f (.parsed ds ss errors) = none) (hopened : ∀ n, f (.opened n) = none)
    (h : (ofSource source).Reaches p) :
    p.lexer.trace.toList.filterMap f ++ (Piece.eventsFrom p.lexer.position p.lexer.pieces).filterMap f =
      (Piece.eventsFrom .start (Piece.split source.toList)).filterMap f := by
  have hnext := congrArg (List.filterMap f) (Lexer.ofSource source).trace_next
  have hstart : (Lexer.ofSource source).trace.toList.filterMap f = [] := List.filterMap_cons_none (hopened _)
  rw [List.filterMap_append, List.filterMap_append, hstart, List.nil_append] at hnext
  exact (h.filterMap_trace hsyntactic hparsed).trans hnext

theorem Reaches.tokens_eq (h : (ofSource source).Reaches p) :
    p.lexer.trace.toList.filterMap Event.token? ++ Piece.tokensFrom p.lexer.position p.lexer.pieces =
      Lexer.tokensOf source := by
  rw [Lexer.tokensOf_eq, ← Piece.filterMap_token?_eventsFrom, ← Piece.filterMap_token?_eventsFrom]
  exact h.filterMap_trace_ofSource (fun _ => rfl) (fun _ _ _ => rfl) (fun _ => rfl)

/-- What is noted neither by the scanner nor by the parser is not in the trace of a parse. -/
theorem Reaches.filterMap_trace_eq_nil (hlexical : ∀ e place, f (.lexicalError e place) = none)
    (hscanned : ∀ t, f (.scanned t) = none) (hsyntactic : ∀ e, f (.syntaxError e) = none)
    (hparsed : ∀ ds ss errors, f (.parsed ds ss errors) = none) (hopened : ∀ n, f (.opened n) = none)
    (h : (ofSource source).Reaches p) : p.lexer.trace.toList.filterMap f = [] := by
  have hall := h.filterMap_trace_ofSource hsyntactic hparsed hopened
  rw [Piece.filterMap_eventsFrom_eq_nil hlexical hscanned, Piece.filterMap_eventsFrom_eq_nil hlexical hscanned,
    List.append_nil] at hall
  exact hall

theorem Reaches.kinds_eq_nil (h : (ofSource source).Reaches p) : p.lexer.trace.toList.filterMap Event.kind? = [] :=
  h.filterMap_trace_eq_nil (fun _ _ => rfl) (fun _ => rfl) (fun _ => rfl) (fun _ _ _ => rfl) (fun _ => rfl)

/-- All that the listener has received is announced. -/
theorem Reaches.announced_eq (h : (ofSource source).Reaches p) :
    p.lexer.trace.toList.filterMap Event.announced? = p.lexer.reporter.delivered.toList := by
  have hnone : p.lexer.trace.toList.filterMap Event.typing? = [] :=
    h.filterMap_trace_eq_nil (fun _ _ => rfl) (fun _ => rfl) (fun _ => rfl) (fun _ _ _ => rfl) (fun _ => rfl)
  have hconsistent := (h.consistent (consistent_ofSource source)).lexer
  rw [hconsistent.delivered, hconsistent.log]
  refine List.filterMap_congr fun e he => ?_
  rw [Event.announced?, List.filterMap_eq_nil_iff.1 hnone e he, Option.or_none]

end Parser

/-! ### Checking -/

namespace TypeMap

/-- What happens at a node: the check comes to it and reports its fault. -/
def eventsAt (m : TypeMap) (n : Node) : List Event :=
  .checking n.kind :: ((m.fault? n).map Event.typeError).toList

variable (m : TypeMap) (ns : List Node)

theorem filterMap_token?_eventsAt : (ns.flatMap m.eventsAt).filterMap Event.token? = [] := by
  induction ns with
  | nil => rfl
  | cons n ns ih =>
    rw [List.flatMap_cons, List.filterMap_append, ih, eventsAt]
    cases m.fault? n <;> rfl

theorem filterMap_kind?_eventsAt : (ns.flatMap m.eventsAt).filterMap Event.kind? = ns.map Node.kind := by
  induction ns with
  | nil => rfl
  | cons n ns ih =>
    rw [List.flatMap_cons, List.filterMap_append, ih, eventsAt, List.map_cons]
    cases m.fault? n <;> rfl

theorem filterMap_announced?_eventsAt :
    (ns.flatMap m.eventsAt).filterMap Event.announced? =
      (ns.filterMap m.fault?).map fun e => ⟨e.message, none⟩ := by
  induction ns with
  | nil => rfl
  | cons n ns ih =>
    rw [List.flatMap_cons, List.filterMap_append, ih, eventsAt, List.filterMap_cons (f := m.fault?)]
    cases m.fault? n <;> rfl

end TypeMap

namespace Checker

theorem trace_come (c : Checker) (n : Node) : (c.come n).trace.toList = c.trace.toList ++ c.types.eventsAt n := by
  unfold come visit TypeMap.eventsAt
  cases c.types.fault? n <;> simp

theorem trace_foldl_come (c : Checker) (ns : List Node) :
    (ns.foldl come c).trace.toList = c.trace.toList ++ ns.flatMap c.types.eventsAt := by
  induction ns generalizing c with
  | nil => exact (List.append_nil _).symm
  | cons n ns ih => rw [List.foldl_cons, ih, trace_come, types_come, List.flatMap_cons, List.append_assoc]

/-- A check notes the nodes of a program in pre-order, each with its fault, and its end. -/
theorem trace_check (c : Checker) (p : Program) :
    (c.check p).trace.toList =
      c.trace.toList ++ (Node.program p).preorder.flatMap c.types.eventsAt ++ [.checked (c.check p).errorCount] := by
  have hwalk : (c.check p).trace =
      ((Node.program p).preorder.foldl come { c with reporter := c.reporter.clear }).trace.push
        (.checked (c.check p).errorCount) := by
    rw [errorCount, reporter_check, check_eq_walk, Node.walk_of_enter fun _ _ => rfl]
    rfl
  rw [hwalk, Log.toList_push, trace_foldl_come]

end Checker

/-! ### The whole trace -/

namespace Pipeline

/-- What a check of a program with distinct names adds to what parsing has left: the nodes that it comes to, and its
errors, which the listener receives. -/
theorem check_of_checked {source : String} {p : Program} (h : (parse source).result = .ok p)
    (hnames : (p.declarations.map Decl.name).Nodup) :
    let events := (check source).trace.toList
    let before := (parse source).trace.toList
    events.filterMap Event.token? = before.filterMap Event.token? ∧
    events.filterMap Event.kind? = before.filterMap Event.kind? ++ (Node.program p).preorder.map Node.kind ∧
    ∃ faults : List Diagnostic, events.filterMap Event.announced? = before.filterMap Event.announced? ++ faults ∧
      (check source).delivered.toList = (parse source).delivered.toList ++ faults := by
  obtain ⟨c, hc, hcheck⟩ := check_of_nodup h hnames
  obtain ⟨-, hreporter, htrace⟩ := Checker.ofProgram_eq_ok hc
  have hevents {α : Type} {f : Event → Option α} (hbuilt : ∀ types, f (.typeMapBuilt types) = none)
      (hchecked : ∀ n, f (.checked n) = none) :
      (check source).trace.toList.filterMap f = (parse source).trace.toList.filterMap f ++
        ((Node.program p).preorder.flatMap c.types.eventsAt).filterMap f := by
    rw [hcheck]
    dsimp only
    rw [Checker.trace_check, htrace]
    simp [hbuilt, hchecked]
  intro events before
  refine ⟨?_, ?_, ((Node.program p).preorder.filterMap c.types.fault?).map fun e => ⟨e.message, none⟩, ?_, ?_⟩
  · rw [hevents (fun _ => rfl) (fun _ => rfl), TypeMap.filterMap_token?_eventsAt, List.append_nil]
  · rw [hevents (fun _ => rfl) (fun _ => rfl), TypeMap.filterMap_kind?_eventsAt]
  · rw [hevents (fun _ => rfl) (fun _ => rfl), TypeMap.filterMap_announced?_eventsAt]
  · rw [hcheck]
    dsimp only
    rw [Checker.delivered_check, hreporter]
    rfl

/-- A check that does not come to any node leaves the trace and the listener as parsing has. -/
theorem check_of_not_checked {source : String}
    (h : ¬ ∃ p, (parse source).result = .ok p ∧ (p.declarations.map Decl.name).Nodup) :
    (check source).trace = (parse source).trace ∧ (check source).delivered = (parse source).delivered := by
  rcases parse_result_cases source with ⟨p, hp⟩ | ⟨n, hn⟩
  · rcases nodup_or_firstRepeat p.declarations with hnames | ⟨x, hx⟩
    · exact absurd ⟨p, hp, hnames⟩ h
    · rw [check_of_firstRepeat hp hx]
      exact ⟨rfl, rfl⟩
  · rw [check_of_parse_error hn]
    exact ⟨rfl, rfl⟩

/-- In the trace of a check the errors announce, one by one, what the listener receives.  The tokens that were scanned
are the first of the text, and all of them if it is parsed without an error.  If also no name is declared twice the nodes
of the program are checked in pre-order, and otherwise none.  Each of these events is written down with the name of its
token or node. -/
theorem trace_tells (source : String) :
    List.Forall₂ Event.Announces ((check source).trace.toList.filter Event.isError)
      (check source).delivered.toList ∧
    ((check source).trace.toList.filterMap Event.token? <+: Lexer.tokensOf source ∧
      List.Forall₂ Event.Scans ((check source).trace.toList.filter Event.isScanned)
        ((check source).trace.toList.filterMap Event.token?) ∧
      ∀ p, (parse source).result = .ok p →
        (check source).trace.toList.filterMap Event.token? = Lexer.tokensOf source) ∧
    (∀ p, (parse source).result = .ok p → (p.declarations.map Decl.name).Nodup →
      (check source).trace.toList.filterMap Event.kind? = (Node.program p).preorder.map Node.kind ∧
      List.Forall₂ Event.ComesTo ((check source).trace.toList.filter Event.isChecking)
        (Node.program p).preorder) ∧
    ((¬ ∃ p, (parse source).result = .ok p ∧ (p.declarations.map Decl.name).Nodup) →
      (check source).trace.toList.filterMap Event.kind? = []) := by
  have hreaches := Parse.program.reaches_run (.ofSource source)
  -- what parsing has left
  have hannounced : (parse source).trace.toList.filterMap Event.announced? = (parse source).delivered.toList :=
    hreaches.announced_eq
  have hkinds : (parse source).trace.toList.filterMap Event.kind? = [] := hreaches.kinds_eq_nil
  have hscanned := hreaches.tokens_eq
  have hfirst : (parse source).trace.toList.filterMap Event.token? <+: Lexer.tokensOf source := ⟨_, hscanned⟩
  have hall : ∀ p, (parse source).result = .ok p →
      (parse source).trace.toList.filterMap Event.token? = Lexer.tokensOf source := by
    intro p hp
    have hend := Parser.upcoming_eq_nil.1 (upcoming_of_parse hp)
    rw [(hreaches.regular (Parser.regular_ofSource source)).pieces_of_endOfFile hend, Piece.tokensFrom,
      List.append_nil] at hscanned
    exact hscanned
  have hforall := Event.forall₂_announces (check source).trace.toList
  have hscans := Event.forall₂_scans (check source).trace.toList
  by_cases hchecked : ∃ p, (parse source).result = .ok p ∧ (p.declarations.map Decl.name).Nodup
  · obtain ⟨p, hp, hnames⟩ := hchecked
    obtain ⟨htokens, hnodes, faults, herrors, hdelivered⟩ := check_of_checked hp hnames
    rw [hannounced, ← hdelivered] at herrors
    rw [hkinds, List.nil_append] at hnodes
    refine ⟨herrors ▸ hforall, ⟨htokens ▸ hfirst, hscans, fun q hq => htokens.trans (hall q hq)⟩, ?_, ?_⟩
    · intro q hq _
      obtain rfl : p = q := Except.ok.inj (hp.symm.trans hq)
      exact ⟨hnodes, Event.forall₂_comesTo hnodes⟩
    · intro hnone
      exact absurd ⟨p, hp, hnames⟩ hnone
  · obtain ⟨htrace, hdelivered⟩ := check_of_not_checked hchecked
    rw [htrace] at hscans
    rw [htrace, hannounced] at hforall
    rw [htrace, hdelivered]
    refine ⟨hforall, ⟨hfirst, hscans, hall⟩, ?_, fun _ => hkinds⟩
    intro p hp hnames
    exact absurd ⟨p, hp, hnames⟩ hchecked

/-- The undeclared `b` keeps no node from being checked, but the second `a` keeps them all. -/
theorem trace_tells_checked_or_not :
    let source := "int main(){int a; b = 1;}"
    let p : Program := ⟨[⟨"a", .int⟩], [.assignment "b" (.literal (.int 1)), .skip]⟩
    let repeated := "int main(){int a; int a;}"
    ((parse source).result = .ok p ∧ (p.declarations.map Decl.name).Nodup ∧
      (check source).trace.toList.filterMap Event.token? = Lexer.tokensOf source ∧
      (check source).trace.toList.filterMap Event.kind? =
        [.program, .variableDecl, .assignment, .reference, .value, .skip] ∧
      ((check source).trace.toList.filter Event.isScanned).map Event.message =
        ["scanned int at 1:1", "scanned main at 1:5", "scanned ( at 1:9", "scanned ) at 1:10", "scanned \x7b at 1:11",
          "scanned int at 1:12", "scanned IDENT `a` at 1:16", "scanned ; at 1:17", "scanned IDENT `b` at 1:19",
          "scanned = at 1:21", "scanned INT `1` at 1:23", "scanned ; at 1:24", "scanned \x7d at 1:25"] ∧
      ((check source).trace.toList.filter Event.isChecking).map Event.message =
        ["checking Program", "checking VariableDecl", "checking Assignment", "checking Variable", "checking Value",
          "checking Skip"]) ∧
    (¬ ∃ p, (parse repeated).result = .ok p ∧ (p.declarations.map Decl.name).Nodup) ∧
      (check repeated).trace.toList.filterMap Event.kind? = [] := by
  intro source p repeated
  have hparse : (parse source).result = .ok p := by decide +kernel
  have hnames : (p.declarations.map Decl.name).Nodup := by decide
  obtain ⟨-, ⟨-, hscans, htokens⟩, hnodes, -⟩ := trace_tells source
  obtain ⟨hkinds, hcomes⟩ := hnodes p hparse hnames
  have hscanned := Event.map_message_eq (fun e t h => h.2.1) hscans
  rw [htokens p hparse] at hscanned
  have hchecking := Event.map_message_eq (fun e n h => h.2.1) hcomes
  have hrepeated : ¬ ∃ p, (parse repeated).result = .ok p ∧ (p.declarations.map Decl.name).Nodup := by
    have hparse : (parse repeated).result = .ok ⟨[⟨"a", .int⟩, ⟨"a", .int⟩], []⟩ := by decide +kernel
    rintro ⟨p, hp, hnames⟩
    obtain rfl := Except.ok.inj (hparse.symm.trans hp)
    exact absurd hnames (by decide)
  obtain ⟨-, -, -, hnone⟩ := trace_tells repeated
  refine ⟨⟨hparse, hnames, htokens p hparse, hkinds, hscanned.trans ?_, hchecking⟩, hrepeated, hnone hrepeated⟩
  decide +kernel

end Pipeline

end Clite
