import Clite.Parser.Descent
import Clite.Proofs.Parsing.Alike

/-!
# The descent with a counter ends and reads the same

Each procedure that counts the open constructs does what the one with the room that is left does, once there is room
for enough calls (`Descent.Follows`).  So it ends whatever the parser and the count, the count is what it was when it
ends, and it was never above the limit on the way (`Construct.follows_descend`); and one construct after the other is
read with all the room (`Descent.gives_readAll`).
-/

namespace Clite

open Clite.Parser

/-- The procedure of each level over a given primary. -/
def Parse.levelOver (primary : Parse Expr) : Level → Parse Expr
  | .disjunction => disjunctionOver primary
  | .conjunction => conjunctionOver primary
  | .equality => equalityOver primary
  | .relation => relationOver primary
  | .addition => additionOver primary
  | .term => termOver primary

namespace Descent

variable {α β γ : Type}

/-! ### Following a procedure -/

/-- There is one end only, however much room there is. -/
theorem Ends.unique {m : Nat → Descent β} {s s₁ s₂ : State} {b₁ b₂ : β} (h₁ : Ends m s b₁ s₁) (h₂ : Ends m s b₂ s₂) :
    b₁ = b₂ ∧ s₁ = s₂ := by
  obtain ⟨enough₁, h₁⟩ := h₁
  obtain ⟨enough₂, h₂⟩ := h₂
  have hsame := (h₁ (max enough₁ enough₂) (by omega)).symm.trans (h₂ (max enough₁ enough₂) (by omega))
  exact Prod.mk.inj (Option.some.inj hsame)

/-- From `s` on the procedure ends, with the result and the parser of `r`; what it opens it closes again, and at no time
are more constructs open than allowed, or than were before. -/
def Gives (m : Nat → Descent β) (s : State) (r : β × Parser) : Prop :=
  ∃ top, Ends m s r.1 ⟨r.2, s.depth, top⟩ ∧ top ≤ max s.deepest maxNesting

/-- With `depth` constructs open `m` does what `run` does. -/
def Follows (depth : Nat) (m : Nat → Descent β) (run : Parser → β × Parser) : Prop :=
  ∀ s, s.depth = depth → Gives m s (run s.parser)

section Steps

variable {s : State} {r : γ × Parser}

/-- A procedure that is called from one with room for a call more. -/
theorem Gives.called {m : Nat → Descent γ} (h : Gives (fun calls => m (calls + 1)) s r) : Gives m s r := by
  obtain ⟨top, ⟨enough, hm⟩, htop⟩ := h
  refine ⟨top, ⟨enough + 1, fun calls hcalls => ?_⟩, htop⟩
  obtain ⟨calls, rfl⟩ := Nat.exists_eq_add_of_le' hcalls
  exact hm (calls + enough) (by omega)

theorem Gives.bind {m : Nat → Descent β} {k : Nat → β → Descent γ} {b : β} {p : Parser} (h : Gives m s (b, p))
    (hk : ∀ s', s'.depth = s.depth → s'.parser = p → Gives (fun calls => k calls b) s' r) :
    Gives (fun calls => m calls >>= k calls) s r := by
  obtain ⟨top, ⟨enough, hm⟩, htop⟩ := h
  obtain ⟨top', ⟨enough', hm'⟩, htop'⟩ := hk ⟨p, s.depth, top⟩ rfl rfl
  refine ⟨top', ⟨max enough enough', fun calls hcalls => ?_⟩, ?_⟩
  · rw [StateT.run_bind, hm calls (by omega)]
    exact hm' calls (by omega)
  · have hle : top' ≤ max top maxNesting := htop'
    omega

theorem gives_pure (b : β) (s : State) : Gives (fun _ => pure b) s (b, s.parser) :=
  ⟨s.deepest, ⟨0, fun _ _ => rfl⟩, by omega⟩

theorem gives_act (f : Parse α) (s : State) : Gives (fun _ => act f) s (f.run s.parser) :=
  ⟨s.deepest, ⟨0, fun _ _ => rfl⟩, by omega⟩

theorem gives_look_bind {k : Nat → Parser → Descent γ} (h : Gives (fun calls => k calls s.parser) s r) :
    Gives (fun calls => look >>= k calls) s r := h

theorem gives_act_bind {f : Parse α} {k : Nat → Option α → Descent γ}
    (h : Gives (fun calls => k calls (f.run s.parser).1) ⟨(f.run s.parser).2, s.depth, s.deepest⟩ r) :
    Gives (fun calls => act f >>= k calls) s r := h

end Steps

theorem gives_skip (s : State) : Gives skip s ((), s.parser.skipToBoundary) := by
  generalize hp : s.parser = p
  fun_induction skipToBoundary p generalizing s with
  | case1 p hend =>
    subst hp
    refine .called ?_
    refine gives_look_bind ?_
    simp only [if_pos hend]
    exact gives_pure () s
  | case2 p hend ih =>
    subst hp
    refine .called ?_
    refine gives_look_bind ?_
    simp only [if_neg hend]
    exact gives_act_bind (ih _ rfl)

variable {depth : Nat}

/-! ### One step after the other -/

theorem Follows.called {m : Nat → Descent β} {run : Parser → β × Parser}
    (h : Follows depth (fun calls => m (calls + 1)) run) : Follows depth m run := fun s hs => (h s hs).called

theorem Follows.bind {m : Nat → Descent (Option α)} {k : Nat → Option α → Descent (Option β)} {f : Parse α}
    {g : α → Parse β} (h : Follows depth m f.run) (hk : ∀ a, Follows depth (fun calls => k calls (some a)) (g a).run)
    (hnone : ∀ calls, k calls none = pure none) :
    Follows depth (fun calls => m calls >>= k calls) (f >>= g).run := by
  intro s hs
  have hm := h s hs
  rw [Parse.run_bind]
  rcases hr : f.run s.parser with ⟨_ | a, q⟩
  · rw [hr] at hm
    refine hm.bind fun s' _ hparser => ?_
    simp only [hnone]
    rw [← hparser]
    exact gives_pure none s'
  · rw [hr] at hm
    refine hm.bind fun s' hdepth hparser => ?_
    rw [← hparser]
    exact hk a s' (hdepth.trans hs)

theorem Follows.bind_attempt {m : Nat → Descent (Option α)} {k : Nat → Option α → Descent (Option β)} {f : Parse α}
    {g : Option α → Parse β} (h : Follows depth m f.run)
    (hk : ∀ a?, Follows depth (fun calls => k calls a?) (g a?).run) :
    Follows depth (fun calls => m calls >>= k calls) (f.attempt >>= g).run := by
  intro s hs
  refine (h s hs).bind fun s' hdepth hparser => ?_
  have hrest := hk (f.run s.parser).1 s' (hdepth.trans hs)
  rwa [hparser] at hrest

/-- A procedure that always has a result. -/
theorem Follows.bind_total {m : Nat → Descent β} {run : Parser → β × Parser} {k : Nat → β → Descent (Option γ)}
    {f : Parse β} {g : β → Parse γ} (h : Follows depth m run) (hf : ∀ p, f.run p = (some (run p).1, (run p).2))
    (hk : ∀ b, Follows depth (fun calls => k calls b) (g b).run) :
    Follows depth (fun calls => m calls >>= k calls) (f >>= g).run := by
  intro s hs
  rw [Parse.run_bind, hf]
  refine (h s hs).bind fun s' hdepth hparser => ?_
  rw [← hparser]
  exact hk _ s' (hdepth.trans hs)

theorem Follows.bind_pure {m : Nat → Descent β} {run : Parser → β × Parser} (h : Follows depth m run) (f : β → γ) :
    Follows depth (fun calls => m calls >>= fun b => pure (f b)) fun p => (f (run p).1, (run p).2) := by
  intro s hs
  dsimp only
  refine (h s hs).bind fun s' _ hparser => ?_
  rw [← hparser]
  exact gives_pure _ s'

theorem follows_pure (b : β) : Follows depth (fun _ => pure b) fun p => (b, p) := fun s _ => gives_pure b s

theorem follows_act (f : Parse α) : Follows depth (fun _ => act f) f.run := fun s _ => gives_act f s

/-- A step that always has a result. -/
theorem follows_act_bind {f : Parse α} {k : Nat → Option α → Descent (Option β)} {g : α → Parse β}
    (hf : ∀ p, ∃ a, (f.run p).1 = some a) (hk : ∀ a, Follows depth (fun calls => k calls (some a)) (g a).run) :
    Follows depth (fun calls => act f >>= k calls) (f >>= g).run := by
  intro s hs
  obtain ⟨a, ha⟩ := hf s.parser
  have hr : f.run s.parser = (some a, (f.run s.parser).2) := Prod.ext ha rfl
  refine gives_act_bind ?_
  rw [Parse.run_bind, hr]
  exact hk a _ hs

theorem follows_take_bind {k : Nat → Option Token → Descent (Option β)} {g : Token → Parse β}
    (hk : ∀ t, Follows depth (fun calls => k calls (some t)) (g t).run) :
    Follows depth (fun calls => act .take >>= k calls) (Parse.take >>= g).run :=
  follows_act_bind (fun p => ⟨p.current, rfl⟩) hk

theorem follows_require_bind (kind : TokenKind) (context : String) {k : Nat → Option Unit → Descent (Option β)}
    {g : Unit → Parse β} (hk : Follows depth (fun calls => k calls (some ())) (g ()).run) :
    Follows depth (fun calls => act (.require kind context) >>= k calls) (Parse.require kind context >>= g).run :=
  follows_act_bind (fun _ => ⟨(), rfl⟩) fun _ => hk

/-- A procedure that goes on from the parser that it looks at. -/
private theorem follows_look_bind {k : Nat → Parser → Descent (Option β)} {f : Parse β} {g : Parser → Parse β}
    (h : ∀ p, Follows depth (fun calls => k calls p) (g p).run) (hf : ∀ p, f.run p = (g p).run p) :
    Follows depth (fun calls => look >>= k calls) f.run := by
  intro s hs
  refine gives_look_bind ?_
  rw [hf]
  exact h s.parser s hs

theorem follows_current_bind {k : Nat → Parser → Descent (Option β)} {g : Token → Parse β}
    (h : ∀ p, Follows depth (fun calls => k calls p) (g p.current).run) :
    Follows depth (fun calls => look >>= k calls) (Parse.current >>= g).run :=
  follows_look_bind h fun _ => rfl

theorem follows_operatorAt_bind (level : Level) {k : Nat → Parser → Descent (Option β)}
    {g : Option BinaryOp → Parse β} (h : ∀ p, Follows depth (fun calls => k calls p) (g (p.operator? level)).run) :
    Follows depth (fun calls => look >>= k calls) (Parse.operatorAt level >>= g).run :=
  follows_look_bind h fun _ => rfl

theorem follows_nested_tooDeep (m : Nat → Descent (Option α)) (hdepth : maxNesting ≤ depth) :
    Follows depth (fun calls => nested (m calls) calls) (Parse.tooDeep : Parse α).run := by
  rintro s rfl
  have hget : Gives (fun _ => (get : Descent State)) s (s, s.parser) := ⟨s.deepest, ⟨0, fun _ _ => rfl⟩, by omega⟩
  refine hget.bind fun s₁ _ h₁ => ?_
  simp only [if_pos hdepth]
  refine gives_act_bind ?_
  refine (gives_skip _).bind fun s₂ _ h₂ => ?_
  have hrun := gives_pure (none : Option α) s₂
  rw [h₂, h₁] at hrun
  exact hrun

theorem Follows.nested {m : Nat → Descent (Option α)} {f : Parse α} (h : Follows (depth + 1) m f.run)
    (hdepth : depth < maxNesting) : Follows depth (fun calls => nested (m calls) calls) f.run := by
  rintro s rfl
  obtain ⟨top, ⟨enough, hm⟩, htop⟩ := h ⟨s.parser, s.depth + 1, max s.deepest (s.depth + 1)⟩ rfl
  have hopen : ¬ maxNesting ≤ s.depth := by omega
  have hrun (calls : Nat) : (Descent.nested (m calls) calls).run s =
      (m calls).run ⟨s.parser, s.depth + 1, max s.deepest (s.depth + 1)⟩ >>= fun r =>
        some (r.1, ⟨r.2.parser, r.2.depth - 1, r.2.deepest⟩) := by
    simp only [Descent.nested, StateT.run_bind, StateT.run_get, Option.pure_def, Option.bind_eq_bind, Option.bind_some,
      if_neg hopen]
    rfl
  refine ⟨top, ⟨enough, fun calls hcalls => ?_⟩, ?_⟩
  · rw [hrun, hm calls hcalls]
    rfl
  · dsimp only at htop
    omega

/-! ### Expressions -/

section Levels

variable {level : Level} {f read : Parse Expr}

theorem Follows.further (h : Follows depth (operand level) f.run) (left : Expr) :
    Follows depth (further level left) (Parse.chainFrom level f left) := by
  intro s hs
  generalize hp : s.parser = p
  fun_induction Parse.chainFrom level f left p generalizing s with
  | case1 left p hop =>
    subst hp
    refine .called ?_
    refine gives_look_bind ?_
    simp only [hop]
    exact gives_pure (some left) s
  | case2 left p op hop q hr =>
    subst hp
    refine .called ?_
    refine gives_look_bind ?_
    simp only [hop]
    refine gives_act_bind ?_
    have hoperand := h ⟨s.parser.advance, s.depth, s.deepest⟩ hs
    rw [hr] at hoperand
    refine hoperand.bind fun s' _ hs' => ?_
    rw [← hs']
    exact gives_pure none s'
  | case3 left p op hop right q hr ih =>
    subst hp
    refine .called ?_
    refine gives_look_bind ?_
    simp only [hop]
    refine gives_act_bind ?_
    have hoperand := h ⟨s.parser.advance, s.depth, s.deepest⟩ hs
    rw [hr] at hoperand
    exact hoperand.bind fun s' hdepth hs' => ih s' (hdepth.trans hs) hs'

theorem Follows.chain (h : Follows depth (operand level) f.run) (hlevel : level.repeats = true) :
    Follows depth (atLevel level) (Parse.chain level f).run := by
  refine .called ?_
  simp only [Descent.atLevel, hlevel]
  exact h.bind (fun left => h.further left) fun _ => rfl

theorem Follows.single (h : Follows depth (operand level) f.run) (hlevel : level.repeats = false) :
    Follows depth (atLevel level) (Parse.single level f).run := by
  refine .called ?_
  simp only [Descent.atLevel, hlevel]
  refine h.bind (fun left => ?_) fun _ => rfl
  refine follows_operatorAt_bind level fun p => ?_
  cases p.operator? level with
  | none => exact follows_pure _
  | some op =>
    refine follows_take_bind fun _ => ?_
    exact h.bind (fun right => follows_pure _) fun _ => rfl

theorem Follows.factor (h : Follows depth primary read.run) :
    Follows depth factor (Parse.factorOver read).run := by
  refine .called ?_
  refine follows_current_bind fun p => ?_
  cases p.current.kind.prefixOp? with
  | none => exact h
  | some op =>
    refine follows_take_bind fun _ => ?_
    exact h.bind (fun e => follows_pure _) fun _ => rfl

/-- The levels in turn, each with the next tighter one for its operands. -/
theorem Follows.atLevel (h : Follows depth primary read.run) (level : Level) :
    Follows depth (atLevel level) (Parse.levelOver read level).run := by
  have hterm : Follows depth (Descent.atLevel .term) (Parse.termOver read).run :=
    .chain (.called h.factor) rfl
  have haddition : Follows depth (Descent.atLevel .addition) (Parse.additionOver read).run :=
    .chain (.called hterm) rfl
  have hrelation : Follows depth (Descent.atLevel .relation) (Parse.relationOver read).run :=
    .single (.called haddition) rfl
  have hequality : Follows depth (Descent.atLevel .equality) (Parse.equalityOver read).run :=
    .single (.called hrelation) rfl
  have hconjunction : Follows depth (Descent.atLevel .conjunction) (Parse.conjunctionOver read).run :=
    .chain (.called hequality) rfl
  cases level with
  | term => exact hterm
  | addition => exact haddition
  | relation => exact hrelation
  | equality => exact hequality
  | conjunction => exact hconjunction
  | disjunction => exact .chain (.called hconjunction) rfl

end Levels

section Primary

variable {inner f g : Parse Expr}

theorem follows_parenthesized (h : Follows depth (atLevel .disjunction) inner.run) :
    Follows depth parenthesized (Parse.parenthesized inner).run := by
  refine .called ?_
  refine follows_take_bind fun _ => ?_
  refine h.bind (fun e => ?_) fun _ => rfl
  exact follows_require_bind _ _ (follows_pure _)

theorem follows_conversion (h : Follows depth (atLevel .disjunction) inner.run) :
    Follows depth conversion (Parse.conversion inner).run := by
  refine .called ?_
  refine (follows_act .typeName).bind (fun target => ?_) fun _ => rfl
  refine follows_require_bind _ _ ?_
  refine h.bind (fun e => ?_) fun _ => rfl
  exact follows_require_bind _ _ (follows_pure _)

theorem follows_primaryOver (hp : Follows depth (fun calls => nested (parenthesized calls) calls) f.run)
    (hc : Follows depth (fun calls => nested (conversion calls) calls) g.run) :
    Follows depth primary (Parse.primaryOver f g).run := by
  refine .called ?_
  refine follows_current_bind fun p => ?_
  cases p.current.kind with
  | identifier => exact follows_take_bind fun _ => follows_pure _
  | intLiteral | floatLiteral | charLiteral | truth _ =>
    exact (follows_act .literal).bind (fun v => follows_pure _) fun _ => rfl
  | leftParen => exact hp
  | typeName _ => exact hc
  | _ => exact follows_act _

/-- With `depth` constructs open there is room for what is left. -/
theorem follows_primary (depth : Nat) : Follows depth primary (Parse.primaryIn (maxNesting - depth)).run := by
  generalize hroom : maxNesting - depth = room
  induction room generalizing depth with
  | zero => exact follows_primaryOver (follows_nested_tooDeep _ (by omega)) (follows_nested_tooDeep _ (by omega))
  | succ room ih =>
    have hinner := (ih (depth + 1) (by omega)).atLevel .disjunction
    exact follows_primaryOver ((follows_parenthesized hinner).nested (by omega))
      ((follows_conversion hinner).nested (by omega))

end Primary

theorem follows_expression (depth : Nat) :
    Follows depth expression (Parse.expressionIn (maxNesting - depth)).run :=
  (follows_primary depth).atLevel .disjunction

/-! ### Statements -/

section Statements

variable {e : Parse Expr} {f : Parse Stmt} {h : f.Advances}

theorem Follows.statements (hf : Follows depth statement f.run) (found : List Stmt) :
    Follows depth (statements found) (Parse.statementsOnto f h found) := by
  intro s hs
  generalize hp : s.parser = p
  fun_induction Parse.statementsOnto f h found p generalizing s with
  | case1 found p hend =>
    subst hp
    refine .called ?_
    refine gives_look_bind ?_
    simp only [if_pos hend]
    exact gives_pure _ s
  | case2 found p hend r ih =>
    subst hp
    refine .called ?_
    refine gives_look_bind ?_
    simp only [if_neg hend]
    exact (hf s hs).bind fun s' hdepth hs' => ih s' (hdepth.trans hs) hs'

theorem follows_ofOption (a? : Option α) : Follows depth (fun _ => pure a?) (Parse.ofOption a?).run := by
  cases a? <;> exact follows_pure _

/-- A statement that is put together of the test and the first branch, if both could be read. -/
private theorem follows_assembled (condition : Option Expr) (branch : Option Stmt) (assemble : Expr → Stmt → Stmt) :
    Follows depth (fun _ => pure do return assemble (← condition) (← branch))
      (do return assemble (← Parse.ofOption condition) (← Parse.ofOption branch) : Parse Stmt).run := by
  cases condition <;> cases branch <;> exact follows_pure _

theorem follows_test (he : Follows depth expression e.run) (context : String) :
    Follows depth (test context) (Parse.test e context).run := by
  refine follows_require_bind _ _ ?_
  refine he.bind_attempt fun e? => ?_
  exact follows_require_bind _ _ (follows_ofOption e?)

theorem follows_assignment (he : Follows depth expression e.run) :
    Follows depth assignment (Parse.assignment e).run := by
  refine (follows_act _).bind (fun target => ?_) fun _ => rfl
  refine (follows_act _).bind (fun _ => ?_) fun _ => rfl
  exact he.bind (fun source => follows_pure _) fun _ => rfl

theorem follows_block (hf : Follows depth statement f.run) :
    Follows depth block (Parse.block (Parse.statementsOver f h)).run := by
  refine .called ?_
  refine follows_require_bind _ _ ?_
  refine (hf.statements []).bind_total (fun _ => rfl) fun members => ?_
  exact follows_require_bind _ _ (follows_pure _)

theorem follows_conditional (he : Follows depth expression e.run) (hf : Follows depth statement f.run) :
    Follows depth conditional (Parse.conditional e f).run := by
  refine .called ?_
  refine follows_require_bind _ _ ?_
  refine (follows_test he _).bind_attempt fun condition => ?_
  refine hf.bind_attempt fun thenBranch => ?_
  refine follows_act_bind (fun p => ?_) fun found => ?_
  · rw [Parse.run_accept]
    split <;> exact ⟨_, rfl⟩
  · cases found with
    | true =>
      exact hf.bind (fun elseBranch => follows_assembled condition thenBranch (.ifElse · · elseBranch)) fun _ => rfl
    | false => exact follows_assembled condition thenBranch .ifThen

theorem follows_loop (he : Follows depth expression e.run) (hf : Follows depth statement f.run) :
    Follows depth loop (Parse.loop e f).run := by
  refine .called ?_
  refine follows_require_bind _ _ ?_
  refine (follows_test he _).bind_attempt fun condition => ?_
  exact hf.bind_attempt fun body => follows_assembled condition body .loop

theorem follows_statementOver {fb fc fl : Parse Stmt}
    (hb : Follows depth (fun calls => nested (block calls) calls) fb.run)
    (hc : Follows depth (fun calls => nested (conditional calls) calls) fc.run)
    (hl : Follows depth (fun calls => nested (loop calls) calls) fl.run) (he : Follows depth expression e.run) :
    Follows depth statement (Parse.statementOver fb fc fl (Parse.assignment e)).run := by
  refine .called ?_
  refine follows_current_bind fun p => ?_
  cases p.current.kind with
  | semicolon => exact follows_take_bind fun _ => follows_pure _
  | leftBrace => exact hb
  | ifWord => exact hc
  | whileWord => exact hl
  | identifier => exact follows_assignment he
  | _ => exact follows_act _

theorem follows_statement (depth : Nat) :
    Follows depth statement (Parse.statementIn (maxNesting - depth)).1.run := by
  have he := follows_expression depth
  generalize hroom : maxNesting - depth = room at *
  induction room generalizing depth with
  | zero =>
    have hfull : maxNesting ≤ depth := by omega
    exact follows_statementOver (follows_nested_tooDeep _ hfull) (follows_nested_tooDeep _ hfull)
      (follows_nested_tooDeep _ hfull) he
  | succ room ih =>
    have hroom' : maxNesting - (depth + 1) = room := by omega
    have hinner := follows_expression (depth + 1)
    rw [hroom'] at hinner
    have hf := ih (depth + 1) hroom' hinner
    exact follows_statementOver ((follows_block hf).nested (by omega))
      ((follows_conditional hinner hf).nested (by omega)) ((follows_loop hinner hf).nested (by omega)) he

end Statements

/-! ### Declarations and programs -/

theorem follows_names (found : List String) : Follows depth (names found) (Parse.namesOnto found) := by
  intro s hs
  generalize hp : s.parser = p
  fun_induction Parse.namesOnto found p generalizing s with
  | case1 found p q h =>
    subst hp
    refine .called ?_
    refine gives_act_bind ?_
    simp only [h]
    exact gives_pure _ _
  | case2 found p name q h hcomma ih =>
    subst hp
    refine .called ?_
    refine gives_act_bind ?_
    simp only [h]
    refine gives_look_bind ?_
    simp only [if_pos hcomma]
    exact gives_act_bind (ih _ hs rfl)
  | case3 found p name q h hcomma =>
    subst hp
    refine .called ?_
    refine gives_act_bind ?_
    simp only [h]
    refine gives_look_bind ?_
    simp only [if_neg hcomma]
    exact gives_pure _ _

theorem follows_declaration : Follows depth declaration Parse.declaration.run := by
  refine (follows_act _).bind (fun type => ?_) fun _ => rfl
  refine (follows_names []).bind_total (fun _ => rfl) fun names => ?_
  exact follows_require_bind _ _ (follows_pure _)

theorem follows_declarations (found : List Decl) :
    Follows depth (declarations found) (Parse.declarationsOnto found) := by
  intro s hs
  generalize hp : s.parser = p
  fun_induction Parse.declarationsOnto found p generalizing s with
  | case1 found p htype r ih =>
    subst hp
    refine .called ?_
    refine gives_look_bind ?_
    simp only [if_pos htype]
    exact (follows_declaration s hs).bind fun s' hdepth hs' => ih s' (hdepth.trans hs) hs'
  | case2 found p htype =>
    subst hp
    refine .called ?_
    refine gives_look_bind ?_
    simp only [if_neg htype]
    exact gives_pure _ s

/-- A program over the procedure for its statements. -/
def programOver (statements : Parse (List Stmt)) : Parse Program := do
  .require (.typeName .int) "program header"
  .require .mainWord "program header"
  .require .leftParen "program header"
  .require .rightParen "program header"
  .require .leftBrace "program body"
  let declarations ← Parse.declarations
  let body ← statements
  .require .rightBrace "program body"
  .require .endOfFile "program"
  .noteProgram declarations.length body.length
  return ⟨declarations, body⟩

theorem follows_program (depth : Nat) :
    Follows depth program (programOver (Parse.statementsIn (maxNesting - depth))).run := by
  -- the five tokens of the header
  iterate 5 refine follows_require_bind _ _ ?_
  refine (follows_declarations []).bind_total (fun _ => rfl) fun ds => ?_
  refine ((follows_statement depth).statements []).bind_total (fun _ => rfl) fun body => ?_
  refine follows_require_bind _ _ ?_
  refine follows_require_bind _ _ ?_
  exact follows_act_bind (fun _ => ⟨(), rfl⟩) fun _ => follows_pure _

end Descent

/-! ### Sessions -/

namespace Construct

/-- Reads a construct with so much room. -/
def readIn (room : Nat) (c : Construct) (p : Parser) : Fragment × Parser :=
  let expr (m : Parse Expr) : Fragment × Parser := let r := m.run p; (.expression r.1, r.2)
  match c with
  | program => let r := (Descent.programOver (Parse.statementsIn room)).run p; (.program (r.1.getD .empty), r.2)
  | declarations => let r := Parse.declarations.run p; (.declarations (r.1.getD []), r.2)
  | statements => let r := (Parse.statementsIn room).run p; (.statements (r.1.getD []), r.2)
  | statement => let r := (Parse.statementIn room).1.run p; (.statement r.1, r.2)
  | expression => expr (Parse.expressionIn room)
  | level l => expr (Parse.levelOver (Parse.primaryIn room) l)
  | factor => expr (Parse.factorOver (Parse.primaryIn room))
  | primary => expr (Parse.primaryIn room)

theorem readIn_maxNesting (c : Construct) (p : Parser) : c.readIn maxNesting p = c.read p := by
  cases c with
  | level l => cases l <;> rfl
  | _ => rfl

/-- With `depth` constructs open every construct is read with the room that is left. -/
theorem follows_descend (c : Construct) (depth : Nat) :
    Descent.Follows depth c.descend (c.readIn (maxNesting - depth)) := by
  have hprimary := Descent.follows_primary depth
  cases c with
  | program => exact (Descent.follows_program depth).bind_pure fun r => Fragment.program (r.getD .empty)
  | declarations => exact (Descent.follows_declarations []).bind_pure Fragment.declarations
  | statements => exact ((Descent.follows_statement depth).statements []).bind_pure Fragment.statements
  | statement => exact (Descent.follows_statement depth).bind_pure Fragment.statement
  | expression => exact (Descent.follows_expression depth).bind_pure Fragment.expression
  | level l => exact (hprimary.atLevel l).bind_pure Fragment.expression
  | factor => exact hprimary.factor.bind_pure Fragment.expression
  | primary => exact hprimary.bind_pure Fragment.expression

end Construct

namespace Descent

/-- With nothing open one construct after the other is read with all the room. -/
theorem gives_readAll (constructs : List Construct) {s : State} (hs : s.depth = 0) :
    Gives (readAll constructs) s (s.parser.readAll constructs) := by
  induction constructs generalizing s with
  | nil => exact gives_pure _ s
  | cons c cs ih =>
    have hread := c.follows_descend 0 s hs
    rw [Nat.sub_zero, Construct.readIn_maxNesting] at hread
    have hcons : readAll (c :: cs) = fun calls => do return (← c.descend calls) :: (← readAll cs calls) :=
      funext fun _ => List.mapM_cons
    rw [hcons, Parser.readAll]
    generalize c.read s.parser = r at hread ⊢
    obtain ⟨fragment, p⟩ := r
    refine hread.bind fun s₁ h₁ hs₁ => ?_
    have hrest := ih (h₁.trans hs)
    rw [hs₁] at hrest
    dsimp only at hrest ⊢
    refine hrest.bind fun s₂ _ hs₂ => ?_
    rw [← hs₂]
    exact gives_pure _ s₂

end Descent

end Clite
