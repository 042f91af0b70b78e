import Clite.Proofs.Parsing.Additions
import Clite.Proofs.Parsing.RoundTrip

/-!
# Chains of operators

A chain is an operand with further operands behind it, each after a binary operator of its own (`Link`).  The levels of
the grammar read it as one rule says: split it at the rightmost operator of the loosest level, and both sides again
(`Splits`).  Relations and equalities take one operator only, so an operator that clashes with an earlier one ends the
chain (`BinaryOp.Clashes`), and no level reads on behind it.  Each level carries this over from the next tighter one
(`ReadsChain.chain`, `ReadsChain.single`).
-/

namespace Clite

open Clite.Parser Clite.Grammar

/-- Levels that bind tighter have a higher rank. -/
def Level.rank : Level → Nat
  | disjunction => 0
  | conjunction => 1
  | equality => 2
  | relation => 3
  | addition => 4
  | term => 5

theorem Level.rank_inj {a b : Level} (h : a.rank = b.rank) : a = b := by
  cases a <;> cases b <;> first | rfl | cases h

/-- Does the level take one operator at most? -/
def Level.isSingle (level : Level) : Prop := level = .relation ∨ level = .equality

/-- How tightly the operator binds. -/
def BinaryOp.rank (op : BinaryOp) : Nat := op.level.rank

/-- The level of `op` takes one operator only and has one in `earlier`, with no looser operator between them. -/
def BinaryOp.Clashes (op : BinaryOp) (earlier : List BinaryOp) : Prop :=
  op.level.isSingle ∧ ∃ before other between, earlier = before ++ other :: between ∧ other.level = op.level ∧
    ∀ o ∈ between, op.rank ≤ o.rank

/-- A binary operator and the operand behind it, with their terminals. -/
structure Link where
  op : BinaryOp
  sign : String
  phrase : List Terminal
  operand : Expr

def Link.terminals (l : Link) : List Terminal := (.operator l.op, l.sign) :: l.phrase

/-- `Splits first links e`: the operand `first` with `links` behind it is the expression `e`, if it is split at the
rightmost operator of the loosest level, and so are both sides. -/
inductive Splits : Expr → List Link → Expr → Prop
  | operand (e : Expr) : Splits e [] e
  | split {first left right : Expr} {before after : List Link} {l : Link} :
    (∀ k ∈ before, l.op.rank ≤ k.op.rank) → (∀ k ∈ after, l.op.rank < k.op.rank) → Splits first before left →
      Splits l.operand after right → Splits first (before ++ l :: after) (.binary l.op left right)

/-! ### One tree for each chain -/

namespace Splits

variable {first e e' : Expr} {links : List Link}

private theorem eq_of_nil (h : Splits first links e) (hnil : links = []) : e = first := by
  cases h with
  | operand => rfl
  | split => simp at hnil

private theorem exists_of_ne_nil (h : Splits first links e) (hne : links ≠ []) :
    ∃ before l after left right, links = before ++ l :: after ∧ (∀ k ∈ before, l.op.rank ≤ k.op.rank) ∧
      (∀ k ∈ after, l.op.rank < k.op.rank) ∧ Splits first before left ∧ Splits l.operand after right ∧
      e = .binary l.op left right := by
  cases h with
  | operand => exact absurd rfl hne
  | split hbefore hafter hleft hright => exact ⟨_, _, _, _, _, rfl, hbefore, hafter, hleft, hright, rfl⟩

/-- The rightmost operator of the loosest level stands at one place only. -/
private theorem place_unique {before after before' after' : List Link} {l l' : Link}
    (heq : before ++ l :: after = before' ++ l' :: after') (hbefore : ∀ k ∈ before, l.op.rank ≤ k.op.rank)
    (hafter : ∀ k ∈ after, l.op.rank < k.op.rank) (hbefore' : ∀ k ∈ before', l'.op.rank ≤ k.op.rank)
    (hafter' : ∀ k ∈ after', l'.op.rank < k.op.rank) : before = before' ∧ l = l' ∧ after = after' := by
  rcases List.append_eq_append_iff.1 heq with ⟨mid, rfl, hmid⟩ | ⟨mid, rfl, hmid⟩
  · cases mid with
    | nil => simpa using hmid
    | cons k mid =>
      obtain ⟨rfl, rfl⟩ := List.cons.inj hmid
      have hlt := hafter l' (by simp)
      have hle := hbefore' l (by simp)
      omega
  · cases mid with
    | nil => simpa [eq_comm] using hmid
    | cons k mid =>
      obtain ⟨rfl, rfl⟩ := List.cons.inj hmid
      have hlt := hafter' l (by simp)
      have hle := hbefore l' (by simp)
      omega

theorem unique (h : Splits first links e) (h' : Splits first links e') : e = e' := by
  induction h generalizing e' with
  | operand => exact (h'.eq_of_nil rfl).symm
  | split hbefore hafter _ _ ihleft ihright =>
    obtain ⟨before', l', after', left', right', heq, hbefore', hafter', hleft, hright, rfl⟩ :=
      h'.exists_of_ne_nil (by simp)
    obtain ⟨rfl, rfl, rfl⟩ := place_unique heq hbefore hafter hbefore' hafter'
    rw [ihleft hleft, ihright hright]

end Splits

/-! ### Clashes -/

namespace BinaryOp

variable {op o : BinaryOp} {earlier later : List BinaryOp}

theorem Clashes.append_left (h : o.Clashes later) (earlier : List BinaryOp) : o.Clashes (earlier ++ later) := by
  obtain ⟨hsingle, before, other, between, rfl, hlevel, hbetween⟩ := h
  exact ⟨hsingle, earlier ++ before, other, between, by simp, hlevel, hbetween⟩

/-- What stands in front of a looser operator does not matter. -/
theorem Clashes.of_looser (h : o.Clashes (earlier ++ op :: later)) (hlt : op.rank < o.rank) : o.Clashes later := by
  obtain ⟨hsingle, before, other, between, heq, hlevel, hbetween⟩ := h
  have hrank : other.rank = o.rank := congrArg Level.rank hlevel
  rcases List.append_eq_append_iff.1 heq with ⟨mid, rfl, hmid⟩ | ⟨mid, rfl, hmid⟩
  · cases mid with
    | nil =>
      obtain ⟨rfl, rfl⟩ := List.cons.inj hmid
      omega
    | cons k mid =>
      obtain ⟨rfl, rfl⟩ := List.cons.inj hmid
      exact ⟨hsingle, mid, other, between, rfl, hlevel, hbetween⟩
  · cases mid with
    | nil =>
      obtain ⟨rfl, rfl⟩ := List.cons.inj hmid
      omega
    | cons k mid =>
      obtain ⟨rfl, rfl⟩ := List.cons.inj hmid
      have hle := hbetween op (by simp)
      omega

theorem not_clashes_of_not_single (h : ¬ op.level.isSingle) (earlier : List BinaryOp) : ¬ op.Clashes earlier :=
  fun hclash => h hclash.1

/-- Where all operators bind tighter there is none of the same level. -/
theorem not_clashes_of_lt (h : ∀ o ∈ earlier, op.rank < o.rank) : ¬ op.Clashes earlier := by
  rintro ⟨-, before, other, between, rfl, hlevel, -⟩
  have hlt := h other (by simp)
  have hrank : other.rank = op.rank := congrArg Level.rank hlevel
  omega

/-- A second operator of a level that takes one only. -/
theorem clashes_of_level {single : BinaryOp} (hsingle : single.level.isSingle) (hlevel : o.level = single.level)
    (h : ∀ k ∈ later, single.rank ≤ k.rank) (earlier : List BinaryOp) : o.Clashes (earlier ++ single :: later) := by
  refine ⟨hlevel ▸ hsingle, earlier, single, later, rfl, hlevel.symm, fun k hk => ?_⟩
  have hrank : o.rank = single.rank := congrArg Level.rank hlevel
  have hle := h k hk
  omega

end BinaryOp

/-! ### Reading a chain -/

namespace Link

/-- The operators of a chain. -/
def ops (links : List Link) : List BinaryOp := links.map Link.op

/-- No operator clashes with those in front of it. -/
def Free (links : List Link) : Prop := ∀ before l after, links = before ++ l :: after → ¬ l.op.Clashes (ops before)

theorem free_nil : Free [] := by
  intro before l after h
  simp at h

/-- A looser operator joins two chains without clashes. -/
theorem Free.join {read later : List Link} {l : Link} (h : Free read) (hl : ¬ l.op.Clashes (ops read))
    (h' : Free later) (hlt : ∀ k ∈ later, l.op.rank < k.op.rank) : Free (read ++ l :: later) := by
  intro before k after heq
  rcases List.append_eq_append_iff.1 heq with ⟨mid, rfl, hmid⟩ | ⟨mid, rfl, hmid⟩
  · cases mid with
    | nil =>
      obtain ⟨rfl, rfl⟩ := List.cons.inj hmid
      simpa using hl
    | cons _ mid =>
      obtain ⟨rfl, rfl⟩ := List.cons.inj hmid
      intro hclash
      have hlooser : k.op.Clashes (ops read ++ l.op :: ops mid) := by simpa [ops] using hclash
      exact h' mid k after rfl (hlooser.of_looser (hlt k (by simp)))
  · cases mid with
    | nil =>
      obtain ⟨rfl, rfl⟩ := List.cons.inj hmid
      simpa using hl
    | cons _ mid =>
      obtain ⟨rfl, rfl⟩ := List.cons.inj hmid
      exact h before k mid rfl

/-- Of the links `read ++ left` the level of this rank reads `read`: they bind tight enough and do not clash, and what
comes next is looser or clashes. -/
structure Extent (rank : Nat) (read left : List Link) : Prop where
  tight : ∀ l ∈ read, rank ≤ l.op.rank
  free : Free read
  stop : ∀ l ∈ left.head?, l.op.rank < rank ∨ l.op.Clashes (ops read)

/-- What comes next is no operator of the level itself. -/
theorem stop_of_level_ne {l : Link} {level : Level} {earlier : List BinaryOp}
    (h : l.op.rank < level.rank + 1 ∨ l.op.Clashes earlier) (hne : l.op.level ≠ level) :
    l.op.rank < level.rank ∨ l.op.Clashes earlier := by
  refine h.imp_left fun hlt => ?_
  have hrank : l.op.rank ≠ level.rank := fun heq => hne (Level.rank_inj heq)
  omega

/-- What a level has read while it may still go on: `read` behind `first` is `acc`, and the next of the links `left`
binds no tighter than the level does, or it clashes. -/
structure Reading (rank : Nat) (first acc : Expr) (read left : List Link) : Prop where
  splits : Splits first read acc
  tight : ∀ l ∈ read, rank ≤ l.op.rank
  free : Free read
  next : ∀ l ∈ left.head?, l.op.rank < rank + 1 ∨ l.op.Clashes (ops read)

section Reading

variable {rank : Nat} {first acc right : Expr} {read later left : List Link} {l : Link}

/-- The first operand has been read. -/
theorem Extent.reading (h : Extent (rank + 1) read left) (hacc : Splits first read acc) :
    Reading rank first acc read left :=
  ⟨hacc, fun l hl => Nat.le_of_succ_le (h.tight l hl), h.free, h.stop⟩

/-- One operator more and its operand. -/
theorem Reading.join (h : Reading l.op.rank first acc read (l :: (later ++ left))) (hl : ¬ l.op.Clashes (ops read))
    (hextent : Extent (l.op.rank + 1) later left) (hright : Splits l.operand later right) :
    Reading l.op.rank first (.binary l.op acc right) (read ++ l :: later) left := by
  have hlater : ∀ k ∈ later, l.op.rank < k.op.rank := hextent.tight
  refine ⟨.split h.tight hlater h.splits hright, ?_, h.free.join hl hextent.free hlater, fun k hk => ?_⟩
  · simp only [List.forall_mem_append, List.forall_mem_cons]
    exact ⟨h.tight, Nat.le_refl _, fun k hk => Nat.le_of_lt (hlater k hk)⟩
  · refine (hextent.stop k hk).imp_right fun hclash => ?_
    have happend := hclash.append_left (ops read ++ [l.op])
    simpa [ops] using happend

/-- The next link is none of the level's own. -/
theorem Reading.extent {level : Level} (h : Reading level.rank first acc read left)
    (hne : ∀ l ∈ left.head?, l.op.level ≠ level) : Extent level.rank read left :=
  ⟨h.tight, h.free, fun l hl => stop_of_level_ne (h.next l hl) (hne l hl)⟩

end Reading

end Link

namespace Parse

open Clite.Link

/-- In front of a chain of operands of `R`, with no operator behind it, `m` reads a stretch of the chain. -/
def ReadsChain (m : Parse Expr) (R : Phrase Expr) (rank : Nat) : Prop :=
  ∀ u first links rest, R u first → (∀ l ∈ links, R l.phrase l.operand) → NoOperator rest →
    m.Succeeds (u ++ (links.flatMap Link.terminals ++ rest)) fun e after => ∃ read left,
      links = read ++ left ∧ after = left.flatMap Link.terminals ++ rest ∧ Splits first read e ∧ Extent rank read left

variable {operand : Parse Expr} {R : Phrase Expr} {level : Level}

/-- The operator of a level comes next if the next link has one. -/
private theorem operator?_links {p : Parser} {left : List Link} {rest : List Terminal} (hrest : NoOperator rest)
    (hp : p.upcoming = left.flatMap Link.terminals ++ rest) :
    p.operator? level = (left.head?.map Link.op).filter (·.level = level) := by
  ext op
  rw [operator?_eq_some, hp]
  cases left with
  | nil => simpa [Parser.headKind] using fun h => absurd h (hrest op)
  | cons l left => simp [Link.terminals, headKind]

/-- The loop of a chain goes on as long as operators of its level come. -/
private theorem chainFrom_links (h : operand.ReadsChain R (level.rank + 1)) (hmany : ¬ level.isSingle)
    {rest : List Terminal} (hrest : NoOperator rest) (length : Nat) {first acc : Expr} {read left : List Link}
    (hlength : left.length = length) (hleft : ∀ l ∈ left, R l.phrase l.operand)
    (hreading : Reading level.rank first acc read left) {p : Parser} (hreg : p.Regular)
    (hp : p.upcoming = left.flatMap Link.terminals ++ rest) :
    ∃ e q read' left', chainFrom level operand acc p = (some e, q) ∧ q.syntaxErrors = p.syntaxErrors ∧
      read ++ left = read' ++ left' ∧ q.upcoming = left'.flatMap Link.terminals ++ rest ∧ Splits first read' e ∧
      Extent level.rank read' left' := by
  induction length using Nat.strong_induction_on generalizing acc read left p with
  | _ length ih =>
    have hop : p.operator? level = (left.head?.map Link.op).filter (·.level = level) := operator?_links hrest hp
    by_cases hcomes : ∃ l rest', left = l :: rest' ∧ l.op.level = level
    · obtain ⟨l, links, rfl, rfl⟩ := hcomes
      rw [List.forall_mem_cons] at hleft
      rw [List.head?_cons, Option.map_some, Option.filter_some, if_pos (by simp)] at hop
      rw [List.flatMap_cons, Link.terminals, List.cons_append, List.cons_append, List.append_assoc] at hp
      obtain ⟨right, q, hrun, hq, hcq, later, left', rfl, hupcoming, hright, hextent⟩ :=
        (h _ _ _ _ hleft.1 hleft.2 hrest).run_eq hreg.advance (upcoming_advance hp)
      have hjoined : Reading l.op.rank first (.binary l.op acc right) (read ++ l :: later) left' :=
        hreading.join (BinaryOp.not_clashes_of_not_single hmany _) hextent hright
      obtain ⟨e, r, read', left'', hchain, hcr, hsplit, hr⟩ := ih left'.length
        (by simp only [← hlength, List.length_cons, List.length_append]; omega) rfl
        (fun k hk => hleft.2 k (List.mem_append_right _ hk)) hjoined hq hupcoming
      refine ⟨e, r, read', left'', ?_, hcr.trans hcq, ?_, hr⟩
      · rw [chainFrom_of_some hop hrun]
        exact hchain
      · rw [← hsplit, List.append_assoc, List.cons_append]
    · have hnone : p.operator? level = none := by
        rw [hop]
        cases left with
        | nil => rfl
        | cons l links => simpa using fun hl => hcomes ⟨l, links, rfl, hl⟩
      refine ⟨acc, p, read, left, chainFrom_of_none hnone acc, rfl, rfl, hp, hreading.splits,
        hreading.extent fun l hl heq => ?_⟩
      obtain ⟨links, rfl⟩ := List.head?_eq_some_iff.1 hl
      exact hcomes ⟨l, links, rfl, heq⟩

theorem ReadsChain.chain (h : operand.ReadsChain R (level.rank + 1)) (hmany : ¬ level.isSingle) :
    (chain level operand).ReadsChain R level.rank := by
  intro u first links rest hfirst hlinks hrest
  refine (h u first links rest hfirst hlinks hrest).bind ?_
  rintro acc _ ⟨read, left, rfl, rfl, hacc, hextent⟩ p hreg hp
  have hleft : ∀ l ∈ left, R l.phrase l.operand := fun l hl => hlinks l (List.mem_append_right _ hl)
  obtain ⟨e, q, read', left', hrun, hc, hsplit, hq, he, hextent'⟩ :=
    chainFrom_links h hmany hrest _ rfl hleft (hextent.reading hacc) hreg hp
  dsimp only
  rw [hrun]
  exact ⟨hc, e, rfl, read', left', hsplit, hq, he, hextent'⟩

theorem ReadsChain.single (h : operand.ReadsChain R (level.rank + 1)) (hone : level.isSingle) :
    (single level operand).ReadsChain R level.rank := by
  intro u first links rest hfirst hlinks hrest
  refine (h u first links rest hfirst hlinks hrest).bind ?_
  rintro e _ ⟨read, left, rfl, rfl, he, hextent⟩
  have hreading : Reading level.rank first e read left := hextent.reading he
  refine (succeeds_operatorAt level _).bind ?_
  rintro op? _ ⟨rfl, hop⟩
  cases op? with
  | none =>
    refine succeeds_pure ⟨read, left, rfl, rfl, he, hreading.extent fun l hl hlevel => ?_⟩
    obtain ⟨links, rfl⟩ := List.head?_eq_some_iff.1 hl
    exact absurd ((hop l.op).2 ⟨rfl, hlevel⟩) (by simp)
  | some op =>
    obtain ⟨hnext, hlevel⟩ := (hop op).1 rfl
    obtain ⟨l, links, rfl⟩ : ∃ l links, left = l :: links := by
      cases left with
      | nil => exact absurd hnext (hrest op)
      | cons l links => exact ⟨l, links, rfl⟩
    obtain rfl : l.op = op := by simpa [Link.terminals, headKind] using hnext
    obtain rfl : l.op.level = level := hlevel
    have hlinks' := fun k hk => hlinks k (List.mem_append_right _ hk)
    rw [List.forall_mem_cons] at hlinks'
    rw [List.flatMap_cons, Link.terminals, List.cons_append, List.cons_append, List.append_assoc]
    refine succeeds_take.bind ?_
    rintro - _ ⟨-, rfl⟩
    refine (h _ _ _ _ hlinks'.1 hlinks'.2 hrest).bind ?_
    rintro right _ ⟨later, left', rfl, rfl, hright, hextent'⟩
    have hfree : ¬ l.op.Clashes (ops read) := by
      refine BinaryOp.not_clashes_of_lt fun o ho => ?_
      obtain ⟨k, hk, rfl⟩ := List.mem_map.1 ho
      exact hextent.tight k hk
    have hjoined : Reading l.op.rank first (.binary l.op e right) (read ++ l :: later) left' :=
      hreading.join hfree hextent' hright
    refine succeeds_pure ⟨read ++ l :: later, left', by simp, rfl, hjoined.splits, hjoined.tight, hjoined.free,
      fun k hk => ?_⟩
    by_cases hsame : k.op.level = l.op.level
    · -- a second operator of this level clashes with the one just read
      have hops : ops (read ++ l :: later) = ops read ++ l.op :: ops later := by simp [ops]
      rw [hops]
      refine .inr (BinaryOp.clashes_of_level hone hsame (fun o ho => ?_) _)
      obtain ⟨m, hm, rfl⟩ := List.mem_map.1 ho
      exact Nat.le_of_succ_le (hextent'.tight m hm)
    · exact stop_of_level_ne (hjoined.next k hk) hsame

/-- A factor is read up to the operator behind it. -/
theorem readsChain_factorOver {primary : Parse Expr} {Primary : Phrase Expr}
    (h : (factorOver primary).Complete (Factor Primary) fun _ => True) :
    (factorOver primary).ReadsChain (Factor Primary) (Level.term.rank + 1) := by
  intro u first links rest hfirst _ _
  refine (h u first _ hfirst trivial).imp ?_
  rintro e _ ⟨rfl, rfl⟩
  refine ⟨[], links, rfl, rfl, .operand e, nofun, free_nil, fun l _ => .inl ?_⟩
  have hrank : ∀ level : Level, level.rank < Level.term.rank + 1 := fun level => by cases level <;> decide
  exact hrank l.op.level

/-- All levels together read a chain up to the first operator that clashes. -/
theorem readsChain_disjunctionOver {primary : Parse Expr} {Primary : Phrase Expr}
    (h : (factorOver primary).Complete (Factor Primary) fun _ => True) :
    (disjunctionOver primary).ReadsChain (Factor Primary) 0 := by
  have hterm : (termOver primary).ReadsChain (Factor Primary) Level.term.rank :=
    (readsChain_factorOver h).chain (by simp [Level.isSingle])
  have haddition : (additionOver primary).ReadsChain (Factor Primary) Level.addition.rank :=
    hterm.chain (by simp [Level.isSingle])
  have hrelation : (relationOver primary).ReadsChain (Factor Primary) Level.relation.rank :=
    haddition.single (.inl rfl)
  have hequality : (equalityOver primary).ReadsChain (Factor Primary) Level.equality.rank :=
    hrelation.single (.inr rfl)
  have hconjunction : (conjunctionOver primary).ReadsChain (Factor Primary) Level.conjunction.rank :=
    hequality.chain (by simp [Level.isSingle])
  exact hconjunction.chain (by simp [Level.isSingle])

/-- An expression in front of a chain of factors, with no operator behind the chain, is read up to the first operator
that clashes with an earlier one, and to the end of the chain if none does.  The parser then looks at what comes next,
the tree is the one that the chain splits into, and nothing is reported but the lexical errors of the text passed. -/
theorem expression_reads_chain {p : Parser} (hreg : p.Regular) {u rest : List Terminal} {first : Expr}
    {links : List Link} (hfirst : Factor (Primary 64) u first)
    (hlinks : ∀ l ∈ links, Factor (Primary 64) l.phrase l.operand) (hrest : NoOperator rest)
    (hp : p.upcoming = u ++ (links.flatMap Link.terminals ++ rest)) :
    let q := (expression.run p).2
    q.syntaxErrors = p.syntaxErrors ∧
    (∀ passed, p.lexer.pieces = passed ++ q.lexer.pieces → (∀ piece ∈ passed, piece.isFaulty = false) →
      q.diagnostics = p.diagnostics) ∧
    ∃ read left e, links = read ++ left ∧
      (∀ before l after, read = before ++ l :: after → ¬ l.op.Clashes (ops before)) ∧
      (∀ l ∈ left.head?, l.op.Clashes (ops read) ∧ q.current.kind = .operator l.op) ∧
      q.upcoming = left.flatMap Link.terminals ++ rest ∧
      (expression.run p).1 = some e ∧ ∀ e', Splits first read e' ↔ e' = e := by
  intro q
  have hfactor := complete_factorOver (complete_primaryIn 64) (prefixOp?_headKind_primary 64)
  have hreads : expression.ReadsChain (Factor (Primary 64)) 0 := readsChain_disjunctionOver hfactor
  obtain ⟨hc, e, hresult, read, left, rfl, hq, he, hextent⟩ := hreads u first links rest hfirst hlinks hrest p hreg hp
  have hreaches : p.Reaches q := expression.reaches_run p
  refine ⟨hc, fun passed hpassed hclean => hreaches.diagnostics_eq hc hpassed hclean, read, left, e, rfl,
    hextent.free, fun l hl => ⟨?_, ?_⟩, hq, hresult, fun e' => ⟨fun h => h.unique he, fun h => h ▸ he⟩⟩
  · exact (hextent.stop l hl).resolve_left (Nat.not_lt_zero _)
  · obtain ⟨links, rfl⟩ := List.head?_eq_some_iff.1 hl
    have hkind : q.current.kind = headKind q.upcoming := q.kind_current
    rw [hkind, hq]
    rfl

/-- The last operator is relational behind a relational one, with no looser operator between them. -/
theorem expression_reads_chain_clashing :
    let links : List Link :=
      [⟨.less, "<", [(.identifier, "b")], .var "b"⟩,
        ⟨.equal, "==", [(.bang, "!"), (.identifier, "c")], .unary .not (.var "c")⟩,
        ⟨.add, "+", [(.leftParen, ""), (.identifier, "d"), (.rightParen, "")], .var "d"⟩,
        ⟨.greater, ">", [(.truth true, "true")], .literal (.bool true)⟩,
        ⟨.less, "<", [(.identifier, "e")], .var "e"⟩]
    let tree : Expr := .binary .equal (.binary .less (.var "a") (.var "b"))
      (.binary .greater (.binary .add (.unary .not (.var "c")) (.var "d")) (.literal (.bool true)))
    let p := Parser.ofSource "a<b == !c+(d) > true < e;"
    (∀ l ∈ links, Factor (Primary 64) l.phrase l.operand) ∧
    p.upcoming = [(.identifier, "a")] ++ (links.flatMap Link.terminals ++ [(.semicolon, "")]) ∧
    (expression.run p).2.syntaxErrors = p.syntaxErrors ∧
    (expression.run p).2.current.kind = .operator .less ∧
    ∃ read left, links = read ++ left ∧ Splits (.var "a") read tree := by
  intro links tree p
  have hname (x : String) : Factor (Primary 64) [(.identifier, x)] (.var x) := .plain .identifier
  have hinner : Disjunction (Primary 63) [(.identifier, "d")] (.var "d") := Disjunction.factor (.plain .identifier)
  have hparenthesized : Primary 64 ((.leftParen, "") :: ([(.identifier, "d")] ++ [(.rightParen, "")])) (.var "d") :=
    .parenthesized "" "" hinner
  have hlinks : ∀ l ∈ links, Factor (Primary 64) l.phrase l.operand := by
    simp only [links, List.forall_mem_cons]
    exact ⟨hname "b", .not .identifier, .plain hparenthesized, .plain (.literal .truth), hname "e", nofun⟩
  have hupcoming : p.upcoming = [(.identifier, "a")] ++ (links.flatMap Link.terminals ++ [(.semicolon, "")]) := by
    decide +kernel
  have hresult : (expression.run p).1 = some tree := by decide +kernel
  obtain ⟨hc, -, read, left, e, hsplit, -, -, -, he, hsplits⟩ := expression_reads_chain (Parser.regular_ofSource _)
    (hname "a") hlinks (by simp [NoOperator, headKind]) hupcoming
  obtain rfl : e = tree := Option.some.inj (he.symm.trans hresult)
  exact ⟨hlinks, hupcoming, hc, by decide +kernel, read, left, hsplit, (hsplits tree).2 rfl⟩

end Parse

end Clite
