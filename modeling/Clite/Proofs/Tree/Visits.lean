import Clite.Proofs.Tree.Parts

/-!
# What a walk visits

A node may occur in a tree more than once, so it is told by its place, the way that leads down to it
(`Node.partAt?`).  In pre-order the nodes of a tree have the places `Node.places`, each of them once.  A walk comes to
all of these nodes but those below a node whose parts the visitor has skipped, and it hands the visitor's state on from
each to the next (`Node.walk_visits`): whatever is skipped, its neighbours and their parts are not left out.
-/

namespace Clite

namespace Node

/-- The node at a place of the tree, which says the part to take in each step of the way down. -/
def partAt? (n : Node) : List Nat → Option Node
  | [] => some n
  | i :: place => n.parts[i]?.bind (·.partAt? place)

end Node

/-- A node at its place in a tree. -/
structure Placed where
  place : List Nat
  node : Node

/-- The node at its place in the tree of which its own is part `i`. -/
def Placed.under (i : Nat) (x : Placed) : Placed := ⟨i :: x.place, x.node⟩

namespace Node

theorem length_preorder (n : Node) : n.preorder.length = (n.parts.flatMap preorder).length + 1 := by
  rw [preorder_eq, List.length_cons]

mutual

/-- The nodes of a tree in pre-order at their places. -/
def places (n : Node) : List Placed := ⟨[], n⟩ :: placesFrom 0 n.parts
termination_by 2 * n.preorder.length
decreasing_by
  rw [n.length_preorder]
  omega

/-- The nodes of trees that are the parts of a tree from part `k` on. -/
def placesFrom (k : Nat) : List Node → List Placed
  | [] => []
  | part :: parts => part.places.map (.under k) ++ placesFrom (k + 1) parts
termination_by parts => 2 * (parts.flatMap preorder).length + 1
decreasing_by
  · rw [List.flatMap_cons, List.length_append]
    omega
  · rw [List.flatMap_cons, List.length_append, part.length_preorder]
    omega

end

theorem mem_placesFrom_iff {k : Nat} {parts : List Node} {x : Placed} :
    x ∈ placesFrom k parts ↔
      ∃ (i : Nat) (part : Node), parts[i]? = some part ∧ ∃ y ∈ part.places, .under (k + i) y = x := by
  induction parts generalizing k with
  | nil => simp [placesFrom]
  | cons part parts ih =>
    rw [placesFrom, List.mem_append, List.mem_map, ih]
    constructor
    · rintro (⟨y, hy, rfl⟩ | ⟨i, part', hpart', y, hy, rfl⟩)
      · exact ⟨0, part, rfl, y, hy, rfl⟩
      · exact ⟨i + 1, part', hpart', y, hy, by rw [Nat.add_right_comm, Nat.add_assoc]⟩
    · rintro ⟨i, part', hpart', y, hy, rfl⟩
      cases i with
      | zero =>
        obtain rfl : part = part' := Option.some.inj hpart'
        exact .inl ⟨y, hy, rfl⟩
      | succ i => exact .inr ⟨i, part', hpart', y, hy, by rw [Nat.add_right_comm, Nat.add_assoc]⟩

/-- The first step to a part of a tree says which part it lies in. -/
theorem exists_cons_of_mem_placesFrom {k : Nat} {parts : List Node} {x : Placed} (h : x ∈ placesFrom k parts) :
    ∃ i place, x.place = i :: place ∧ k ≤ i := by
  obtain ⟨i, part, -, y, -, rfl⟩ := mem_placesFrom_iff.1 h
  exact ⟨k + i, y.place, rfl, Nat.le_add_right k i⟩

/-- Every node of a tree has its place there. -/
theorem mem_places_iff {n m : Node} {place : List Nat} : ⟨place, m⟩ ∈ n.places ↔ n.partAt? place = some m := by
  induction place generalizing n with
  | nil =>
    rw [places, List.mem_cons, partAt?, Option.some_inj]
    constructor
    · rintro (h | h)
      · exact (Placed.mk.inj h).2.symm
      · obtain ⟨i, place, ⟨⟩, -⟩ := exists_cons_of_mem_placesFrom h
    · rintro rfl
      exact .inl rfl
  | cons i place ih =>
    rw [places, List.mem_cons, mem_placesFrom_iff, partAt?, Option.bind_eq_some_iff]
    constructor
    · rintro (h | ⟨j, part, hpart, ⟨place', m'⟩, hy, hunder⟩)
      · cases (Placed.mk.inj h).1
      · simp only [Placed.under, Placed.mk.injEq, List.cons.injEq, Nat.zero_add] at hunder
        obtain ⟨⟨rfl, rfl⟩, rfl⟩ := hunder
        exact ⟨part, hpart, ih.1 hy⟩
    · rintro ⟨part, hpart, hm⟩
      exact .inr ⟨i, part, hpart, ⟨place, m⟩, ih.2 hm, by rw [Nat.zero_add]; rfl⟩

private theorem map_node_placesFrom {parts : List Node}
    (ih : ∀ part ∈ parts, part.places.map Placed.node = part.preorder) (k : Nat) :
    (placesFrom k parts).map Placed.node = parts.flatMap preorder := by
  induction parts generalizing k with
  | nil => rw [placesFrom]; rfl
  | cons part parts ihparts =>
    rw [List.forall_mem_cons] at ih
    rw [placesFrom, List.map_append, List.map_map, ihparts ih.2, List.flatMap_cons, ← ih.1]
    rfl

theorem map_node_places (n : Node) : n.places.map Placed.node = n.preorder := by
  induction n using Node.induction with
  | h n ih => rw [places, List.map_cons, map_node_placesFrom ih, preorder_eq]

/-- The parts of a node lie apart. -/
theorem apart_placesFrom {k : Nat} {part : Node} {parts : List Node} :
    ∀ x ∈ part.places.map (Placed.under k), ∀ y ∈ placesFrom (k + 1) parts,
      ¬ x.place <+: y.place ∧ ¬ y.place <+: x.place := by
  intro x hx y hy
  obtain ⟨x, -, rfl⟩ := List.mem_map.1 hx
  obtain ⟨i, place, hi, hlt⟩ := exists_cons_of_mem_placesFrom hy
  rw [hi, Placed.under, List.cons_prefix_cons, List.cons_prefix_cons]
  omega

private theorem pairwise_placesFrom {parts : List Node}
    (ih : ∀ part ∈ parts, part.places.Pairwise fun x y => ¬ y.place <+: x.place) (k : Nat) :
    (placesFrom k parts).Pairwise fun x y => ¬ y.place <+: x.place := by
  induction parts generalizing k with
  | nil => rw [placesFrom]; exact .nil
  | cons part parts ihparts =>
    rw [List.forall_mem_cons] at ih
    rw [placesFrom, List.pairwise_append, List.pairwise_map]
    refine ⟨ih.1.imp fun hxy h => hxy (List.cons_prefix_cons.1 h).2, ihparts ih.2 (k + 1), ?_⟩
    exact fun x hx y hy => (apart_placesFrom x hx y hy).2

/-- A node stands before all that are below it. -/
theorem pairwise_places (n : Node) : n.places.Pairwise fun x y => ¬ y.place <+: x.place := by
  induction n using Node.induction with
  | h n ih =>
    rw [places, List.pairwise_cons]
    refine ⟨fun x hx => ?_, pairwise_placesFrom ih 0⟩
    obtain ⟨i, place, hplace, -⟩ := exists_cons_of_mem_placesFrom hx
    rw [hplace, List.prefix_nil]
    exact List.cons_ne_nil i place

/-- No place occurs twice. -/
theorem nodup_places (n : Node) : (n.places.map Placed.place).Nodup := by
  refine List.pairwise_map.2 (n.pairwise_places.imp fun {x y} hxy (heq : x.place = y.place) => hxy ?_)
  simp [heq]

end Node

/-! ### What is skipped -/

section Skipping

variable {σ : Type} (visit : Visitor σ)

/-- The places at which a visitor skips the parts, when it comes to these nodes one after the other. -/
def Visitor.skipped (visit : Visitor σ) (s : σ) : List Placed → List (List Nat)
  | [] => []
  | x :: rest =>
    match (visit x.node s).1 with
    | .skip => x.place :: Visitor.skipped visit (visit.after s x.node) rest
    | .enter => Visitor.skipped visit (visit.after s x.node) rest

/-- The state behind these nodes. -/
def Visitor.afterAll (visit : Visitor σ) (s : σ) (xs : List Placed) : σ :=
  xs.foldl (fun s x => visit.after s x.node) s

theorem Visitor.afterAll_append (s : σ) (xs ys : List Placed) :
    visit.afterAll s (xs ++ ys) = visit.afterAll (visit.afterAll s xs) ys := List.foldl_append

theorem Visitor.skipped_append (s : σ) (xs ys : List Placed) :
    visit.skipped s (xs ++ ys) = visit.skipped s xs ++ visit.skipped (visit.afterAll s xs) ys := by
  induction xs generalizing s with
  | nil => rfl
  | cons x xs ih =>
    rw [List.cons_append, skipped, skipped, ih, afterAll, afterAll, List.foldl_cons]
    cases (visit x.node s).1 <;> rfl

theorem Visitor.skipped_under (s : σ) (i : Nat) (xs : List Placed) :
    visit.skipped s (xs.map (.under i)) = (visit.skipped s xs).map (i :: ·) := by
  induction xs generalizing s with
  | nil => rfl
  | cons x xs ih =>
    rw [List.map_cons, skipped, skipped, Placed.under, ih]
    cases (visit x.node s).1 <;> rfl

theorem Visitor.afterAll_under (s : σ) (i : Nat) (xs : List Placed) :
    visit.afterAll s (xs.map (.under i)) = visit.afterAll s xs := by
  rw [afterAll, List.foldl_map]
  rfl

theorem Visitor.skipped_sublist (s : σ) (xs : List Placed) :
    (visit.skipped s xs).Sublist (xs.map Placed.place) := by
  induction xs generalizing s with
  | nil => exact .slnil
  | cons x xs ih =>
    rw [skipped, List.map_cons]
    cases (visit x.node s).1 with
    | enter => exact (ih _).cons _
    | skip => exact (ih _).cons_cons _

end Skipping

/-- The place is below one of the others. -/
def IsBelow (place : List Nat) (others : List (List Nat)) : Prop :=
  ∃ above ∈ others, above <+: place ∧ above ≠ place

instance (place : List Nat) (others : List (List Nat)) : Decidable (IsBelow place others) :=
  inferInstanceAs (Decidable (∃ above ∈ others, above <+: place ∧ above ≠ place))

namespace IsBelow

variable {i : Nat} {place : List Nat} {others others' : List (List Nat)}

theorem not_root : ¬ IsBelow [] others := by
  rintro ⟨above, -, hfront, hne⟩
  exact hne (List.prefix_nil.1 hfront)

theorem of_root (h : place ≠ []) : IsBelow place [[]] :=
  ⟨[], List.mem_singleton_self [], List.nil_prefix, h.symm⟩

theorem append_iff : IsBelow place (others ++ others') ↔ IsBelow place others ∨ IsBelow place others' := by
  simp only [IsBelow, List.mem_append, or_and_right, exists_or]

/-- Within one part the first step makes no difference. -/
theorem under_iff : IsBelow (i :: place) (others.map (i :: ·)) ↔ IsBelow place others := by
  constructor
  · rintro ⟨_, hmem, hfront, hne⟩
    obtain ⟨above, habove, rfl⟩ := List.mem_map.1 hmem
    exact ⟨above, habove, (List.cons_prefix_cons.1 hfront).2, fun h => hne (congrArg _ h)⟩
  · rintro ⟨above, habove, hfront, hne⟩
    exact ⟨i :: above, List.mem_map_of_mem habove, List.cons_prefix_cons.2 ⟨rfl, hfront⟩,
      fun h => hne (List.cons.inj h).2⟩

end IsBelow

/-! ### What is visited -/

section Visiting

variable {σ : Type} {visit : Visitor σ} {n : Node} {s : σ}

/-- Only the places of the nodes themselves are skipped. -/
theorem Visitor.not_isBelow_skipped {xs : List Placed} {place : List Nat}
    (h : ∀ x ∈ xs, x.place <+: place → x.place = place) : ¬ IsBelow place (visit.skipped s xs) := by
  rintro ⟨above, habove, hfront, hne⟩
  obtain ⟨x, hx, rfl⟩ := List.mem_map.1 ((visit.skipped_sublist s xs).subset habove)
  exact hne (h x hx hfront)

/-- Of all these nodes the visitor comes to the visited ones: those that are not below a node whose parts it skips. -/
def Visitor.Visits (visit : Visitor σ) (s : σ) (all visited : List Placed) : Prop :=
  visited = all.filter fun x => ¬ IsBelow x.place (visit.skipped s visited)

namespace Visitor.Visits

variable {all all' visited visited' : List Placed}

theorem nil : visit.Visits s [] [] := rfl

theorem subset (h : visit.Visits s all visited) : visited ⊆ all := by
  intro x hx
  rw [Visits] at h
  rw [h] at hx
  exact (List.mem_filter.1 hx).1

/-- What lies apart from all that may be visited is not below it. -/
theorem not_isBelow (h : visit.Visits s all visited) {x : Placed} (hx : ∀ y ∈ all, ¬ y.place <+: x.place) :
    ¬ IsBelow x.place (visit.skipped s visited) :=
  not_isBelow_skipped fun y hy hfront => absurd hfront (hx y (h.subset hy))

/-- Trees that lie apart are visited one behind the other. -/
theorem append (h : visit.Visits s all visited) (h' : visit.Visits (visit.afterAll s visited) all' visited')
    (hapart : ∀ x ∈ all, ∀ y ∈ all', ¬ x.place <+: y.place ∧ ¬ y.place <+: x.place) :
    visit.Visits s (all ++ all') (visited ++ visited') := by
  rw [Visits, skipped_append, List.filter_append]
  congr 1
  · refine h.trans (List.filter_congr fun x hx => ?_)
    have hnot := h'.not_isBelow (x := x) fun y hy => (hapart x hx y hy).2
    simp only [IsBelow.append_iff, hnot, or_false]
  · refine h'.trans (List.filter_congr fun y hy => ?_)
    have hnot := h.not_isBelow (x := y) fun x hx => (hapart x hx y hy).1
    simp only [IsBelow.append_iff, hnot, false_or]

/-- In a part of a larger tree the same nodes are visited. -/
theorem under (h : visit.Visits s all visited) (i : Nat) :
    visit.Visits s (all.map (.under i)) (visited.map (.under i)) := by
  rw [Visits, skipped_under, List.filter_map]
  refine congrArg _ (h.trans (List.filter_congr fun x _ => ?_))
  simp only [Function.comp_apply, Placed.under, IsBelow.under_iff]

/-- The same, where all below some closed places is left out from the start. -/
private def Outside (visit : Visitor σ) (closed : List (List Nat)) (s : σ) (all visited : List Placed) : Prop :=
  visited = all.filter fun x => ¬ IsBelow x.place (closed ++ visit.skipped s visited)

/-- The first node is left out when it is below a closed place, as what is skipped behind it is not above it. -/
private theorem Outside.cons_cases {closed : List (List Nat)} {x : Placed}
    (h : Outside visit closed s (x :: all) visited) (hx : ∀ y ∈ all, ¬ y.place <+: x.place) :
    (IsBelow x.place closed ∧ Outside visit closed s all visited) ∨
      (¬ IsBelow x.place closed ∧ ∃ rest, visited = x :: rest ∧
        Outside visit (closed ++ visit.skipped s [x]) (visit.after s x.node) all rest) := by
  rw [Outside] at h
  have hskipped : ¬ IsBelow x.place (visit.skipped s visited) := by
    refine not_isBelow_skipped fun y hy hfront => ?_
    rw [h] at hy
    obtain rfl | hy := List.mem_cons.1 (List.mem_filter.1 hy).1
    · rfl
    · exact absurd hfront (hx y hy)
  by_cases hclosed : IsBelow x.place closed
  · rw [List.filter_cons_of_neg (by simp [IsBelow.append_iff, hclosed])] at h
    exact .inl ⟨hclosed, h⟩
  · rw [List.filter_cons_of_pos (by simp [IsBelow.append_iff, hclosed, hskipped])] at h
    obtain ⟨rest, hrest⟩ : ∃ rest, rest = all.filter fun y => ¬ IsBelow y.place (closed ++ visit.skipped s visited) :=
      ⟨_, rfl⟩
    rw [← hrest] at h
    subst h
    have hsplit : visit.skipped s (x :: rest) = visit.skipped s [x] ++ visit.skipped (visit.after s x.node) rest :=
      visit.skipped_append s [x] rest
    rw [hsplit, ← List.append_assoc] at hrest
    exact .inr ⟨hclosed, rest, rfl, hrest⟩

private theorem Outside.unique {closed : List (List Nat)} (h : Outside visit closed s all visited)
    (h' : Outside visit closed s all visited') (horder : all.Pairwise fun x y => ¬ y.place <+: x.place) :
    visited = visited' := by
  induction all generalizing closed s visited visited' with
  | nil => exact h.trans h'.symm
  | cons x all ih =>
    rw [List.pairwise_cons] at horder
    rcases h.cons_cases horder.1, h'.cons_cases horder.1 with
      ⟨⟨hclosed, hrest⟩ | ⟨hclosed, rest, rfl, hrest⟩, ⟨hclosed', hrest'⟩ | ⟨hclosed', rest', rfl, hrest'⟩⟩
    · exact ih hrest hrest' horder.2
    · exact absurd hclosed hclosed'
    · exact absurd hclosed' hclosed
    · rw [ih hrest hrest' horder.2]

/-- Which nodes are visited is settled from front to back. -/
theorem unique (h : visit.Visits s all visited) (h' : visit.Visits s all visited')
    (horder : all.Pairwise fun x y => ¬ y.place <+: x.place) : visited = visited' :=
  Outside.unique (show Outside visit [] s all visited from h) h' horder

end Visitor.Visits

namespace Node

private theorem exists_visitsFrom {parts : List Node}
    (ih : ∀ part ∈ parts, ∀ s, ∃ visited, visit.Visits s part.places visited ∧
      part.walk visit s = visit.afterAll s visited) (k : Nat) (s : σ) :
    ∃ visited, visit.Visits s (placesFrom k parts) visited ∧
      parts.foldl (fun s part => part.walk visit s) s = visit.afterAll s visited := by
  induction parts generalizing k s with
  | nil => exact ⟨[], by rw [placesFrom]; exact .nil, rfl⟩
  | cons part parts ihparts =>
    rw [List.forall_mem_cons] at ih
    obtain ⟨first, hfirst, hwalk⟩ := ih.1 s
    obtain ⟨later, hlater, hwalks⟩ := ihparts ih.2 (k + 1) (part.walk visit s)
    rw [hwalk, ← visit.afterAll_under s k] at hlater
    refine ⟨first.map (.under k) ++ later, ?_, ?_⟩
    · rw [placesFrom]
      exact (hfirst.under k).append hlater apart_placesFrom
    · rw [List.foldl_cons, hwalks, hwalk, visit.afterAll_append, visit.afterAll_under]

private theorem filter_root (n : Node) (others : List (List Nat)) (xs : List Placed) :
    (⟨[], n⟩ :: xs).filter (fun x => ¬ IsBelow x.place others) =
      ⟨[], n⟩ :: xs.filter fun x => ¬ IsBelow x.place others :=
  List.filter_cons_of_pos (by simp [IsBelow.not_root])

/-- A walk hands the state on from each node that is visited to the next. -/
theorem exists_visits (visit : Visitor σ) (n : Node) (s : σ) :
    ∃ visited, visit.Visits s n.places visited ∧ n.walk visit s = visit.afterAll s visited := by
  induction n using Node.induction generalizing s with
  | h n ih =>
    cases hcontrol : (visit n s).1 with
    | skip =>
      -- all other places are below that of the node
      have hskipped : visit.skipped s [⟨[], n⟩] = [[]] := by rw [Visitor.skipped, hcontrol]; rfl
      have hbelow : ∀ x ∈ placesFrom 0 n.parts, IsBelow x.place [[]] := by
        intro x hx
        obtain ⟨i, place, hplace, -⟩ := exists_cons_of_mem_placesFrom hx
        rw [hplace]
        exact .of_root (List.cons_ne_nil i place)
      refine ⟨[⟨[], n⟩], ?_, walk_of_skip hcontrol⟩
      rw [Visitor.Visits, hskipped, places, filter_root, List.filter_eq_nil_iff.2]
      simpa using hbelow
    | enter =>
      obtain ⟨visited, hvisited, hwalk⟩ := exists_visitsFrom ih 0 (visit.after s n)
      have hskipped : visit.skipped s (⟨[], n⟩ :: visited) = visit.skipped (visit.after s n) visited := by
        rw [Visitor.skipped, hcontrol]
      refine ⟨⟨[], n⟩ :: visited, ?_, (walk_of_go hcontrol).trans hwalk⟩
      rw [Visitor.Visits, hskipped, places, filter_root]
      exact congrArg _ hvisited

end Node

namespace Visitor

/-- The same visitor, which notes the nodes it comes to. -/
def noting (visit : Visitor σ) : Visitor (σ × List Node) := fun n (s, seen) =>
  ((visit n s).1, ((visit n s).2, seen ++ [n]))

theorem skipped_noting (s : σ) (seen : List Node) (xs : List Placed) :
    visit.noting.skipped (s, seen) xs = visit.skipped s xs := by
  induction xs generalizing s seen with
  | nil => rfl
  | cons x xs ih =>
    have hrest := ih (visit.after s x.node) (seen ++ [x.node])
    rw [skipped, skipped, ← hrest]
    rfl

theorem afterAll_noting (s : σ) (seen : List Node) (xs : List Placed) :
    visit.noting.afterAll (s, seen) xs = (visit.afterAll s xs, seen ++ xs.map Placed.node) := by
  induction xs generalizing s seen with
  | nil => rw [List.map_nil, List.append_nil]; rfl
  | cons x xs ih => exact (ih _ _).trans (by rw [List.append_assoc]; rfl)

theorem skipped_of_enter (h : ∀ n s, (visit n s).1 = .enter) (s : σ) (xs : List Placed) : visit.skipped s xs = [] := by
  induction xs generalizing s with
  | nil => rfl
  | cons x xs ih => rw [skipped, h, ih]

end Visitor

namespace Node

/-- A walk comes to the nodes of the tree in pre-order, each of them once, but for those below a node whose parts are
skipped, and hands the visitor's state on from each to the next.  When nothing is skipped no node is left out.  A walk
with a test skips where the test is false. -/
theorem walk_visits (visit : Visitor σ) (n : Node) (s : σ) :
    (∃ visited, visit.Visits s n.places visited ∧
      (∀ visited', visit.Visits s n.places visited' → visited' = visited) ∧
      n.walk visit s = visit.afterAll s visited ∧
      n.walk visit.noting (s, []) = (visit.afterAll s visited, visited.map Placed.node) ∧
      ((∀ m t, (visit m t).1 = .enter) → visited = n.places)) ∧
    (∀ test : Node → σ → Bool × σ,
      (∀ m t, visit m t = (if (test m t).1 then .enter else .skip, (test m t).2)) →
      n.inspect test s = n.walk visit s ∧
      n.inspect (fun m (t, seen) => ((test m t).1, ((test m t).2, seen ++ [m]))) (s, []) =
        n.walk visit.noting (s, [])) ∧
    n.places.map Placed.node = n.preorder ∧
    (n.places.map Placed.place).Nodup ∧
    ∀ place m, ⟨place, m⟩ ∈ n.places ↔ n.partAt? place = some m := by
  refine ⟨?_, ?_, n.map_node_places, n.nodup_places, fun _ _ => mem_places_iff⟩
  · obtain ⟨visited, hvisited, hwalk⟩ := n.exists_visits visit s
    obtain ⟨noted, hnoted, hnotes⟩ := n.exists_visits visit.noting (s, [])
    rw [Visitor.Visits, Visitor.skipped_noting] at hnoted
    rw [Visitor.afterAll_noting, List.nil_append] at hnotes
    obtain rfl : noted = visited := hvisited.unique hnoted n.pairwise_places |>.symm
    refine ⟨noted, hvisited, fun _ h => h.unique hvisited n.pairwise_places, hwalk, hnotes, fun henter => ?_⟩
    rw [Visitor.Visits, Visitor.skipped_of_enter henter] at hvisited
    exact hvisited.trans (List.filter_eq_self.2 fun x _ => by simp [IsBelow])
  · intro test htest
    obtain rfl : visit = fun m t => (if (test m t).1 then .enter else .skip, (test m t).2) :=
      funext fun m => funext fun t => htest m t
    exact ⟨rfl, rfl⟩

/-- A visitor that counts skips the parts of the second node and comes to the statement behind them; one that only counts
comes to all nodes. -/
theorem walk_visits_counted :
    let test : Stmt := .ifThen (.var "a") (.assignment "b" (.var "x"))
    let n : Node := .stmt (.block [test, .skip])
    let second : Visitor Nat := fun _ count => (if count ≠ 1 then .enter else .skip, count + 1)
    let all : Visitor Nat := fun _ count => (.enter, count + 1)
    (∃ visited, second.Visits 0 n.places visited ∧ visited.map Placed.node = [n, .stmt test, .stmt .skip] ∧
      n.inspect (fun _ count => (decide (count ≠ 1), count + 1)) 0 = 3) ∧
    all.Visits 0 n.places n.places ∧ n.walk all 0 = n.preorder.length := by
  intro test n second all
  obtain ⟨⟨visited, hvisited, -, -, hnotes, -⟩, hinspect, -⟩ := walk_visits second n 0
  obtain ⟨⟨visited', hvisited', -, -, -, hall⟩, -⟩ := walk_visits all n 0
  have hwalk : n.walk second.noting (0, []) = (3, [n, .stmt test, .stmt .skip]) := rfl
  refine ⟨⟨visited, hvisited, (Prod.ext_iff.1 (hnotes.symm.trans hwalk)).2, ?_⟩, ?_, rfl⟩
  · exact (hinspect _ fun _ count => by simp [second]).1.trans rfl
  · exact hall (fun _ _ => rfl) ▸ hvisited'

end Node

end Visiting

end Clite
