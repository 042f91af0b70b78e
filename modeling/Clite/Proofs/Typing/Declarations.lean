import Mathlib.Data.List.Induction
import Clite.Typing.TypeMap

/-!
# Declarations

A program has a type map if its declared names are distinct.  Otherwise there is a first name that repeats an earlier
one (`FirstRepeat`), and that name is blamed.  A map that stays in use while declarations succeed and fail has each name
at the place and with the type of its first declaration (`TypeMap.names_enterAll`, `TypeMap.find?_enterAll`), for a
declaration whose name is taken changes nothing (`TypeMap.enter_of_mem`).
-/

namespace Clite

/-- `x` is the first of the declared names that repeats an earlier one. -/
def FirstRepeat (ds : List Decl) (x : String) : Prop :=
  ∃ before d after, ds = before ++ d :: after ∧ d.name = x ∧ x ∈ before.map Decl.name ∧
    (before.map Decl.name).Nodup

theorem FirstRepeat.append {ds : List Decl} {x : String} (h : FirstRepeat ds x) (more : List Decl) :
    FirstRepeat (ds ++ more) x := by
  obtain ⟨before, d, after, rfl, hx, hmem, hnodup⟩ := h
  exact ⟨before, d, after ++ more, by simp, hx, hmem, hnodup⟩

theorem nodup_or_firstRepeat (ds : List Decl) : (ds.map Decl.name).Nodup ∨ ∃ x, FirstRepeat ds x := by
  induction ds using List.reverseRecOn with
  | nil => exact .inl List.nodup_nil
  | append_singleton ds d ih =>
    rcases ih with hnodup | ⟨x, hx⟩
    · by_cases hd : d.name ∈ ds.map Decl.name
      · exact .inr ⟨d.name, ds, d, [], rfl, rfl, hd, hnodup⟩
      · rw [List.map_append, List.nodup_append]
        exact .inl ⟨hnodup, by simp, by grind⟩
    · exact .inr ⟨x, hx.append [d]⟩

/-- At place `i` stands the name `x`, and at an earlier place too. -/
def RepeatsAt (names : List String) (i : Nat) (x : String) : Prop :=
  names[i]? = some x ∧ ∃ j < i, names[j]? = some x

/-- No name before the first that repeats an earlier one does so. -/
theorem FirstRepeat.exists_place {ds : List Decl} {x : String} (h : FirstRepeat ds x) :
    ∃ i, RepeatsAt (ds.map Decl.name) i x ∧ ∀ j y, RepeatsAt (ds.map Decl.name) j y → i ≤ j := by
  obtain ⟨before, d, after, rfl, rfl, hmem, hnodup⟩ := h
  obtain ⟨k, hk⟩ := List.mem_iff_getElem?.1 hmem
  have hlt : k < (before.map Decl.name).length := (List.getElem?_eq_some_iff.1 hk).1
  have hfront : ∀ j < (before.map Decl.name).length,
      ((before ++ d :: after).map Decl.name)[j]? = (before.map Decl.name)[j]? := by
    intro j hj
    rw [List.map_append, List.getElem?_append_left hj]
  refine ⟨(before.map Decl.name).length, ⟨by simp, k, hlt, (hfront k hlt).trans hk⟩, ?_⟩
  rintro j y ⟨hj, i, hij, hi⟩
  by_contra hlate
  -- `y` would stand at two places among names that are distinct
  rw [hfront j (by omega)] at hj
  rw [hfront i (by omega)] at hi
  have hsame := (List.getElem?_inj (by omega) hnodup).1 (hi.trans hj.symm)
  omega

theorem firstRepeat_iff {ds : List Decl} {x : String} :
    FirstRepeat ds x ↔
      ∃ i, RepeatsAt (ds.map Decl.name) i x ∧ ∀ j y, RepeatsAt (ds.map Decl.name) j y → i ≤ j := by
  refine ⟨FirstRepeat.exists_place, ?_⟩
  rintro ⟨i, hi, hfirst⟩
  rcases nodup_or_firstRepeat ds with hnodup | ⟨y, hy⟩
  · obtain ⟨hx, j, hji, hj⟩ := hi
    have hlt := (List.getElem?_eq_some_iff.1 hx).1
    have hsame := (List.getElem?_inj (by omega) hnodup).1 (hj.trans hx.symm)
    omega
  · obtain ⟨i', hi', hfirst'⟩ := hy.exists_place
    obtain rfl : i = i' := Nat.le_antisymm (hfirst _ _ hi') (hfirst' _ _ hi)
    obtain rfl : x = y := Option.some.inj (hi.1.symm.trans hi'.1)
    exact hy

namespace TypeMap

def names (m : TypeMap) : List String := m.entries.map Prod.fst

theorem contains_iff (m : TypeMap) (name : String) : m.contains name = true ↔ name ∈ m.names := by
  simp [contains, find?, names, List.lookup_isSome_iff]

theorem find?_eq_none_iff {m : TypeMap} {name : String} : m.find? name = none ↔ name ∉ m.names := by
  rw [← m.contains_iff, contains]
  cases m.find? name <;> simp

/-- A look-up finds what is in the map. -/
theorem find?_eq_some_iff {m : TypeMap} (h : m.names.Nodup) {name : String} {t : Ty} :
    m.find? name = some t ↔ (name, t) ∈ m.entries := by
  rw [find?, List.lookup_eq_some_iff]
  constructor
  · rintro ⟨before, after, hentries, -⟩
    rw [hentries]
    exact List.mem_append_right _ List.mem_cons_self
  · intro hmem
    obtain ⟨before, after, hentries⟩ := List.append_of_mem hmem
    refine ⟨before, after, hentries, fun entry hentry => ?_⟩
    rw [names, hentries, List.map_append, List.map_cons, List.nodup_append] at h
    exact bne_iff_ne.2 (h.2.2 _ (List.mem_map_of_mem hentry) _ List.mem_cons_self).symm

/-- The map with the variables of declarations behind its own. -/
def extend (m : TypeMap) (ds : List Decl) : TypeMap := ⟨m.entries ++ ds.map fun d => (d.name, d.type)⟩

theorem names_extend (m : TypeMap) (ds : List Decl) : (m.extend ds).names = m.names ++ ds.map Decl.name := by
  simp [names, extend, Function.comp_def]

theorem extend_extend (m : TypeMap) (ds es : List Decl) : (m.extend ds).extend es = m.extend (ds ++ es) := by
  simp [extend]

/-- As long as the names are new one declaration is taken after the other. -/
theorem declareAll_append {m : TypeMap} {ds : List Decl} (h : (m.extend ds).names.Nodup) (more : List Decl) :
    m.declareAll (ds ++ more) = (m.extend ds).declareAll more := by
  induction ds generalizing m with
  | nil => simp [extend]
  | cons d ds ih =>
    have hnew : ¬ m.contains d.name = true := by
      rw [contains_iff]
      intro hd
      rw [names_extend, List.map_cons, List.nodup_append] at h
      exact h.2.2 _ hd _ (List.mem_cons_self) rfl
    have hstep : m.declare d.name d.type = .ok (m.extend [d]) := if_neg hnew
    have hrest : ((m.extend [d]).extend ds).names.Nodup := by rwa [extend_extend]
    rw [List.cons_append, declareAll, hstep]
    exact (ih hrest).trans (by rw [extend_extend]; rfl)

theorem build_of_nodup {p : Program} (h : (p.declarations.map Decl.name).Nodup) :
    build p = .ok (empty.extend p.declarations) := by
  have hall := declareAll_append (m := empty) (by rwa [names_extend]) []
  rwa [List.append_nil] at hall

theorem build_of_firstRepeat {p : Program} {x : String} (h : FirstRepeat p.declarations x) :
    build p = .error (.duplicateDeclaration x) := by
  obtain ⟨before, d, after, hp, rfl, hmem, hnodup⟩ := h
  have htaken : (empty.extend before).contains d.name = true := by rwa [contains_iff, names_extend]
  have hstep : (empty.extend before).declare d.name d.type = .error (.duplicateDeclaration d.name) := if_pos htaken
  rw [build, hp, declareAll_append (by rwa [names_extend]), declareAll, hstep]

/-- Only a repeated name stands against a type map, and the first one is blamed. -/
theorem build_eq_error_iff {p : Program} {e : TypeError} :
    build p = .error e ↔ ∃ x, FirstRepeat p.declarations x ∧ e = .duplicateDeclaration x := by
  constructor
  · intro he
    rcases nodup_or_firstRepeat p.declarations with hnodup | ⟨x, hx⟩
    · rw [build_of_nodup hnodup] at he
      cases he
    · rw [build_of_firstRepeat hx] at he
      exact ⟨x, hx, (Except.error.inj he).symm⟩
  · rintro ⟨x, hx, rfl⟩
    exact build_of_firstRepeat hx

theorem build_eq_ok_iff {p : Program} {m : TypeMap} :
    build p = .ok m ↔ (p.declarations.map Decl.name).Nodup ∧ m = empty.extend p.declarations := by
  constructor
  · intro hm
    rcases nodup_or_firstRepeat p.declarations with hnodup | ⟨x, hx⟩
    · rw [build_of_nodup hnodup] at hm
      exact ⟨hnodup, (Except.ok.inj hm).symm⟩
    · rw [build_of_firstRepeat hx] at hm
      cases hm
  · rintro ⟨hnodup, rfl⟩
    exact build_of_nodup hnodup

theorem find?_extend_empty {ds : List Decl} (h : (ds.map Decl.name).Nodup) {name : String} {t : Ty} :
    (empty.extend ds).find? name = some t ↔ ⟨name, t⟩ ∈ ds := by
  rw [find?_eq_some_iff (by rwa [names_extend])]
  constructor
  · intro hmem
    obtain ⟨⟨_, _⟩, hd, ⟨⟩⟩ := List.mem_map.1 hmem
    exact hd
  · exact fun hmem => List.mem_map.2 ⟨_, hmem, rfl⟩

/-! ### A map that stays in use -/

/-- The map behind declarations that are made one after the other, whatever comes of each. -/
def enterAll (m : TypeMap) (ds : List Decl) : TypeMap := ds.foldl (fun m d => (m.enter d).2) m

variable {m : TypeMap}

/-- A declaration whose name is taken changes nothing. -/
theorem enter_of_mem {d : Decl} (h : d.name ∈ m.names) :
    m.enter d = (some (.duplicateDeclaration d.name), m) := by
  rw [enter, declare, if_pos ((m.contains_iff _).2 h)]

theorem enter_of_notMem {d : Decl} (h : d.name ∉ m.names) : m.enter d = (none, m.extend [d]) := by
  rw [enter, declare, if_neg (mt (m.contains_iff _).1 h)]
  rfl

/-- Only a name that is taken is refused. -/
theorem error_enter (d : Decl) :
    (m.enter d).1 = if d.name ∈ m.names then some (.duplicateDeclaration d.name) else none := by
  split
  · next hd => rw [enter_of_mem hd]
  · next hd => rw [enter_of_notMem hd]

theorem enter_of_error {d : Decl} {e : TypeError} (h : (m.enter d).1 = some e) : (m.enter d).2 = m := by
  by_cases hd : d.name ∈ m.names
  · rw [enter_of_mem hd]
  · rw [enter_of_notMem hd] at h
    cases h

/-- Entries are only ever added behind the others. -/
theorem entries_prefix_enter (d : Decl) : m.entries <+: (m.enter d).2.entries := by
  by_cases hd : d.name ∈ m.names
  · simp [enter_of_mem hd]
  · rw [enter_of_notMem hd]
    exact List.prefix_append ..

theorem entries_prefix_enterAll (ds : List Decl) : m.entries <+: (m.enterAll ds).entries := by
  induction ds generalizing m with
  | nil => exact List.prefix_rfl
  | cons d ds ih => exact (m.entries_prefix_enter d).trans ih

theorem enterAll_append (ds : List Decl) (d : Decl) : m.enterAll (ds ++ [d]) = ((m.enterAll ds).enter d).2 :=
  List.foldl_append

private theorem eraseDups_append_singleton (names : List String) (x : String) :
    (names ++ [x]).eraseDups = if x ∈ names then names.eraseDups else names.eraseDups ++ [x] := by
  rw [List.eraseDups_append, List.removeAll]
  by_cases hx : x ∈ names <;> simp [hx, List.eraseDups_cons]

/-- The names are those declared, in the order in which they first were. -/
theorem names_enterAll (ds : List Decl) : (empty.enterAll ds).names = (ds.map Decl.name).eraseDups := by
  induction ds using List.reverseRecOn with
  | nil => rfl
  | append_singleton ds d ih =>
    have hmem : d.name ∈ ds.map Decl.name ↔ d.name ∈ (empty.enterAll ds).names := by rw [ih, List.mem_eraseDups]
    rw [enterAll_append, List.map_append, List.map_singleton, eraseDups_append_singleton, ← ih]
    by_cases hd : d.name ∈ (empty.enterAll ds).names
    · rw [enter_of_mem hd, if_pos (hmem.2 hd)]
    · rw [enter_of_notMem hd, if_neg (mt hmem.1 hd), names_extend, List.map_singleton]

theorem nodup_names_enterAll (ds : List Decl) : (empty.enterAll ds).names.Nodup := by
  induction ds using List.reverseRecOn with
  | nil => exact List.nodup_nil
  | append_singleton ds d ih =>
    rw [enterAll_append]
    by_cases hd : d.name ∈ (empty.enterAll ds).names
    · rwa [enter_of_mem hd]
    · rw [enter_of_notMem hd, names_extend, List.map_singleton, List.nodup_append]
      exact ⟨ih, by simp, by grind⟩

theorem find?_enter (d : Decl) (name : String) :
    (m.enter d).2.find? name = (m.find? name).or (if d.name = name then some d.type else none) := by
  by_cases hd : d.name ∈ m.names
  · rw [enter_of_mem hd]
    split
    · next hname =>
      rw [hname, ← m.contains_iff, contains] at hd
      rw [Option.or_of_isSome hd]
    · exact (Option.or_none).symm
  · rw [enter_of_notMem hd, extend, find?, List.lookup_append, ← find?]
    by_cases hname : d.name = name
    · simp [hname]
    · simp [hname, List.lookup_cons, beq_eq_false_iff_ne.2 (Ne.symm hname)]

/-- A name has the type of its first declaration. -/
theorem find?_enterAll (ds : List Decl) (name : String) :
    (empty.enterAll ds).find? name = (ds.find? (·.name = name)).map Decl.type := by
  induction ds using List.reverseRecOn with
  | nil => rfl
  | append_singleton ds d ih =>
    rw [enterAll_append, find?_enter, ih, List.find?_append]
    cases ds.find? (·.name = name) with
    | some first => rfl
    | none => by_cases hname : d.name = name <;> simp [hname]

/-- A declared name keeps its type and its place. -/
theorem find?_of_prefix {m' : TypeMap} (h : m.entries <+: m'.entries) {name : String} (hname : name ∈ m.names) :
    m'.find? name = m.find? name ∧ m'.names.idxOf name = m.names.idxOf name := by
  obtain ⟨more, hmore⟩ := h
  constructor
  · rw [← m.contains_iff, contains] at hname
    rw [find?, ← hmore, List.lookup_append, ← find?, Option.or_of_isSome hname]
  · have hnames : m'.names = m.names ++ more.map Prod.fst := by rw [names, ← hmore, List.map_append, names]
    rw [hnames, List.idxOf_append, if_pos hname]

/-- A program has a type map just when its names are distinct: then the map has the declarations in their order and finds
what is declared, and otherwise the name is blamed that is the first to repeat an earlier one.  A map that stays in use
has the names once each, in the order of their first declarations and with the types of these.  A declaration fails when
its name is taken, and then the map is what it was; what is in the map stays there, as it is and where it is. -/
theorem names_declared_once (p : Program) (calls : List Decl) :
    (((∃ m, build p = .ok m) ↔ (p.declarations.map Decl.name).Nodup) ∧
      (∀ m, build p = .ok m → m.entries = p.declarations.map (fun d => (d.name, d.type)) ∧
        ∀ name t, m.find? name = some t ↔ ⟨name, t⟩ ∈ p.declarations) ∧
      ∀ e, build p = .error e ↔ ∃ i x, e = .duplicateDeclaration x ∧
        RepeatsAt (p.declarations.map Decl.name) i x ∧
        ∀ j y, RepeatsAt (p.declarations.map Decl.name) j y → i ≤ j) ∧
    let m := empty.enterAll calls
    (m.names.Nodup ∧ m.names = (calls.map Decl.name).eraseDups ∧
      ∀ name, m.find? name = (calls.find? (·.name = name)).map Decl.type) ∧
    (∀ d, (m.enter d).1 = if d.name ∈ m.names then some (.duplicateDeclaration d.name) else none) ∧
    (∀ d e, (m.enter d).1 = some e → (m.enter d).2 = m) ∧
    ∀ later, let m' := m.enterAll later
      m.entries <+: m'.entries ∧
      ∀ name ∈ m.names, m'.find? name = m.find? name ∧ m'.names.idxOf name = m.names.idxOf name := by
  refine ⟨⟨?_, ?_, ?_⟩, ?_⟩
  · constructor
    · rintro ⟨m, hm⟩
      exact (build_eq_ok_iff.1 hm).1
    · exact fun hnodup => ⟨_, build_of_nodup hnodup⟩
  · intro m hm
    obtain ⟨hnodup, rfl⟩ := build_eq_ok_iff.1 hm
    exact ⟨rfl, fun name t => find?_extend_empty hnodup⟩
  · intro e
    simp only [build_eq_error_iff, firstRepeat_iff]
    constructor
    · rintro ⟨x, ⟨i, hi⟩, he⟩
      exact ⟨i, x, he, hi⟩
    · rintro ⟨i, x, he, hi⟩
      exact ⟨x, ⟨i, hi⟩, he⟩
  intro m
  refine ⟨⟨nodup_names_enterAll calls, names_enterAll calls, find?_enterAll calls⟩, m.error_enter,
    fun d e => enter_of_error, ?_⟩
  intro later m'
  have hgrows : m.entries <+: m'.entries := m.entries_prefix_enterAll later
  exact ⟨hgrows, fun name => find?_of_prefix hgrows⟩

/-- For a `z` that is declared twice a program has no map; a map that stays in use takes the first and goes on. -/
theorem names_declared_once_repeated :
    let distinct : List Decl := [⟨"z", .bool⟩, ⟨"a", .int⟩]
    let repeated : List Decl := distinct ++ [⟨"z", .float⟩, ⟨"b", .char⟩]
    let m := empty.enterAll repeated
    (build ⟨distinct, []⟩ = .ok ⟨[("z", .bool), ("a", .int)]⟩ ∧
      find? ⟨[("z", .bool), ("a", .int)]⟩ "a" = some .int) ∧
    build ⟨repeated, []⟩ = .error (.duplicateDeclaration "z") ∧
    ((m.enter ⟨"a", .float⟩).1 = some (.duplicateDeclaration "a") ∧ (m.enter ⟨"a", .float⟩).2 = m) ∧
    "z" ∈ m.names ∧ (m.enterAll [⟨"c", .int⟩, ⟨"z", .int⟩]).find? "z" = m.find? "z" := by
  intro distinct repeated m
  have hbuild : build ⟨distinct, []⟩ = .ok ⟨[("z", .bool), ("a", .int)]⟩ := by decide
  obtain ⟨⟨-, hok, -⟩, -⟩ := names_declared_once ⟨distinct, []⟩ repeated
  obtain ⟨⟨-, -, herror⟩, -, -, hfails, hlater⟩ := names_declared_once ⟨repeated, []⟩ repeated
  have htaken : (m.enter ⟨"a", .float⟩).1 = some (.duplicateDeclaration "a") := by decide
  have hz : "z" ∈ m.names := by decide
  refine ⟨⟨hbuild, ((hok _ hbuild).2 "a" .int).2 (by decide)⟩, (herror _).2 ⟨2, "z", rfl, ⟨rfl, 0, by decide, rfl⟩, ?_⟩,
    ⟨htaken, hfails _ _ htaken⟩, hz, ((hlater _).2 "z" hz).1⟩
  rintro j y ⟨hj, i, hij, hi⟩
  by_contra hlate
  obtain ⟨rfl, rfl⟩ : i = 0 ∧ j = 1 := by omega
  rw [← hj] at hi
  exact absurd hi (by decide)

end TypeMap

end Clite
