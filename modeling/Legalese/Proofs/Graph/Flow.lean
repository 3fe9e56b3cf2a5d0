import Legalese.Proofs.Graph.Text
import Legalese.Proofs.Inventory
import Legalese.Proofs.Subexpressions

/-!
# The edges that carry names

A dashed edge leads from the first declaration of a name to another statement that reads
or reassigns it.  `carried` lists the edges by places in the resolution.  They come in the
order of their targets, and by name where the target is the same, so that no edge can be
drawn twice.  The names are those of a report, which explains what an unused name looks
like in a graph.
-/

namespace Legalese

/-! ## Places -/

namespace Resolution

variable {r : Resolution} {i j : Nat} {x : String}

/-- A statement that is not a consequence declares a name. -/
def DeclaredAt (r : Resolution) (x : String) (i : Nat) : Prop :=
  ∃ d, r.statements[i]? = some (.declare d) ∧ d.name = x

def FirstDeclaredAt (r : Resolution) (x : String) (i : Nat) : Prop :=
  r.DeclaredAt x i ∧ ∀ k < i, ¬r.DeclaredAt x k

/-- A statement or a consequence in it reads or reassigns a name. -/
def TouchedAt (r : Resolution) (x : String) (i : Nat) : Prop :=
  ∃ a, r.statements[i]? = some a ∧ x ∈ Graph.touched a

/-- The first declaration of a name and another statement that reads or reassigns it. -/
structure Carries (r : Resolution) (i j : Nat) (x : String) : Prop where
  source : r.FirstDeclaredAt x i
  target : r.TouchedAt x j
  apart : i ≠ j

def declares (x : String) : Statement → Bool
  | .declare d => d.name == x
  | _ => false

theorem declares_iff {a : Statement} : declares x a = true ↔ ∃ d, a = .declare d ∧ d.name = x := by
  cases a <;> simp [declares]

theorem declaredAt_iff :
    r.DeclaredAt x i ↔ ∃ a, r.statements[i]? = some a ∧ declares x a = true := by
  simp only [declares_iff]
  constructor
  · rintro ⟨d, place, name⟩
    exact ⟨_, place, d, rfl, name⟩
  · rintro ⟨_, place, d, rfl, name⟩
    exact ⟨d, place, name⟩

/-- The place of the first declaration of a name. -/
def firstDeclared? (r : Resolution) (x : String) : Option Nat :=
  r.statements.findIdx? (declares x)

theorem firstDeclared?_eq_some_iff : r.firstDeclared? x = some i ↔ r.FirstDeclaredAt x i := by
  rw [firstDeclared?, List.findIdx?_eq_some_iff_getElem, FirstDeclaredAt, declaredAt_iff]
  constructor
  · rintro ⟨inside, declared, first⟩
    refine ⟨⟨_, List.getElem?_eq_getElem inside, declared⟩, fun k hk earlier => ?_⟩
    obtain ⟨a, place, declared⟩ := declaredAt_iff.1 earlier
    rw [List.getElem?_eq_getElem (hk.trans inside)] at place
    exact first k hk (Option.some.inj place ▸ declared)
  · rintro ⟨⟨a, place, declared⟩, first⟩
    obtain ⟨inside, rfl⟩ := List.getElem?_eq_some_iff.1 place
    exact ⟨inside, declared, fun k hk earlier =>
      first k hk (declaredAt_iff.2 ⟨_, List.getElem?_eq_getElem (hk.trans inside), earlier⟩)⟩

theorem exists_firstDeclaredAt (h : x ∈ r.recitals.map (·.name)) : ∃ i, r.FirstDeclaredAt x i := by
  obtain ⟨d, hd, rfl⟩ := List.mem_map.1 h
  have some : (r.firstDeclared? d.name).isSome = true := by
    rw [firstDeclared?, List.findIdx?_isSome, List.any_eq_true]
    exact ⟨.declare d, List.mem_append_left _ (List.mem_map_of_mem hd), beq_self_eq_true d.name⟩
  obtain ⟨i, hi⟩ := Option.isSome_iff_exists.1 some
  exact ⟨i, firstDeclared?_eq_some_iff.1 hi⟩

end Resolution

namespace Graph

open Resolution (declares)

/-! ## Names that are touched -/

theorem touched_eq_names (a : Statement) : touched a = a.names := by
  induction a with
  | declare d => rfl
  | assume x e => rfl
  | publish e => rfl
  | conditional l r relation c ih => rw [touched, ih]; rfl

theorem mem_touched {a : Statement} {x : String} :
    x ∈ touched a ↔ (∃ e ∈ a.expressions, x ∈ distinct e.names) ∨ x ∈ a.assumed := by
  simp only [touched_eq_names, Statement.mem_names, mem_distinct]

/-- The names that a report leaves unused are those that no statement reads or reassigns. -/
theorem mem_unused_iff_touchedAt {r : Resolution} {x : String} :
    x ∈ (Report.ofResolution r).unused ↔ x ∈ r.recitals.map (·.name) ∧ ∀ i, ¬r.TouchedAt x i := by
  rw [Report.mem_unused, Resolution.use_mem_mentions]
  refine and_congr_right fun _ => ?_
  simp only [Resolution.TouchedAt, touched_eq_names, not_exists, not_and, List.mem_iff_getElem?]
  exact ⟨fun h i a place => h a ⟨i, place⟩, fun h a ⟨i, place⟩ => h i a place⟩

/-! ## Places of nodes -/

/-- The name of the node for the statement in some place. -/
def idAt (r : Resolution) (i : Nat) : String :=
  if i < r.recitals.length then nodeId "whereas" i else nodeId "resolved" (i - r.recitals.length)

theorem nodes_eq (r : Resolution) :
    nodes r = r.statements.zipIdx.map fun p => ⟨idAt r p.2, p.1⟩ := by
  have recitals : numbered "whereas" (r.recitals.map .declare) =
      (r.recitals.map Statement.declare).zipIdx.map fun p => ⟨idAt r p.2, p.1⟩ := by
    rw [numbered_eq plain_whereas]
    refine List.map_congr_left fun p hp => ?_
    have inside := List.snd_lt_of_mem_zipIdx hp
    rw [List.length_map, Nat.add_zero] at inside
    rw [idAt, if_pos inside]
  have actions : numbered "resolved" r.actions =
      (r.actions.zipIdx r.recitals.length).map fun p => ⟨idAt r p.2, p.1⟩ := by
    rw [numbered_eq plain_resolved, List.zipIdx_eq_map_add (i := r.recitals.length), List.map_map]
    refine List.map_congr_left fun p _ => ?_
    have outside : ¬r.recitals.length + p.2 < r.recitals.length := by omega
    show _ = Node.mk (idAt r (r.recitals.length + p.2)) p.1
    rw [idAt, if_neg outside, Nat.add_sub_cancel_left]
  simp only [nodes, sections, List.flatMap_cons, List.flatMap_nil, List.append_nil]
  rw [recitals, actions, Resolution.statements, List.zipIdx_append, List.map_append, Nat.zero_add,
    List.length_map]

theorem ids_eq (r : Resolution) : ids r = (List.range r.statements.length).map (idAt r) := by
  rw [← map_id_nodes, nodes_eq, List.map_map, List.range_eq_range', ← List.zipIdx_map_snd 0,
    List.map_map]
  rfl

theorem idAt_inj {r : Resolution} {i j : Nat} (hi : i < r.statements.length)
    (hj : j < r.statements.length) (same : idAt r i = idAt r j) : i = j := by
  have distinct := nodup_ids r
  rw [ids_eq] at distinct
  exact List.inj_on_of_nodup_map distinct (List.mem_range.2 hi) (List.mem_range.2 hj) same

theorem map_id_declarer? (r : Resolution) (x : String) :
    (declarer? r x).map (·.id) = (r.firstDeclared? x).map (idAt r) := by
  have search : declarer? r x = (nodes r).find? (fun n => declares x n.statement) := rfl
  rw [search, nodes_eq, List.find?_map, Resolution.firstDeclared?,
    List.findIdx?_eq_fst_find?_zipIdx, Option.map_map, Option.map_map]
  rfl

/-! ## Edges -/

/-- An edge that carries a name, by the places of its ends. -/
structure Carriage where
  source : Nat
  target : Nat
  name : String

/-- The edge between the nodes in these places. -/
def Carriage.edge (r : Resolution) (c : Carriage) : FlowEdge :=
  ⟨idAt r c.source, idAt r c.target, c.name⟩

/-- The edge that carries a name into a place, if it comes from another place. -/
def carriage? (r : Resolution) (j : Nat) (x : String) : Option Carriage :=
  (r.firstDeclared? x).bind fun i => if i = j then none else some ⟨i, j, x⟩

def carriedInto (r : Resolution) (j : Nat) (a : Statement) : List Carriage :=
  (sortedNames (touched a)).filterMap (carriage? r j)

/-- All edges that carry names, in the order in which they are drawn. -/
def carried (r : Resolution) : List Carriage :=
  r.statements.zipIdx.flatMap fun p => carriedInto r p.2 p.1

theorem flowInto_eq {r : Resolution} {j : Nat} {a : Statement} (place : r.statements[j]? = some a) :
    flowInto r ⟨idAt r j, a⟩ = (carriedInto r j a).map (·.edge r) := by
  obtain ⟨target, -⟩ := List.getElem?_eq_some_iff.1 place
  rw [carriedInto, List.map_filterMap]
  refine List.filterMap_congr fun x _ => ?_
  have ids := map_id_declarer? r x
  rw [carriage?]
  cases first : r.firstDeclared? x with
  | none =>
    rw [first, Option.map_none, Option.map_eq_none_iff] at ids
    rw [ids]
    rfl
  | some i =>
    rw [first, Option.map_some, Option.map_eq_some_iff] at ids
    obtain ⟨d, found, id⟩ := ids
    obtain ⟨⟨_, declared, -⟩, -⟩ := Resolution.firstDeclared?_eq_some_iff.1 first
    obtain ⟨source, -⟩ := List.getElem?_eq_some_iff.1 declared
    simp only [found, id, Option.bind_some]
    by_cases same : i = j
    · rw [if_pos same, if_pos (congrArg (idAt r) same)]
      rfl
    · rw [if_neg same, if_neg fun h => same (idAt_inj source target h)]
      rfl

theorem flow_eq (r : Resolution) : flow r = (carried r).map (·.edge r) := by
  rw [flow, nodes_eq, List.flatMap_map, carried, List.map_flatMap]
  refine List.flatMap_congr fun p hp => ?_
  exact flowInto_eq (List.mem_zipIdx_iff_getElem?.1 hp)

theorem carriage?_eq_some_iff {r : Resolution} {j : Nat} {x : String} {c : Carriage} :
    carriage? r j x = some c ↔
      c.target = j ∧ c.name = x ∧ r.FirstDeclaredAt x c.source ∧ c.source ≠ j := by
  simp only [carriage?, Option.bind_eq_some_iff, Resolution.firstDeclared?_eq_some_iff]
  constructor
  · rintro ⟨i, first, h⟩
    split at h
    · exact absurd h (Option.some_ne_none c).symm
    · next apart =>
      obtain rfl := Option.some.inj h
      exact ⟨rfl, rfl, first, apart⟩
  · rintro ⟨rfl, rfl, first, apart⟩
    exact ⟨c.source, first, if_neg apart⟩

theorem mem_carriedInto {r : Resolution} {j : Nat} {a : Statement} {c : Carriage} :
    c ∈ carriedInto r j a ↔
      c.target = j ∧ c.name ∈ touched a ∧ r.FirstDeclaredAt c.name c.source ∧ c.source ≠ j := by
  simp only [carriedInto, List.mem_filterMap, mem_sortedNames, carriage?_eq_some_iff]
  constructor
  · rintro ⟨_, touches, target, rfl, rest⟩
    exact ⟨target, touches, rest⟩
  · rintro ⟨target, touches, rest⟩
    exact ⟨c.name, touches, target, rfl, rest⟩

theorem mem_carried {r : Resolution} {c : Carriage} :
    c ∈ carried r ↔ r.Carries c.source c.target c.name := by
  simp only [carried, List.mem_flatMap, List.mem_zipIdx_iff_getElem?, mem_carriedInto]
  constructor
  · rintro ⟨⟨a, j⟩, place, rfl, touches, first, apart⟩
    exact ⟨first, ⟨a, place, touches⟩, apart⟩
  · rintro ⟨first, ⟨a, place, touches⟩, apart⟩
    exact ⟨(a, c.target), place, rfl, touches, first, apart⟩

/-! ## Order -/

theorem sortedNames_pairwise (names : List String) : (sortedNames names).Pairwise (· < ·) := by
  have sorted : (sortedNames names).Pairwise (· ≤ ·) := by
    have sorted : (sortedNames names).Pairwise fun a b => decide (a ≤ b) = true := by
      refine List.pairwise_mergeSort (fun a b c hab hbc => ?_) (fun a b => ?_) (distinct names)
      · exact decide_eq_true (le_trans (of_decide_eq_true hab) (of_decide_eq_true hbc))
      · simpa using le_total a b
    exact sorted.imp of_decide_eq_true
  have once : (sortedNames names).Nodup :=
    (List.mergeSort_perm _ _).nodup_iff.2 (nodup_distinct names)
  exact sorted.imp₂ (fun _ _ le ne => lt_of_le_of_ne le ne) once

/-- By target, and by name where the target is the same. -/
def Carriage.Before (c c' : Carriage) : Prop :=
  c.target < c'.target ∨ c.target = c'.target ∧ c.name < c'.name

theorem carried_pairwise (r : Resolution) : (carried r).Pairwise Carriage.Before := by
  rw [carried, List.pairwise_flatMap]
  constructor
  · rintro ⟨a, j⟩ -
    rw [carriedInto, List.pairwise_filterMap]
    refine (sortedNames_pairwise (touched a)).imp fun lt c hc c' hc' => .inr ?_
    obtain ⟨target, rfl, -⟩ := carriage?_eq_some_iff.1 hc
    obtain ⟨target', rfl, -⟩ := carriage?_eq_some_iff.1 hc'
    exact ⟨target.trans target'.symm, lt⟩
  · have places : r.statements.zipIdx.Pairwise fun p q => p.2 < q.2 := by
      rw [← List.pairwise_map, List.zipIdx_map_snd]
      exact List.pairwise_lt_range'
    refine places.imp fun lt c hc c' hc' => .inl ?_
    rwa [(mem_carriedInto.1 hc).1, (mem_carriedInto.1 hc').1]

/-! ## Dataflow graphs -/

namespace Drawn

/-- The name of a node, if that is what is drawn. -/
def id? : Drawn → Option String
  | node id _ _ => some id
  | _ => none

/-- The edge that carries a name, if that is what is drawn. -/
def flow? : Drawn → Option FlowEdge
  | flow e => some e
  | _ => none

end Drawn

/-- The names of the nodes of a text, in their order. -/
def nodeIds (t : String) : List String := (drawn t).filterMap Drawn.id?

/-- The dashed edges of a text, in their order. -/
def dashedEdges (t : String) : List FlowEdge := (drawn t).filterMap Drawn.flow?

/-- The nodes of a text stand for the statements in their order, and its dashed edges are
what the names of the resolution ask for.

Only recitals declare names for a report.  They come first, so that declarations among the
actions change nothing in what is said here of such names.  To declare a name again is
neither to read it nor to reassign it. -/
structure ShowsFlow (r : Resolution) (t : String) : Prop where
  nodes : nodeIds t = (List.range r.statements.length).map (idAt r) ∧ (nodeIds t).Nodup
  edges : ∃ cs : List Carriage, dashedEdges t = cs.map (·.edge r) ∧
    (∀ c, c ∈ cs ↔ r.Carries c.source c.target c.name) ∧ cs.Pairwise Carriage.Before
  unused : ∀ x ∈ (Report.ofResolution r).unused, ∀ e ∈ dashedEdges t, e.name ≠ x
  lone : ∀ x ∈ (Report.ofResolution r).declared, (∀ e ∈ dashedEdges t, e.name ≠ x) →
    x ∈ (Report.ofResolution r).unused ∨
      ∃ i, r.FirstDeclaredAt x i ∧ ∀ j, r.TouchedAt x j ↔ j = i

theorem filterMap_map_none {α β : Type} {xs : List α} {g : α → Drawn} {f : Drawn → Option β}
    (h : ∀ x, f (g x) = none) : (xs.map g).filterMap f = [] := by
  rw [List.filterMap_map]
  exact List.filterMap_eq_nil_iff.2 fun x _ => h x

section

variable {r : Resolution} {t : String}

theorem nodeIds_eq (h : text .dataflow r = .ok t) : nodeIds t = ids r := by
  obtain ⟨recitals, actions, hr, ha, drawn⟩ := (readable h).drawn
  have nodes (color : String) {ids labels : List String} (same : ids.length = labels.length) :
      (drawnNodes color ids labels).filterMap Drawn.id? = ids := by
    rw [drawnNodes, List.filterMap_map]
    calc (ids.zip labels).filterMap (fun n => some n.1)
        = (ids.zip labels).map Prod.fst := congrFun List.filterMap_eq_map _
      _ = ids := List.map_fst_zip same.le
  have first : (sectionIds "whereas" r.recitals.length).length = recitals.length := by
    rw [sectionIds, List.length_map, List.length_range, ← hr.length_eq, List.length_map]
  have second : (sectionIds "resolved" r.actions.length).length = actions.length := by
    rw [sectionIds, List.length_map, List.length_range, ← ha.length_eq]
  have order : (drawnOrder (ids r)).filterMap Drawn.id? = [] := filterMap_map_none fun _ => rfl
  have flows (es : List FlowEdge) : (es.map Drawn.flow).filterMap Drawn.id? = [] :=
    filterMap_map_none fun _ => rfl
  rw [nodeIds, drawn, drawing]
  simp only [List.filterMap_append, nodes _ first, nodes _ second, order, flows, List.append_nil]
  rfl

theorem dashedEdges_eq (h : text .dataflow r = .ok t) : dashedEdges t = flow r := by
  obtain ⟨recitals, actions, -, -, drawn⟩ := (readable h).drawn
  have nodes (color : String) (ids labels : List String) :
      (drawnNodes color ids labels).filterMap Drawn.flow? = [] := filterMap_map_none fun _ => rfl
  have order : (drawnOrder (ids r)).filterMap Drawn.flow? = [] := filterMap_map_none fun _ => rfl
  have flows : ((flow r).map Drawn.flow).filterMap Drawn.flow? = flow r := by
    rw [List.filterMap_map]
    exact List.filterMap_some
  rw [dashedEdges, drawn, drawing, dashed, if_pos rfl]
  simp only [List.filterMap_append, nodes, order, flows, List.nil_append]

theorem exists_edge_iff {x : String} :
    (∃ e ∈ flow r, e.name = x) ↔ ∃ i j, r.Carries i j x := by
  simp only [flow_eq, List.mem_map, mem_carried]
  constructor
  · rintro ⟨_, ⟨c, carries, rfl⟩, rfl⟩
    exact ⟨c.source, c.target, carries⟩
  · rintro ⟨i, j, carries⟩
    exact ⟨_, ⟨⟨i, j, x⟩, carries, rfl⟩, rfl⟩

theorem showsFlow (h : text .dataflow r = .ok t) : ShowsFlow r t where
  nodes := ⟨(nodeIds_eq h).trans (ids_eq r), nodeIds_eq h ▸ nodup_ids r⟩
  edges :=
    ⟨carried r, (dashedEdges_eq h).trans (flow_eq r), fun _ => mem_carried, carried_pairwise r⟩
  unused x hx e he := by
    rintro rfl
    rw [dashedEdges_eq h] at he
    obtain ⟨i, j, carries⟩ := exists_edge_iff.1 ⟨e, he, rfl⟩
    exact (mem_unused_iff_touchedAt.1 hx).2 j carries.target
  lone x hx none := by
    have recital : x ∈ r.recitals.map (·.name) := mem_distinct.1 hx
    obtain ⟨i, first⟩ := Resolution.exists_firstDeclaredAt recital
    have alone (j : Nat) (touched : r.TouchedAt x j) : j = i := by
      by_contra apart
      obtain ⟨e, he, name⟩ := exists_edge_iff.2 ⟨i, j, first, touched, Ne.symm apart⟩
      rw [← dashedEdges_eq h] at he
      exact none e he name
    by_cases own : r.TouchedAt x i
    · refine .inr ⟨i, first, fun j => ⟨alone j, ?_⟩⟩
      rintro rfl
      exact own
    · refine .inl (mem_unused_iff_touchedAt.2 ⟨recital, fun j touched => own ?_⟩)
      exact alone j touched ▸ touched

end

/-- A dataflow graph shows what is read: its names are those of the expressions and the
reassignments that a report goes through, and its edges lead from the first declaration of a
name to each other statement that touches it. -/
theorem text_dataflow {r : Resolution} (h : ∀ n ∈ r.literals, InRange n) :
    (∀ a x, x ∈ touched a ↔ (∃ e ∈ a.expressions, x ∈ distinct e.names) ∨ x ∈ a.assumed) ∧
      (∀ (e : Expr) x, x ∈ distinct e.names ↔ Expr.name x ∈ e.subexpressions) ∧
      ∃ t, text .dataflow r = .ok t ∧ ShowsFlow r t := by
  obtain ⟨t, ht⟩ := text_ok h .dataflow
  exact ⟨fun _ _ => mem_touched, fun _ _ => mem_distinct.trans Expr.mem_names, t, ht, showsFlow ht⟩

/-- A name that is declared again, one that only its own declaration reads, and an action that
reassigns one name by another. -/
def redeclared : Resolution where
  recitals := [⟨"x", .integer 1⟩, ⟨"y", .name "x"⟩, ⟨"x", .name "y"⟩, ⟨"z", .name "z"⟩]
  actions := [.assume "y" (.name "x")]

theorem text_dataflow_redeclared : (∀ n ∈ redeclared.literals, InRange n) ∧
    ∃ t, text .dataflow redeclared = .ok t ∧ ShowsFlow redeclared t ∧
      dashedEdges t = [⟨"whereas_0", "whereas_1", "x"⟩, ⟨"whereas_1", "whereas_2", "y"⟩,
        ⟨"whereas_0", "resolved_0", "x"⟩, ⟨"whereas_1", "resolved_0", "y"⟩] := by
  have inRange : ∀ n ∈ redeclared.literals, InRange n := by decide
  obtain ⟨-, -, t, ht, shows⟩ := text_dataflow inRange
  exact ⟨inRange, t, ht, shows, (dashedEdges_eq ht).trans ((flow_eq redeclared).trans (by cbv))⟩

end Graph
end Legalese
