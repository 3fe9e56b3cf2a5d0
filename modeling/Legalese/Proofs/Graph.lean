import Legalese.Proofs.Evaluation.Dependence

/-!
# Graphs that can be drawn

Labels show numbers as numerals, which only the numbers of the range have.  Nothing else
can go wrong when a graph is drawn.  `Confined` says so of one step, and the steps of a
computation add up: a mode that shows expressions fails for a literal outside the range
and for nothing else, and the other mode never fails.
-/

namespace Legalese

/-- A computation that needs some numbers to be in the range, and names one that is not. -/
inductive Confined {α : Type} (ns : List Int) : Except OutsideRange α → Prop
  | ok (a : α) (h : ∀ n ∈ ns, InRange n) : Confined ns (.ok a)
  | error (n : Int) (hn : n ∈ ns) (h : ¬InRange n) : Confined ns (.error ⟨n⟩)

namespace Confined

variable {α β : Type} {ns ms : List Int} {x : Except OutsideRange α}

theorem congr (h : Confined ns x) (same : ∀ n, n ∈ ns ↔ n ∈ ms) : Confined ms x := by
  cases h with
  | ok a h => exact .ok a fun n hn => h n ((same n).2 hn)
  | error n hn h => exact .error n ((same n).1 hn) h

theorem free (a : α) : Confined [] (.ok a) := .ok a nofun

theorem bind {f : α → Except OutsideRange β} (h : Confined ns x) (hf : ∀ a, Confined ms (f a)) :
    Confined (ns ++ ms) (x >>= f) := by
  cases h with
  | error n hn h => exact .error n (List.mem_append_left ms hn) h
  | ok a h =>
    have rest := hf a
    show Confined (ns ++ ms) (f a)
    generalize f a = y at rest ⊢
    cases rest with
    | ok b hb => exact .ok b fun n hn => (List.mem_append.1 hn).elim (h n) (hb n)
    | error n hn hb => exact .error n (List.mem_append_right ns hn) hb

theorem map (h : Confined ns x) (f : α → β) : Confined ns (x >>= fun a => .ok (f a)) :=
  List.append_nil ns ▸ h.bind fun a => free (f a)

theorem ok_of_inRange (h : Confined ns x) (inRange : ∀ n ∈ ns, InRange n) : ∃ a, x = .ok a := by
  cases h with
  | ok a _ => exact ⟨a, rfl⟩
  | error n hn h => exact absurd (inRange n hn) h

theorem error_iff (h : Confined ns x) : (∃ e, x = .error e) ↔ ∃ n ∈ ns, ¬InRange n := by
  cases h with
  | ok a h => exact ⟨nofun, fun ⟨n, hn, outside⟩ => absurd (h n hn) outside⟩
  | error n hn h => exact ⟨fun _ => ⟨n, hn, h⟩, fun _ => ⟨⟨n⟩, rfl⟩⟩

theorem mapM {f : α → Except OutsideRange β} {needs : α → List Int}
    (h : ∀ a, Confined (needs a) (f a)) (as : List α) :
    Confined (as.flatMap needs) (as.mapM f) := by
  induction as with
  | nil => exact free []
  | cons a as ih =>
    rw [List.mapM_cons, List.flatMap_cons]
    exact (h a).bind fun b => ih.map (b :: ·)

end Confined

namespace Graph

/-! ## Nodes -/

theorem map_statement_numbered (id : String) (as : List Statement) :
    (numbered id as).map (·.statement) = as := by
  rw [numbered, List.map_map]
  exact List.zipIdx_map_fst 0 as

theorem map_statement_nodes (r : Resolution) : (nodes r).map (·.statement) = r.statements := by
  simp only [nodes, sections, List.flatMap_cons, List.flatMap_nil, List.append_nil,
    List.map_append, map_statement_numbered]
  rfl

/-! ## Labels -/

theorem exprLabel_confined (e : Expr) : Confined e.literals (exprLabel e) := by
  induction e with
  | integer n =>
    rw [exprLabel, Numeral.write?, inRangeOnly]
    split
    · next inside => exact .ok _ fun m hm => List.mem_singleton.1 hm ▸ inside
    · next outside => exact .error n List.mem_cons_self outside
  | text s => exact .free _
  | name x => exact .free _
  | unary op e ih => exact ih.map _
  | binary op a b iha ihb => exact iha.bind fun _ => ihb.map _
  | less l r ihl ihr => exact ihl.bind fun _ => ihr.map _
  | power op e ih => exact ih.map _

/-- A consequence is looked at first, which is why the order of the literals is left open. -/
theorem detailedLabel_confined (a : Statement) : Confined a.literals (detailedLabel a) := by
  have single {e : Expr} {x : Except OutsideRange String} (h : Confined e.literals x) :
      Confined ([e].flatMap Expr.literals) x := by
    rwa [List.flatMap_cons, List.flatMap_nil, List.append_nil]
  induction a with
  | declare d => exact single ((exprLabel_confined d.value).map _)
  | assume x e => exact single ((exprLabel_confined e).map _)
  | publish e => exact single ((exprLabel_confined e).map _)
  | conditional l r relation c ih =>
    have parts := ih.bind fun consequence => (exprLabel_confined l).bind fun left =>
      (exprLabel_confined r).map fun right => "if "
        ++ shorten (left ++ " " ++ relation.word ++ " " ++ right) ++ "\n" ++ consequence
    refine parts.congr fun n => ?_
    simp only [Statement.literals, Statement.expressions, List.flatMap_cons, List.mem_append]
    tauto

/-- The numbers that a mode writes into the labels of some statements. -/
def shown (mode : GraphMode) (as : List Statement) : List Int :=
  if mode.showsExpressions then as.flatMap Statement.literals else []

theorem shown_flatMap {α : Type} (mode : GraphMode) (f : α → List Statement) (xs : List α) :
    xs.flatMap (fun x => shown mode (f x)) = shown mode (xs.flatMap f) := by
  unfold shown
  split
  · exact List.flatMap_assoc.symm
  · exact List.flatMap_eq_nil_iff.2 fun _ _ => rfl

theorem statementLabel_confined (mode : GraphMode) (a : Statement) :
    Confined (shown mode [a]) (statementLabel mode a) := by
  unfold shown statementLabel
  split
  · rw [List.flatMap_cons, List.flatMap_nil, List.append_nil]
    exact detailedLabel_confined a
  · exact .free _

/-! ## Texts -/

theorem sectionLines_confined (mode : GraphMode) (s : Section) :
    Confined (shown mode (s.nodes.map (·.statement))) (sectionLines mode s) := by
  have nodes := Confined.mapM (f := nodeLine mode s.color)
    (fun n => (statementLabel_confined mode n.statement).map _) s.nodes
  rw [shown_flatMap mode fun n : Node => [n.statement], ← List.map_eq_flatMap] at nodes
  exact nodes.map _

/-- A graph fails for the numbers that its mode shows, and only for them. -/
theorem text_confined (mode : GraphMode) (r : Resolution) :
    Confined (shown mode r.statements) (text mode r) := by
  have clusters := Confined.mapM (sectionLines_confined mode) (sections r)
  rw [shown_flatMap mode fun s : Section => s.nodes.map (·.statement)] at clusters
  rw [← map_statement_nodes, nodes, List.map_flatMap]
  exact (clusters.map _).map _

/-- Every resolution of the range has a graph. -/
theorem text_ok {r : Resolution} (h : ∀ n ∈ r.literals, InRange n) (mode : GraphMode) :
    ∃ text, Graph.text mode r = .ok text := by
  refine (text_confined mode r).ok_of_inRange fun n hn => ?_
  unfold shown at hn
  split at hn
  · exact h n hn
  · exact absurd hn List.not_mem_nil

end Graph
end Legalese
