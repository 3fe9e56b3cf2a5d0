import Legalese.Proofs.Graph
import Legalese.Proofs.Graph.Line
import Legalese.Proofs.Number.Numeral
import Legalese.Proofs.Tree

/-!
# Reading the text of a graph

The text of a graph is cut at its line feeds and read line by line.  What comes back is
what was drawn: a node for each statement with its label, the edges between neighbours,
and in a dataflow graph the edges that carry names.  Nothing that stands in a name or a
text of the resolution can add a line, end a label or be taken for an edge.
-/

namespace Legalese
namespace Graph

/-! ## Names of nodes -/

def nodeId (part : String) (i : Nat) : String := part ++ "_" ++ toString i

/-- The names of the nodes of a section. -/
def sectionIds (part : String) (n : Nat) : List String := (List.range n).map (nodeId part)

/-- The names of all nodes in program order. -/
def ids (r : Resolution) : List String :=
  sectionIds "whereas" r.recitals.length ++ sectionIds "resolved" r.actions.length

theorem plain_whereas : Plain "whereas" := ⟨⟨'w', rfl, rfl⟩, List.all_eq_true.1 rfl⟩

theorem plain_resolved : Plain "resolved" := ⟨⟨'r', rfl, rfl⟩, List.all_eq_true.1 rfl⟩

theorem plain_nodeId {part : String} (h : Plain part) (i : Nat) : Plain (nodeId part i) := by
  have digits : (toString i).toList = Nat.toDigits 10 i := String.toList_ofList
  constructor
  · obtain ⟨c, head, letter⟩ := h.letter
    refine ⟨c, ?_, letter⟩
    simp only [nodeId, String.toList_append, List.head?_append, head, Option.some_or]
  · intro c hc
    simp only [nodeId, String.toList_append, digits, List.mem_append] at hc
    rcases hc with (hc | hc) | hc
    · exact h.plain c hc
    · exact List.mem_singleton.1 hc ▸ rfl
    · simp [isPlain, Numeral.isDigit_of_mem_toDigits hc]

/-- No name of a node needs quotation marks. -/
theorem numbered_eq {part : String} (h : Plain part) (as : List Statement) :
    numbered part as = as.zipIdx.map fun s => ⟨nodeId part s.2, s.1⟩ :=
  List.map_congr_left fun s _ => congrArg (Node.mk · s.1) (writtenId_eq (plain_nodeId h s.2))

theorem map_id_numbered {part : String} (h : Plain part) (as : List Statement) :
    (numbered part as).map (·.id) = sectionIds part as.length := by
  rw [numbered_eq h, List.map_map, sectionIds, List.range_eq_range', ← List.zipIdx_map_snd 0 as,
    List.map_map]
  rfl

theorem map_id_nodes (r : Resolution) : (nodes r).map (·.id) = ids r := by
  simp only [nodes, sections, List.flatMap_cons, List.flatMap_nil, List.append_nil,
    List.map_append, map_id_numbered plain_whereas, map_id_numbered plain_resolved, List.length_map]
  rfl

theorem nodeId_injective (part : String) : Function.Injective (nodeId part) := by
  intro i j h
  exact Nat.repr_inj.1 ((String.append_right_inj _).1 h)

theorem nodup_ids (r : Resolution) : (ids r).Nodup := by
  refine List.nodup_append.2 ⟨?_, ?_, ?_⟩
  · exact List.nodup_range.map (nodeId_injective "whereas")
  · exact List.nodup_range.map (nodeId_injective "resolved")
  · intro a ha b hb same
    obtain ⟨i, -, rfl⟩ := List.mem_map.1 ha
    obtain ⟨j, -, rfl⟩ := List.mem_map.1 hb
    have first : some 'w' = some 'r' := by
      have first := congrArg (fun s => s.toList.head?) same
      simp only [nodeId, String.toList_append, List.head?_append] at first
      exact first
    exact absurd first (by decide)

theorem plain_of_mem_sectionIds {part id : String} {n : Nat} (h : Plain part)
    (hid : id ∈ sectionIds part n) : Plain id := by
  obtain ⟨i, -, rfl⟩ := List.mem_map.1 hid
  exact plain_nodeId h i

theorem plain_of_mem_ids {r : Resolution} {id : String} (h : id ∈ ids r) : Plain id :=
  (List.mem_append.1 h).elim (plain_of_mem_sectionIds plain_whereas)
    (plain_of_mem_sectionIds plain_resolved)

theorem mem_ids_of_mem_flow {r : Resolution} {e : FlowEdge} (h : e ∈ flow r) :
    e.source ∈ ids r ∧ e.target ∈ ids r := by
  obtain ⟨n, hn, he⟩ := List.mem_flatMap.1 h
  obtain ⟨x, -, he⟩ := List.mem_filterMap.1 he
  split at he
  · next d hd =>
    split at he
    · exact absurd he (Option.some_ne_none e).symm
    · obtain rfl := Option.some.inj he
      rw [← map_id_nodes]
      exact ⟨List.mem_map_of_mem (List.mem_of_find?_eq_some hd), List.mem_map_of_mem hn⟩
  · exact absurd he (Option.some_ne_none e).symm

/-! ## Lines -/

/-- Lines without a line feed inside, and what they add to a graph.  Each of them adds one
thing, except some that only give the graph its frame. -/
structure Adds (frame : Nat) (ls : List String) (ds : List Drawn) : Prop where
  unbroken : ∀ l ∈ ls, '\n' ∉ l.toList
  drawn : ls.filterMap (fun l => Drawn.ofLine? l.toList) = ds
  length : ls.length = frame + ds.length

namespace Adds

variable {m n : Nat} {ls ls' : List String} {ds ds' : List Drawn}

theorem append (h : Adds m ls ds) (h' : Adds n ls' ds') : Adds (m + n) (ls ++ ls') (ds ++ ds') where
  unbroken l hl := (List.mem_append.1 hl).elim (h.unbroken l) (h'.unbroken l)
  drawn := by rw [List.filterMap_append, h.drawn, h'.drawn]
  length := by rw [List.length_append, List.length_append, h.length, h'.length]; omega

theorem frame (length : ls.length = n) (unbroken : ∀ l ∈ ls, '\n' ∉ l.toList)
    (nothing : ∀ l ∈ ls, Drawn.ofLine? l.toList = none) : Adds n ls [] where
  unbroken
  drawn := List.filterMap_eq_nil_iff.2 nothing
  length

theorem single {l : String} {d : Drawn} (unbroken : '\n' ∉ l.toList)
    (read : Drawn.ofLine? l.toList = some d) : Adds 0 [l] [d] where
  unbroken l' hl := List.mem_singleton.1 hl ▸ unbroken
  drawn := by simp only [List.filterMap_cons, read, List.filterMap_nil]
  length := rfl

theorem map {α : Type} {xs : List α} {f : α → String} {g : α → Drawn}
    (h : ∀ x ∈ xs, Adds 0 [f x] [g x]) : Adds 0 (xs.map f) (xs.map g) := by
  induction xs with
  | nil => exact ⟨nofun, rfl, rfl⟩
  | cons x xs ih =>
    exact (h x List.mem_cons_self).append (ih fun y hy => h y (List.mem_cons_of_mem x hy))

end Adds

theorem feed_not_mem_plain {s : String} (h : Plain s) : '\n' ∉ s.toList := by
  intro feed
  exact absurd (h.plain '\n' feed) (by decide)

/-- The line of a node that has a label. -/
def nodeText (color : String) (n : String × String) : String :=
  "    " ++ n.1 ++ " [label=" ++ quoted n.2 ++ ", fillcolor=" ++ color ++ "];"

/-- What stands after the label of a node. -/
def nodeTail (color : String) : String := ", fillcolor=" ++ color ++ "];"

theorem adds_nodeText {color : String} (hc : '\n' ∉ color.toList) {n : String × String}
    (h : Plain n.1) : Adds 0 [nodeText color n] [.node n.1 n.2 (nodeTail color)] := by
  apply Adds.single
  · have noFeed := feed_not_mem_plain h
    have label := feed_not_mem_quoted n.2
    simp [nodeText, noFeed, label, hc]
  · have read := Drawn.ofLine?_node h n.2 (nodeTail color).toList
    rw [String.ofList_toList] at read
    rw [← read]
    simp only [nodeText, nodeTail, String.toList_append, List.append_assoc]

theorem adds_next {e : String × String} (hs : Plain e.1) (ht : Plain e.2) :
    Adds 0 ["  " ++ e.1 ++ " -> " ++ e.2 ++ ";"] [.next e.1 e.2] := by
  apply Adds.single
  · have source := feed_not_mem_plain hs
    have target := feed_not_mem_plain ht
    simp [source, target]
  · rw [← Drawn.ofLine?_next hs ht]
    simp only [String.toList_append, List.append_assoc]

theorem adds_flowLine {e : FlowEdge} (hs : Plain e.source) (ht : Plain e.target) :
    Adds 0 [flowLine e] [.flow e] := by
  apply Adds.single
  · have source := feed_not_mem_plain hs
    have target := feed_not_mem_plain ht
    have label := feed_not_mem_quoted e.name
    simp [flowLine, source, target, label]
  · rw [← Drawn.ofLine?_flow hs ht]
    simp only [flowLine, String.toList_append, List.append_assoc]

/-! ## Labels -/

/-- The labels of some statements. -/
def Labelled (mode : GraphMode) (as : List Statement) (labels : List String) : Prop :=
  List.Forall₂ (fun a label => statementLabel mode a = .ok label) as labels

theorem exists_labels {mode : GraphMode} {color : String} {ns : List Node} {ls : List String}
    (h : ns.mapM (nodeLine mode color) = .ok ls) :
    ∃ labels, Labelled mode (ns.map (·.statement)) labels ∧
      ls = ((ns.map (·.id)).zip labels).map (nodeText color) := by
  have lines := mapM_eq_ok_iff.1 h
  clear h
  induction lines with
  | nil => exact ⟨[], .nil, rfl⟩
  | cons line _ ih =>
    obtain ⟨labels, labelled, rfl⟩ := ih
    obtain ⟨label, first, line⟩ := bind_eq_ok.1 line
    obtain rfl := Except.ok.inj line
    exact ⟨label :: labels, .cons first labelled, rfl⟩

/-! ## Sections -/

/-- What is drawn for the nodes of a section, by their names and labels. -/
def drawnNodes (color : String) (ids labels : List String) : List Drawn :=
  (ids.zip labels).map fun n => .node n.1 n.2 (nodeTail color)

/-- What is drawn from each statement to the next. -/
def drawnOrder (ids : List String) : List Drawn :=
  (ids.zip ids.tail).map fun e => .next e.1 e.2

/-- The frame of a section. -/
def opening (id title : String) : List String :=
  ["  subgraph cluster_" ++ id ++ " \x7b", "    label=" ++ quoted title ++ ";",
    "    style=rounded;"]

theorem adds_sectionLines {mode : GraphMode} {part title color : String} {as : List Statement}
    {ls : List String} (h : sectionLines mode ⟨part, title, color, numbered part as⟩ = .ok ls)
    (plain : Plain part) (begins : Adds 3 (opening part title) [])
    (hc : '\n' ∉ color.toList) :
    ∃ labels, Labelled mode as labels ∧
      Adds 4 ls (drawnNodes color (sectionIds part as.length) labels) := by
  obtain ⟨lines, hl, h⟩ := bind_eq_ok.1 h
  obtain rfl := Except.ok.inj h
  obtain ⟨labels, labelled, nodes⟩ := exists_labels hl
  rw [map_statement_numbered] at labelled
  rw [map_id_numbered plain] at nodes
  subst nodes
  have inner : Adds 0 (((sectionIds part as.length).zip labels).map (nodeText color))
      (drawnNodes color (sectionIds part as.length) labels) :=
    .map fun n hn => adds_nodeText hc (plain_of_mem_sectionIds plain (List.of_mem_zip hn).1)
  have ends : Adds 1 ["  \x7d"] [] := .frame rfl (by decide) (by decide)
  have all := (begins.append inner).append ends
  rw [List.nil_append, List.append_nil] at all
  exact ⟨labels, labelled, all⟩

/-! ## Texts -/

/-- The edges that a mode draws for names. -/
def dashed (mode : GraphMode) (r : Resolution) : List FlowEdge :=
  if mode = .dataflow then flow r else []

/-- All that is drawn for a resolution, if these are the labels of its statements. -/
def drawing (mode : GraphMode) (r : Resolution) (recitals actions : List String) : List Drawn :=
  drawnNodes "lightyellow" (sectionIds "whereas" r.recitals.length) recitals
    ++ drawnNodes "lightblue" (sectionIds "resolved" r.actions.length) actions
    ++ drawnOrder (ids r)
    ++ (dashed mode r).map .flow

theorem adds_orderLines (r : Resolution) : Adds 0 (orderLines (ids r)) (drawnOrder (ids r)) := by
  refine .map fun e he => ?_
  have ends := List.of_mem_zip he
  exact adds_next (plain_of_mem_ids ends.1) (plain_of_mem_ids (List.mem_of_mem_tail ends.2))

theorem adds_dashed (mode : GraphMode) (r : Resolution) :
    Adds 0 (if mode = .dataflow then (flow r).map flowLine else [])
      ((dashed mode r).map .flow) := by
  unfold dashed
  split
  · refine .map fun e he => ?_
    have ends := mem_ids_of_mem_flow he
    exact adds_flowLine (plain_of_mem_ids ends.1) (plain_of_mem_ids ends.2)
  · exact .frame rfl nofun nofun

theorem adds_lines {mode : GraphMode} {r : Resolution} {ls : List String}
    (h : lines mode r = .ok ls) :
    ∃ recitals actions, Labelled mode (r.recitals.map .declare) recitals ∧
      Labelled mode r.actions actions ∧ Adds 12 ls (drawing mode r recitals actions) := by
  obtain ⟨clusters, hc, h⟩ := bind_eq_ok.1 h
  obtain rfl := Except.ok.inj h
  have parts := mapM_eq_ok_iff.1 hc
  rw [sections, List.forall₂_cons_left_iff] at parts
  obtain ⟨first, rest, hf, parts, rfl⟩ := parts
  rw [List.forall₂_cons_left_iff] at parts
  obtain ⟨second, rest, hs, parts, rfl⟩ := parts
  obtain rfl := List.forall₂_nil_left_iff.1 parts
  have begins : Adds 3 ["digraph resolution \x7b", "  rankdir=TB;",
    "  node [shape=box, style=filled, fillcolor=lightblue];"] [] :=
      .frame rfl (by decide) (by decide)
  have ends : Adds 1 ["\x7d"] [] := .frame rfl (by decide) (by decide)
  obtain ⟨recitals, hr, first⟩ := adds_sectionLines hf plain_whereas
    (.frame rfl (by decide) (by decide)) (by decide)
  obtain ⟨actions, ha, second⟩ := adds_sectionLines hs plain_resolved
    (.frame rfl (by decide) (by decide)) (by decide)
  rw [List.length_map] at first
  have all := (((begins.append (first.append second)).append (adds_orderLines r)).append
    (adds_dashed mode r)).append ends
  refine ⟨recitals, actions, hr, ha, ?_⟩
  simpa only [drawing, map_id_nodes, List.flatten_cons, List.flatten_nil, List.append_nil,
    List.nil_append] using all

theorem length_drawing {mode : GraphMode} {r : Resolution} {recitals actions : List String}
    (hr : Labelled mode (r.recitals.map .declare) recitals) (ha : Labelled mode r.actions actions) :
    (drawing mode r recitals actions).length =
      r.recitals.length + r.actions.length + (r.recitals.length + r.actions.length - 1)
        + (dashed mode r).length := by
  have first := hr.length_eq
  have second := ha.length_eq
  rw [List.length_map] at first
  simp only [drawing, drawnNodes, drawnOrder, ids, sectionIds, List.length_append, List.length_map,
    List.length_zip, List.length_tail, List.length_range, ← first, ← second]
  omega

/-- The lines of a text. -/
def linesOf (t : String) : List (List Char) := t.toList.splitOn '\n'

theorem linesOf_intercalate {n : Nat} {ls : List String} {ds : List Drawn}
    (h : Adds (n + 1) ls ds) : linesOf ("\n".intercalate ls) = ls.map String.toList := by
  have some : ls.map String.toList ≠ [] := by
    intro none
    have length := h.length
    rw [List.map_eq_nil_iff.1 none, List.length_nil] at length
    omega
  have feed : "\n".toList = ['\n'] := rfl
  rw [linesOf, String.toList_intercalate, feed]
  refine List.splitOn_intercalate '\n' (fun cs hcs => ?_) some
  obtain ⟨l, hl, rfl⟩ := List.mem_map.1 hcs
  exact h.unbroken l hl

/-- What a text adds to a graph, line by line. -/
def drawn (t : String) : List Drawn := (linesOf t).filterMap Drawn.ofLine?

/-- What can be read off the text of a graph: its length, and everything that is drawn. -/
structure Readable (mode : GraphMode) (r : Resolution) (t : String) : Prop where
  length : (linesOf t).length = 12 + r.recitals.length + r.actions.length
    + (r.recitals.length + r.actions.length - 1) + (dashed mode r).length
  drawn : ∃ recitals actions, Labelled mode (r.recitals.map .declare) recitals ∧
    Labelled mode r.actions actions ∧ drawn t = drawing mode r recitals actions

theorem readable {mode : GraphMode} {r : Resolution} {t : String} (h : text mode r = .ok t) :
    Readable mode r t := by
  obtain ⟨ls, hl, h⟩ := bind_eq_ok.1 h
  obtain rfl := Except.ok.inj h
  obtain ⟨recitals, actions, hr, ha, adds⟩ := adds_lines hl
  constructor
  · rw [linesOf_intercalate adds, List.length_map, adds.length, length_drawing hr ha]
    omega
  · refine ⟨recitals, actions, hr, ha, ?_⟩
    rw [drawn, linesOf_intercalate adds, List.filterMap_map]
    exact adds.drawn

theorem mem_shown {mode : GraphMode} {r : Resolution} {n : Int} :
    n ∈ shown mode r.statements ↔ (mode = .detailed ∨ mode = .dataflow) ∧ n ∈ r.literals := by
  unfold shown
  cases mode <;> simp [GraphMode.showsExpressions, Resolution.literals]

/-- A graph fails exactly if its mode shows a number outside the range, and names such a
number.  Any other graph is a text whose lines are read back. -/
theorem text_readable (mode : GraphMode) (r : Resolution) :
    (ids r).Nodup ∧
      ((∃ e, text mode r = .error e) ↔
        (mode = .detailed ∨ mode = .dataflow) ∧ ∃ n ∈ r.literals, ¬InRange n) ∧
      ((∃ e, text mode r = .error e ∧ e.value ∈ r.literals ∧ ¬InRange e.value) ∨
        ∃ t, text mode r = .ok t ∧ Readable mode r t) := by
  have confined := text_confined mode r
  refine ⟨nodup_ids r, ?_, ?_⟩
  · rw [confined.error_iff]
    simp only [mem_shown, and_assoc, exists_and_left]
  · generalize ht : text mode r = x at confined
    cases confined with
    | ok t h => exact .inr ⟨t, rfl, readable ht⟩
    | error n hn outside => exact .inl ⟨⟨n⟩, rfl, (mem_shown.1 hn).2, outside⟩

end Graph
end Legalese
