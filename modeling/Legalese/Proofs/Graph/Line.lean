import Legalese.Graph
import Legalese.Proofs.Layout
import Mathlib.Data.List.Basic

/-!
# Reading the lines of a graph

A line of a graph adds a node or an edge to it, or only gives it its frame.  `Drawn.ofLine?`
reads a line the way the language is read: plain words for nodes, and a label from its
opening mark to the first mark without a backslash.  What is written for a node or an edge
is read back whatever the label holds, and no label breaks its line.
-/

namespace Legalese
namespace Graph

/-! ## Quoted texts -/

/-- The character that is meant by one after a backslash. -/
def unescapeChar? (c : Char) : Option Char :=
  if c = '\\' then some '\\'
  else if c = '\x22' then some '\x22'
  else if c = 'n' then some '\n'
  else none

/-- The text up to the first mark without a backslash, and what comes after the mark. -/
def unquote? : List Char → Option (List Char × List Char)
  | [] => none
  | '\x22' :: rest => some ([], rest)
  | ['\\'] => none
  | '\\' :: c :: cs =>
    (unescapeChar? c).bind fun d => (unquote? cs).map fun read => (d :: read.1, read.2)
  | c :: cs => (unquote? cs).map fun read => (c :: read.1, read.2)

/-- A text between marks, and what comes after it. -/
def quotedText? : List Char → Option (String × List Char)
  | '\x22' :: cs => (unquote? cs).map fun read => (String.ofList read.1, read.2)
  | _ => none

/-- What stands for a character between quotation marks. -/
def escapeChar (c : Char) : List Char :=
  if c = '\\' then ['\\', '\\']
  else if c = '\x22' then ['\\', '\x22']
  else if c = '\n' then ['\\', 'n']
  else [c]

/-- Backslashes are escaped first, and no later escape meets a character that an earlier one
has put in, so the three of them are one pass. -/
theorem escape_eq (cs : List Char) :
    escape '\n' 'n' (escape '\x22' '\x22' (escape '\\' '\\' cs)) = cs.flatMap escapeChar := by
  rw [escape, escape, escape, List.flatMap_assoc, List.flatMap_assoc]
  refine congrArg cs.flatMap (funext fun c => ?_)
  unfold escapeChar
  by_cases slash : c = '\\'
  · rw [slash]
    rfl
  · rw [if_neg slash, if_neg slash, List.flatMap_singleton]
    by_cases mark : c = '\x22'
    · rw [mark]
      rfl
    · rw [if_neg mark, if_neg mark, List.flatMap_singleton]

theorem quoted_eq (s : String) :
    quoted s = String.ofList ('\x22' :: s.toList.flatMap escapeChar ++ ['\x22']) := by
  unfold quoted
  split
  · next empty =>
    rw [empty]
    rfl
  · rw [escape_eq]

theorem unquote?_escapeChar (c : Char) (cs : List Char) :
    unquote? (escapeChar c ++ cs) = (unquote? cs).map fun read => (c :: read.1, read.2) := by
  unfold escapeChar
  split
  · next slash =>
    rw [slash]
    rfl
  · next noSlash =>
    split
    · next mark =>
      rw [mark]
      rfl
    · next noMark =>
      split
      · next feed =>
        rw [feed]
        rfl
      · rw [List.singleton_append, unquote?]
        · exact noMark
        · exact fun slash _ => noSlash slash
        · exact fun _ _ slash _ => noSlash slash

theorem unquote?_escaped (cs rest : List Char) :
    unquote? (cs.flatMap escapeChar ++ '\x22' :: rest) = some (cs, rest) := by
  induction cs with
  | nil => rfl
  | cons c cs ih => rw [List.flatMap_cons, List.append_assoc, unquote?_escapeChar, ih]; rfl

/-- A quoted text is read back, whatever it holds. -/
theorem quotedText?_quoted (s : String) (rest : List Char) :
    quotedText? ((quoted s).toList ++ rest) = some (s, rest) := by
  rw [quoted_eq, String.toList_ofList, List.cons_append, List.cons_append, List.append_assoc,
    List.singleton_append, quotedText?, unquote?_escaped, Option.map_some, String.ofList_toList]

example : quotedText? "\"a\\\"b\\\\\", x".toList = some ("a\"b\\", ", x".toList) := by decide

theorem feed_not_mem_quoted (s : String) : '\n' ∉ (quoted s).toList := by
  have plain (c : Char) : '\n' ∉ escapeChar c := by
    unfold escapeChar
    split
    · decide
    · split
      · decide
      · split
        · decide
        · next noFeed => exact fun h => noFeed (List.mem_singleton.1 h).symm
  rw [quoted_eq, String.toList_ofList]
  simp [plain]

/-! ## Words -/

/-- A character that needs no quotation marks. -/
def isPlain (c : Char) : Bool := isLetter c || isDigit c || c == '_'

/-- The plain word that a text begins with, and what comes after it. -/
def word? (cs : List Char) : Option (String × List Char) :=
  if cs.takeWhile isPlain = [] then none
  else some (String.ofList (cs.takeWhile isPlain), cs.dropWhile isPlain)

/-- What comes after a given text. -/
def after? (front : String) (cs : List Char) : Option (List Char) :=
  front.toList.isPrefixOf? cs

/-- A word that can stand for a node. -/
structure Plain (s : String) : Prop where
  letter : ∃ c, s.toList.head? = some c ∧ isLetter c = true
  plain : ∀ c ∈ s.toList, isPlain c = true

theorem Plain.nonempty {s : String} (h : Plain s) : s.toList ≠ [] := by
  obtain ⟨c, head, -⟩ := h.letter
  exact List.ne_nil_of_mem (List.mem_of_head? head)

theorem writtenId_eq {id : String} (h : Plain id) : writtenId id = id := by
  obtain ⟨c, head, letter⟩ := h.letter
  have noDigit : isDigit c = false := by
    refine Bool.eq_false_iff.2 fun digit => ?_
    rw [isLetter_of_isDigit digit] at letter
    cases letter
  have some : c ∈ id.toList.filter (· != '_') :=
    List.mem_filter.2 ⟨List.mem_of_head? head, bne_iff_ne.2 (ne_of_class letter rfl)⟩
  have all : (id.toList.filter (· != '_')).all (fun c => isLetter c || isDigit c) = true := by
    refine List.all_eq_true.2 fun d hd => ?_
    obtain ⟨mem, other⟩ := List.mem_filter.1 hd
    simpa [isPlain, bne_iff_ne.1 other] using h.plain d mem
  unfold writtenId
  dsimp only
  rw [head, Option.any_some, noDigit, List.isEmpty_eq_false_iff.2 (List.ne_nil_of_mem some), all]
  rfl

theorem stops_at (front : String) {c : Char} (first : front.toList.head? = some c)
    (h : isPlain c = false) (cs : List Char) : BeginsOutside isPlain (front.toList ++ cs) := by
  intro d hd
  rw [List.head?_append, first, Option.some_or] at hd
  exact Option.some.inj hd ▸ h

theorem after?_append (front : String) (cs : List Char) :
    after? front (front.toList ++ cs) = some cs :=
  List.isPrefixOf?_eq_some_iff_append_eq.2 rfl

theorem word?_append {s : String} (h : Plain s) {rest : List Char}
    (stops : BeginsOutside isPlain rest) : word? (s.toList ++ rest) = some (s, rest) := by
  rw [word?, takeWhile_run h.plain stops, dropWhile_run h.plain stops, if_neg h.nonempty,
    String.ofList_toList]

/-! ## Lines -/

/-- What a line adds to a graph: a node with its attributes, an edge from one statement to
the next, or an edge that carries a name. -/
inductive Drawn
  | node (id label tail : String)
  | next (source target : String)
  | flow (e : FlowEdge)
  deriving DecidableEq

namespace Drawn

def node? (cs : List Char) : Option Drawn := do
  let cs ← after? "    " cs
  let (id, cs) ← word? cs
  let cs ← after? " [label=" cs
  let (label, cs) ← quotedText? cs
  return node id label (String.ofList cs)

def edge? (cs : List Char) : Option Drawn := do
  let cs ← after? "  " cs
  let (source, cs) ← word? cs
  let cs ← after? " -> " cs
  let (target, cs) ← word? cs
  if cs = ";".toList then
    return next source target
  let cs ← after? " [style=dashed, color=gray, label=" cs
  let (name, cs) ← quotedText? cs
  if cs = "];".toList then
    return flow ⟨source, target, name⟩
  none

/-- What a line adds, if it adds anything. -/
def ofLine? (cs : List Char) : Option Drawn := node? cs <|> edge? cs

theorem ofLine?_node {id : String} (h : Plain id) (label : String) (tail : List Char) :
    ofLine? ("    ".toList ++ (id.toList ++ (" [label=".toList ++
      ((quoted label).toList ++ tail)))) = some (node id label (String.ofList tail)) := by
  have stops := stops_at " [label=" rfl rfl ((quoted label).toList ++ tail)
  have read : node? ("    ".toList ++ (id.toList ++ (" [label=".toList ++
      ((quoted label).toList ++ tail)))) = some (node id label (String.ofList tail)) := by
    simp only [node?, after?_append, word?_append h stops, quotedText?_quoted, Option.bind_eq_bind,
      Option.bind_some]
    rfl
  rw [ofLine?, read]
  rfl

/-- The name of a node is not indented as far as the line of one. -/
theorem node?_edge {source : String} (h : Plain source) (rest : List Char) :
    node? ("  ".toList ++ (source.toList ++ rest)) = none := by
  obtain ⟨c, cs, hs⟩ := List.exists_cons_of_ne_nil h.nonempty
  have plain := h.plain c (hs ▸ List.mem_cons_self)
  have noBlank : (' ' == c) = false := by
    refine beq_eq_false_iff_ne.2 fun blank => ?_
    rw [← blank] at plain
    exact absurd plain (by decide)
  have short : after? "    " ("  ".toList ++ (source.toList ++ rest)) = none := by
    rw [hs, after?]
    show (if (' ' == c) = true then _ else none) = none
    rw [noBlank]
    rfl
  rw [node?, short]
  rfl

variable {source target : String}

theorem ofLine?_next (hs : Plain source) (ht : Plain target) :
    ofLine? ("  ".toList ++ (source.toList ++ (" -> ".toList ++ (target.toList ++ ";".toList)))) =
      some (next source target) := by
  have arrow := stops_at " -> " rfl rfl (target.toList ++ ";".toList)
  have stops : BeginsOutside isPlain ";".toList := stops_at ";" rfl rfl []
  rw [ofLine?, node?_edge hs]
  simp only [edge?, after?_append, word?_append hs arrow, word?_append ht stops,
    Option.bind_eq_bind, Option.bind_some]
  rfl

theorem ofLine?_flow (hs : Plain source) (ht : Plain target) (name : String) :
    ofLine? ("  ".toList ++ (source.toList ++ (" -> ".toList ++ (target.toList ++
      (" [style=dashed, color=gray, label=".toList ++ ((quoted name).toList ++ "];".toList)))))) =
      some (flow ⟨source, target, name⟩) := by
  have arrow := stops_at " -> " rfl rfl (target.toList ++
    (" [style=dashed, color=gray, label=".toList ++ ((quoted name).toList ++ "];".toList)))
  have stops := stops_at " [style=dashed, color=gray, label=" rfl rfl
    ((quoted name).toList ++ "];".toList)
  have noEnd : " [style=dashed, color=gray, label=".toList ++
      ((quoted name).toList ++ "];".toList) ≠ ";".toList := by
    intro h
    have first : some ' ' = some ';' := congrArg List.head? h
    exact absurd first (by decide)
  rw [ofLine?, node?_edge hs]
  simp only [edge?, after?_append, word?_append hs arrow, word?_append ht stops, if_neg noEnd,
    quotedText?_quoted, Option.bind_eq_bind, Option.bind_some]
  rfl

end Drawn

end Graph
end Legalese
