import Legalese.Proofs.Clauses
import Legalese.Proofs.WellFormed

/-!
# Written resolutions

A text for every tree: one title word, and then a clause for each recital and each action.
A part without statements still has one clause, which is empty.  Beside each written form
stand its tokens, and the text of a well-formed tree is cut into them.

No parentheses are needed around operands.  In a well-formed tree a difference ends only
where the expression around it ends, and exponents follow leaves.
-/

namespace Legalese

namespace Expr

def write : Expr → String
  | integer n => Integer.write n
  | text s => "\x22" ++ s ++ "\x22"
  | name x => x
  | unary op e => op.word ++ " " ++ e.write
  | binary op a b => op.word ++ " " ++ a.write ++ " " ++ b.write
  | less l r => l.write ++ " " ++ lessWord ++ " " ++ r.write
  | power op e => e.write ++ " " ++ op.word

def tokens : Expr → List Token
  | integer n => Integer.tokens n
  | text s => [⟨.text, s⟩]
  | name x => [⟨.name, x⟩]
  | unary op e => ⟨.unary op, op.word⟩ :: e.tokens
  | binary op a b => ⟨.binary op, op.word⟩ :: (a.tokens ++ b.tokens)
  | less l r => l.tokens ++ ⟨.less, lessWord⟩ :: r.tokens
  | power op e => e.tokens ++ [⟨.exponent op, op.word⟩]

end Expr

namespace Declaration

def write (d : Declaration) : String := "(hereinafter " ++ d.name ++ ") " ++ d.value.write

def tokens (d : Declaration) : List Token :=
  ⟨.openParen, "("⟩ :: ⟨.hereinafter, "hereinafter"⟩ :: ⟨.name, d.name⟩ :: ⟨.closeParen, ")"⟩ ::
    d.value.tokens

end Declaration

namespace Statement

def write : Statement → String
  | declare d => d.write
  | assume x e => x ++ " assume " ++ e.write
  | publish e => "publish " ++ e.write
  | conditional l r relation c =>
    "if " ++ l.write ++ " " ++ relation.word ++ " " ++ r.write ++ ", " ++ c.write

def tokens : Statement → List Token
  | declare d => d.tokens
  | assume x e => ⟨.name, x⟩ :: ⟨.assume, "assume"⟩ :: e.tokens
  | publish e => ⟨.publish, "publish"⟩ :: e.tokens
  | conditional l r relation c =>
    ⟨.conditional, "if"⟩ :: (l.tokens ++ ⟨.relation relation, relation.word⟩ ::
      (r.tokens ++ ⟨.filler, ","⟩ :: c.tokens))

end Statement

/-- The statements of a part, or the one empty clause of a part without any. -/
def parts {α : Type} (xs : List α) : List (Option α) := if xs = [] then [none] else xs.map some

namespace Resolution

def recitalText : Option Declaration → String
  | none => "whereas"
  | some d => "whereas " ++ d.write

def actionText : Option Statement → String
  | none => "resolved"
  | some a => "resolved, " ++ a.write

def write (r : Resolution) : String :=
  " ".intercalate
    ("title" :: ((parts r.recitals).map recitalText ++ (parts r.actions).map actionText))

example :
    write ⟨[⟨"A", .less (.power .squared (.integer 5)) (.integer (-1))⟩],
        [.conditional (.name "A") (.text "b") .equals (.publish (.name "A"))]⟩ =
      "title whereas (hereinafter A) five (5) squared less negative one (-1) " ++
        "resolved, if A equals \x22b\x22, publish A" := by
  decide +kernel

end Resolution

theorem mem_of_mem_parts {α : Type} {xs : List α} {x : α} (h : some x ∈ parts xs) : x ∈ xs := by
  unfold parts at h
  split at h
  · cases List.mem_singleton.1 h
  · obtain ⟨y, hy, e⟩ := List.mem_map.1 h
    rwa [← Option.some.inj e]

theorem parts_ne_nil {α : Type} (xs : List α) : parts xs ≠ [] := by
  unfold parts
  split
  · exact List.cons_ne_nil _ _
  · next ne => exact fun e => ne (List.map_eq_nil_iff.1 e)

/-- The empty clause of a part adds nothing to it. -/
theorem flatMap_parts {α : Type} (xs : List α) : (parts xs).flatMap Option.toList = xs := by
  unfold parts
  split
  · next e =>
    subst e
    rfl
  · rw [List.flatMap_map]
    exact List.flatMap_singleton' xs

namespace Clause

def ofRecital (d : Option Declaration) : Clause :=
  ⟨⟨.whereas, "whereas"⟩, (d.map Declaration.tokens).getD []⟩

def ofAction (a : Option Statement) : Clause :=
  ⟨⟨.resolved, "resolved"⟩, (a.map fun a => ⟨.filler, ","⟩ :: a.tokens).getD []⟩

end Clause

namespace Resolution

def clauses (r : Resolution) : List Clause :=
  (parts r.recitals).map Clause.ofRecital ++ (parts r.actions).map Clause.ofAction

def tokens (r : Resolution) : List Token :=
  ⟨.filler, "title"⟩ :: r.clauses.flatMap Clause.tokens

end Resolution

/-! ## The tokens of written trees -/

theorem unary_mem_keywords (op : UnaryOperator) : (op.word, Kind.unary op) ∈ Kind.keywords := by
  cases op <;> decide

theorem binary_mem_keywords (op : BinaryOperator) : (op.word, Kind.binary op) ∈ Kind.keywords := by
  cases op <;> decide

theorem exponent_mem_keywords (op : Exponent) : (op.word, Kind.exponent op) ∈ Kind.keywords := by
  cases op <;> decide

theorem relation_mem_keywords (r : Relation) : (r.word, Kind.relation r) ∈ Kind.keywords := by
  cases r <;> decide

theorem less_mem_keywords : (lessWord, Kind.less) ∈ Kind.keywords := by decide

theorem Expr.spells_write {e : Expr} (wf : e.WellFormed) : Spells e.write.toList e.tokens := by
  induction e with
  | integer n => exact Integer.spells_write n
  | text s =>
    have quoted := spells_quoted wf
    rw [tokens]
    simpa [write] using quoted
  | name x => exact spells_name wf
  | unary op e ih =>
    simp only [write, String.toList_append, List.append_assoc]
    exact .space (spells_keyword (unary_mem_keywords op)) (ih wf.1)
  | binary op a b iha ihb =>
    simp only [write, String.toList_append, List.append_assoc]
    exact .space (spells_keyword (binary_mem_keywords op)) (.space (iha wf.1) (ihb wf.2.1))
  | less l r ihl ihr =>
    simp only [write, String.toList_append, List.append_assoc]
    exact .space (ihl wf.1) (.space (spells_keyword less_mem_keywords) (ihr wf.2.1))
  | power op e ih =>
    simp only [write, String.toList_append]
    rw [List.append_assoc]
    exact .space (ih wf.1) (spells_keyword (exponent_mem_keywords op))

theorem Declaration.spells_write {d : Declaration} (wf : d.WellFormed) :
    Spells d.write.toList d.tokens := by
  have closed : Spells (')' :: ' ' :: d.value.write.toList) (⟨.closeParen, ")"⟩ :: d.value.tokens) :=
    .closeParen (Expr.spells_write wf.value).blank
  have named := Spells.append (spells_name wf.name) closed fun _ _ => startsOutside_cons rfl _
  have word : Spells "hereinafter".toList [⟨.hereinafter, "hereinafter"⟩] :=
    spells_keyword (w := ("hereinafter", .hereinafter)) (by decide)
  have opened := Spells.openParen (word.space named)
  rw [tokens]
  simpa [write] using opened

theorem Statement.spells_write {a : Statement} (wf : a.WellFormed) :
    Spells a.write.toList a.tokens := by
  induction a with
  | declare _ => exact wf.elim
  | assume x e =>
    have word : Spells "assume".toList [⟨.assume, "assume"⟩] :=
      spells_keyword (w := ("assume", .assume)) (by decide)
    have whole := (spells_name wf.1).space (word.space (Expr.spells_write wf.2))
    rw [tokens]
    simpa [write] using whole
  | publish e =>
    have word : Spells "publish".toList [⟨.publish, "publish"⟩] :=
      spells_keyword (w := ("publish", .publish)) (by decide)
    have whole := word.space (Expr.spells_write wf)
    rw [tokens]
    simpa [write] using whole
  | conditional l r relation c ih =>
    have word : Spells "if".toList [⟨.conditional, "if"⟩] :=
      spells_keyword (w := ("if", .conditional)) (by decide)
    have consequence := Spells.append (Expr.spells_write wf.2.1) (ih wf.2.2).blank.comma
      fun _ _ => startsOutside_cons rfl _
    have right := (spells_keyword (relation_mem_keywords relation)).space consequence
    have whole := word.space ((Expr.spells_write wf.1).space right)
    rw [tokens]
    simpa [write] using whole

namespace Resolution

theorem spells_recitalText {d : Option Declaration} (wf : ∀ x, d = some x → x.WellFormed) :
    Spells (recitalText d).toList (Clause.ofRecital d).tokens := by
  have word : Spells "whereas".toList [⟨.whereas, "whereas"⟩] :=
    spells_keyword (w := ("whereas", .whereas)) (by decide)
  cases d with
  | none => exact word
  | some d =>
    have whole := word.space (Declaration.spells_write (wf d rfl))
    simpa [recitalText, Clause.ofRecital, Clause.tokens] using whole

theorem spells_actionText {a : Option Statement} (wf : ∀ x, a = some x → x.WellFormed) :
    Spells (actionText a).toList (Clause.ofAction a).tokens := by
  have word : Spells "resolved".toList [⟨.resolved, "resolved"⟩] :=
    spells_keyword (w := ("resolved", .resolved)) (by decide)
  cases a with
  | none => exact word
  | some a =>
    have whole := Spells.append word (Statement.spells_write (wf a rfl)).blank.comma
      fun _ _ => startsOutside_cons rfl _
    simpa [actionText, Clause.ofAction, Clause.tokens] using whole

theorem spelled_map {α : Type} {xs : List α} {text : α → String} {clause : α → Clause}
    (h : ∀ x ∈ xs, Spells (text x).toList (clause x).tokens) :
    Spelled (xs.map text) ((xs.map clause).flatMap Clause.tokens) := by
  induction xs with
  | nil => exact .nil
  | cons x xs ih =>
    exact .cons (h x List.mem_cons_self) (ih fun y hy => h y (List.mem_cons_of_mem x hy))

theorem spells_write {r : Resolution} (wf : r.WellFormed) : Spells r.write.toList r.tokens := by
  have letters : ['t', 'i', 't', 'l', 'e'].all isLetter = true := by decide
  have title : Spells "title".toList [⟨.filler, "title"⟩] :=
    spells_word (List.cons_ne_nil _ _) (List.all_eq_true.1 letters)
  have recitals : Spelled ((parts r.recitals).map recitalText) _ :=
    spelled_map fun d hd => spells_recitalText fun x e => wf.recitals x (mem_of_mem_parts (e ▸ hd))
  have actions : Spelled ((parts r.actions).map actionText) _ :=
    spelled_map fun a ha => spells_actionText fun x e => wf.actions x (mem_of_mem_parts (e ▸ ha))
  have whole := spells_intercalate (.cons title (recitals.append actions))
  rw [← List.flatMap_append] at whole
  exact whole

end Resolution
end Legalese
