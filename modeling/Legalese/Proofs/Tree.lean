import Legalese.Proofs.Reading.Yield
import Legalese.Tree.Decode
import Legalese.Tree.Encode
import Mathlib.Data.List.Forall2

/-!
# Trees that hold resolutions

The fields of a node that mean something depend on its type alone.  To prune a tree is to
leave all other fields out, in nodes at every depth.  Then a tree holds an expression or a
statement if and only if it is, once pruned, the tree that the expression or statement is
written as; so nothing of it gets lost, and nothing else is read.

A resolution has no type of its own, and a section that it leaves out counts as an empty
list.  So does an empty text or object in the place of a section, since only its items are
looked at.

Main statement: reading a tree gives a resolution if and only if the pruned tree is the one
that the resolution is written as.
-/

namespace Legalese

/-- A list is mapped member by member. -/
theorem mapM_eq_ok_iff {ε α β : Type} {f : α → Except ε β} {xs : List α} {ys : List β} :
    xs.mapM f = .ok ys ↔ List.Forall₂ (fun x y => f x = .ok y) xs ys := by
  induction xs generalizing ys with
  | nil =>
    rw [List.forall₂_nil_left_iff]
    exact ⟨fun h => (Except.ok.inj h).symm, fun h => h ▸ rfl⟩
  | cons x xs ih =>
    rw [List.mapM_cons, bind_eq_ok, List.forall₂_cons_left_iff]
    constructor
    · rintro ⟨y, first, h⟩
      obtain ⟨zs, rest, h⟩ := bind_eq_ok.1 h
      exact ⟨y, zs, first, ih.1 rest, (Except.ok.inj h).symm⟩
    · rintro ⟨y, zs, first, rest, rfl⟩
      exact ⟨y, first, bind_eq_ok.2 ⟨zs, ih.2 rest, rfl⟩⟩

namespace Tree

/-! ## Fields that mean something -/

/-- The names of the fields of a node, by its type. -/
def fieldNames : String → List String
  | "int" => ["type", "value"]
  | "str" => ["type", "value"]
  | "ident" => ["name", "type"]
  | "unary" => ["operand", "operator", "type"]
  | "binary" => ["first", "operator", "second", "type"]
  | "infix" => ["left", "operator", "right", "type"]
  | "postfix" => ["operand", "operator", "type"]
  | "decl" => ["name", "type", "value"]
  | "assume" => ["name", "type", "value"]
  | "publish" => ["type", "value"]
  | "if" => ["consequence", "left", "relation", "right", "type"]
  | _ => []

/-- The fields of these names, where they are present. -/
def select (names : List String) (fs : Fields) : Fields :=
  names.filterMap fun x => (lastField? x fs).map (Scalar.str x, ·)

/-- The fields of a node that mean something. -/
def knownFields (fs : Fields) : Fields :=
  match lastField? "type" fs with
  | some (.str type) => select (fieldNames type) fs
  | _ => []

mutual

/-- A tree without the fields that mean nothing. -/
def prune : Tree → Tree
  | scalar s => scalar s
  | list items => list (pruneItems items)
  | object fields => object (knownFields (pruneFields fields))

def pruneItems : List Tree → List Tree
  | [] => []
  | t :: ts => t.prune :: pruneItems ts

def pruneFields : Fields → Fields
  | [] => []
  | (name, t) :: fs => (name, t.prune) :: pruneFields fs

end

@[simp] theorem prune_scalar (s : Scalar) : (scalar s).prune = scalar s := rfl

theorem pruneItems_eq (ts : List Tree) : pruneItems ts = ts.map prune := by
  induction ts with
  | nil => rfl
  | cons t ts ih => rw [pruneItems, ih, List.map_cons]

theorem lastField?_pruneFields (x : String) (fs : Fields) :
    lastField? x (pruneFields fs) = (lastField? x fs).map prune := by
  induction fs with
  | nil => rfl
  | cons f fs ih =>
    obtain ⟨name, t⟩ := f
    rw [pruneFields, lastField?, lastField?, ih, Option.map_or]
    congr 1
    split <;> rfl

theorem prune_eq_scalar {t : Tree} {s : Scalar} (h : t.prune = scalar s) : t = scalar s := by
  cases t with
  | scalar _ => exact h
  | list _ => cases h
  | object _ => cases h

theorem of_mem_knownFields {fs : Fields} {x : String} {t : Tree}
    (h : (Scalar.str x, t) ∈ knownFields fs) : lastField? x fs = some t := by
  unfold knownFields at h
  split at h
  · obtain ⟨y, -, hy⟩ := List.mem_filterMap.1 h
    obtain ⟨u, field, same⟩ := Option.map_eq_some_iff.1 hy
    cases same
    exact field
  · cases h

/-- All of the names are present, so all are selected. -/
theorem select_eq {names : List String} {fs gs : Fields}
    (all : gs.map (·.1) = names.map Scalar.str)
    (fields : ∀ x t, (Scalar.str x, t) ∈ gs → lastField? x fs = some t) :
    select names fs = gs := by
  induction names generalizing gs with
  | nil => exact (List.map_eq_nil_iff.1 all).symm
  | cons x names ih =>
    cases gs with
    | nil => cases all
    | cons g gs =>
      obtain ⟨name, t⟩ := g
      obtain ⟨rfl, others⟩ : name = Scalar.str x ∧ gs.map (·.1) = names.map Scalar.str :=
        List.cons.inj all
      have first := fields x t List.mem_cons_self
      have rest : select names fs = gs :=
        ih others fun y u hu => fields y u (List.mem_cons_of_mem _ hu)
      unfold select at rest ⊢
      rw [List.filterMap_cons, first, rest]
      rfl

/-- Each of these fields is there, once the node is pruned. -/
def Shows (fs gs : Fields) : Prop :=
  ∀ x u, (Scalar.str x, u) ∈ gs → ∃ t, lastField? x fs = some t ∧ t.prune = u

@[simp] theorem shows_nil {fs : Fields} : Shows fs [] := nofun

@[simp] theorem shows_cons {fs gs : Fields} {x : String} {u : Tree} :
    Shows fs ((Scalar.str x, u) :: gs) ↔
      (∃ t, lastField? x fs = some t ∧ t.prune = u) ∧ Shows fs gs := by
  constructor
  · exact fun h => ⟨h x u List.mem_cons_self, fun y v hv => h y v (List.mem_cons_of_mem _ hv)⟩
  · rintro ⟨first, rest⟩ y v hv
    rcases List.mem_cons.1 hv with same | hv
    · cases same
      exact first
    · exact rest y v hv

@[simp] theorem shows_scalar {fs : Fields} {x : String} {s : Scalar} :
    (∃ t, lastField? x fs = some t ∧ t.prune = scalar s) ↔ lastField? x fs = some (scalar s) := by
  constructor
  · rintro ⟨t, field, same⟩
    rw [field, prune_eq_scalar same]
  · exact fun h => ⟨_, h, rfl⟩

/-- A node with a type and with all fields that nodes of this type have. -/
theorem prune_eq_object_iff {t : Tree} {gs : Fields} (type : String)
    (all : gs.map (·.1) = (fieldNames type).map Scalar.str)
    (own : (Scalar.str "type", .str type) ∈ gs) :
    t.prune = object gs ↔ ∃ fs, t = object fs ∧ Shows fs gs := by
  constructor
  · intro h
    cases t with
    | scalar _ => cases h
    | list _ => cases h
    | object fs =>
      rw [prune, object.injEq] at h
      refine ⟨fs, rfl, fun x u hu => ?_⟩
      have field := of_mem_knownFields (h ▸ hu)
      rw [lastField?_pruneFields] at field
      exact Option.map_eq_some_iff.1 field
  · rintro ⟨fs, rfl, shows⟩
    have pruned (x : String) (u : Tree) (hu : (Scalar.str x, u) ∈ gs) :
        lastField? x (pruneFields fs) = some u := by
      rw [lastField?_pruneFields]
      exact Option.map_eq_some_iff.2 (shows x u hu)
    rw [prune, knownFields, pruned "type" _ own]
    exact congrArg object (select_eq all pruned)

/-! ## Looking at fields -/

theorem field_bind_eq_ok {α : Type} {fs : Fields} {x : String}
    {f : Tree → Except DecodeError α} {a : α} :
    field fs x >>= f = .ok a ↔ ∃ t, lastField? x fs = some t ∧ f t = .ok a := by
  unfold field
  cases lastField? x fs with
  | none => exact ⟨nofun, nofun⟩
  | some t =>
    rw [ok_bind]
    constructor
    · exact fun h => ⟨t, rfl, h⟩
    · rintro ⟨_, ⟨⟩, h⟩
      exact h

theorem textField_eq_ok {fs : Fields} {x s : String} :
    textField fs x = .ok s ↔ lastField? x fs = some (.str s) := by
  unfold textField
  rw [field_bind_eq_ok]
  constructor
  · rintro ⟨t, ht, h⟩
    rw [ht]
    split at h
    · rw [Except.ok.inj h]
    · cases h
  · exact fun h => ⟨_, h, rfl⟩

theorem intField_eq_ok {fs : Fields} {x : String} {n : Int} :
    intField fs x = .ok n ↔ lastField? x fs = some (.int n) := by
  unfold intField
  rw [field_bind_eq_ok]
  constructor
  · rintro ⟨t, ht, h⟩
    rw [ht]
    split at h
    · rw [Except.ok.inj h]
    · cases h
  · exact fun h => ⟨_, h, rfl⟩

theorem wordField_eq_ok {α : Type} {fs : Fields} {x : String} {list : WordList}
    {ofWord? : String → Option α} {a : α} {word : String}
    (spells : ∀ w, ofWord? w = some a ↔ word = w) :
    wordField fs x list ofWord? = .ok a ↔ lastField? x fs = some (.str word) := by
  unfold wordField
  rw [field_bind_eq_ok]
  constructor
  · rintro ⟨t, ht, h⟩
    rw [ht]
    dsimp only at h
    split at h
    · next w =>
      split at h
      · next b hb =>
        obtain rfl := Except.ok.inj h
        rw [(spells w).1 hb]
      · cases h
    · cases h
  · intro field
    refine ⟨_, field, ?_⟩
    dsimp only
    rw [(spells word).2 rfl]
    rfl

theorem part_bind_eq_ok {α : Type} {fs : Fields} {x : String}
    {f : { t : Tree // sizeOf t < sizeOf fs } → Except DecodeError α} {a : α} :
    part fs x >>= f = .ok a ↔
      ∃ (t : Tree) (h : lastField? x fs = some t), f ⟨t, sizeOf_lastField?_lt h⟩ = .ok a := by
  rw [bind_eq_ok]
  unfold part
  split
  · next u hu =>
    constructor
    · rintro ⟨_, ⟨⟩, h⟩
      exact ⟨u, hu, h⟩
    · rintro ⟨t, ht, h⟩
      obtain rfl : u = t := Option.some.inj (hu.symm.trans ht)
      exact ⟨_, rfl, h⟩
  · next none =>
    constructor
    · nofun
    · rintro ⟨t, ht, -⟩
      exact nomatch none.symm.trans ht

end Tree

/-! ## Words -/

/-- A word is found only for what it is the word of. -/
theorem find?_word_eq_some {α : Type} {all : List α} {word : α → String} {a : α}
    (found : all.find? (word · == word a) = some a) (w : String) :
    all.find? (word · == w) = some a ↔ word a = w := by
  constructor
  · intro h
    have same : (word a == w) = true := List.find?_some (p := fun b => word b == w) h
    exact eq_of_beq same
  · rintro rfl
    exact found

theorem UnaryOperator.ofWord?_eq_some (op : UnaryOperator) (w : String) :
    ofWord? w = some op ↔ op.word = w :=
  find?_word_eq_some (ofWord?_word op) w

theorem BinaryOperator.ofWord?_eq_some (op : BinaryOperator) (w : String) :
    ofWord? w = some op ↔ op.word = w :=
  find?_word_eq_some (ofWord?_word op) w

theorem Exponent.ofWord?_eq_some (op : Exponent) (w : String) :
    ofWord? w = some op ↔ op.word = w :=
  find?_word_eq_some (ofWord?_word op) w

theorem Relation.ofWord?_eq_some (r : Relation) (w : String) :
    ofWord? w = some r ↔ r.word = w :=
  find?_word_eq_some (ofWord?_word r) w

theorem lessWord_eq_some (w : String) :
    (if w = lessWord then some () else none) = some () ↔ lessWord = w := by
  rw [Option.ite_none_right_eq_some, eq_comm]
  exact and_iff_left rfl

open Legalese.Tree (lastField?)

/-! ## Expressions -/

namespace Expr

/-- What the fields of a node have to be for an expression. -/
def HeldIn (fs : Tree.Fields) : Expr → Prop
  | integer n =>
    lastField? "type" fs = some (.str "int") ∧ lastField? "value" fs = some (.int n)
  | text s => lastField? "type" fs = some (.str "str") ∧ lastField? "value" fs = some (.str s)
  | name x => lastField? "name" fs = some (.str x) ∧ lastField? "type" fs = some (.str "ident")
  | unary op e =>
    (∃ t, lastField? "operand" fs = some t ∧ ofTree t = .ok e) ∧
      lastField? "operator" fs = some (.str op.word) ∧
      lastField? "type" fs = some (.str "unary")
  | binary op a b =>
    (∃ t, lastField? "first" fs = some t ∧ ofTree t = .ok a) ∧
      lastField? "operator" fs = some (.str op.word) ∧
      (∃ t, lastField? "second" fs = some t ∧ ofTree t = .ok b) ∧
      lastField? "type" fs = some (.str "binary")
  | less l r =>
    (∃ t, lastField? "left" fs = some t ∧ ofTree t = .ok l) ∧
      lastField? "operator" fs = some (.str lessWord) ∧
      (∃ t, lastField? "right" fs = some t ∧ ofTree t = .ok r) ∧
      lastField? "type" fs = some (.str "infix")
  | power op e =>
    (∃ t, lastField? "operand" fs = some t ∧ ofTree t = .ok e) ∧
      lastField? "operator" fs = some (.str op.word) ∧
      lastField? "type" fs = some (.str "postfix")

theorem heldIn_of_ofTree {t : Tree} {e : Expr} (h : ofTree t = .ok e) :
    ∃ fs, t = .object fs ∧ e.HeldIn fs := by
  unfold ofTree at h
  cases t with
  | scalar _ => cases h
  | list _ => cases h
  | object fs =>
    refine ⟨fs, rfl, ?_⟩
    dsimp only at h
    split at h
    · next type =>
      obtain ⟨n, value, h⟩ := bind_eq_ok.1 h
      cases h
      exact ⟨type, Tree.intField_eq_ok.1 value⟩
    · next type =>
      obtain ⟨s, value, h⟩ := bind_eq_ok.1 h
      cases h
      exact ⟨type, Tree.textField_eq_ok.1 value⟩
    · next type =>
      obtain ⟨x, name, h⟩ := bind_eq_ok.1 h
      cases h
      exact ⟨Tree.textField_eq_ok.1 name, type⟩
    · next type =>
      obtain ⟨op, word, h⟩ := bind_eq_ok.1 h
      obtain ⟨t, operand, h⟩ := Tree.part_bind_eq_ok.1 h
      obtain ⟨e, read, h⟩ := bind_eq_ok.1 h
      cases h
      exact ⟨⟨t, operand, read⟩, (Tree.wordField_eq_ok op.ofWord?_eq_some).1 word, type⟩
    · next type =>
      obtain ⟨op, word, h⟩ := bind_eq_ok.1 h
      obtain ⟨t, first, h⟩ := Tree.part_bind_eq_ok.1 h
      obtain ⟨a, readFirst, h⟩ := bind_eq_ok.1 h
      obtain ⟨u, second, h⟩ := Tree.part_bind_eq_ok.1 h
      obtain ⟨b, readSecond, h⟩ := bind_eq_ok.1 h
      cases h
      have operator := (Tree.wordField_eq_ok op.ofWord?_eq_some).1 word
      exact ⟨⟨t, first, readFirst⟩, operator, ⟨u, second, readSecond⟩, type⟩
    · next type =>
      obtain ⟨_, word, h⟩ := bind_eq_ok.1 h
      obtain ⟨t, left, h⟩ := Tree.part_bind_eq_ok.1 h
      obtain ⟨l, readLeft, h⟩ := bind_eq_ok.1 h
      obtain ⟨u, right, h⟩ := Tree.part_bind_eq_ok.1 h
      obtain ⟨r, readRight, h⟩ := bind_eq_ok.1 h
      cases h
      have operator := (Tree.wordField_eq_ok lessWord_eq_some).1 word
      exact ⟨⟨t, left, readLeft⟩, operator, ⟨u, right, readRight⟩, type⟩
    · next type =>
      obtain ⟨op, word, h⟩ := bind_eq_ok.1 h
      obtain ⟨t, operand, h⟩ := Tree.part_bind_eq_ok.1 h
      obtain ⟨e, read, h⟩ := bind_eq_ok.1 h
      cases h
      exact ⟨⟨t, operand, read⟩, (Tree.wordField_eq_ok op.ofWord?_eq_some).1 word, type⟩
    · cases h

theorem ofTree_of_heldIn {fs : Tree.Fields} {e : Expr} (h : e.HeldIn fs) :
    ofTree (.object fs) = .ok e := by
  unfold ofTree
  cases e with
  | integer n =>
    obtain ⟨type, value⟩ := h
    rw [type]
    exact bind_eq_ok.2 ⟨_, Tree.intField_eq_ok.2 value, rfl⟩
  | text s =>
    obtain ⟨type, value⟩ := h
    rw [type]
    exact bind_eq_ok.2 ⟨_, Tree.textField_eq_ok.2 value, rfl⟩
  | name x =>
    obtain ⟨name, type⟩ := h
    rw [type]
    exact bind_eq_ok.2 ⟨_, Tree.textField_eq_ok.2 name, rfl⟩
  | unary op e =>
    obtain ⟨⟨t, operand, read⟩, operator, type⟩ := h
    rw [type]
    refine bind_eq_ok.2 ⟨_, (Tree.wordField_eq_ok op.ofWord?_eq_some).2 operator, ?_⟩
    exact Tree.part_bind_eq_ok.2 ⟨t, operand, bind_eq_ok.2 ⟨_, read, rfl⟩⟩
  | binary op a b =>
    obtain ⟨⟨t, first, readFirst⟩, operator, ⟨u, second, readSecond⟩, type⟩ := h
    rw [type]
    refine bind_eq_ok.2 ⟨_, (Tree.wordField_eq_ok op.ofWord?_eq_some).2 operator, ?_⟩
    refine Tree.part_bind_eq_ok.2 ⟨t, first, bind_eq_ok.2 ⟨_, readFirst, ?_⟩⟩
    exact Tree.part_bind_eq_ok.2 ⟨u, second, bind_eq_ok.2 ⟨_, readSecond, rfl⟩⟩
  | less l r =>
    obtain ⟨⟨t, left, readLeft⟩, operator, ⟨u, right, readRight⟩, type⟩ := h
    rw [type]
    refine bind_eq_ok.2 ⟨(), (Tree.wordField_eq_ok lessWord_eq_some).2 operator, ?_⟩
    refine Tree.part_bind_eq_ok.2 ⟨t, left, bind_eq_ok.2 ⟨_, readLeft, ?_⟩⟩
    exact Tree.part_bind_eq_ok.2 ⟨u, right, bind_eq_ok.2 ⟨_, readRight, rfl⟩⟩
  | power op e =>
    obtain ⟨⟨t, operand, read⟩, operator, type⟩ := h
    rw [type]
    refine bind_eq_ok.2 ⟨_, (Tree.wordField_eq_ok op.ofWord?_eq_some).2 operator, ?_⟩
    exact Tree.part_bind_eq_ok.2 ⟨t, operand, bind_eq_ok.2 ⟨_, read, rfl⟩⟩

theorem ofTree_iff_heldIn {t : Tree} {e : Expr} :
    ofTree t = .ok e ↔ ∃ fs, t = .object fs ∧ e.HeldIn fs := by
  constructor
  · exact heldIn_of_ofTree
  · rintro ⟨fs, rfl, held⟩
    exact ofTree_of_heldIn held

/-- A tree holds the expression that it is written as when pruned. -/
theorem ofTree_eq_ok_iff {t : Tree} {e : Expr} : ofTree t = .ok e ↔ t.prune = e.toTree := by
  induction e generalizing t with
  | integer n =>
    rw [ofTree_iff_heldIn, toTree, Tree.prune_eq_object_iff "int" rfl (by simp)]
    simp [HeldIn]
  | text s =>
    rw [ofTree_iff_heldIn, toTree, Tree.prune_eq_object_iff "str" rfl (by simp)]
    simp [HeldIn]
  | name x =>
    rw [ofTree_iff_heldIn, toTree, Tree.prune_eq_object_iff "ident" rfl (by simp)]
    simp [HeldIn]
  | unary op e ih =>
    rw [ofTree_iff_heldIn, toTree, Tree.prune_eq_object_iff "unary" rfl (by simp)]
    simp [HeldIn, ih]
  | binary op a b iha ihb =>
    rw [ofTree_iff_heldIn, toTree, Tree.prune_eq_object_iff "binary" rfl (by simp)]
    simp [HeldIn, iha, ihb]
  | less l r ihl ihr =>
    rw [ofTree_iff_heldIn, toTree, Tree.prune_eq_object_iff "infix" rfl (by simp)]
    simp [HeldIn, ihl, ihr]
  | power op e ih =>
    rw [ofTree_iff_heldIn, toTree, Tree.prune_eq_object_iff "postfix" rfl (by simp)]
    simp [HeldIn, ih]

/-- Nothing is pruned from what is written. -/
theorem prune_toTree (e : Expr) : e.toTree.prune = e.toTree := by
  induction e with
  | integer n => rfl
  | text s => rfl
  | name x => rfl
  | unary op e ih =>
    rw [toTree, Tree.prune_eq_object_iff "unary" rfl (by simp)]
    exact ⟨_, rfl, by simp [Tree.lastField?, ih]⟩
  | binary op a b iha ihb =>
    rw [toTree, Tree.prune_eq_object_iff "binary" rfl (by simp)]
    exact ⟨_, rfl, by simp [Tree.lastField?, iha, ihb]⟩
  | less l r ihl ihr =>
    rw [toTree, Tree.prune_eq_object_iff "infix" rfl (by simp)]
    exact ⟨_, rfl, by simp [Tree.lastField?, ihl, ihr]⟩
  | power op e ih =>
    rw [toTree, Tree.prune_eq_object_iff "postfix" rfl (by simp)]
    exact ⟨_, rfl, by simp [Tree.lastField?, ih]⟩

end Expr

/-! ## Statements -/

namespace Statement

/-- What the fields of a node have to be for a statement. -/
def HeldIn (fs : Tree.Fields) : Statement → Prop
  | declare d =>
    lastField? "name" fs = some (.str d.name) ∧ lastField? "type" fs = some (.str "decl") ∧
      ∃ t, lastField? "value" fs = some t ∧ Expr.ofTree t = .ok d.value
  | assume x e =>
    lastField? "name" fs = some (.str x) ∧ lastField? "type" fs = some (.str "assume") ∧
      ∃ t, lastField? "value" fs = some t ∧ Expr.ofTree t = .ok e
  | publish e =>
    lastField? "type" fs = some (.str "publish") ∧
      ∃ t, lastField? "value" fs = some t ∧ Expr.ofTree t = .ok e
  | conditional l r relation c =>
    (∃ t, lastField? "consequence" fs = some t ∧ ofTree t = .ok c) ∧
      (∃ t, lastField? "left" fs = some t ∧ Expr.ofTree t = .ok l) ∧
      lastField? "relation" fs = some (.str relation.word) ∧
      (∃ t, lastField? "right" fs = some t ∧ Expr.ofTree t = .ok r) ∧
      lastField? "type" fs = some (.str "if")

theorem heldIn_of_ofTree {t : Tree} {a : Statement} (h : ofTree t = .ok a) :
    ∃ fs, t = .object fs ∧ a.HeldIn fs := by
  unfold ofTree at h
  cases t with
  | scalar _ => cases h
  | list _ => cases h
  | object fs =>
    refine ⟨fs, rfl, ?_⟩
    dsimp only at h
    split at h
    · next type =>
      obtain ⟨x, name, h⟩ := bind_eq_ok.1 h
      obtain ⟨t, value, h⟩ := Tree.field_bind_eq_ok.1 h
      obtain ⟨e, read, h⟩ := bind_eq_ok.1 h
      cases h
      exact ⟨Tree.textField_eq_ok.1 name, type, t, value, read⟩
    · next type =>
      obtain ⟨x, name, h⟩ := bind_eq_ok.1 h
      obtain ⟨t, value, h⟩ := Tree.field_bind_eq_ok.1 h
      obtain ⟨e, read, h⟩ := bind_eq_ok.1 h
      cases h
      exact ⟨Tree.textField_eq_ok.1 name, type, t, value, read⟩
    · next type =>
      obtain ⟨t, value, h⟩ := Tree.field_bind_eq_ok.1 h
      obtain ⟨e, read, h⟩ := bind_eq_ok.1 h
      cases h
      exact ⟨type, t, value, read⟩
    · next type =>
      obtain ⟨t, left, h⟩ := Tree.field_bind_eq_ok.1 h
      obtain ⟨l, readLeft, h⟩ := bind_eq_ok.1 h
      obtain ⟨u, right, h⟩ := Tree.field_bind_eq_ok.1 h
      obtain ⟨r, readRight, h⟩ := bind_eq_ok.1 h
      obtain ⟨relation, word, h⟩ := bind_eq_ok.1 h
      obtain ⟨v, consequence, h⟩ := Tree.part_bind_eq_ok.1 h
      obtain ⟨c, read, h⟩ := bind_eq_ok.1 h
      cases h
      have held := (Tree.wordField_eq_ok relation.ofWord?_eq_some).1 word
      exact ⟨⟨v, consequence, read⟩, ⟨t, left, readLeft⟩, held, ⟨u, right, readRight⟩, type⟩
    · cases h

theorem ofTree_of_heldIn {fs : Tree.Fields} {a : Statement} (h : a.HeldIn fs) :
    ofTree (.object fs) = .ok a := by
  unfold ofTree
  cases a with
  | declare d =>
    obtain ⟨name, type, t, value, read⟩ := h
    rw [type]
    refine bind_eq_ok.2 ⟨_, Tree.textField_eq_ok.2 name, ?_⟩
    exact Tree.field_bind_eq_ok.2 ⟨t, value, bind_eq_ok.2 ⟨_, read, rfl⟩⟩
  | assume x e =>
    obtain ⟨name, type, t, value, read⟩ := h
    rw [type]
    refine bind_eq_ok.2 ⟨_, Tree.textField_eq_ok.2 name, ?_⟩
    exact Tree.field_bind_eq_ok.2 ⟨t, value, bind_eq_ok.2 ⟨_, read, rfl⟩⟩
  | publish e =>
    obtain ⟨type, t, value, read⟩ := h
    rw [type]
    exact Tree.field_bind_eq_ok.2 ⟨t, value, bind_eq_ok.2 ⟨_, read, rfl⟩⟩
  | conditional l r relation c =>
    obtain ⟨⟨v, consequence, read⟩, ⟨t, left, readLeft⟩, word, ⟨u, right, readRight⟩, type⟩ := h
    rw [type]
    refine Tree.field_bind_eq_ok.2 ⟨t, left, bind_eq_ok.2 ⟨_, readLeft, ?_⟩⟩
    refine Tree.field_bind_eq_ok.2 ⟨u, right, bind_eq_ok.2 ⟨_, readRight, ?_⟩⟩
    refine bind_eq_ok.2 ⟨_, (Tree.wordField_eq_ok relation.ofWord?_eq_some).2 word, ?_⟩
    exact Tree.part_bind_eq_ok.2 ⟨v, consequence, bind_eq_ok.2 ⟨_, read, rfl⟩⟩

theorem ofTree_iff_heldIn {t : Tree} {a : Statement} :
    ofTree t = .ok a ↔ ∃ fs, t = .object fs ∧ a.HeldIn fs := by
  constructor
  · exact heldIn_of_ofTree
  · rintro ⟨fs, rfl, held⟩
    exact ofTree_of_heldIn held

/-- A tree holds the statement that it is written as when pruned. -/
theorem ofTree_eq_ok_iff {t : Tree} {a : Statement} : ofTree t = .ok a ↔ t.prune = a.toTree := by
  induction a generalizing t with
  | declare d =>
    rw [ofTree_iff_heldIn, toTree, Declaration.toTree,
      Tree.prune_eq_object_iff "decl" rfl (by simp)]
    simp [HeldIn, Expr.ofTree_eq_ok_iff]
  | assume x e =>
    rw [ofTree_iff_heldIn, toTree, Tree.prune_eq_object_iff "assume" rfl (by simp)]
    simp [HeldIn, Expr.ofTree_eq_ok_iff]
  | publish e =>
    rw [ofTree_iff_heldIn, toTree, Tree.prune_eq_object_iff "publish" rfl (by simp)]
    simp [HeldIn, Expr.ofTree_eq_ok_iff]
  | conditional l r relation c ih =>
    rw [ofTree_iff_heldIn, toTree, Tree.prune_eq_object_iff "if" rfl (by simp)]
    simp [HeldIn, Expr.ofTree_eq_ok_iff, ih]

theorem prune_toTree (a : Statement) : a.toTree.prune = a.toTree := by
  induction a with
  | declare d =>
    rw [toTree, Declaration.toTree, Tree.prune_eq_object_iff "decl" rfl (by simp)]
    exact ⟨_, rfl, by simp [Tree.lastField?, Expr.prune_toTree]⟩
  | assume x e =>
    rw [toTree, Tree.prune_eq_object_iff "assume" rfl (by simp)]
    exact ⟨_, rfl, by simp [Tree.lastField?, Expr.prune_toTree]⟩
  | publish e =>
    rw [toTree, Tree.prune_eq_object_iff "publish" rfl (by simp)]
    exact ⟨_, rfl, by simp [Tree.lastField?, Expr.prune_toTree]⟩
  | conditional l r relation c ih =>
    rw [toTree, Tree.prune_eq_object_iff "if" rfl (by simp)]
    exact ⟨_, rfl, by simp [Tree.lastField?, Expr.prune_toTree, ih]⟩

theorem declaration_eq_ok {a : Statement} {d : Declaration} :
    a.declaration = .ok d ↔ a = declare d := by
  cases a with
  | declare d' =>
    rw [declaration, Except.ok.injEq, declare.injEq]
  | _ => exact ⟨nofun, nofun⟩

end Statement

/-! ## Resolutions -/

namespace Resolution

/-- An empty text or object has no items, so it counts as an empty list. -/
def emptied : Tree → Tree
  | .str "" => .list []
  | .object [] => .list []
  | t => t

/-- A section without the fields that mean nothing.  One that is left out is empty, and `items`
decides what else counts as a list. -/
def pruneSection (items : Tree → Tree) (fs : Tree.Fields) (name : String) : Tree :=
  (items ((lastField? name fs).getD (.list []))).prune

/-- The tree of a resolution without the fields that mean nothing. -/
def pruneTree (items : Tree → Tree) : Tree → Tree
  | .object fs =>
    .object [("resolved", pruneSection items fs "resolved"),
      ("whereas", pruneSection items fs "whereas")]
  | t => t.prune

/-- A list holds the statements that its items hold. -/
theorem mapM_ofTree_eq_ok_iff (ts : List Tree) {as : List Statement} :
    ts.mapM Statement.ofTree = .ok as ↔
      (Tree.list ts).prune = .list (as.map Statement.toTree) := by
  rw [mapM_eq_ok_iff, Tree.prune, Tree.list.injEq, Tree.pruneItems_eq, ← List.forall₂_eq_eq_eq,
    List.forall₂_map_left_iff, List.forall₂_map_right_iff]
  simp only [Statement.ofTree_eq_ok_iff]

theorem sectionOfTree_eq_ok_iff {fs : Tree.Fields} {name : String} {as : List Statement} :
    sectionOfTree fs name = .ok as ↔
      pruneSection emptied fs name = .list (as.map Statement.toTree) := by
  unfold sectionOfTree pruneSection
  cases lastField? name fs with
  | none => exact mapM_ofTree_eq_ok_iff []
  | some t =>
    cases t with
    | list ts => exact mapM_ofTree_eq_ok_iff ts
    | object items =>
      cases items with
      | nil => exact mapM_ofTree_eq_ok_iff []
      | cons f items => exact ⟨nofun, nofun⟩
    | scalar s =>
      cases s with
      | str s =>
        by_cases h : s = ""
        · rw [h]
          exact mapM_ofTree_eq_ok_iff []
        · have same : emptied (.str s) = .str s := by
            unfold emptied
            split
            · next empty =>
              cases empty
              exact absurd rfl h
            · next object => cases object
            · rfl
          rw [Option.getD_some, same]
          dsimp only
          rw [if_neg h]
          exact ⟨nofun, nofun⟩
      | _ => exact ⟨nofun, nofun⟩

theorem mapM_declaration_eq_ok_iff {as : List Statement} {ds : List Declaration} :
    as.mapM Statement.declaration = .ok ds ↔ as = ds.map .declare := by
  rw [mapM_eq_ok_iff, ← List.forall₂_eq_eq_eq, List.forall₂_map_right_iff]
  simp only [Statement.declaration_eq_ok]

theorem map_declare_toTree (ds : List Declaration) :
    (ds.map Statement.declare).map Statement.toTree = ds.map Declaration.toTree := by
  rw [List.map_map]
  rfl

theorem ofTree_object {fs : Tree.Fields} {r : Resolution} :
    ofTree (.object fs) = .ok r ↔
      sectionOfTree fs "whereas" = .ok (r.recitals.map .declare) ∧
        sectionOfTree fs "resolved" = .ok r.actions := by
  rw [ofTree, bind_eq_ok]
  constructor
  · rintro ⟨_, ⟨⟩, h⟩
    obtain ⟨as, recitals, h⟩ := bind_eq_ok.1 h
    obtain ⟨ds, declared, h⟩ := bind_eq_ok.1 h
    obtain ⟨bs, actions, h⟩ := bind_eq_ok.1 h
    cases h
    exact ⟨mapM_declaration_eq_ok_iff.1 declared ▸ recitals, actions⟩
  · rintro ⟨recitals, actions⟩
    refine ⟨fs, rfl, bind_eq_ok.2 ⟨_, recitals, ?_⟩⟩
    exact bind_eq_ok.2 ⟨_, mapM_declaration_eq_ok_iff.2 rfl, bind_eq_ok.2 ⟨_, actions, rfl⟩⟩

/-- A tree holds the resolution that it is written as when pruned. -/
theorem ofTree_eq_ok_iff {t : Tree} {r : Resolution} :
    ofTree t = .ok r ↔ pruneTree emptied t = r.toTree := by
  cases t with
  | scalar _ => exact ⟨nofun, nofun⟩
  | list _ => exact ⟨nofun, nofun⟩
  | object fs =>
    rw [ofTree_object, sectionOfTree_eq_ok_iff, sectionOfTree_eq_ok_iff, map_declare_toTree,
      pruneTree, toTree]
    simp [and_comm]

theorem prune_statements (as : List Statement) :
    (Tree.list (as.map Statement.toTree)).prune = .list (as.map Statement.toTree) := by
  rw [Tree.prune, Tree.pruneItems_eq, List.map_map]
  exact congrArg Tree.list (List.map_congr_left fun a _ => a.prune_toTree)

theorem pruneTree_toTree (r : Resolution) : pruneTree emptied r.toTree = r.toTree := by
  have recitals := prune_statements (r.recitals.map .declare)
  rw [map_declare_toTree] at recitals
  have pruned : pruneTree emptied r.toTree =
      .object [("resolved", (Tree.list (r.actions.map Statement.toTree)).prune),
        ("whereas", (Tree.list (r.recitals.map Declaration.toTree)).prune)] := rfl
  rw [pruned, recitals, prune_statements, toTree]

/-- Writing loses nothing, and reading takes a tree for no other resolution than the one
that it is written as, once the fields that mean nothing are left out.  All that stands
among the recitals are declarations. -/
theorem ofTree_iff_pruned :
    (∀ r : Resolution, ofTree r.toTree = .ok r) ∧
      (∀ (t : Tree) (r : Resolution), ofTree t = .ok r ↔ pruneTree emptied t = r.toTree) ∧
      ∀ (fs : Tree.Fields) (r : Resolution), ofTree (.object fs) = .ok r →
        sectionOfTree fs "whereas" = .ok (r.recitals.map .declare) := by
  refine ⟨fun r => ?_, fun t r => ofTree_eq_ok_iff, fun fs r read => ?_⟩
  · exact ofTree_eq_ok_iff.2 (pruneTree_toTree r)
  · exact (ofTree_object.1 read).1

/-- An empty object passes for a section, although no resolution is written so. -/
theorem ofTree_of_empty_object :
    ofTree (.object [("whereas", .object [])]) = .ok ⟨[], []⟩ ∧
      ∀ r : Resolution, pruneTree id (.object [("whereas", .object [])]) ≠ r.toTree := by
  refine ⟨rfl, fun r h => ?_⟩
  have pruned : pruneTree id (.object [("whereas", .object [])]) =
      .object [("resolved", .list []), ("whereas", .object [])] := rfl
  rw [pruned, toTree] at h
  simp at h

end Resolution
end Legalese
