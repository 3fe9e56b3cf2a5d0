import Legalese.Resolution
import Legalese.Tree.Basic

/-!
# Resolutions as trees

Every node becomes an object that says its type.  The fields of each object stand in
alphabetical order, so a writer that keeps the order of fields writes sorted names.
-/

namespace Legalese

namespace Expr

def toTree : Expr → Tree
  | integer n => .object [("type", .str "int"), ("value", .int n)]
  | text s => .object [("type", .str "str"), ("value", .str s)]
  | name x => .object [("name", .str x), ("type", .str "ident")]
  | unary op e =>
    .object [("operand", e.toTree), ("operator", .str op.word), ("type", .str "unary")]
  | binary op a b =>
    .object [("first", a.toTree), ("operator", .str op.word), ("second", b.toTree),
      ("type", .str "binary")]
  | less l r =>
    .object [("left", l.toTree), ("operator", .str lessWord), ("right", r.toTree),
      ("type", .str "infix")]
  | power op e =>
    .object [("operand", e.toTree), ("operator", .str op.word), ("type", .str "postfix")]

end Expr

namespace Declaration

def toTree (d : Declaration) : Tree :=
  .object [("name", .str d.name), ("type", .str "decl"), ("value", d.value.toTree)]

end Declaration

namespace Statement

def toTree : Statement → Tree
  | declare d => d.toTree
  | assume x e => .object [("name", .str x), ("type", .str "assume"), ("value", e.toTree)]
  | publish e => .object [("type", .str "publish"), ("value", e.toTree)]
  | conditional l r relation c =>
    .object [("consequence", c.toTree), ("left", l.toTree),
      ("relation", .str relation.word), ("right", r.toTree), ("type", .str "if")]

end Statement

namespace Resolution

def toTree (r : Resolution) : Tree :=
  .object [("resolved", .list (r.actions.map Statement.toTree)),
    ("whereas", .list (r.recitals.map Declaration.toTree))]

end Resolution
end Legalese
