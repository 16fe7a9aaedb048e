import ImpLang.Tree.Basic

/-!
Decidable equality of trees: spans, symbols and annotations count.
-/

namespace ImpLang

mutual

def Expr.same : Expr → Expr → Bool
  | .name s i d, .name s' i' d' => s == s' && i == i' && d == d'
  | .literal s v, .literal s' v' => s == s' && v == v'
  | .tuple s es, .tuple s' es' => s == s' && Elem.sameList es es'
  | .sigma s ps, .sigma s' ps' => s == s' && Ptrn.sameList ps ps'
  | .pi s p e, .pi s' p' e' => s == s' && p.same p' && e.same e'
  | .lambda s p c b, .lambda s' p' c' b' => s == s' && p.same p' && c.same c' && b.same b'
  | .app s f a cps, .app s' f' a' cps' => s == s' && f.same f' && a.same a' && cps == cps'
  | .field s e i, .field s' e' i' => s == s' && e.same e' && i == i'
  | .prefixed s op e, .prefixed s' op' e' => s == s' && op == op' && e.same e'
  | .postfixed s e op, .postfixed s' e' op' => s == s' && e.same e' && op == op'
  | .binary s l op r, .binary s' l' op' r' => s == s' && l.same l' && op == op' && r.same r'
  | .block s b e, .block s' b' e' => s == s' && Stmnt.sameList b b' && e.same e'
  | .branch s c y n, .branch s' c' y' n' => s == s' && c.same c' && y.same y' && n.same n'
  | .select s e as, .select s' e' as' => s == s' && e.same e' && Arm.sameList as as'
  | .forLoop s p i b, .forLoop s' p' i' b' => s == s' && p.same p' && i.same i' && b.same b'
  | .whileLoop s c b, .whileLoop s' c' b' => s == s' && c.same c' && b.same b'
  | .pack s p b, .pack s' p' b' => s == s' && p.same p' && b.same b'
  | .variadic s p b, .variadic s' p' b' => s == s' && p.same p' && b.same b'
  | .qualifier s q, .qualifier s' q' => s == s' && q == q'
  | .bottom s, .bottom s' => s == s'
  | .unknown s, .unknown s' => s == s'
  | .error s, .error s' => s == s'
  | _, _ => false

def Expr.same? : Option Expr → Option Expr → Bool
  | none, none => true
  | some e, some e' => e.same e'
  | _, _ => false

def Ptrn.same : Ptrn → Ptrn → Bool
  | .name s i d ty t, .name s' i' d' ty' t' =>
    s == s' && i == i' && d == d' && Expr.same? ty ty' && t == t'
  | .tuple s ps ty t, .tuple s' ps' ty' t' =>
    s == s' && Ptrn.sameList ps ps' && Expr.same? ty ty' && t == t'
  | .error s, .error s' => s == s'
  | _, _ => false

def Ptrn.sameList : List Ptrn → List Ptrn → Bool
  | [], [] => true
  | p :: ps, p' :: ps' => p.same p' && Ptrn.sameList ps ps'
  | _, _ => false

def Elem.sameList : List Elem → List Elem → Bool
  | [], [] => true
  | ⟨i, e⟩ :: es, ⟨i', e'⟩ :: es' => i == i' && e.same e' && Elem.sameList es es'
  | _, _ => false

def Arm.sameList : List Arm → List Arm → Bool
  | [], [] => true
  | ⟨s, p, e⟩ :: as, ⟨s', p', e'⟩ :: as' =>
    s == s' && p.same p' && e.same e' && Arm.sameList as as'
  | _, _ => false

def Stmnt.same : Stmnt → Stmnt → Bool
  | .expr s e, .expr s' e' => s == s' && e.same e'
  | .bind s p e, .bind s' p' e' => s == s' && p.same p' && e.same e'
  | .item ⟨s, i, e, d, v⟩, .item ⟨s', i', e', d', v'⟩ =>
    s == s' && i == i' && e.same e' && d == d' && v == v'
  | _, _ => false

def Stmnt.sameList : List Stmnt → List Stmnt → Bool
  | [], [] => true
  | s :: ss, s' :: ss' => s.same s' && Stmnt.sameList ss ss'
  | _, _ => false

end

/-- Whether two modules agree in everything, down to spans, annotations and the `bound` mark. -/
def Module.same (a b : Module) : Bool :=
  a.span == b.span && a.file == b.file && Stmnt.sameList a.stmnts b.stmnts &&
    a.decls == b.decls && a.bound == b.bound

end ImpLang
