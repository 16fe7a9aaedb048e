import ImpLang.Proofs.Parser.Source
import ImpLang.Proofs.Tree.Walking

/-!
The shape of trees that are read without errors: where there are blocks, and which patterns have to
be typed. The grammar fixes both for each construct.
-/

namespace ImpLang

namespace Expr

def isBlock : Expr → Bool
  | block .. => true
  | _ => false

def isBranch : Expr → Bool
  | branch .. => true
  | _ => false

end Expr

/-- A name with a type, in a pattern that has to be typed. -/
def Ptrn.IsTypedName (p : Ptrn) : Prop := ∃ span id decl ty, p = .name span id decl (some ty) true

/-- What the grammar asks of the parts directly below a node. -/
def Node.Regular : Node → Prop
  | .expr (.sigma _ elems) => ∀ elem ∈ elems, elem.IsTypedName
  | .expr (.pi _ domain _) => domain.isTyped = true
  | .expr (.lambda _ domain _ body) => domain.isTyped = true ∧ body.isBlock = true
  | .expr (.branch _ _ yes no) => yes.isBlock = true ∧ (no.isBlock = true ∨ no.isBranch = true)
  | .expr (.select _ _ arms) => ∀ arm ∈ arms, arm.ptrn.isTyped = false
  | .expr (.forLoop _ p _ body) => p.isTyped = false ∧ body.isBlock = true
  | .expr (.whileLoop _ _ body) => body.isBlock = true
  | .expr (.pack _ domain _) => domain.isTyped = false
  | .expr (.variadic _ domain _) => domain.isTyped = false
  | .ptrn (.tuple _ elems _ typed) => ∀ elem ∈ elems, elem.isTyped = typed
  | .stmnt (.bind _ p _) => p.isTyped = false
  | _ => True

def Node.AllRegular (nodes : List Node) : Prop := ∀ node ∈ nodes, node.Regular

namespace Node

variable {node : Node} {nodes nodes' : List Node}

@[simp] theorem allRegular_nil : AllRegular [] := List.forall_mem_nil _

@[simp] theorem allRegular_cons :
    AllRegular (node :: nodes) ↔ node.Regular ∧ AllRegular nodes := List.forall_mem_cons

@[simp] theorem allRegular_append :
    AllRegular (nodes ++ nodes') ↔ AllRegular nodes ∧ AllRegular nodes' := List.forall_mem_append

theorem AllRegular.cons (h : node.Regular) (hs : AllRegular nodes) : AllRegular (node :: nodes) :=
  allRegular_cons.2 ⟨h, hs⟩

theorem AllRegular.append (h : AllRegular nodes) (h' : AllRegular nodes') :
    AllRegular (nodes ++ nodes') := allRegular_append.2 ⟨h, h'⟩

end Node

/-- What a phrase is known to be wherever it stands. -/
def Phrase.Shaped : Phrase → Prop
  | .sigmaElem p => p.IsTypedName
  | .sigmaElems ps => ∀ p ∈ ps, p.IsTypedName
  | .ptrn typed _ p => p.isTyped = typed
  | .ptrns typed ps => ∀ p ∈ ps, p.isTyped = typed
  | .function d _ b => d.isTyped = true ∧ b.isBlock = true
  | .block e => e.isBlock = true
  | .branch e => e.isBranch = true
  | .otherwise _ e => e.isBlock = true ∨ e.isBranch = true
  | .arms as => ∀ arm ∈ as, arm.ptrn.isTyped = false
  | _ => True

variable {names : Interner} {place : Placement} {phrase : Phrase} {ts : List Token}

theorem Derives.shaped (h : Derives names place phrase ts) : phrase.Shaped := by
  induction h
  case sigmaElemsNil | ptrnsNil | armsNil => exact List.forall_mem_nil _
  case sigmaElemsOne ih | ptrnsOne ih => exact List.forall_mem_singleton.2 ih
  case sigmaElemsCons ih ih' | ptrnsCons ih ih' => exact List.forall_mem_cons.2 ⟨ih, ih'⟩
  case armsCons ih _ ih' => exact List.forall_mem_cons.2 ⟨ih, ih'⟩
  case sigmaElemNamed => exact ⟨_, _, _, _, rfl⟩
  case sigmaElemPlain => exact ⟨_, _, _, _, rfl⟩
  case function ih _ ih' => exact ⟨ih, ih'⟩
  case otherwiseNone => exact .inl rfl
  case otherwiseBranch ih => exact .inr ih
  case otherwiseBlock ih => exact .inl ih
  case ptrnName | ptrnTuple | block | branch => rfl
  all_goals trivial

/-- Every node of a phrase is regular. -/
theorem Derives.regular (h : Derives names place phrase ts) : Node.AllRegular phrase.nodes := by
  induction h
  case grouped span e t u ts _ _ _ _ ih =>
    simp only [Phrase.nodes, Elem.nodesOf, List.append_nil] at ih ⊢
    rw [Expr.nodes_withSpan, Node.allRegular_cons]
    refine ⟨?_, fun node hnode => ih node (List.mem_of_mem_tail hnode)⟩
    have hroot := ih _ e.mem_nodes
    cases e <;> exact hroot
  -- Where something is asked of the parts below a node, the phrases there are known to be so.
  case sigma elems _ _ ih => exact .cons elems.shaped ih
  case lambda function _ ih => exact .cons function.shaped ih
  case pi domain _ _ _ ih ih' => exact .cons domain.shaped (ih.append ih')
  case continuation domain _ _ ih =>
    exact .cons domain.shaped (ih.append (.cons trivial Node.allRegular_nil))
  case pack domain _ _ _ _ ih ih' => exact .cons domain.shaped (ih.append ih')
  case variadic domain _ _ _ _ ih ih' => exact .cons domain.shaped (ih.append ih')
  case ptrnTuple elems _ _ _ ih ih' => exact .cons elems.shaped (ih'.append ih)
  case formSelect arms _ _ ih ih' => exact .cons arms.shaped (ih.append ih')
  case formFor ptrn _ _ body _ ih ih' ih'' =>
    exact .cons ⟨ptrn.shaped, body.shaped⟩ ((ih.append ih').append ih'')
  case formWhile body _ ih ih' => exact .cons body.shaped (ih.append ih')
  case branch yes no _ ih ih' ih'' =>
    exact .cons ⟨yes.shaped, no.shaped⟩ ((ih.append ih').append ih'')
  case bindLet ptrn _ _ _ _ _ ih ih' => exact .cons ptrn.shaped (ih.append ih')
  case bindFn function _ _ ih => exact .cons trivial (.cons trivial (.cons function.shaped ih))
  all_goals
    simp_all only [Phrase.nodes, Expr.nodes, Expr.nodesOf?, Ptrn.nodes, Ptrn.nodesOf, Elem.nodesOf,
      Elem.nodesOf_cons, Arm.nodesOf, Stmnt.nodes, Stmnt.nodesOf, Expr.emptyTuple, Expr.emptyBlock,
      Node.allRegular_nil, Node.allRegular_cons, Node.allRegular_append, Node.Regular, and_self]

/-! ## Patterns -/

namespace Part

/-- The patterns of parameters directly below a part. -/
def params : Part → List Ptrn
  | expr (.sigma _ elems) => elems
  | expr (.pi _ domain _) => [domain]
  | expr (.lambda _ domain _ _) => [domain]
  | _ => []

/-- The patterns directly below a part, or below its cases, that bind other names. -/
def locals : Part → List Ptrn
  | stmnt (.bind _ p _) => [p]
  | expr (.select _ _ arms) => arms.map Arm.ptrn
  | expr (.forLoop _ p _ _) => [p]
  | expr (.pack _ domain _) => [domain]
  | expr (.variadic _ domain _) => [domain]
  | _ => []

/-- The patterns of a tree with the elements nested in them: those of parameters, marked with
`true`, and the others. -/
inductive Binds (tree : Part) : Bool → Ptrn → Prop
  | param {part p} (has : tree.Has part) (mem : p ∈ part.params) : Binds tree true p
  | other {part p} (has : tree.Has part) (mem : p ∈ part.locals) : Binds tree false p
  | elem {typed span elems ty flag p} (tuple : Binds tree typed (.tuple span elems ty flag))
      (mem : p ∈ elems) : Binds tree typed p

/-- A pattern stands below a part that introduces it, in a case of a `match`, or in a tuple. -/
theorem ptrn_mem_children {part : Part} {p : Ptrn} (h : ptrn p ∈ part.children) :
    p ∈ part.params ∨ p ∈ part.locals ∨ (∃ a, part = arm a ∧ p = a.ptrn) ∨
      ∃ span elems ty typed, part = ptrn (.tuple span elems ty typed) ∧ p ∈ elems := by
  cases part with
  | module m => simp [children] at h
  | stmnt s => cases s <;> simp_all [children, Stmnt.parts, params, locals]
  | item it => simp [children] at h
  | expr e => cases e <;> simp_all [children, Expr.parts, params, locals]
  | ptrn outer => cases outer <;> simp_all [children, Ptrn.parts]
  | arm a => simp_all [children]

theorem arm_mem_children {part : Part} {a : Arm} (h : arm a ∈ part.children) :
    a.ptrn ∈ part.locals := by
  cases part with
  | module m => simp [children] at h
  | stmnt s => cases s <;> simp [children, Stmnt.parts] at h
  | item it => simp [children] at h
  | expr e =>
    cases e
    case select span scrutinee arms =>
      rw [children, Expr.parts, List.mem_cons] at h
      obtain ⟨b, hb, heq⟩ := List.mem_map.1 (h.resolve_left (by simp))
      cases heq
      exact List.mem_map_of_mem hb
    all_goals simp [children, Expr.parts] at h
  | ptrn outer => cases outer <;> simp [children, Ptrn.parts] at h
  | arm a => simp [children] at h

theorem mem_children_of_params {part : Part} {p : Ptrn} (h : p ∈ part.params) :
    ptrn p ∈ part.children := by
  cases part with
  | expr e => cases e <;> simp_all [children, Expr.parts, params]
  | module | stmnt | item | ptrn | arm => cases h

theorem Has.of_locals {tree part : Part} (hhas : tree.Has part) {p : Ptrn} (h : p ∈ part.locals) :
    tree.Has (ptrn p) := by
  cases part with
  | stmnt s => cases s <;> exact hhas.tail (by simp_all [children, Stmnt.parts, locals])
  | expr e =>
    cases e
    case select span scrutinee arms =>
      obtain ⟨a, ha, rfl⟩ := List.mem_map.1 h
      have harm : tree.Has (arm a) :=
        hhas.tail (List.mem_cons_of_mem _ (List.mem_map_of_mem ha))
      exact harm.tail (List.mem_cons_self ..)
    all_goals exact hhas.tail (by simp_all [children, Expr.parts, locals])
  | module | item | ptrn | arm => cases h

/-- Every pattern of a module is one of a parameter or another one. -/
theorem Has.exists_binds {m : Module} {p : Ptrn} (h : (module m).Has (ptrn p)) :
    ∃ typed, (module m).Binds typed p := by
  generalize hpart : ptrn p = part at h
  induction h generalizing p with
  | refl => cases hpart
  | tail hfront hchild ih =>
    subst hpart
    rcases ptrn_mem_children hchild with hp | hp | ⟨a, rfl, rfl⟩ | ⟨span, elems, ty, flag, rfl, hp⟩
    · exact ⟨true, .param hfront hp⟩
    · exact ⟨false, .other hfront hp⟩
    · rcases hfront.cases_tail with hroot | ⟨part, hhas, harm⟩
      · cases hroot
      · exact ⟨false, .other hhas (arm_mem_children harm)⟩
    · obtain ⟨typed, hbinds⟩ := ih rfl
      exact ⟨typed, .elem hbinds hp⟩

theorem Binds.has {tree : Part} {typed : Bool} {p : Ptrn} (h : tree.Binds typed p) :
    tree.Has (ptrn p) := by
  induction h with
  | param has mem => exact has.tail (mem_children_of_params mem)
  | other has mem => exact has.of_locals mem
  | elem tuple mem ih =>
    exact ih.tail (List.mem_append_left _ (List.mem_map_of_mem mem))

theorem isTyped_params {part : Part} (h : ∀ node, part.node? = some node → node.Regular) :
    ∀ p ∈ part.params, p.isTyped = true := by
  intro p hp
  cases part with
  | expr e =>
    have hnode := h _ rfl
    cases e
    case sigma span elems =>
      obtain ⟨_, _, _, _, rfl⟩ := hnode p hp
      rfl
    case pi span domain codomain =>
      obtain rfl := List.mem_singleton.1 hp
      exact hnode
    case lambda span domain codomain body =>
      obtain rfl := List.mem_singleton.1 hp
      exact hnode.1
    all_goals cases hp
  | module | stmnt | item | ptrn | arm => cases hp

theorem isTyped_locals {part : Part} (h : ∀ node, part.node? = some node → node.Regular) :
    ∀ p ∈ part.locals, p.isTyped = false := by
  intro p hp
  cases part with
  | stmnt s =>
    have hnode := h _ rfl
    cases s
    case bind span outer init =>
      obtain rfl := List.mem_singleton.1 hp
      exact hnode
    all_goals cases hp
  | expr e =>
    have hnode := h _ rfl
    cases e
    case select span scrutinee arms =>
      obtain ⟨a, ha, rfl⟩ := List.mem_map.1 hp
      exact hnode a ha
    case forLoop span outer iter body =>
      obtain rfl := List.mem_singleton.1 hp
      exact hnode.1
    case pack | variadic =>
      obtain rfl := List.mem_singleton.1 hp
      exact hnode
    all_goals cases hp
  | module | item | ptrn | arm => cases hp

/-- In a regular tree the patterns of parameters have to be typed, and no others. -/
theorem Binds.isTyped {tree : Part} (hregular : Node.AllRegular tree.nodes) {typed : Bool}
    {p : Ptrn} (h : tree.Binds typed p) : p.isTyped = typed := by
  have hnode : ∀ {part : Part}, tree.Has part → ∀ node, part.node? = some node → node.Regular :=
    fun hhas node hnode => hregular node (hhas.mem_nodes hnode)
  induction h with
  | param has mem => exact isTyped_params (hnode has) _ mem
  | other has mem => exact isTyped_locals (hnode has) _ mem
  | elem tuple mem ih => exact (hnode tuple.has _ rfl _ mem).trans ih

/-- The shape of a tree without errors. -/
structure Shapely (tree : Part) : Prop where
  expr : ∀ e, tree.Has (.expr e) → e.isError = false
  ptrn : ∀ p, tree.Has (.ptrn p) → p.isError = false
  lambda : ∀ span domain codomain body,
    tree.Has (.expr (.lambda span domain codomain body)) → body.isBlock = true
  forLoop : ∀ span p iter body,
    tree.Has (.expr (.forLoop span p iter body)) → body.isBlock = true
  whileLoop : ∀ span cond body, tree.Has (.expr (.whileLoop span cond body)) → body.isBlock = true
  branch : ∀ span cond yes no, tree.Has (.expr (.branch span cond yes no)) →
    yes.isBlock = true ∧ (no.isBlock = true ∨ no.isBranch = true)
  sigma : ∀ span elems, tree.Has (.expr (.sigma span elems)) →
    ∀ elem ∈ elems, ∃ span id decl ty, elem = .name span id decl (some ty) true
  typed : ∀ p, tree.Has (.ptrn p) → ∀ typed, p.isTyped = typed ↔ tree.Binds typed p

end Part

/-- What the grammar derives has the shape that it fixes. -/
theorem Derives.shapely {m : Module} (h : Derives names place (.stmnts m.stmnts) ts) :
    (Part.module m).Shapely := by
  have hfaultless : ∀ node ∈ (Part.module m).nodes, node.isError = false := h.faultless
  have hregular : Node.AllRegular (Part.module m).nodes := h.regular
  exact {
    expr _ hhas := hfaultless _ (hhas.mem_nodes rfl)
    ptrn _ hhas := hfaultless _ (hhas.mem_nodes rfl)
    lambda _ _ _ _ hhas := (hregular _ (hhas.mem_nodes rfl)).2
    forLoop _ _ _ _ hhas := (hregular _ (hhas.mem_nodes rfl)).2
    whileLoop _ _ _ hhas := hregular _ (hhas.mem_nodes rfl)
    branch _ _ _ _ hhas := hregular _ (hhas.mem_nodes rfl)
    sigma _ _ hhas := hregular _ (hhas.mem_nodes rfl)
    typed p hhas typed := by
      obtain ⟨found, hbinds⟩ := hhas.exists_binds
      have hfound := hbinds.isTyped hregular
      refine ⟨fun htyped => ?_, fun hbinds => hbinds.isTyped hregular⟩
      rwa [← htyped, hfound] }

namespace Compiler

/-- What is read from a source without a report has no error nodes. The bodies of functions and
loops and the consequences of branches are blocks, and their alternatives are blocks or branches.
The elements of dependent tuples are names with types, and the patterns that have to be typed are
those of parameters. -/
theorem parseSource_shapely (c : Compiler) (name source : String)
    (h : (c.parseSource name source).2.diagnostics = c.diagnostics) :
    (Part.module (c.parseSource name source).1).Shapely := by
  rw [diagnostics_parseSource] at h
  obtain ⟨ts, eof, -, -, hderives⟩ :=
    Module.parse_derives ⟨c.files.size⟩ source c.names (Array.append_right_eq_self.1 h)
  rw [result_parseSource]
  exact hderives.shapely

/-- With a parameter in a tuple, a branch in an alternative, a loop and a dependent tuple. -/
theorem parseSource_shapely_fn :
    let source :=
      "fn f (x: cn t, (y)) { if x { y } else if y { } for z in x { z; } }" ++
      "let (p, q): [r: t] = \\lambda w { w };"
    (new.parseSource "a" source).2.diagnostics = new.diagnostics ∧
      (Part.module (new.parseSource "a" source).1).Shapely := by
  intro source
  have h : (new.parseSource "a" source).2.diagnostics = new.diagnostics := by decide +kernel
  exact ⟨h, parseSource_shapely new "a" source h⟩

end Compiler

end ImpLang
