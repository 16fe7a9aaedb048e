import ImpLang.Proofs.Parser.Faultless
import ImpLang.Proofs.Token.Spelling

/-!
The names and the literals of a tree that is read can be written again, and its slots are empty.
-/

namespace ImpLang

/-- A name that is read as an identifier. -/
def Id.IsNamed (names : Interner) (id : Id) : Prop :=
  ∃ text, names.resolve? id.symbol = some text ∧ IsName text

/-- What a node shows of its own is written by names and literals that have a canonical text, floats
aside, and it is not annotated. -/
def Node.Named (names : Interner) : Node → Prop
  | .expr (.name _ id decl) => id.IsNamed names ∧ decl = .unset
  | .expr (.literal _ value) => ∃ text : Literal String, value.map names.resolve? = text.map some ∧
      (Payload.literal text).IsWritable
  | .expr (.tuple _ es) => ∀ e ∈ es, ∀ id ∈ e.id, id.IsNamed names
  | .expr (.field _ _ id) => id.IsNamed names
  | .ptrn (.name _ id ..) => id.IsNamed names
  | .item it => it.id.IsNamed names ∧ it.value = .unset
  | _ => True

def Node.AllNamed (names : Interner) (nodes : List Node) : Prop :=
  ∀ node ∈ nodes, node.Named names

namespace Node

variable {names : Interner} {node : Node} {nodes nodes' : List Node}

@[simp] theorem allNamed_nil : AllNamed names [] := List.forall_mem_nil _

@[simp] theorem allNamed_cons :
    AllNamed names (node :: nodes) ↔ node.Named names ∧ AllNamed names nodes := List.forall_mem_cons

@[simp] theorem allNamed_append :
    AllNamed names (nodes ++ nodes') ↔ AllNamed names nodes ∧ AllNamed names nodes' :=
  List.forall_mem_append

end Node

/-- The names of elements stand in no node of their own. -/
def Phrase.Titled (names : Interner) : Phrase → Prop
  | .elem e => ∀ id ∈ e.id, id.IsNamed names
  | .elems es _ => ∀ e ∈ es, ∀ id ∈ e.id, id.IsNamed names
  | _ => True

variable {names : Interner} {place : Placement} {phrase : Phrase} {ts : List Token}

theorem Token.Spells.isNamed {t : Token} {id : Id} (h : t.Spells names place id)
    (hwritable : t.payload.IsWritable) : id.IsNamed names := by
  obtain ⟨text, hpayload, hid⟩ := h.text
  rw [hpayload] at hwritable
  exact ⟨text, hid, hwritable⟩

theorem isName_wildcard : IsName Interner.wildcard := by
  refine ⟨?_, ?_, ?_, ?_⟩ <;> decide

theorem Derives.titled (h : Derives names place phrase ts)
    (hts : ∀ t ∈ ts, t.payload.IsWritable) : phrase.Titled names := by
  induction h
  case elemsNil => exact List.forall_mem_nil _
  case elemsOne ih => exact List.forall_mem_singleton.2 (ih hts)
  case elemsCons ih ih' =>
    obtain ⟨hfirst, hrest⟩ := List.forall_mem_append.1 hts
    exact List.forall_mem_cons.2 ⟨ih hfirst, ih' (List.forall_mem_cons.1 hrest).2⟩
  case elemNamed spells _ _ _ =>
    have hid := spells.isNamed (hts _ List.mem_cons_self)
    exact fun id hmem => Option.some.inj hmem ▸ hid
  case elemPlain => exact fun _ hmem => nomatch hmem
  all_goals trivial

/-- Every node of a phrase is named by its tokens. -/
theorem Derives.named (h : Derives names place phrase ts)
    (hts : ∀ t ∈ ts, t.payload.IsWritable) : Node.AllNamed names phrase.nodes := by
  induction h
  case grouped span e t u ts _ _ _ _ ih =>
    obtain ⟨hinner, -⟩ := List.forall_mem_append.1 (List.forall_mem_cons.1 hts).2
    have hnodes := ih hinner
    simp only [Phrase.nodes, Elem.nodesOf, List.append_nil] at hnodes ⊢
    rw [Expr.nodes_withSpan, Node.allNamed_cons]
    refine ⟨?_, fun node hnode => hnodes node (List.mem_of_mem_tail hnode)⟩
    have hroot := hnodes _ e.mem_nodes
    cases e <;> exact hroot
  case tuple elems _ _ _ ih =>
    obtain ⟨hinner, -⟩ := List.forall_mem_append.1 (List.forall_mem_cons.1 hts).2
    exact Node.allNamed_cons.2 ⟨elems.titled hinner, ih hinner⟩
  case literal payload same _ =>
    have hwritable := hts _ List.mem_cons_self
    rw [payload] at hwritable
    exact Node.allNamed_cons.2 ⟨⟨_, same, hwritable⟩, Node.allNamed_nil⟩
  case name spells _ =>
    exact Node.allNamed_cons.2 ⟨⟨spells.isNamed (hts _ List.mem_cons_self), rfl⟩, Node.allNamed_nil⟩
  case field spells _ ih =>
    obtain ⟨hvalue, hmarks⟩ := List.forall_mem_append.1 hts
    exact Node.allNamed_cons.2
      ⟨spells.isNamed (hmarks _ (List.mem_cons_of_mem _ List.mem_cons_self)), ih hvalue⟩
  case sigmaElemNamed spells _ _ _ ih =>
    obtain ⟨hname, hrest⟩ := List.forall_mem_cons.1 hts
    exact Node.allNamed_cons.2 ⟨spells.isNamed hname, ih (List.forall_mem_cons.1 hrest).2⟩
  case sigmaElemPlain wildcard ih =>
    exact Node.allNamed_cons.2 ⟨⟨_, wildcard, isName_wildcard⟩, ih hts⟩
  case ptrnName spells _ _ ih =>
    obtain ⟨hname, hrest⟩ := List.forall_mem_cons.1 hts
    exact Node.allNamed_cons.2 ⟨spells.isNamed hname, ih hrest⟩
  case bindDef spells _ _ _ _ ih =>
    obtain ⟨hname, hrest⟩ := List.forall_mem_cons.1 (List.forall_mem_cons.1 hts).2
    have hvalue := List.forall_mem_append.1 (List.forall_mem_cons.1 hrest).2
    exact Node.allNamed_cons.2
      ⟨trivial, Node.allNamed_cons.2 ⟨⟨spells.isNamed hname, rfl⟩, ih hvalue.1⟩⟩
  case bindFn spells _ _ _ ih =>
    obtain ⟨hname, hrest⟩ := List.forall_mem_cons.1 (List.forall_mem_cons.1 hts).2
    exact Node.allNamed_cons.2 ⟨trivial, Node.allNamed_cons.2
      ⟨⟨spells.isNamed hname, rfl⟩, Node.allNamed_cons.2 ⟨trivial, ih hrest⟩⟩⟩
  all_goals
    simp_all only [List.forall_mem_append, List.forall_mem_cons, Phrase.nodes, Expr.nodes,
      Expr.nodesOf?, Ptrn.nodes, Ptrn.nodesOf, Elem.nodesOf, Elem.nodesOf_cons, Arm.nodesOf,
      Stmnt.nodes, Stmnt.nodesOf, Expr.emptyTuple, Expr.emptyBlock, Node.allNamed_nil,
      Node.allNamed_cons, Node.allNamed_append, Node.Named, List.not_mem_nil,
      IsEmpty.forall_iff, implies_true, forall_const, and_self]

end ImpLang
