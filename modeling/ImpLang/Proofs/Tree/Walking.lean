import ImpLang.Proofs.Tree.Parts
import ImpLang.Tree.Walk
import Mathlib.Data.List.Basic

/-!
The walk through a tree. A part stands at the end of a path, which tells the number of a child at
each step down from the root. A walk takes the path to every node once, and visits a node before
the nodes below it. It takes the children of a part in their order, but the ascription of a tuple
in front of the elements.
-/

namespace ImpLang

namespace Part

theorem sizeOf_child {part child : Part} (h : child ∈ part.children) :
    sizeOf child < sizeOf part := by
  cases part with
  | module m =>
    obtain ⟨s, hs, rfl⟩ := List.mem_map.1 h
    have hlt := List.sizeOf_lt_of_mem hs
    cases m
    simp only [module.sizeOf_spec, stmnt.sizeOf_spec, Module.mk.sizeOf_spec] at hlt ⊢
    omega
  | stmnt s => cases s <;> simp only [children, Stmnt.parts] at h <;> grind
  | item it =>
    cases it
    simp only [children] at h
    grind
  | expr e =>
    cases e <;> simp only [children, Expr.parts] at h
    case tuple span elems =>
      obtain ⟨⟨id, e⟩, helem, rfl⟩ := List.mem_map.1 h
      have hlt := List.sizeOf_lt_of_mem helem
      grind
    case sigma span elems =>
      obtain ⟨p, hp, rfl⟩ := List.mem_map.1 h
      have hlt := List.sizeOf_lt_of_mem hp
      grind
    case block span stmnts value =>
      rcases List.mem_append.1 h with h | h
      · obtain ⟨s, hs, rfl⟩ := List.mem_map.1 h
        have hlt := List.sizeOf_lt_of_mem hs
        grind
      · grind
    case select span scrutinee arms =>
      rcases List.mem_cons.1 h with rfl | h
      · grind
      · obtain ⟨a, ha, rfl⟩ := List.mem_map.1 h
        have hlt := List.sizeOf_lt_of_mem ha
        grind
    all_goals grind
  | ptrn p =>
    cases p <;> simp only [children, Ptrn.parts] at h
    case name span id decl ty typed => cases ty <;> grind
    case tuple span elems ty typed =>
      rcases List.mem_append.1 h with h | h
      · obtain ⟨p, hp, rfl⟩ := List.mem_map.1 h
        have hlt := List.sizeOf_lt_of_mem hp
        grind
      · cases ty <;> grind
    case error span => grind
  | arm a =>
    cases a
    simp only [children] at h
    grind

/-- What holds of a part if it holds of its children holds of every part. -/
@[elab_as_elim]
theorem children_induction {motive : Part → Prop}
    (step : ∀ part, (∀ child ∈ part.children, motive child) → motive part) (part : Part) :
    motive part :=
  step part fun child _ => children_induction step child
termination_by sizeOf part
decreasing_by exact sizeOf_child ‹_›

/-- The node that a part is. A module and a case of a `match` are none. -/
def node? : Part → Option Node
  | module _ | arm _ => none
  | stmnt s => some (.stmnt s)
  | item it => some (.item it)
  | expr e => some (.expr e)
  | ptrn p => some (.ptrn p)

/-- The nodes that a walk visits in a part. -/
def nodes : Part → List Node
  | module m => m.walk
  | stmnt s => s.nodes
  | item it => .item it :: it.expr.nodes
  | expr e => e.nodes
  | ptrn p => p.nodes
  | arm a => a.ptrn.nodes ++ a.body.nodes

/-- The children of a part and their numbers, in the order of a walk. -/
def turns : Part → List (Part × Nat)
  | ptrn (.tuple _ elems (some ty) _) => (expr ty, elems.length) :: (elems.map ptrn).zipIdx
  | part => part.children.zipIdx

/-- The part at the end of a path. -/
def at? : Part → List Nat → Option Part
  | part, [] => some part
  | part, number :: path => part.children[number]?.bind (at? · path)

/-- A walk takes every child once. -/
theorem turns_perm (part : Part) : part.turns.Perm part.children.zipIdx := by
  unfold turns
  split
  · next span elems ty typed =>
    simp only [children, Ptrn.parts, Option.toList_some, List.map_cons, List.map_nil,
      List.zipIdx_append, List.length_map, Nat.zero_add]
    exact (List.perm_append_singleton _ _).symm
  · exact .refl _

theorem mem_turns {part child : Part} {number : Nat} :
    (child, number) ∈ part.turns ↔ part.children[number]? = some child := by
  rw [part.turns_perm.mem_iff, List.mem_zipIdx_iff_getElem?]

theorem nodup_turns (part : Part) : (part.turns.map Prod.snd).Nodup := by
  rw [(part.turns_perm.map Prod.snd).nodup_iff, List.zipIdx_map_snd]
  exact List.nodup_range'

end Part

/-! ## The nodes of lists -/

theorem Stmnt.nodesOf_eq (ss : List Stmnt) : Stmnt.nodesOf ss = ss.flatMap Stmnt.nodes := by
  induction ss with
  | nil => rfl
  | cons s ss ih => rw [Stmnt.nodesOf, ih, List.flatMap_cons]

theorem Ptrn.nodesOf_eq (ps : List Ptrn) : Ptrn.nodesOf ps = ps.flatMap Ptrn.nodes := by
  induction ps with
  | nil => rfl
  | cons p ps ih => rw [Ptrn.nodesOf, ih, List.flatMap_cons]

theorem Elem.nodesOf_eq (es : List Elem) : Elem.nodesOf es = es.flatMap (·.expr.nodes) := by
  induction es with
  | nil => rfl
  | cons e es ih =>
    cases e
    rw [Elem.nodesOf, ih, List.flatMap_cons]

theorem Arm.nodesOf_eq (as : List Arm) :
    Arm.nodesOf as = as.flatMap fun arm => arm.ptrn.nodes ++ arm.body.nodes := by
  induction as with
  | nil => rfl
  | cons a as ih =>
    cases a
    rw [Arm.nodesOf, ih, List.flatMap_cons]

namespace Part

@[simp] theorem nodes_stmnt (s : Stmnt) : (stmnt s).nodes = s.nodes := rfl

@[simp] theorem nodes_item (it : Item) : (item it).nodes = .item it :: it.expr.nodes := rfl

@[simp] theorem nodes_expr (e : Expr) : (expr e).nodes = e.nodes := rfl

@[simp] theorem nodes_ptrn (p : Ptrn) : (ptrn p).nodes = p.nodes := rfl

@[simp] theorem nodes_arm (a : Arm) : (arm a).nodes = a.ptrn.nodes ++ a.body.nodes := rfl

@[simp] theorem flatMap_zipIdx (parts : List Part) :
    parts.zipIdx.flatMap (·.1.nodes) = parts.flatMap nodes := by
  rw [← List.flatMap_map Prod.fst nodes, List.zipIdx_map_fst]

/-- A walk visits a part itself if it is a node, and then its children. -/
theorem nodes_eq (part : Part) :
    part.nodes = part.node?.toList ++ part.turns.flatMap (·.1.nodes) := by
  cases part with
  | module m =>
    have hnodes : (module m).nodes = Stmnt.nodesOf m.stmnts := rfl
    simp [turns, children, node?, hnodes, Stmnt.nodesOf_eq, List.flatMap_map]
  | stmnt s =>
    cases s
    case item it =>
      cases it
      simp [turns, children, node?, Stmnt.parts, Stmnt.nodes]
    all_goals simp [turns, children, node?, Stmnt.parts, Stmnt.nodes]
  | item it => simp [turns, children, node?]
  | expr e =>
    simp only [turns, flatMap_zipIdx, children, nodes_expr, node?, Option.toList_some]
    cases e <;> simp [Expr.parts, Expr.nodes, List.flatMap_map, Stmnt.nodesOf_eq,
      Ptrn.nodesOf_eq, Elem.nodesOf_eq, Arm.nodesOf_eq]
  | ptrn p =>
    cases p with
    | name span id decl ty typed =>
      cases ty <;> simp [turns, children, node?, Ptrn.parts, Ptrn.nodes, Expr.nodesOf?]
    | tuple span elems ty typed =>
      cases ty <;> simp [turns, children, node?, Ptrn.parts, Ptrn.nodes, Expr.nodesOf?,
        Ptrn.nodesOf_eq, List.flatMap_map]
    | error span => simp [turns, children, node?, Ptrn.parts, Ptrn.nodes]
  | arm a => simp [turns, children, node?]

theorem nodes_sublist {part child : Part} (h : child ∈ part.children) :
    child.nodes.Sublist part.nodes := by
  obtain ⟨number, hnumber⟩ := List.mem_iff_getElem?.1 h
  have hturn : child.nodes ∈ part.turns.map (·.1.nodes) :=
    List.mem_map.2 ⟨(child, number), mem_turns.2 hnumber, rfl⟩
  rw [nodes_eq part, List.flatMap_def]
  exact (List.sublist_flatten_of_mem hturn).trans (List.sublist_append_right _ _)

/-- What is visited in a part is visited in the order in which it is visited in the tree. -/
theorem Has.nodes_sublist {tree part : Part} (h : tree.Has part) :
    part.nodes.Sublist tree.nodes := by
  induction h with
  | refl => exact .refl _
  | tail _ hchild ih => exact (Part.nodes_sublist hchild).trans ih

/-- A walk visits all nodes of a tree. -/
theorem Has.mem_nodes {tree part : Part} (h : tree.Has part) {node : Node}
    (hnode : part.node? = some node) : node ∈ tree.nodes :=
  h.nodes_sublist.subset (by simp [nodes_eq part, hnode])

theorem mem_nodes {part : Part} {node : Node} : node ∈ part.nodes ↔
    part.node? = some node ∨ ∃ child ∈ part.children, node ∈ child.nodes := by
  constructor
  · intro h
    rw [nodes_eq, List.mem_append, Option.mem_toList, List.mem_flatMap] at h
    refine h.imp_right fun ⟨turn, hturn, hnode⟩ => ?_
    exact ⟨turn.1, List.mem_of_getElem? (mem_turns.1 hturn), hnode⟩
  · rintro (h | ⟨child, hchild, hnode⟩)
    · exact Has.mem_nodes .refl h
    · exact (nodes_sublist hchild).subset hnode

/-! ## Paths -/

/-- The node at the end of a path. -/
def nodeAt? (tree : Part) (path : List Nat) : Option Node := (tree.at? path).bind node?

theorem nodeAt?_nil (tree : Part) : tree.nodeAt? [] = tree.node? := rfl

theorem nodeAt?_cons {tree child : Part} {number : Nat} (h : tree.children[number]? = some child)
    (path : List Nat) : tree.nodeAt? (number :: path) = child.nodeAt? path := by
  simp only [nodeAt?, at?, h, Option.bind_some]

/-- The paths of a walk: each leads to the node that is visited, every node is at the end of one,
and none leads to or past a node visited before. -/
structure Tour (tree : Part) (paths : List (List Nat)) : Prop where
  visits : paths.map tree.nodeAt? = tree.nodes.map some
  complete : ∀ path node, tree.nodeAt? path = some node → path ∈ paths
  ordered : paths.Pairwise fun path later => ¬ later <+: path

/-- No node is visited twice. -/
theorem Tour.nodup {tree : Part} {paths : List (List Nat)} (h : tree.Tour paths) :
    paths.Nodup := by
  refine h.ordered.imp ?_
  rintro path _ hlater rfl
  exact hlater List.prefix_rfl

/-- The tours of the children, one behind the other, are a tour of the part. -/
theorem Tour.of_turns {part : Part} {paths : Part × Nat → List (List Nat)}
    (h : ∀ turn ∈ part.turns, turn.1.Tour (paths turn)) :
    part.Tour ((part.node?.toList.map fun _ => []) ++
      part.turns.flatMap fun turn => (paths turn).map (turn.2 :: ·)) := by
  have hchild : ∀ turn ∈ part.turns, part.children[turn.2]? = some turn.1 :=
    fun turn hturn => mem_turns.1 hturn
  refine ⟨?_, fun path node hnode => ?_, ?_⟩
  · rw [nodes_eq, List.map_append, List.map_append, List.map_flatMap, List.map_flatMap]
    congr 1
    · cases hnode : part.node? <;> simp [nodeAt?_nil, hnode]
    · refine List.flatMap_congr fun turn hturn => ?_
      rw [List.map_map, ← (h turn hturn).visits]
      exact List.map_congr_left fun path _ => nodeAt?_cons (hchild turn hturn) path
  · rw [List.mem_append]
    cases path with
    | nil =>
      rw [nodeAt?_nil] at hnode
      simp [hnode]
    | cons number path =>
      right
      cases hnumber : part.children[number]? with
      | none => simp [nodeAt?, at?, hnumber] at hnode
      | some child =>
        have hturn : (child, number) ∈ part.turns := mem_turns.2 hnumber
        rw [nodeAt?_cons hnumber] at hnode
        exact List.mem_flatMap.2 ⟨_, hturn, List.mem_map_of_mem ((h _ hturn).complete path node hnode)⟩
  · refine List.pairwise_append.2 ⟨?_, List.pairwise_flatMap.2 ⟨fun turn hturn => ?_, ?_⟩, ?_⟩
    · cases part.node? <;> simp
    · exact List.pairwise_map.2 ((h turn hturn).ordered.imp fun hlater hfront =>
        hlater (List.cons_prefix_cons.1 hfront).2)
    · refine (List.pairwise_map.1 part.nodup_turns).imp fun hne path hpath later hlater hfront => ?_
      obtain ⟨front, -, rfl⟩ := List.mem_map.1 hpath
      obtain ⟨back, -, rfl⟩ := List.mem_map.1 hlater
      exact hne (List.cons_prefix_cons.1 hfront).1.symm
    · intro path hpath later hlater hfront
      obtain ⟨node, -, rfl⟩ := List.mem_map.1 hpath
      obtain ⟨turn, -, hlater⟩ := List.mem_flatMap.1 hlater
      obtain ⟨back, -, rfl⟩ := List.mem_map.1 hlater
      simp at hfront

/-- A walk is a tour. -/
theorem exists_tour (tree : Part) : ∃ paths, tree.Tour paths := by
  induction tree using children_induction with
  | step part ih =>
    have hturns : ∀ turn : Part × Nat, ∃ paths, turn ∈ part.turns → turn.1.Tour paths := by
      intro turn
      by_cases hturn : turn ∈ part.turns
      · obtain ⟨paths, hpaths⟩ := ih turn.1 (List.mem_of_getElem? (mem_turns.1 hturn))
        exact ⟨paths, fun _ => hpaths⟩
      · exact ⟨[], fun hmem => absurd hmem hturn⟩
    obtain ⟨paths, hpaths⟩ := Classical.skolem.1 hturns
    exact ⟨_, .of_turns hpaths⟩

end Part

end ImpLang
