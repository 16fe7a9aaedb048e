import ImpLang.Proofs.Parser.Coverage
import ImpLang.Proofs.Tree.Walking

/-!
How far a walk through a tree that is read without errors follows its source. Parts stand in their
order and around their own, so a walk comes to later nodes only, but for one thing: it visits the
ascription of a tuple before the elements, which are written in front of it.
-/

namespace ImpLang

namespace Part

/-- One node belongs to the ascription of a tuple and another one to an element of it. -/
def Ascribes (tree : Part) (a b : Node) : Prop :=
  ∃ span elems ty typed, tree.Has (.ptrn (.tuple span elems (some ty) typed)) ∧
    a ∈ ty.nodes ∧ b ∈ Ptrn.nodesOf elems

theorem Ascribes.of_child {tree child : Part} (hchild : child ∈ tree.children) {a b : Node}
    (h : child.Ascribes a b) : tree.Ascribes a b := by
  obtain ⟨span, elems, ty, typed, hhas, ha, hb⟩ := h
  exact ⟨span, elems, ty, typed, .head hchild hhas, ha, hb⟩

theorem span_of_node? {part : Part} {node : Node} (h : part.node? = some node) :
    node.span = part.span := by
  cases part <;> cases h <;> rfl

variable {tokens : List Token}

/-- A node lies between the ends of the parts around it. -/
theorem Laid.node_within {tree : Part} (h : tree.Laid tokens)
    (hforward : tree.span.start.offset ≤ tree.span.stop.offset) :
    ∀ node ∈ tree.nodes, tree.span.start.offset ≤ node.span.start.offset ∧
      node.span.start.offset ≤ node.span.stop.offset ∧
      node.span.stop.offset ≤ tree.span.stop.offset := by
  induction tree using children_induction with
  | step part ih =>
    intro node hnode
    rcases mem_nodes.1 hnode with hnode | ⟨child, hchild, hnode⟩
    · rw [span_of_node? hnode]
      exact ⟨Nat.le_refl _, hforward, Nat.le_refl _⟩
    · obtain ⟨hstart, hforward, hstop⟩ := h.root.within child hchild
      obtain ⟨hlow, hmid, hhigh⟩ := ih child hchild (h.child hchild) hforward node hnode
      exact ⟨by omega, hmid, by omega⟩

/-- A walk comes to later nodes only, except from the ascription of a tuple to its elements. -/
theorem Laid.walk_ordered {tree : Part} (h : tree.Laid tokens) :
    tree.nodes.Pairwise fun a b =>
      a.span.start.offset ≤ b.span.start.offset ∨ tree.Ascribes a b := by
  induction tree using children_induction with
  | step part ih =>
    have hinside : ∀ child ∈ part.children, ∀ node ∈ child.nodes,
        child.span.start.offset ≤ node.span.start.offset ∧
        node.span.start.offset ≤ node.span.stop.offset ∧
        node.span.stop.offset ≤ child.span.stop.offset := fun child hchild =>
      (h.child hchild).node_within (h.root.within child hchild).2.1
    have hchildren : part.children.Pairwise fun front back => ∀ a ∈ front.nodes, ∀ b ∈ back.nodes,
        a.span.start.offset ≤ b.span.start.offset ∨ part.Ascribes a b := by
      refine h.root.ordered.imp_of_mem fun {front back} hfront hback hle a ha b hb => .inl ?_
      obtain ⟨-, hforward, hstop⟩ := hinside front hfront a ha
      obtain ⟨hstart, -, -⟩ := hinside back hback b hb
      omega
    have hturns : part.turns.Pairwise fun front back => ∀ a ∈ front.1.nodes, ∀ b ∈ back.1.nodes,
        a.span.start.offset ≤ b.span.start.offset ∨ part.Ascribes a b := by
      unfold turns
      split
      · next span elems ty typed =>
        have helems := (List.pairwise_append.1 hchildren).1
        rw [← List.zipIdx_map_fst 0 (elems.map ptrn), List.pairwise_map] at helems
        refine .cons (fun turn hturn a ha b hb => .inr ?_) helems
        have helem := List.mem_map_of_mem (f := Prod.fst) hturn
        rw [List.zipIdx_map_fst] at helem
        obtain ⟨elem, helem, heq⟩ := List.mem_map.1 helem
        refine ⟨span, elems, ty, typed, .refl, ha, ?_⟩
        rw [Ptrn.nodesOf_eq]
        rw [← heq] at hb
        exact List.mem_flatMap.2 ⟨elem, helem, hb⟩
      · rwa [← List.zipIdx_map_fst 0 part.children, List.pairwise_map] at hchildren
    rw [nodes_eq, List.pairwise_append, List.pairwise_flatMap]
    refine ⟨by cases part.node? <;> simp, ⟨fun turn hturn => ?_, hturns⟩, fun a ha b hb => .inl ?_⟩
    · have hchild := List.mem_of_getElem? (mem_turns.1 hturn)
      exact (ih turn.1 hchild (h.child hchild)).imp fun h => h.imp_right (.of_child hchild)
    · obtain ⟨turn, hturn, hb⟩ := List.mem_flatMap.1 hb
      have hchild := List.mem_of_getElem? (mem_turns.1 hturn)
      rw [span_of_node? (Option.mem_toList.1 ha)]
      exact Nat.le_trans (h.root.within _ hchild).1 (hinside _ hchild b hb).1

/-- A walk follows the source if and only if no tuple with elements has an ascription. -/
theorem Laid.walk_sorted_iff {tree : Part} (h : tree.Laid tokens) (hordered : Token.Ordered tokens) :
    (tree.nodes.Pairwise fun a b => a.span.start.offset ≤ b.span.start.offset) ↔
      ∀ span elems ty typed, tree.Has (.ptrn (.tuple span elems (some ty) typed)) → elems = [] := by
  constructor
  · intro hsorted span elems ty typed hhas
    cases elems with
    | nil => rfl
    | cons elem elems =>
      exfalso
      have hplaced := h _ hhas
      have helem : ptrn elem ∈ children (ptrn (.tuple span (elem :: elems) (some ty) typed)) :=
        List.mem_cons_self ..
      -- The ascription is visited before the first element, although it stands behind it.
      have hvisited : [Node.expr ty, Node.ptrn elem].Sublist
          (ptrn (.tuple span (elem :: elems) (some ty) typed)).nodes := by
        have hty : [Node.expr ty].Sublist ty.nodes := List.singleton_sublist.2 ty.mem_nodes
        have helem : Node.ptrn elem ∈ (ptrn elem).nodes := Has.mem_nodes .refl rfl
        rw [nodes_ptrn, Ptrn.nodes, Expr.nodesOf?, Ptrn.nodesOf]
        exact (hty.append (List.singleton_sublist.2 (List.mem_append_left _ helem))).cons _
      have hle : ty.span.start.offset ≤ elem.span.start.offset :=
        List.rel_of_pairwise_cons (hsorted.sublist (hvisited.trans hhas.nodes_sublist))
          (List.mem_singleton_self _)
      have hstands : elem.span.stop.offset ≤ ty.span.start.offset :=
        (List.pairwise_append.1 hplaced.ordered).2.2 (ptrn elem) (List.mem_cons_self ..) (expr ty)
          (List.mem_singleton_self _)
      rcases hplaced.written _ helem with ⟨ts, hts, hcovers⟩ | himplied
      · have hlt := (hordered.of_infix hts).start_lt_stop hcovers
        change elem.span.start.offset < elem.span.stop.offset at hlt
        omega
      · cases himplied
  · intro hnone
    refine h.walk_ordered.imp fun hle => hle.resolve_right ?_
    rintro ⟨span, elems, ty, typed, hhas, -, hb⟩
    rw [hnone span elems ty typed hhas] at hb
    cases hb

end Part

/-- The tokens of a source stand in order in front of its end. -/
theorem Token.ordered_of_lex {file : FileId} {source : String} {ts : List Token} {eof : Token}
    (h : (Token.lex file source).map Lexed.token = ts ++ [eof]) : Token.Ordered ts := by
  have hstream := Token.stream_lexFrom file _ Place.first source.toList (Nat.lt_succ_self _)
  change Stream _ ((Token.lex file source).map Lexed.token) at hstream
  rw [h] at hstream
  exact hstream.ordered.2

namespace Compiler

/-- A walk through what is read from a source without a report visits every node once and a node
before those below it. It comes to later nodes only, except from the ascription of a tuple to its
elements, so it follows the source if and only if no tuple with elements has an ascription. -/
theorem parseSource_walk (c : Compiler) (name source : String)
    (h : (c.parseSource name source).2.diagnostics = c.diagnostics) :
    let module := (c.parseSource name source).1
    let tree := Part.module module
    (∃ paths, tree.Tour paths) ∧
      (module.walk.Pairwise fun a b =>
        a.span.start.offset ≤ b.span.start.offset ∨ tree.Ascribes a b) ∧
      ((module.walk.Pairwise fun a b => a.span.start.offset ≤ b.span.start.offset) ↔
        ∀ span elems ty typed,
          tree.Has (.ptrn (.tuple span elems (some ty) typed)) → elems = []) := by
  intro module tree
  rw [diagnostics_parseSource] at h
  obtain ⟨ts, eof, htokens, -, hlaid⟩ :=
    Module.parse_laid ⟨c.files.size⟩ source c.names (Array.append_right_eq_self.1 h)
  rw [← result_parseSource c name source] at hlaid
  exact ⟨tree.exists_tour, hlaid.walk_ordered,
    hlaid.walk_sorted_iff (Token.ordered_of_lex htokens)⟩

/-- The ascription of a tuple is visited before the elements in front of it. -/
example :
    let module := (new.parseSource "a" "let (a, b): t = e;").1
    module.walk.map (·.span.start.offset) = [0, 4, 12, 5, 8, 16] := by
  decide +kernel

end Compiler

end ImpLang
