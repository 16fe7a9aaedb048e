import ImpLang.Proofs.Parser.Declared
import ImpLang.Proofs.Scope.Rebinding
import Mathlib.Data.List.Forall2

/-!
What name resolution writes into a tree, annotated before or not: it fills every slot of a name and
takes nothing back. What it writes is known to belong to the name, if that is so of what the tree
declares and of what has been written before.
-/

namespace ImpLang

namespace Decls

/-- Placeholders for what is missing have been added. -/
def Grows (a b : Decls) : Prop :=
  ∃ missing : List Decl, b.toList = a.toList ++ missing ∧ ∀ decl ∈ missing, decl.kind = .error

variable {a b c : Decls}

theorem Grows.refl (decls : Decls) : decls.Grows decls := ⟨[], by simp, by simp⟩

theorem Grows.trans (h : a.Grows b) (h' : b.Grows c) : a.Grows c := by
  obtain ⟨missing, heq, herror⟩ := h
  obtain ⟨more, heq', herror'⟩ := h'
  refine ⟨missing ++ more, by rw [heq', heq, List.append_assoc], ?_⟩
  intro decl hdecl
  rcases List.mem_append.1 hdecl with hdecl | hdecl
  · exact herror decl hdecl
  · exact herror' decl hdecl

theorem grows_push (decls : Decls) {decl : Decl} (h : decl.kind = .error) :
    decls.Grows (decls.push decl).2 :=
  ⟨[decl], by simp [push, toList], by simpa using h⟩

theorem Grows.get? (h : a.Grows b) {id : DeclId} {decl : Decl} (ha : a.get? id = some decl) :
    b.get? id = some decl := by
  obtain ⟨missing, heq, -⟩ := h
  simp only [Decls.get?, toList, ← Array.getElem?_toList] at ha heq ⊢
  obtain ⟨hlt, -⟩ := List.getElem?_eq_some_iff.1 ha
  rw [heq, List.getElem?_append_left hlt, ha]

end Decls

/-- What is found under a key stands in the list with it. -/
theorem mem_of_lookup {α β : Type} [BEq α] [LawfulBEq α] {entries : List (α × β)} {key : α}
    {value : β} (h : entries.lookup key = some value) : (key, value) ∈ entries := by
  obtain ⟨before, behind, rfl, -⟩ := List.lookup_eq_some_iff.1 h
  exact List.mem_append_right before List.mem_cons_self

theorem Slot.isSet_of_set_error {α : Type} [DecidableEq α] {slot : Slot α} {value : α}
    {error : SlotError} (h : slot.set value = .error error) : ∃ current, slot.get? = some current := by
  rw [set] at h
  split at h
  · cases h
  · next current hslot => exact ⟨current, hslot⟩

/-! ## Names and their declarations -/

namespace Node

/-- The use of a name, with its slot. -/
def use? : Node → Option (Id × Slot DeclId)
  | .expr (.name _ id slot) => some (id, slot)
  | _ => none

def uses (nodes : List Node) : List (Id × Slot DeclId) := nodes.filterMap use?

/-- The declaration that a node gives to a name or has for it. -/
def refers? : Node → Option (Symbol × DeclId)
  | .ptrn (.name _ id decl _ _) => some (id.symbol, decl)
  | .item it => some (it.id.symbol, it.decl)
  | .expr (.name _ id slot) => slot.get?.map fun decl => (id.symbol, decl)
  | _ => none

/-- What a node mentions it introduces, or it is the use of a name that has been resolved. -/
theorem refers?_cases {node : Node} {name : Symbol} {decl : DeclId}
    (h : node.refers? = some (name, decl)) :
    (∃ entry, node.introduces = some (decl, entry) ∧ entry.symbol = name) ∨
      ∃ span id slot, node = .expr (.name span id slot) ∧ slot.get? = some decl := by
  cases node with
  | stmnt stmnt => cases h
  | item it =>
    cases h
    exact .inl ⟨_, rfl, rfl⟩
  | ptrn ptrn =>
    cases ptrn with
    | name span id decl ty typed =>
      cases h
      exact .inl ⟨_, rfl, rfl⟩
    | tuple span elems ty typed => cases h
    | error span => cases h
  | expr expr =>
    cases expr with
    | name span id slot =>
      obtain ⟨found, hslot, heq⟩ := Option.map_eq_some_iff.1 h
      cases heq
      exact .inr ⟨span, id, slot, rfl, hslot⟩
    | _ => cases h

variable (known : Symbol → DeclId → Prop)

/-- All declarations that some nodes mention are known to belong to their names. -/
def Known (nodes : List Node) : Prop :=
  ∀ node ∈ nodes, ∀ name decl, node.refers? = some (name, decl) → known name decl

variable {known}

theorem known_cons {node : Node} {nodes : List Node} :
    Known known (node :: nodes) ↔
      (∀ name decl, node.refers? = some (name, decl) → known name decl) ∧ Known known nodes :=
  List.forall_mem_cons

theorem known_append {nodes more : List Node} :
    Known known (nodes ++ more) ↔ Known known nodes ∧ Known known more :=
  List.forall_mem_append

theorem Known.tail {node : Node} {nodes : List Node} (h : Known known (node :: nodes)) :
    Known known nodes := (known_cons.1 h).2

theorem Known.tail_pair {node : Node} {nodes more : List Node}
    (h : Known known (node :: (nodes ++ more))) : Known known nodes ∧ Known known more :=
  known_append.1 h.tail

theorem Known.tail_triple {node : Node} {nodes more others : List Node}
    (h : Known known (node :: (nodes ++ more ++ others))) :
    Known known nodes ∧ Known known more ∧ Known known others := by
  obtain ⟨hfirst, hothers⟩ := h.tail_pair
  obtain ⟨hnodes, hmore⟩ := known_append.1 hfirst
  exact ⟨hnodes, hmore, hothers⟩

variable (known)

/-- The use of a name when it has been resolved: a slot that was set is as it was, and all are set. -/
structure Resolved (use use' : Id × Slot DeclId) : Prop where
  id : use'.1 = use.1
  kept : ∀ decl, use.2.get? = some decl → use'.2.get? = some decl
  found : ∃ decl, use'.2.get? = some decl ∧ known use.1.symbol decl

/-- Some nodes when all their names have been resolved. -/
def Annotated (nodes nodes' : List Node) : Prop :=
  List.Forall₂ (Resolved known) (uses nodes) (uses nodes')

variable {known}

namespace Annotated

theorem nil : Annotated known [] [] := List.Forall₂.nil

theorem skip {node node' : Node} {nodes nodes' : List Node} (h : Annotated known nodes nodes')
    (hnode : node.use? = none) (hnode' : node'.use? = none) :
    Annotated known (node :: nodes) (node' :: nodes') := by
  rw [Annotated, uses, uses, List.filterMap_cons_none hnode, List.filterMap_cons_none hnode']
  exact h

theorem append {nodes nodes' more more' : List Node} (h : Annotated known nodes nodes')
    (h' : Annotated known more more') : Annotated known (nodes ++ more) (nodes' ++ more') := by
  rw [Annotated, uses, uses, List.filterMap_append, List.filterMap_append]
  exact List.rel_append h h'

/-- Every use of a name has been resolved. -/
theorem resolved {nodes nodes' : List Node} (h : Annotated known nodes nodes')
    {span : Span} {id : Id} {slot : Slot DeclId} (hmem : .expr (.name span id slot) ∈ nodes') :
    ∃ decl, slot.get? = some decl ∧ known id.symbol decl := by
  have huse : (id, slot) ∈ uses nodes' := List.mem_filterMap.2 ⟨_, hmem, rfl⟩
  rw [Annotated] at h
  generalize uses nodes = before, uses nodes' = after at h huse
  induction h with
  | nil => cases huse
  | cons hresolved _ ih =>
    rcases List.mem_cons.1 huse with rfl | huse
    · obtain ⟨decl, hslot, hknown⟩ := hresolved.found
      rw [← hresolved.id] at hknown
      exact ⟨decl, hslot, hknown⟩
    · exact ih huse

end Annotated

end Node

namespace Binder

/-- What is known at the end of a pass of the declarations that belong to names. The arena is. -/
structure Knowledge where
  decls : Decls
  known : Symbol → DeclId → Prop
  of_get? : ∀ decl entry, decls.get? decl = some entry → known entry.symbol decl

/-- Every visible declaration is known to belong to its name. -/
def Scopes.Known (known : Symbol → DeclId → Prop) (scopes : Scopes) : Prop :=
  ∀ scope ∈ scopes, ∀ name decl, (name, decl) ∈ scope → known name decl

/-- A step adds nothing but placeholders. If those stay until the end of the pass and what is visible
is known, it stays so, and the result is as described. -/
def Annotates (k : Knowledge) {α : Type} (step : Binder α) (p : α → Prop) : Prop :=
  ∀ s : BindState, s.decls.Grows (step.run s).2.decls ∧
    ((step.run s).2.decls.Grows k.decls → Scopes.Known k.known s.scopes →
      Scopes.Known k.known (step.run s).2.scopes ∧ p (step.run s).1)

variable {k : Knowledge}

namespace Annotates

variable {α β : Type} {p : α → Prop} {q : β → Prop}

theorem pure {a : α} (h : p a) : Annotates k (Pure.pure a) p :=
  fun s => ⟨.refl s.decls, fun _ hs => ⟨hs, h⟩⟩

theorem bind {step : Binder α} {next : α → Binder β} (h : Annotates k step p)
    (h' : ∀ a, Annotates k (next a) fun b => p a → q b) :
    Annotates k (step >>= next) q := by
  intro s
  obtain ⟨hgrows, hstep⟩ := h s
  obtain ⟨hgrows', hnext⟩ := h' (step.run s).1 (step.run s).2
  refine ⟨hgrows.trans hgrows', fun hfinal hs => ?_⟩
  obtain ⟨hknown, hp⟩ := hstep (hgrows'.trans hfinal) hs
  obtain ⟨hknown', hq⟩ := hnext hfinal hknown
  exact ⟨hknown', hq hp⟩

theorem mono {step : Binder α} {p q : α → Prop} (h : Annotates k step p)
    (hpq : ∀ a, p a → q a) : Annotates k step q := by
  intro s
  obtain ⟨hgrows, hstep⟩ := h s
  exact ⟨hgrows, fun hfinal hs => (hstep hfinal hs).imp_right (hpq _)⟩

theorem inScope {step : Binder α} (h : Annotates k step p) :
    Annotates k (Binder.inScope step) p := by
  intro s
  obtain ⟨hgrows, hstep⟩ := h { s with scopes := [] :: s.scopes }
  refine ⟨hgrows, fun hfinal hs => ?_⟩
  have hopened : Scopes.Known k.known ([] :: s.scopes) := by
    intro scope hscope
    rcases List.mem_cons.1 hscope with rfl | hscope
    · intro name decl hmem
      cases hmem
    · exact hs scope hscope
  obtain ⟨hknown, hp⟩ := hstep hfinal hopened
  exact ⟨fun scope hscope => hknown scope (List.mem_of_mem_tail hscope), hp⟩

end Annotates

variable (context : BindContext)

theorem annotates_report (error : ScopeError) (span : Span) :
    Annotates k (report error span) fun _ => True :=
  fun s => ⟨.refl s.decls, fun _ hs => ⟨hs, trivial⟩⟩

theorem annotates_declare {name : Symbol} {decl : DeclId} (h : k.known name decl) :
    Annotates k (declare context name decl) fun _ => True := by
  rw [declare]
  split
  · exact .pure trivial
  · intro s
    refine ⟨.refl s.decls, fun _ hs => ⟨?_, trivial⟩⟩
    show Scopes.Known k.known (s.scopes.declare name decl)
    cases hscopes : s.scopes with
    | nil => exact fun scope hscope => by cases hscope
    | cons innermost outer =>
      rw [hscopes] at hs
      obtain ⟨hinnermost, houter⟩ := List.forall_mem_cons.1 hs
      refine List.forall_mem_cons.2 ⟨?_, houter⟩
      intro other otherDecl hmem
      rcases List.mem_cons.1 hmem with heq | hmem
      · cases heq
        exact h
      · exact hinnermost other otherDecl hmem

theorem annotates_declareItems {stmnts : List Stmnt} (h : Node.Known k.known (Stmnt.nodesOf stmnts)) :
    Annotates k (declareItems context stmnts) fun _ => True := by
  induction stmnts with
  | nil => exact .pure trivial
  | cons stmnt stmnts ih =>
    obtain ⟨hstmnt, hstmnts⟩ := Node.known_append.1 h
    cases stmnt with
    | expr span expr => exact ih hstmnts
    | bind span ptrn init => exact ih hstmnts
    | item it =>
      obtain ⟨span, name, expr, decl, value⟩ := it
      have hitem : k.known name.symbol decl := (Node.known_cons.1 hstmnt.tail).1 _ _ rfl
      exact (annotates_declare context hitem).bind fun _ =>
        (ih hstmnts).mono fun _ _ _ => trivial

theorem mem_scope_of_lookup {scopes : Scopes} {name : Symbol} {decl : DeclId}
    (h : scopes.lookup name = some decl) : ∃ scope ∈ scopes, (name, decl) ∈ scope := by
  obtain ⟨scope, hscope, hfound⟩ := List.exists_of_findSome?_eq_some h
  exact ⟨scope, hscope, mem_of_lookup hfound⟩

theorem annotates_placeholder (id : Id) :
    Annotates k (placeholder context id) (k.known id.symbol) := by
  refine (annotates_report _ _).bind fun _ s => ?_
  refine ⟨s.decls.grows_push rfl, fun hgrows hs => ⟨hs, fun _ => ?_⟩⟩
  have hnew : (s.decls.push (missing id)).2.get? (s.decls.push (missing id)).1 = some (missing id) := by
    rw [Decls.get?_push, if_pos rfl]
  exact k.of_get? _ _ (hgrows.get? hnew)

theorem annotates_target (id : Id) {slot : Slot DeclId}
    (h : ∀ decl, slot.get? = some decl → k.known id.symbol decl) :
    Annotates k (target context id slot) (k.known id.symbol) := by
  have hmissing := annotates_placeholder (k := k) context id
  intro s
  rw [target, StateT.run_bind, StateT.run_get, pure_bind]
  cases hlookup : s.scopes.lookup id.symbol with
  | some decl =>
    refine ⟨.refl s.decls, fun _ hs => ⟨hs, ?_⟩⟩
    obtain ⟨scope, hscope, hmem⟩ := mem_scope_of_lookup hlookup
    exact hs scope hscope id.symbol decl hmem
  | none =>
    cases hslot : slot.get? with
    | none => exact hmissing s
    | some decl =>
      by_cases herror : s.decls.isError decl
      · simp only [herror, if_true]
        exact ⟨.refl s.decls, fun _ hs => ⟨hs, h decl hslot⟩⟩
      · simp only [herror]
        exact hmissing s

/-- A slot that does not take the answer keeps its own. -/
theorem annotates_resolve (id : Id) {slot : Slot DeclId}
    (h : ∀ decl, slot.get? = some decl → k.known id.symbol decl) :
    Annotates k (resolve context id slot) fun slot' =>
      Node.Resolved k.known (id, slot) (id, slot') := by
  refine (annotates_target context id h).bind fun decl => ?_
  cases hset : slot.set decl with
  | ok next =>
    obtain ⟨hslot, rfl⟩ := Slot.set_eq_ok_iff.1 hset
    refine .pure fun hdecl => ⟨rfl, ?_, decl, rfl, hdecl⟩
    intro current hcurrent
    rcases hslot with hslot | hslot
    · rw [hslot] at hcurrent
      cases hcurrent
    · rw [← hslot, hcurrent]
  | error error =>
    obtain ⟨current, hcurrent⟩ := Slot.isSet_of_set_error hset
    exact (annotates_report _ _).bind fun _ =>
      .pure fun _ _ => ⟨rfl, fun _ hold => hold, current, hcurrent, h current hcurrent⟩

variable {context}

mutual

/-- A bound tree is the one it is made of up to the annotations of names, and all of these are
made. -/
theorem annotates_expr {expr : Expr} (h : Node.Known k.known expr.nodes) :
    Annotates k (bindExpr context expr) fun expr' =>
      expr'.mapSlots Slot.reset id = expr.mapSlots Slot.reset id ∧
        Node.Annotated k.known expr.nodes expr'.nodes := by
  cases expr with
  | name span name slot =>
    have hslot : ∀ decl, slot.get? = some decl → k.known name.symbol decl := by
      intro decl hdecl
      refine (Node.known_cons.1 h).1 name.symbol decl ?_
      simp only [Node.refers?, hdecl, Option.map_some]
    exact (annotates_resolve context name hslot).bind fun slot' =>
      .pure fun hresolved => ⟨rfl, .cons hresolved .nil⟩
  | literal span value => exact .pure ⟨rfl, .skip .nil rfl rfl⟩
  | tuple span elems =>
    refine (annotates_elems h.tail).bind fun elems' => .pure fun he => ⟨?_, .skip he.2 rfl rfl⟩
    simp only [Expr.mapSlots, he.1]
  | sigma span elems =>
    refine .inScope ((annotates_ptrns false h.tail).bind fun elems' =>
      .pure fun he => ⟨?_, .skip he.2 rfl rfl⟩)
    simp only [Expr.mapSlots, he.1]
  | pi span domain codomain =>
    obtain ⟨hdomain, hcodomain⟩ := h.tail_pair
    refine .inScope ((annotates_ptrn false hdomain).bind fun domain' =>
      (annotates_expr hcodomain).bind fun codomain' =>
      .pure fun hc hd => ⟨?_, .skip (hd.2.append hc.2) rfl rfl⟩)
    simp only [Expr.mapSlots, hd.1, hc.1]
  | lambda span domain codomain body =>
    obtain ⟨hdomain, hcodomain, hbody⟩ := h.tail_triple
    refine .inScope ((annotates_ptrn false hdomain).bind fun domain' =>
      (annotates_expr hcodomain).bind fun codomain' => (annotates_expr hbody).bind fun body' =>
      .pure fun hb hc hd => ⟨?_, .skip ((hd.2.append hc.2).append hb.2) rfl rfl⟩)
    simp only [Expr.mapSlots, hd.1, hc.1, hb.1]
  | app span callee arg cps =>
    obtain ⟨hcallee, harg⟩ := h.tail_pair
    refine (annotates_expr hcallee).bind fun callee' => (annotates_expr harg).bind fun arg' =>
      .pure fun ha hc => ⟨?_, .skip (hc.2.append ha.2) rfl rfl⟩
    simp only [Expr.mapSlots, hc.1, ha.1]
  | field span value name =>
    refine (annotates_expr h.tail).bind fun value' => .pure fun hv => ⟨?_, .skip hv.2 rfl rfl⟩
    simp only [Expr.mapSlots, hv.1]
  | prefixed span op operand =>
    refine (annotates_expr h.tail).bind fun operand' => .pure fun ho => ⟨?_, .skip ho.2 rfl rfl⟩
    simp only [Expr.mapSlots, ho.1]
  | postfixed span operand op =>
    refine (annotates_expr h.tail).bind fun operand' => .pure fun ho => ⟨?_, .skip ho.2 rfl rfl⟩
    simp only [Expr.mapSlots, ho.1]
  | binary span left op right =>
    obtain ⟨hleft, hright⟩ := h.tail_pair
    refine (annotates_expr hleft).bind fun left' => (annotates_expr hright).bind fun right' =>
      .pure fun hr hl => ⟨?_, .skip (hl.2.append hr.2) rfl rfl⟩
    simp only [Expr.mapSlots, hl.1, hr.1]
  | block span stmnts value =>
    obtain ⟨hstmnts, hvalue⟩ := h.tail_pair
    refine .inScope ((annotates_declareItems context hstmnts).bind fun _ =>
      (annotates_stmnts hstmnts).bind fun stmnts' => (annotates_expr hvalue).bind fun value' =>
      .pure fun hv hs _ => ⟨?_, .skip (hs.2.append hv.2) rfl rfl⟩)
    simp only [Expr.mapSlots, hs.1, hv.1]
  | branch span cond yes no =>
    obtain ⟨hcond, hyes, hno⟩ := h.tail_triple
    refine (annotates_expr hcond).bind fun cond' => (annotates_expr hyes).bind fun yes' =>
      (annotates_expr hno).bind fun no' =>
      .pure fun hn hy hc => ⟨?_, .skip ((hc.2.append hy.2).append hn.2) rfl rfl⟩
    simp only [Expr.mapSlots, hc.1, hy.1, hn.1]
  | select span scrutinee arms =>
    obtain ⟨hscrutinee, harms⟩ := h.tail_pair
    refine (annotates_expr hscrutinee).bind fun scrutinee' => (annotates_arms harms).bind fun arms' =>
      .pure fun ha hs => ⟨?_, .skip (hs.2.append ha.2) rfl rfl⟩
    simp only [Expr.mapSlots, hs.1, ha.1]
  | forLoop span ptrn iter body =>
    obtain ⟨hptrn, hiter, hbody⟩ := h.tail_triple
    refine (annotates_expr hiter).bind fun iter' => .inScope
      ((annotates_ptrn false hptrn).bind fun ptrn' => (annotates_expr hbody).bind fun body' =>
      .pure fun hb hp hi => ⟨?_, .skip ((hp.2.append hi.2).append hb.2) rfl rfl⟩)
    simp only [Expr.mapSlots, hp.1, hi.1, hb.1]
  | whileLoop span cond body =>
    obtain ⟨hcond, hbody⟩ := h.tail_pair
    refine (annotates_expr hcond).bind fun cond' => (annotates_expr hbody).bind fun body' =>
      .pure fun hb hc => ⟨?_, .skip (hc.2.append hb.2) rfl rfl⟩
    simp only [Expr.mapSlots, hc.1, hb.1]
  | pack span domain body =>
    obtain ⟨hdomain, hbody⟩ := h.tail_pair
    refine .inScope ((annotates_ptrn false hdomain).bind fun domain' =>
      (annotates_expr hbody).bind fun body' =>
      .pure fun hb hd => ⟨?_, .skip (hd.2.append hb.2) rfl rfl⟩)
    simp only [Expr.mapSlots, hd.1, hb.1]
  | variadic span domain body =>
    obtain ⟨hdomain, hbody⟩ := h.tail_pair
    refine .inScope ((annotates_ptrn false hdomain).bind fun domain' =>
      (annotates_expr hbody).bind fun body' =>
      .pure fun hb hd => ⟨?_, .skip (hd.2.append hb.2) rfl rfl⟩)
    simp only [Expr.mapSlots, hd.1, hb.1]
  | qualifier span value => exact .pure ⟨rfl, .skip .nil rfl rfl⟩
  | bottom span => exact .pure ⟨rfl, .skip .nil rfl rfl⟩
  | unknown span => exact .pure ⟨rfl, .skip .nil rfl rfl⟩
  | error span => exact .pure ⟨rfl, .skip .nil rfl rfl⟩

theorem annotates_expr? {expr : Option Expr} (h : Node.Known k.known (Expr.nodesOf? expr)) :
    Annotates k (bindExpr? context expr) fun expr' =>
      Expr.mapSlots? Slot.reset id expr' = Expr.mapSlots? Slot.reset id expr ∧
        Node.Annotated k.known (Expr.nodesOf? expr) (Expr.nodesOf? expr') := by
  cases expr with
  | none => exact .pure ⟨rfl, .nil⟩
  | some expr =>
    exact (annotates_expr h).bind fun expr' => .pure fun he => ⟨congrArg some he.1, he.2⟩

theorem annotates_ptrn (covered : Bool) {ptrn : Ptrn} (h : Node.Known k.known ptrn.nodes) :
    Annotates k (bindPtrn context covered ptrn) fun ptrn' =>
      ptrn'.mapSlots Slot.reset id = ptrn.mapSlots Slot.reset id ∧
        Node.Annotated k.known ptrn.nodes ptrn'.nodes := by
  cases ptrn with
  | name span name decl ty typed =>
    have hname : k.known name.symbol decl := (Node.known_cons.1 h).1 _ _ rfl
    have hrest : ∀ ty', Annotates k
        (do declare context name.symbol decl; return Ptrn.name span name decl ty' typed)
        fun ptrn' => (Expr.mapSlots? Slot.reset id ty' = Expr.mapSlots? Slot.reset id ty ∧
            Node.Annotated k.known (Expr.nodesOf? ty) (Expr.nodesOf? ty')) →
          ptrn'.mapSlots Slot.reset id = (Ptrn.name span name decl ty typed).mapSlots Slot.reset id ∧
            Node.Annotated k.known (Ptrn.name span name decl ty typed).nodes ptrn'.nodes := by
      intro ty'
      refine (annotates_declare context hname).bind fun _ =>
        .pure fun _ ht => ⟨?_, .skip ht.2 rfl rfl⟩
      simp only [Ptrn.mapSlots, ht.1]
    refine (annotates_expr? h.tail).bind fun ty' => ?_
    split
    · exact (annotates_report _ _).bind fun _ => (hrest ty').mono fun _ hp _ => hp
    · exact hrest ty'
  | tuple span elems ty typed =>
    obtain ⟨hty, helems⟩ := h.tail_pair
    refine (annotates_expr? hty).bind fun ty' => (annotates_ptrns _ helems).bind fun elems' =>
      .pure fun he ht => ⟨?_, .skip (ht.2.append he.2) rfl rfl⟩
    simp only [Ptrn.mapSlots, ht.1, he.1]
  | error span => exact .pure ⟨rfl, .skip .nil rfl rfl⟩

theorem annotates_ptrns (covered : Bool) {ptrns : List Ptrn}
    (h : Node.Known k.known (Ptrn.nodesOf ptrns)) :
    Annotates k (bindPtrns context covered ptrns) fun ptrns' =>
      Ptrn.mapSlotsList Slot.reset id ptrns' = Ptrn.mapSlotsList Slot.reset id ptrns ∧
        Node.Annotated k.known (Ptrn.nodesOf ptrns) (Ptrn.nodesOf ptrns') := by
  cases ptrns with
  | nil => exact .pure ⟨rfl, .nil⟩
  | cons ptrn ptrns =>
    obtain ⟨hptrn, hptrns⟩ := Node.known_append.1 h
    refine (annotates_ptrn covered hptrn).bind fun ptrn' =>
      (annotates_ptrns covered hptrns).bind fun ptrns' => .pure fun hs hp => ⟨?_, hp.2.append hs.2⟩
    simp only [Ptrn.mapSlotsList, hp.1, hs.1]

theorem annotates_elems {elems : List Elem} (h : Node.Known k.known (Elem.nodesOf elems)) :
    Annotates k (bindElems context elems) fun elems' =>
      Elem.mapSlotsList Slot.reset id elems' = Elem.mapSlotsList Slot.reset id elems ∧
        Node.Annotated k.known (Elem.nodesOf elems) (Elem.nodesOf elems') := by
  cases elems with
  | nil => exact .pure ⟨rfl, .nil⟩
  | cons elem elems =>
    obtain ⟨name, expr⟩ := elem
    obtain ⟨hexpr, helems⟩ := Node.known_append.1 h
    refine (annotates_expr hexpr).bind fun expr' => (annotates_elems helems).bind fun elems' =>
      .pure fun hs he => ⟨?_, he.2.append hs.2⟩
    simp only [Elem.mapSlotsList, he.1, hs.1]

theorem annotates_arms {arms : List Arm} (h : Node.Known k.known (Arm.nodesOf arms)) :
    Annotates k (bindArms context arms) fun arms' =>
      Arm.mapSlotsList Slot.reset id arms' = Arm.mapSlotsList Slot.reset id arms ∧
        Node.Annotated k.known (Arm.nodesOf arms) (Arm.nodesOf arms') := by
  cases arms with
  | nil => exact .pure ⟨rfl, .nil⟩
  | cons arm arms =>
    obtain ⟨span, ptrn, body⟩ := arm
    obtain ⟨hfirst, harms⟩ := Node.known_append.1 h
    obtain ⟨hptrn, hbody⟩ := Node.known_append.1 hfirst
    have harm : Annotates k (inScope do
        let ptrn ← bindPtrn context false ptrn
        let body ← bindExpr context body
        return Arm.mk span ptrn body) fun arm' =>
          arm'.span = span ∧
          (arm'.ptrn.mapSlots Slot.reset id = ptrn.mapSlots Slot.reset id ∧
            Node.Annotated k.known ptrn.nodes arm'.ptrn.nodes) ∧
          (arm'.body.mapSlots Slot.reset id = body.mapSlots Slot.reset id ∧
            Node.Annotated k.known body.nodes arm'.body.nodes) :=
      .inScope ((annotates_ptrn false hptrn).bind fun ptrn' =>
        (annotates_expr hbody).bind fun body' => .pure fun hb hp => ⟨rfl, hp, hb⟩)
    refine harm.bind fun arm' => (annotates_arms harms).bind fun arms' => .pure ?_
    obtain ⟨span', ptrn', body'⟩ := arm'
    rintro hs ⟨rfl, hp, hb⟩
    refine ⟨?_, (hp.2.append hb.2).append hs.2⟩
    simp only [Arm.mapSlotsList, hp.1, hb.1, hs.1]

theorem annotates_stmnt {stmnt : Stmnt} (h : Node.Known k.known stmnt.nodes) :
    Annotates k (bindStmnt context stmnt) fun stmnt' =>
      stmnt'.mapSlots Slot.reset id = stmnt.mapSlots Slot.reset id ∧
        Node.Annotated k.known stmnt.nodes stmnt'.nodes := by
  cases stmnt with
  | expr span expr =>
    refine (annotates_expr h.tail).bind fun expr' => .pure fun he => ⟨?_, .skip he.2 rfl rfl⟩
    simp only [Stmnt.mapSlots, he.1]
  | bind span ptrn init =>
    obtain ⟨hptrn, hinit⟩ := h.tail_pair
    refine (annotates_expr hinit).bind fun init' => (annotates_ptrn false hptrn).bind fun ptrn' =>
      .pure fun hp hi => ⟨?_, .skip (hp.2.append hi.2) rfl rfl⟩
    simp only [Stmnt.mapSlots, hp.1, hi.1]
  | item it =>
    obtain ⟨span, name, expr, decl, value⟩ := it
    refine (annotates_expr h.tail.tail).bind fun expr' =>
      .pure fun he => ⟨?_, .skip (.skip he.2 rfl rfl) rfl rfl⟩
    simp only [Stmnt.mapSlots, he.1]

theorem annotates_stmnts {stmnts : List Stmnt} (h : Node.Known k.known (Stmnt.nodesOf stmnts)) :
    Annotates k (bindStmnts context stmnts) fun stmnts' =>
      Stmnt.mapSlotsList Slot.reset id stmnts' = Stmnt.mapSlotsList Slot.reset id stmnts ∧
        Node.Annotated k.known (Stmnt.nodesOf stmnts) (Stmnt.nodesOf stmnts') := by
  cases stmnts with
  | nil => exact .pure ⟨rfl, .nil⟩
  | cons stmnt stmnts =>
    obtain ⟨hstmnt, hstmnts⟩ := Node.known_append.1 h
    refine (annotates_stmnt hstmnt).bind fun stmnt' => (annotates_stmnts hstmnts).bind fun stmnts' =>
      .pure fun hs hst => ⟨?_, hst.2.append hs.2⟩
    simp only [Stmnt.mapSlotsList, hst.1, hs.1]

end

variable (context) in
theorem annotates_module {stmnts : List Stmnt} (h : Node.Known k.known (Stmnt.nodesOf stmnts)) :
    Annotates k (bindModule context stmnts) fun stmnts' =>
      Stmnt.mapSlotsList Slot.reset id stmnts' = Stmnt.mapSlotsList Slot.reset id stmnts ∧
        Node.Annotated k.known (Stmnt.nodesOf stmnts) (Stmnt.nodesOf stmnts') :=
  .inScope ((annotates_declareItems context h).bind fun _ =>
    (annotates_stmnts h).mono fun _ hs _ => hs)

end Binder

namespace Module

/-- Resolving the names of any module adds placeholders to its arena and fills the slots of its names,
and changes nothing else. -/
theorem resolveNames_annotates (module : Module) (names : Interner)
    {known : Symbol → DeclId → Prop}
    (hknown : ∀ decl entry, (module.resolveNames names).module.decls.get? decl = some entry →
      known entry.symbol decl)
    (h : Node.Known known module.walk) :
    let bound := (module.resolveNames names).module
    module.decls.Grows bound.decls ∧
      Stmnt.mapSlotsList Slot.reset id bound.stmnts =
        Stmnt.mapSlotsList Slot.reset id module.stmnts ∧
      Node.Annotated known module.walk bound.walk := by
  intro bound
  let k : Binder.Knowledge := ⟨bound.decls, known, hknown⟩
  have hrun := Binder.annotates_module (k := k)
    ⟨(names.intern Interner.wildcard).2, (names.intern Interner.wildcard).1, module.bound⟩ h
  obtain ⟨hgrows, hstep⟩ := hrun ⟨[], module.decls, #[]⟩
  have hnone : Binder.Scopes.Known known [] := fun scope hscope => by cases hscope
  exact ⟨hgrows, (hstep (.refl _) hnone).2⟩

section

variable (module : Module) (names : Interner)

theorem grows_resolveNames : module.decls.Grows (module.resolveNames names).module.decls :=
  (module.resolveNames_annotates names (fun _ _ _ => trivial) fun _ _ _ _ _ => trivial).1

theorem mapSlots_resolveNames :
    Stmnt.mapSlotsList Slot.reset id (module.resolveNames names).module.stmnts =
      Stmnt.mapSlotsList Slot.reset id module.stmnts :=
  (module.resolveNames_annotates names (fun _ _ _ => trivial) fun _ _ _ _ _ => trivial).2.1

/-- Every name has been resolved behind a pass, and keeps what it had before. -/
theorem annotated_resolveNames :
    Node.Annotated (fun _ _ => True) module.walk (module.resolveNames names).module.walk :=
  (module.resolveNames_annotates names (fun _ _ _ => trivial) fun _ _ _ _ _ => trivial).2.2

end

/-- Nothing has been resolved in a tree that has just been read. -/
theorem Unresolved.slot_eq {module : Module} (h : module.Unresolved) {span : Span} {name : Id}
    {slot : Slot DeclId} (hmem : .expr (.name span name slot) ∈ module.walk) : slot = .unset := by
  have hwalk : module.walk.map (Node.mapSlots Slot.reset id) = module.walk := by
    rw [walk, ← Stmnt.nodesOf_mapSlotsList, h]
  have hnode : Node.mapSlots Slot.reset id (.expr (.name span name slot)) =
      .expr (.name span name slot) := List.map_inj_left.1 (hwalk.trans (List.map_id _).symm) _ hmem
  simp only [Node.mapSlots, Expr.mapSlots, Slot.reset, Node.expr.injEq, Expr.name.injEq] at hnode
  exact hnode.2.2.symm

/-- Whatever is wrong with a source, the identifier patterns and the items of its tree stand one to
one for the declarations of its arena, each for the entry with its name, its place and its kind.
Resolving its names adds nothing but placeholders behind them, and gives every use of a name a
declaration of that name. -/
theorem declarations_one_to_one (c : Compiler) (name source : String) (names : Interner) :
    let parsed := (c.parseSource name source).1
    let bound := (parsed.resolveNames names).module
    let introduced := parsed.walk.filterMap Node.introduces
    (introduced.map Prod.fst).Perm ((List.range parsed.decls.size).map DeclId.mk) ∧
      (∀ decl entry, (decl, entry) ∈ introduced → parsed.decls.get? decl = some entry) ∧
      (∃ missing : List Decl, bound.decls.toList = parsed.decls.toList ++ missing ∧
        ∀ decl ∈ missing, decl.kind = .error) ∧
      ∀ span id slot, .expr (.name span id slot) ∈ bound.walk →
        ∃ decl entry, slot.get? = some decl ∧ bound.decls.get? decl = some entry ∧
          entry.symbol = id.symbol := by
  intro parsed bound introduced
  have hperm : introduced.Perm parsed.decls.entries := by
    simp only [introduced, parsed, Compiler.result_parseSource]
    exact Module.parse_introduces ..
  have hentry : ∀ decl entry, (decl, entry) ∈ introduced → parsed.decls.get? decl = some entry :=
    fun decl entry hmem => Decls.mem_entries.1 (hperm.subset hmem)
  have hgrows : parsed.decls.Grows bound.decls := parsed.grows_resolveNames names
  refine ⟨?_, hentry, hgrows, ?_⟩
  · rw [← Decls.map_fst_entries]
    exact hperm.map Prod.fst
  let named : Symbol → DeclId → Prop := fun name decl =>
    ∃ entry, bound.decls.get? decl = some entry ∧ entry.symbol = name
  have hunresolved : parsed.Unresolved := c.unresolved_parseSource name source
  have hknown : Node.Known named parsed.walk := by
    intro node hnode name decl hrefers
    rcases Node.refers?_cases hrefers with ⟨entry, hintro, rfl⟩ | ⟨span, id, slot, rfl, hslot⟩
    · have hmem : (decl, entry) ∈ introduced := List.mem_filterMap.2 ⟨node, hnode, hintro⟩
      exact ⟨entry, hgrows.get? (hentry decl entry hmem), rfl⟩
    · rw [hunresolved.slot_eq hnode] at hslot
      cases hslot
  have hannotated : Node.Annotated named parsed.walk bound.walk :=
    (parsed.resolveNames_annotates names (fun decl entry hget => ⟨entry, hget, rfl⟩) hknown).2.2
  intro span id slot hmem
  obtain ⟨decl, hslot, entry, hget, hsymbol⟩ := hannotated.resolved hmem
  exact ⟨decl, entry, hslot, hget, hsymbol⟩

end Module

end ImpLang
