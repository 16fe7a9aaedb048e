import ImpLang.Ir.Wrapper
import ImpLang.Proofs.Passes

/-!
Emitted code defines its values before it uses them. A builder hands out the next number, bindings
lead to numbers that have been handed out, and emission makes requests with such numbers only; so
whatever it comes to, every line refers to lines in front of it.
-/

namespace ImpLang

/-! ## Listings in order -/

namespace Value

/-- The number of a value is no greater than the number of values in front of it. -/
theorem index_ofNat_le (n : Nat) : (ofNat n).index.toNat ≤ n :=
  UInt32.toNat_ofNat'.trans_le (Nat.mod_le ..)

theorem ofNat_eq_iff {m n : Nat} : ofNat m = ofNat n ↔ m % 2 ^ 32 = n % 2 ^ 32 := by
  rw [ofNat, ofNat, Value.mk.injEq, ← UInt32.toNat_inj, UInt32.toNat_ofNat', UInt32.toNat_ofNat']

theorem ofNat_toNat_index (value : Value) : ofNat value.index.toNat = value := by
  rw [ofNat, UInt32.ofNat_toNat]

theorem index_lt (value : Value) : value.index.toNat < 2 ^ 32 := value.index.toNat_lt

end Value

namespace Listing

/-- A value whose number is that of a line. -/
def Has (listing : Listing) (value : Value) : Prop := value.index.toNat < listing.entries.size

/-- Every line has its number. From one of them on lines use values with smaller numbers, and
declarations have values that are the numbers of lines. -/
structure Ordered (start : Nat) (listing : Listing) : Prop where
  numbered : ∀ (n : Nat) (line : Line), listing.entries[n]? = some line → line.value = .ofNat n
  uses : ∀ (n : Nat) (line : Line), start ≤ n → listing.entries[n]? = some line →
    ∀ value ∈ line.definition.uses, value.index.toNat < n
  bindings : ∀ binding ∈ listing.bindings, listing.Has binding.2

/-- A listing and the same one with more lines behind it. -/
def Grows (listing later : Listing) : Prop :=
  listing.entries.toList <+: later.entries.toList

namespace Grows

variable {a b c : Listing}

theorem refl (a : Listing) : a.Grows a := List.prefix_refl _

theorem trans (h : a.Grows b) (h' : b.Grows c) : a.Grows c := List.IsPrefix.trans h h'

theorem has (h : a.Grows b) {value : Value} (hvalue : a.Has value) : b.Has value := by
  have hsize := List.IsPrefix.length_le h
  simp only [Array.length_toList] at hsize
  exact Nat.lt_of_lt_of_le hvalue hsize

end Grows

variable {start : Nat} {listing : Listing}

theorem grows_push (listing : Listing) (definition : Definition) :
    listing.Grows (listing.push definition).2 := by
  simp [Grows, push]

/-- The value of a new line is the number of one. -/
theorem has_push (listing : Listing) (definition : Definition) :
    (listing.push definition).2.Has (listing.push definition).1 := by
  rw [Has, size_entries_push]
  exact Nat.lt_succ_of_le (Value.index_ofNat_le _)

theorem ordered_empty (start : Nat) : empty.Ordered start where
  numbered n line hn := by simp [empty] at hn
  uses n line _ hn := by simp [empty] at hn
  bindings binding hbinding := by simp [empty] at hbinding

theorem getElem?_entries_push {definition : Definition} {n : Nat} {line : Line}
    (h : (listing.push definition).2.entries[n]? = some line) :
    listing.entries[n]? = some line ∨
      n = listing.entries.size ∧ line = ⟨.ofNat listing.entries.size, definition⟩ := by
  simp only [push, Array.getElem?_push] at h
  split at h
  · next hlast => exact .inr ⟨hlast, (Option.some.inj h).symm⟩
  · exact .inl h

/-- A line that uses the numbers of lines may be written. -/
theorem Ordered.push (h : listing.Ordered start) {definition : Definition}
    (huses : ∀ value ∈ definition.uses, listing.Has value) :
    (listing.push definition).2.Ordered start where
  numbered n line hline := by
    rcases getElem?_entries_push hline with hline | ⟨rfl, rfl⟩
    · exact h.numbered n line hline
    · rfl
  uses n line hn hline := by
    rcases getElem?_entries_push hline with hline | ⟨rfl, rfl⟩
    · exact h.uses n line hn hline
    · exact huses
  bindings binding hbinding := (grows_push listing definition).has (h.bindings binding hbinding)

theorem Ordered.bind (h : listing.Ordered start) (decl : DeclId) {value : Value}
    (hvalue : listing.Has value) : (Builder.bind decl value listing).Ordered start where
  numbered := h.numbered
  uses := h.uses
  bindings := by
    intro binding hbinding
    rcases List.mem_cons.1 hbinding with rfl | hbinding
    · exact hvalue
    · exact h.bindings binding hbinding

theorem Ordered.pad (h : listing.Ordered start) (n : Nat) : (Builder.pad n listing).Ordered start := by
  induction n generalizing listing with
  | zero => exact h
  | succ n ih =>
    have hparam : ∀ value ∈ (Definition.param none).uses, listing.Has value := List.forall_mem_nil _
    exact ih (h.push hparam)

end Listing

/-! ## Lines -/

namespace Value

theorem toList_toString (value : Value) :
    (toString value).toList = '%' :: Nat.toDigits 10 value.index.toNat := by
  change ("%" ++ Nat.repr value.index.toNat).toList = _
  simp [Nat.repr]

/-- The digits of a number end where a space stands. -/
theorem takeWhile_toDigits (n : Nat) (behind : List Char) :
    (Nat.toDigits 10 n ++ ' ' :: behind).takeWhile Char.isDigit = Nat.toDigits 10 n := by
  rw [List.takeWhile_append_of_pos fun c hc => Nat.isDigit_of_mem_toDigits (by decide) (by decide) hc,
    List.takeWhile_cons_of_neg (by decide), List.append_nil]

end Value

/-- A line begins with the value that it defines, and with no other one. -/
theorem Line.prefix_text_iff (names : Interner) (line : Line) (value : Value) :
    (toString value ++ " = ").toList <+: (line.text names).toList ↔ value = line.value := by
  have hline : (line.text names).toList = '%' :: (Nat.toDigits 10 line.value.index.toNat ++
      ' ' :: '=' :: ' ' :: (line.definition.text names).toList) := by
    simp [text, String.toList_append, Value.toList_toString]
  have hvalue : (toString value ++ " = ").toList =
      '%' :: (Nat.toDigits 10 value.index.toNat ++ [' ', '=', ' ']) := by
    simp [String.toList_append, Value.toList_toString]
  rw [hline, hvalue, List.cons_prefix_cons]
  constructor
  · rintro ⟨-, behind, hsame⟩
    have hdigits := congrArg (List.takeWhile Char.isDigit) hsame
    rw [List.append_assoc, List.cons_append, Value.takeWhile_toDigits, Value.takeWhile_toDigits]
      at hdigits
    have hindex := congrArg (Nat.ofDigitChars 10 · 0) hdigits
    simp only [Nat.ofDigitChars_ten_toDigits] at hindex
    rw [← value.ofNat_toNat_index, ← line.value.ofNat_toNat_index, hindex]
  · rintro rfl
    exact ⟨rfl, (line.definition.text names).toList, by simp⟩

namespace Listing

variable (names : Interner)

/-- A line that begins as the definition of a value. -/
def Defines (listing : Listing) (names : Interner) (n : Nat) (value : Value) : Prop :=
  ∃ text, (listing.lines names)[n]? = some text ∧ (toString value ++ " = ").toList <+: text.toList

/-- A line defines the value of its number, so a number comes again behind 2 ^ 32 lines and not
before. -/
theorem Ordered.defines_iff {start : Nat} {listing : Listing} (h : listing.Ordered start) (n : Nat)
    (value : Value) :
    listing.Defines names n value ↔ n % 2 ^ 32 = value.index.toNat ∧ n < listing.entries.size := by
  have hvalue : value = .ofNat n ↔ n % 2 ^ 32 = value.index.toNat := by
    conv_lhs => rw [← value.ofNat_toNat_index, Value.ofNat_eq_iff, Nat.mod_eq_of_lt value.index_lt]
    exact eq_comm
  simp only [Defines, lines, List.getElem?_map, Array.getElem?_toList, Option.map_eq_some_iff]
  constructor
  · rintro ⟨_, ⟨line, hline, rfl⟩, hprefix⟩
    have hnumber := (line.prefix_text_iff names value).1 hprefix
    rw [h.numbered n line hline] at hnumber
    exact ⟨hvalue.1 hnumber, (Array.getElem?_eq_some_iff.1 hline).1⟩
  · rintro ⟨hnumber, hn⟩
    have hline := Array.getElem?_eq_getElem hn
    refine ⟨_, ⟨_, hline, rfl⟩, (Line.prefix_text_iff names _ _).2 ?_⟩
    rw [h.numbered n _ hline]
    exact hvalue.2 hnumber

/-- While there are numbers left a value has one line, that of its number. -/
theorem Ordered.defines_once {start : Nat} {listing : Listing} (h : listing.Ordered start)
    (hsize : listing.entries.size ≤ 2 ^ 32) (n : Nat) (value : Value) :
    listing.Defines names n value ↔ n = value.index.toNat ∧ listing.Has value := by
  rw [h.defines_iff, Has]
  constructor
  · rintro ⟨hnumber, hn⟩
    rw [Nat.mod_eq_of_lt (Nat.lt_of_lt_of_le hn hsize)] at hnumber
    exact ⟨hnumber, hnumber ▸ hn⟩
  · rintro ⟨rfl, hhas⟩
    exact ⟨Nat.mod_eq_of_lt value.index_lt, hhas⟩

end Listing

/-! ## Builders that write listings -/

/-- A builder that makes its values in a listing. Its look-ups may find less than is bound there. -/
structure Builder.View (σ : Type) [Builder σ] where
  listing : σ → Listing
  error : ∀ span b, (Builder.error span b).map id listing = (listing b).push .error
  literal : ∀ span value b,
    (Builder.literal span value b).map id listing = (listing b).push (.literal value)
  param : ∀ span ty b, (Builder.param span ty b).map id listing = (listing b).push (.param ty)
  build : ∀ span op operands b,
    (Builder.build span op operands b).map id listing = (listing b).push (.operation op operands)
  bind : ∀ decl value b, listing (Builder.bind decl value b) = Builder.bind decl value (listing b)
  lookup : ∀ decl b, listing (Builder.lookup decl b).2 = listing b ∧
    ∀ value, (Builder.lookup decl b).1 = some value → (decl, value) ∈ (listing b).bindings

/-- A listing itself. -/
def Listing.view : Builder.View Listing where
  listing := id
  error _ _ := rfl
  literal _ _ _ := rfl
  param _ _ _ := rfl
  build _ _ _ _ := rfl
  bind _ _ _ := rfl
  lookup _ _ := ⟨rfl, fun _ hvalue => mem_of_lookup hvalue⟩

/-- Around a builder whose look-ups are answered there may be one whose look-ups are not. -/
def Blind.view {σ : Type} [Builder σ] (V : Builder.View σ) : Builder.View (Blind σ) where
  listing b := V.listing b.inner
  error span b := V.error span b.inner
  literal span value b := V.literal span value b.inner
  param span ty b := V.param span ty b.inner
  build span op operands b := V.build span op operands b.inner
  bind decl value b := V.bind decl value b.inner
  lookup _ _ := ⟨rfl, fun _ hvalue => nomatch hvalue⟩

/-! ## Runs -/

/-- A listing in order, and items with values that are in it. -/
structure EmitState.Ordered {σ : Type} [Builder σ] (V : Builder.View σ) (start : Nat)
    (s : EmitState σ) : Prop where
  listing : (V.listing s.builder).Ordered start
  written : ∀ entry ∈ s.written, (V.listing s.builder).Has entry.2

namespace Emitter

variable {σ : Type} [Builder σ] (V : Builder.View σ) (start : Nat)

/-- A step that needs some values and gives others. It keeps the order if those that it needs are
defined, and then those that it gives are defined as well. -/
def Orders {α : Type} (gives : α → List Value) (needs : List Value) (m : Emitter σ α) : Prop :=
  ∀ s r t, m.run.run s = (r, t) → s.Ordered V start →
    (∀ value ∈ needs, (V.listing s.builder).Has value) →
    t.Ordered V start ∧ (V.listing s.builder).Grows (V.listing t.builder) ∧
      ∀ a, r = .ok a → ∀ value ∈ gives a, (V.listing t.builder).Has value

variable {V start} {needs : List Value}

namespace Orders

variable {α β : Type} {gives : α → List Value} {givesNext : β → List Value}

theorem pure {a : α} (h : gives a ⊆ needs) : Orders V start gives needs (Pure.pure a) := by
  intro s r t hrun hs hneeds
  cases hrun
  refine ⟨hs, .refl _, ?_⟩
  rintro _ ⟨⟩ value hvalue
  exact hneeds value (h hvalue)

/-- What a step gives may be used behind it, and what could be used before it still may. -/
theorem bind {m : Emitter σ α} {f : α → Emitter σ β} (hm : Orders V start gives needs m)
    (hf : ∀ a, Orders V start givesNext (gives a ++ needs) (f a)) :
    Orders V start givesNext needs (m >>= f) := by
  intro s r u hrun hs hneeds
  rw [ExceptT.run_bind, StateT.run_bind] at hrun
  cases hfirst : m.run.run s with
  | mk q t =>
    obtain ⟨ht, hgrows, hgives⟩ := hm s q t hfirst hs hneeds
    rw [hfirst] at hrun
    cases q with
    | error e =>
      cases hrun
      exact ⟨ht, hgrows, fun b hb => nomatch hb⟩
    | ok a =>
      have hknown : ∀ value ∈ gives a ++ needs, (V.listing t.builder).Has value := by
        intro value hvalue
        rcases List.mem_append.1 hvalue with hvalue | hvalue
        · exact hgives a rfl value hvalue
        · exact hgrows.has (hneeds value hvalue)
      obtain ⟨hu, hgrows', hgives'⟩ := hf a t r u hrun ht hknown
      exact ⟨hu, hgrows.trans hgrows', hgives'⟩

end Orders

theorem orders_ask {α : Type} {gives : α → List Value} {request : σ → α × σ}
    (h : ∀ b, (V.listing b).Ordered start → (∀ value ∈ needs, (V.listing b).Has value) →
      (V.listing (request b).2).Ordered start ∧ (V.listing b).Grows (V.listing (request b).2) ∧
        ∀ value ∈ gives (request b).1, (V.listing (request b).2).Has value) :
    Orders V start gives needs (ask request) := by
  intro s r t hrun hs hneeds
  cases hrun
  obtain ⟨hordered, hgrows, hgives⟩ := h s.builder hs.listing hneeds
  refine ⟨⟨hordered, fun entry hentry => hgrows.has (hs.written entry hentry)⟩, hgrows, ?_⟩
  rintro _ ⟨⟩
  exact hgives

/-- A request for a new value adds its definition. -/
theorem orders_push {request : σ → Value × σ} {definition : Definition}
    (hrequest : ∀ b, (request b).map id V.listing = (V.listing b).push definition)
    (huses : definition.uses ⊆ needs) :
    Orders V start (fun value => [value]) needs (ask request) := by
  refine orders_ask fun b hb hneeds => ?_
  have hvalue : (request b).1 = ((V.listing b).push definition).1 :=
    congrArg Prod.fst (hrequest b)
  have hlisting : V.listing (request b).2 = ((V.listing b).push definition).2 :=
    congrArg Prod.snd (hrequest b)
  rw [hlisting, hvalue]
  refine ⟨hb.push fun value hvalue => hneeds value (huses hvalue), Listing.grows_push _ _, ?_⟩
  exact List.forall_mem_singleton.2 (Listing.has_push _ _)

theorem orders_error (span : Span) :
    Orders V start (fun value => [value]) needs (error span) :=
  orders_push (V.error span) (List.nil_subset _)

theorem orders_literal (span : Span) (value : Literal Symbol) :
    Orders V start (fun value => [value]) needs (ask (Builder.literal span value)) :=
  orders_push (V.literal span value) (List.nil_subset _)

theorem orders_param (span : Span) {ty : Option Value} (h : ty.toList ⊆ needs) :
    Orders V start (fun value => [value]) needs (ask (Builder.param span ty)) :=
  orders_push (V.param span ty) h

theorem orders_build (span : Span) (op : Op) {operands : List Value} (h : operands ⊆ needs) :
    Orders V start (fun value => [value]) needs (build span op operands) :=
  orders_push (V.build span op operands) h

theorem orders_bind (decl : DeclId) {value : Value} (h : value ∈ needs) :
    Orders V start (fun _ => []) needs (bind decl value) := by
  refine orders_ask fun b hb hneeds => ?_
  rw [V.bind]
  exact ⟨hb.bind decl (hneeds value h), .refl _, List.forall_mem_nil _⟩

/-- What is found is bound. -/
theorem orders_lookup (decl : DeclId) :
    Orders V start Option.toList needs (ask (Builder.lookup decl)) := by
  refine orders_ask fun b hb _ => ?_
  obtain ⟨hlisting, hfound⟩ := V.lookup decl b
  rw [hlisting]
  exact ⟨hb, .refl _, fun value hvalue => hb.bindings _ (hfound value (Option.mem_toList.1 hvalue))⟩

/-- A name has the value that it is bound to, if that is found, and otherwise a new one. -/
theorem orders_use (decls : Decls) (span : Span) (slot : Slot DeclId) :
    Orders V start (fun value => [value]) needs (use decls span slot) := by
  rw [use]
  split
  · next decl _ =>
    split
    · exact orders_error span
    · refine (orders_lookup decl).bind fun answer => ?_
      cases answer with
      | some value => exact .pure (by simp)
      | none => exact orders_error span
  · exact orders_error span

/-- The value goes to the item, or nowhere if its slot refuses it. -/
theorem orders_write (decl : DeclId) (slot : Slot Value) {value : Value} (h : value ∈ needs) :
    Orders V start (fun _ => []) needs (write decl slot value) := by
  intro s r t hrun hs hneeds
  rw [write] at hrun
  cases hset : slot.set value with
  | ok next =>
    rw [hset] at hrun
    cases hrun
    refine ⟨⟨hs.listing, fun entry hentry => ?_⟩, .refl _, fun _ _ => List.forall_mem_nil _⟩
    rcases Array.mem_push.1 hentry with hentry | rfl
    · exact hs.written entry hentry
    · exact hneeds value h
  | error e =>
    rw [hset] at hrun
    cases hrun
    exact ⟨hs, .refl _, fun _ _ => List.forall_mem_nil _⟩

mutual

theorem orders_destructure (ptrn : Ptrn) {value : Value} {needs : List Value} (h : value ∈ needs) :
    Orders V start (fun _ => []) needs (destructure ptrn value) := by
  cases ptrn with
  | name span id decl ty typed => exact orders_bind decl h
  | tuple span elems ty typed => exact orders_extract 0 elems h
  | error span => exact .pure (List.nil_subset _)

theorem orders_extract (index : Nat) (elems : List Ptrn) {value : Value} {needs : List Value}
    (h : value ∈ needs) : Orders V start (fun _ => []) needs (extract index elems value) := by
  cases elems with
  | nil => exact .pure (List.nil_subset _)
  | cons elem elems =>
    exact (orders_build elem.span (.extract index) (by simpa using h)).bind fun part =>
      (orders_destructure elem (by simp)).bind fun _ =>
        orders_extract (index + 1) elems (by simp [h])

end

theorem orders_placeholders (stmnts : List Stmnt) (needs : List Value) :
    Orders V start (fun _ => []) needs (placeholders stmnts) := by
  induction stmnts generalizing needs with
  | nil => exact .pure (List.nil_subset _)
  | cons stmnt stmnts ih =>
    cases stmnt with
    | expr span expr => exact ih needs
    | bind span ptrn init => exact ih needs
    | item it =>
      exact (orders_param it.span (List.nil_subset _)).bind fun value =>
        (orders_bind it.decl (by simp)).bind fun _ => ih _

theorem orders_parameter (ptrn : Ptrn) {ty : Option Value} (h : ty.toList ⊆ needs) :
    Orders V start (fun value => [value]) needs (parameter ptrn ty) :=
  (orders_param ptrn.span h).bind fun value =>
    (orders_destructure ptrn (by simp)).bind fun _ => .pure (by simp)

variable (decls : Decls)

mutual

/-- Emission keeps the order and gives values that are defined, whatever is wrong with the tree. -/
theorem orders_expr (expr : Expr) (needs : List Value) :
    Orders V start (fun value => [value]) needs (emitExpr decls expr) := by
  cases expr <;> simp only [emitExpr]
  case name span id slot => exact orders_use decls span slot
  case literal span value => exact orders_literal span value
  case tuple span elems =>
    exact (orders_elems elems needs).bind fun values => orders_build span .tuple (by simp)
  case sigma span elems =>
    exact (orders_params elems needs).bind fun values => orders_build span .sigma (by simp)
  case pi span domain codomain =>
    exact (orders_emitParam domain needs).bind fun d => (orders_expr codomain _).bind fun c =>
      orders_build span .pi (by simp)
  case lambda span domain codomain body =>
    exact (orders_emitParam domain needs).bind fun d => (orders_expr codomain _).bind fun c =>
      (orders_expr body _).bind fun b => orders_build span .lambda (by simp)
  case app span callee arg cps =>
    exact (orders_expr callee needs).bind fun f => (orders_expr arg _).bind fun a =>
      orders_build span (.app cps) (by simp)
  case field span value id =>
    exact (orders_expr value needs).bind fun v => orders_build span (.field id.symbol) (by simp)
  case prefixed span op operand =>
    exact (orders_expr operand needs).bind fun v => orders_build span (.prefixed op) (by simp)
  case postfixed span operand op =>
    exact (orders_expr operand needs).bind fun v => orders_build span (.postfixed op) (by simp)
  case binary span left op right =>
    exact (orders_expr left needs).bind fun l => (orders_expr right _).bind fun r =>
      orders_build span (.binary op) (by simp)
  case block span stmnts value =>
    exact (orders_placeholders stmnts needs).bind fun _ => (orders_stmnts stmnts _).bind fun values =>
      (orders_expr value _).bind fun v => orders_build span .block (by simp)
  case branch span cond yes no =>
    exact (orders_expr cond needs).bind fun c => (orders_expr yes _).bind fun y =>
      (orders_expr no _).bind fun n => orders_build span .branch (by simp)
  case select span scrutinee arms =>
    exact (orders_expr scrutinee needs).bind fun v => (orders_arms arms (by simp)).bind fun values =>
      orders_build span .select (by simp)
  case forLoop span ptrn iter body =>
    exact (orders_expr iter needs).bind fun i => (orders_emitParam ptrn _).bind fun p =>
      (orders_expr body _).bind fun b => orders_build span .forLoop (by simp)
  case whileLoop span cond body =>
    exact (orders_expr cond needs).bind fun c => (orders_expr body _).bind fun b =>
      orders_build span .whileLoop (by simp)
  case pack span domain body =>
    exact (orders_emitParam domain needs).bind fun d => (orders_expr body _).bind fun b =>
      orders_build span .pack (by simp)
  case variadic span domain body =>
    exact (orders_emitParam domain needs).bind fun d => (orders_expr body _).bind fun b =>
      orders_build span .variadic (by simp)
  case qualifier span value => exact orders_build span (.qualifier value) (List.nil_subset _)
  case bottom span => exact orders_build span .bottom (List.nil_subset _)
  case unknown span => exact orders_build span .unknown (List.nil_subset _)
  case error span => exact orders_error span

theorem orders_expr? (expr : Option Expr) (needs : List Value) :
    Orders V start Option.toList needs (emitExpr? decls expr) := by
  cases expr with
  | none => exact .pure (List.nil_subset _)
  | some expr => exact (orders_expr expr needs).bind fun value => .pure (by simp)

theorem orders_emitParam (ptrn : Ptrn) (needs : List Value) :
    Orders V start (fun value => [value]) needs (emitParam decls ptrn) := by
  cases ptrn with
  | name span id decl ty typed =>
    exact (orders_expr? ty needs).bind fun value => orders_parameter _ (by simp)
  | tuple span elems ty typed =>
    exact (orders_expr? ty needs).bind fun value => orders_parameter _ (by simp)
  | error span => exact orders_parameter _ (List.nil_subset _)

theorem orders_params (ptrns : List Ptrn) (needs : List Value) :
    Orders V start id needs (emitParams decls ptrns) := by
  cases ptrns with
  | nil => exact .pure (List.nil_subset _)
  | cons ptrn ptrns =>
    exact (orders_emitParam ptrn needs).bind fun value => (orders_params ptrns _).bind fun values =>
      .pure (by simp)

theorem orders_elems (elems : List Elem) (needs : List Value) :
    Orders V start id needs (emitElems decls elems) := by
  match elems with
  | [] => exact .pure (List.nil_subset _)
  | ⟨name, expr⟩ :: elems =>
    exact (orders_expr expr needs).bind fun value => (orders_elems elems _).bind fun values =>
      .pure (by simp)

/-- The value that is taken apart has to be defined. -/
theorem orders_arms (arms : List Arm) {scrutinee : Value} {needs : List Value}
    (h : scrutinee ∈ needs) : Orders V start id needs (emitArms decls scrutinee arms) := by
  match arms with
  | [] => exact .pure (List.nil_subset _)
  | ⟨span, ptrn, body⟩ :: arms =>
    exact (orders_destructure ptrn h).bind fun _ => (orders_expr body _).bind fun value =>
      (orders_arms arms (by simp [h])).bind fun values => .pure (by simp)

theorem orders_stmnt (stmnt : Stmnt) (needs : List Value) :
    Orders V start (fun value => [value]) needs (emitStmnt decls stmnt) := by
  match stmnt with
  | .expr span expr => exact orders_expr expr needs
  | .bind span ptrn init =>
    exact (orders_expr init needs).bind fun value =>
      (orders_destructure ptrn (by simp)).bind fun _ => .pure (by simp)
  | .item ⟨span, name, expr, decl, slot⟩ =>
    exact (orders_expr expr needs).bind fun value => (orders_bind decl (by simp)).bind fun _ =>
      (orders_write decl slot (by simp)).bind fun _ => .pure (by simp)

theorem orders_stmnts (stmnts : List Stmnt) (needs : List Value) :
    Orders V start id needs (emitStmnts decls stmnts) := by
  cases stmnts with
  | nil => exact .pure (List.nil_subset _)
  | cons stmnt stmnts =>
    exact (orders_stmnt stmnt needs).bind fun value => (orders_stmnts stmnts _).bind fun values =>
      .pure (by simp)

end

theorem orders_module (stmnts : List Stmnt) :
    Orders V start id [] (emitModule decls stmnts) :=
  (orders_placeholders stmnts []).bind fun _ => orders_stmnts decls stmnts _

end Emitter

/-! ## Modules -/

/-- An emission that has come between two states of a listing. It succeeds, its values and those of
the items are the numbers of lines, the lines that were there stay, and from one of them on every line
refers to numbers smaller than its own. -/
structure Emitted.InOrder {σ : Type} (start : Nat) (before after : Listing) (emitted : Emitted σ) :
    Prop where
  values : ∃ values, emitted.values = .ok values ∧ ∀ value ∈ values, after.Has value
  stored : ∀ it, .item it ∈ emitted.module.walk → ∀ value, it.value.get? = some value →
    after.Has value
  grows : before.Grows after
  ordered : after.Ordered start
  /-- A value is defined by the line of its number, and by lines behind it that have the same number
  in 32 bits. -/
  lines : ∀ names n value, after.Defines names n value ↔
    n % 2 ^ 32 = value.index.toNat ∧ n < after.entries.size
  /-- As long as numbers do not come again no other line defines it. -/
  once : after.entries.size ≤ 2 ^ 32 → ∀ names n value, after.Defines names n value ↔
    n = value.index.toNat ∧ after.Has value

/-- Nothing but an emission gives values to items. -/
def Pass.isEmit : Pass → Bool
  | emit _ => true
  | resolve _ | swap .. | remove _ | setBound _ | copy => false

namespace Module

variable {module : Module}

theorem unset_run (h : module.Unset) {passes : List Pass}
    (hpasses : ∀ pass ∈ passes, pass.isEmit = false) : (module.run passes).Unset := by
  induction passes generalizing module with
  | nil => exact h
  | cons pass passes ih =>
    obtain ⟨hpass, hrest⟩ := List.forall_mem_cons.1 hpasses
    refine ih ?_ hrest
    cases pass with
    | resolve names => exact h.resolveNames names
    | emit b => cases hpass
    | swap i j => exact Unset.subset (fun stmnt => Pass.mem_of_mem_swap) h
    | remove i => exact Unset.subset (fun stmnt => Pass.mem_of_mem_remove) h
    | setBound bound => exact h
    | copy => exact h

/-- The first emission of a module, into any builder that writes a listing. -/
theorem emitted_inOrder {σ : Type} [Builder σ] (V : Builder.View σ) (hdistinct : module.Distinct)
    (hmodule : module.Unset) {start : Nat} {b : σ} (hb : (V.listing b).Ordered start) :
    (module.emit b).InOrder start (V.listing b) (V.listing (module.emit b).builder) := by
  obtain ⟨⟨values, hvalues⟩, -⟩ := (module.emit_writes b True fun _ => hmodule).2 trivial
  cases hrun : module.journal b with
  | mk r t =>
    have hstart : EmitState.Ordered V start ⟨b, #[]⟩ := ⟨hb, by simp⟩
    obtain ⟨ht, hgrows, hgives⟩ := Emitter.orders_module module.decls module.stmnts _ r t hrun hstart
      (List.forall_mem_nil _)
    have hbuilder : (module.emit b).builder = t.builder := by rw [emit_builder, hrun]
    have hanswer : (module.emit b).values = r := by rw [emit_values, hrun]
    rw [hbuilder]
    refine ⟨⟨values, hvalues, hgives values (hanswer ▸ hvalues)⟩, ?_, hgrows, ht.listing,
      fun names => ht.listing.defines_iff names, fun hsize names => ht.listing.defines_once names hsize⟩
    intro it hit value hvalue
    have hfound := module.emit_stored b hdistinct hmodule hit hvalue
    rw [emitValues, hrun] at hfound
    exact ht.written (it.decl, value) (Array.mem_toList_iff.1 (mem_of_lookup hfound))

end Module

end ImpLang
