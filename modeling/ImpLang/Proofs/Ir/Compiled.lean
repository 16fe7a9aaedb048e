import ImpLang.Proofs.Ir.Tracing
import ImpLang.Proofs.Ir.Writing
import ImpLang.Proofs.Parser.Faultless
import ImpLang.Proofs.Parser.Source
import ImpLang.Proofs.Scope.Resolution

/-!
Emission of what compiles without errors. The readers before it leave a tree without error nodes,
with a declaration for every use and without values in its items, and lexical scoping does the rest.
-/

namespace ImpLang

/-- Resolving the names of a module without a report makes it ready for emission, if it has no error
nodes, no placeholders for declarations and no values. -/
theorem Node.ready_of_mapSlots {decls : Decls} {stmnts bound : List Stmnt}
    (hsame : Stmnt.mapSlotsList Slot.reset id bound = stmnts)
    (hfaultless : Faultless (Stmnt.nodesOf stmnts))
    (hreset : Stmnt.mapSlotsList id Slot.reset stmnts = stmnts)
    (hdecls : ∀ id, decls.isError id = false) : ∀ node ∈ Stmnt.nodesOf bound, node.Ready decls := by
  intro node hnode
  have hmem : node.mapSlots Slot.reset id ∈ Stmnt.nodesOf stmnts := by
    rw [← hsame, Stmnt.nodesOf_mapSlotsList]
    exact List.mem_map_of_mem hnode
  have hnodes := (Stmnt.nodesOf_mapSlotsList id Slot.reset stmnts).symm
  rw [hreset] at hnodes
  refine ⟨?_, fun _ _ _ decl _ _ => hdecls decl, fun item hitem => ?_⟩
  · rw [← Node.isError_mapSlots Slot.reset id]
    exact hfaultless _ hmem
  · subst hitem
    obtain ⟨span, name, e, decl, slot⟩ := item
    have hunset : (id slot).get? = none := Node.unset_of_reset hnodes _ hmem
    exact hunset

/-- Emission into an empty listing succeeds, no definition in it is an error, and a record of the
emission shows only requests that succeed. -/
structure Module.EmittedSoundly (module : Module) : Prop where
  values : ∃ values, (module.emit Listing.empty).values = .ok values
  definitions : ∀ definition ∈ (module.emit Listing.empty).builder.definitions, definition ≠ .error
  recorded : (module.emit (Traced.mk Listing.empty #[])).values =
      (module.emit Listing.empty).values ∧
    (module.emit (Traced.mk Listing.empty #[])).builder.inner = (module.emit Listing.empty).builder
  calls : ∀ call ∈ (module.emit (Traced.mk Listing.empty #[])).builder.calls, call.Answered

theorem Module.emittedSoundly {module : Module} {wildcard : Symbol}
    (hscoped : module.Scoped wildcard) (hready : ∀ node ∈ module.walk, node.Ready module.decls) :
    module.EmittedSoundly := by
  have hempty : (Traced.invariant Listing.invariant).fit (Traced.mk Listing.empty #[]) := by
    refine ⟨fun definition hdefinition => ?_, fun call hcall => absurd hcall (Array.not_mem_empty _)⟩
    rw [Listing.definitions_empty] at hdefinition
    exact absurd hdefinition (Array.not_mem_empty _)
  obtain ⟨⟨values, hvalues⟩, hfit⟩ :=
    Module.emit_ok (Traced.invariant Listing.invariant) hscoped hready hempty
  obtain ⟨hsame, hinner⟩ := Traced.emit_inner module Listing.empty #[]
  refine ⟨⟨values, hsame.symm.trans hvalues⟩, ?_, ⟨hsame, hinner⟩, hfit.2⟩
  rw [← hinner]
  exact hfit.1

namespace Compiler

/-- The count of errors grows by the reports of errors. -/
theorem errors_reportAll (c : Compiler) (reports : Array Diagnostic) :
    (c.reportAll reports).counts.errors =
      c.counts.errors + reports.toList.countP Diagnostic.isError := by
  rw [reportAll, ← Array.foldl_toList]
  obtain ⟨reports⟩ := reports
  induction reports generalizing c with
  | nil => rfl
  | cons d ds ih =>
    rw [List.foldl_cons, ih, List.countP_cons]
    obtain ⟨severity, message, span, code⟩ := d
    cases severity with
    | error => simp [report, DiagnosticCounts.add, Diagnostic.isError]; omega
    | warning => simp [report, DiagnosticCounts.add, Diagnostic.isError]
    | note => simp [report, DiagnosticCounts.add, Diagnostic.isError]

/-- Reports of errors only that leave the count are no reports. -/
theorem reports_of_errors_eq {c : Compiler} {reports : Array Diagnostic}
    (herrors : ∀ d ∈ reports, d.isError = true)
    (h : (c.reportAll reports).counts.errors = c.counts.errors) : reports = #[] := by
  have hcount := errors_reportAll c reports
  have hzero : reports.toList.countP Diagnostic.isError = 0 := by omega
  refine Array.eq_empty_iff_forall_not_mem.2 fun d hd => ?_
  exact List.countP_eq_zero.1 hzero d (Array.mem_toList_iff.2 hd) (herrors d hd)

theorem errors_bind (c : Compiler) (module : Module) :
    (c.bind module).2.counts.errors =
      c.counts.errors + (module.resolveNames c.names).reports.toList.countP Diagnostic.isError :=
  errors_reportAll ..

theorem errors_parseSource (c : Compiler) (name source : String) :
    (c.parseSource name source).2.counts.errors = c.counts.errors +
      (Module.parse ⟨c.files.size⟩ source c.names).reports.toList.countP Diagnostic.isError := by
  obtain ⟨lexicon, -, hread⟩ := c.parseSource_eq name source
  rw [hread, errors_reportAll, adopt, addFile]

/-- Compiling counts the errors that reading and binding report. -/
theorem errors_compile (c : Compiler) (name source : String) :
    let parsed := Module.parse ⟨c.files.size⟩ source c.names
    (c.compile name source).2.counts.errors =
      c.counts.errors + parsed.reports.toList.countP Diagnostic.isError +
        (parsed.result.resolveNames parsed.names).reports.toList.countP Diagnostic.isError := by
  intro parsed
  rw [compile, errors_bind, errors_parseSource, result_parseSource, names_parseSource]

/-- A source without errors leaves a module that is scoped and ready for emission. -/
theorem ready_of_compile {c : Compiler} {name source : String}
    (h : (c.compile name source).2.counts.errors = c.counts.errors) :
    let module := (c.compile name source).1
    (∃ wildcard, module.Scoped wildcard) ∧ ∀ node ∈ module.walk, node.Ready module.decls := by
  have herrors := Module.parse_errors ⟨c.files.size⟩ source c.names
  have hdeclared := Module.parse_declared ⟨c.files.size⟩ source c.names
  have hunresolved : (Module.parse ⟨c.files.size⟩ source c.names).result.Unresolved :=
    Module.parse_blank rfl rfl _ _ _
  have hreset : Stmnt.mapSlotsList id Slot.reset
      (Module.parse ⟨c.files.size⟩ source c.names).result.stmnts = _ :=
    Module.parse_blank rfl rfl _ _ _
  have hderives := Module.parse_derives ⟨c.files.size⟩ source c.names
  rw [errors_compile] at h
  rw [module_compile]
  generalize Module.parse ⟨c.files.size⟩ source c.names = parsed at *
  obtain ⟨hsame, hscoped, hbinding, hdecls⟩ := hunresolved.resolveNames parsed.names
  -- Both passes only add to the count, so neither has reported anything.
  have hparsed : parsed.reports = #[] :=
    reports_of_errors_eq (c := c) herrors (by rw [errors_reportAll]; omega)
  have hbound : (parsed.result.resolveNames parsed.names).reports = #[] :=
    reports_of_errors_eq (c := c) hbinding (by rw [errors_reportAll]; omega)
  obtain ⟨ts, eof, -, -, hstmnts⟩ := hderives hparsed
  refine ⟨⟨_, hscoped⟩, ?_⟩
  rw [hdecls hbound]
  exact Node.ready_of_mapSlots hsame hstmnts.faultless hreset hdeclared

/-- What compiles without errors is emitted without a failure: no value stands for an error, and
every declaration that is looked up has a value. -/
theorem compile_emit (c : Compiler) (name source : String)
    (h : (c.compile name source).2.counts.errors = c.counts.errors) :
    (c.compile name source).1.EmittedSoundly := by
  obtain ⟨⟨wildcard, hscoped⟩, hready⟩ := ready_of_compile h
  exact Module.emittedSoundly hscoped hready

/-- With a forward use of an item, a `let` that takes a tuple apart, and a `match` in it. -/
theorem compile_emit_match :
    (new.compile "a" ("def y = x; def x = \x7b let (a, b) = [1, 2]; " ++
      "match a \x7b c => c + b \x7d \x7d;")).1.EmittedSoundly :=
  compile_emit new "a" _ (by decide +kernel)

end Compiler

end ImpLang
