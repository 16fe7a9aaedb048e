import ImpLang.Proofs.Ir.Compiled
import ImpLang.Proofs.Ir.Renaming
import ImpLang.Proofs.Parser.Renaming

/-!
Compilers with different name tables. What a unit gives does not depend on the texts that other units
have put into the table they share.
-/

namespace ImpLang

namespace Compiler

/-- Compilers that differ in their name tables only. -/
structure Agrees (c c' : Compiler) : Prop where
  files : c'.files = c.files
  diagnostics : c'.diagnostics = c.diagnostics
  counts : c'.counts = c.counts
  sink : c'.sink = c.sink

namespace Agrees

variable {c c' : Compiler} (h : Agrees c c')

include h

theorem render (d : Diagnostic) : c'.render d = c.render d := by
  rw [Compiler.render, Compiler.render, fileName, fileName, h.files]

theorem rendered : c'.rendered = c.rendered := by
  rw [Compiler.rendered, Compiler.rendered, h.diagnostics, funext h.render]

theorem adopt (lexicon lexicon' : Lexicon) : Agrees (c.adopt lexicon) (c'.adopt lexicon') :=
  ⟨h.files, h.diagnostics, h.counts, h.sink⟩

theorem addFile (name : String) :
    (c'.addFile name).1 = (c.addFile name).1 ∧ Agrees (c.addFile name).2 (c'.addFile name).2 :=
  ⟨congrArg (fun files : Array String => FileId.mk files.size) h.files,
    congrArg (Array.push · name) h.files, h.diagnostics, h.counts, h.sink⟩

theorem report (d : Diagnostic) : Agrees (c.report d) (c'.report d) := by
  refine ⟨h.files, congrArg (Array.push · d) h.diagnostics,
    congrArg (DiagnosticCounts.add · d.severity) h.counts, ?_⟩
  show c'.sink.writeLine (c'.render d) = c.sink.writeLine (c.render d)
  rw [h.sink, h.render]

omit h in
theorem reportAll {c c' : Compiler} (h : Agrees c c') {ds ds' : Array Diagnostic} (hds : ds' = ds) :
    Agrees (c.reportAll ds) (c'.reportAll ds') := by
  subst hds
  rw [Compiler.reportAll, Compiler.reportAll, ← Array.foldl_toList, ← Array.foldl_toList]
  induction ds'.toList generalizing c c' with
  | nil => exact h
  | cons d ds ih => exact ih (h.report d)

/-- What the lexer gives does not depend on the name table it looks reserved words up in. -/
theorem lex (file : FileId) (source : String) :
    (c'.lex file source).1 = (c.lex file source).1 ∧
      Agrees (c.lex file source).2 (c'.lex file source).2 := by
  obtain ⟨lexicon, -, hleft⟩ := c.lex_eq source file
  obtain ⟨lexicon', -, hright⟩ := c'.lex_eq source file
  rw [hleft, hright]
  exact ⟨rfl, (h.adopt lexicon lexicon').reportAll rfl⟩

/-- With a name table that has more texts, a source is read with the same reports and as the same
module, but for the numbers of the symbols in it. -/
theorem parseSource (hwithin : c.names.Within c'.names) (name source : String) :
    let read := c.parseSource name source
    let read' := c'.parseSource name source
    Agrees read.2 read'.2 ∧ read.2.names.Within read'.2.names ∧
      ∀ names names', read.2.names ≤ names → read'.2.names ≤ names' →
        read'.1 = read.1.relabel (.symbols (names.carry names')) := by
  intro read read'
  obtain ⟨lexicon, htable, hleft⟩ := c.parseSource_eq name source
  obtain ⟨lexicon', htable', hright⟩ := c'.parseSource_eq name source
  rw [h.files] at htable' hright
  obtain ⟨hnames, hreports, hresult⟩ := Module.parse_rename hwithin ⟨c.files.size⟩ source
  simp only [read, read', hleft, hright, names_reportAll]
  rw [← htable, ← htable'] at hnames hresult
  exact ⟨((h.addFile name).2.adopt lexicon lexicon').reportAll hreports, hnames, hresult⟩

theorem bind {module module' : Module}
    (hreports : (module'.resolveNames c'.names).reports = (module.resolveNames c.names).reports) :
    Agrees (c.bind module).2 (c'.bind module').2 := (h.adopt _ _).reportAll hreports

end Agrees

/-- With a name table that has more texts, a source gives the same reports and the same module, but
for the numbers of the symbols in it. -/
theorem compile_rename {c c' : Compiler} (h : Agrees c c') (hdistinct : c.names.Distinct)
    (hwithin : c.names.Within c'.names) (name source : String) :
    Agrees (c.compile name source).2 (c'.compile name source).2 ∧
    ∃ f, (Relabel.symbols f).KeepsTexts (c.compile name source).2.names
        (c'.compile name source).2.names ∧
      (c'.compile name source).1 = (c.compile name source).1.relabel (.symbols f) := by
  obtain ⟨hread, hnames, hresult⟩ := h.parseSource hwithin name source
  have hparsed : (c.parseSource name source).2.names.Distinct := by
    rw [names_parseSource]
    exact hdistinct.of_le (Module.parse_names ⟨c.files.size⟩ source c.names)
  rw [compile, compile]
  generalize c.parseSource name source = read at *
  generalize c'.parseSource name source = read' at *
  obtain ⟨module, c⟩ := read
  obtain ⟨module', c'⟩ := read'
  obtain rfl := hresult _ _ (c.names.le_intern Interner.wildcard)
    (c'.names.le_intern Interner.wildcard)
  obtain ⟨hmodule, hbinding⟩ := Module.resolveNames_rename hparsed hnames module
  refine ⟨hread.bind hbinding, (c.names.intern Interner.wildcard).2.carry
    (c'.names.intern Interner.wildcard).2, ?_, hmodule⟩
  rw [names_bind, names_bind]
  exact Interner.resolve?_carry (hnames.intern Interner.wildcard)

end Compiler

namespace Cli

/-- What a unit gives when it is compiled alone, on a name table of its own. -/
def Source.alone (format : Format) (source : Source) : UnitResult :=
  (source.compile format Interner.empty).1

theorem Source.output_rename {c c' : Compiler} (h : c.Agrees c') (hdistinct : c.names.Distinct)
    (hwithin : c.names.Within c'.names) (source : Source) (format : Format) :
    (source.output format c').1 = (source.output format c).1 ∧
      (source.output format c).2.Agrees (source.output format c').2 := by
  obtain ⟨hagrees, f, htexts, hmodule⟩ :=
    Compiler.compile_rename h hdistinct hwithin source.name source.text
  cases format with
  | tokens =>
    obtain ⟨hfile, hadded⟩ := h.addFile source.name
    obtain ⟨htokens, hlexed⟩ := hadded.lex (c.addFile source.name).1 source.text
    simp only [Source.output, hfile, htokens, true_and]
    exact hlexed
  | ast =>
    simp only [Source.output, hmodule]
    exact ⟨congrArg Except.ok (Module.print_relabel htexts _), hagrees⟩
  | ir =>
    simp only [Source.output, hmodule, hagrees.counts, irText_relabel htexts, true_and]
    exact hagrees
  | none => exact ⟨rfl, hagrees⟩

/-- What other units have put into the name table does not show in what a unit gives. -/
theorem Source.compile_eq_alone (source : Source) (format : Format) (names : Interner) :
    (source.compile format names).1 = source.alone format := by
  have hagrees : (Compiler.withNames Interner.empty .none).Agrees
      (Compiler.withNames names .none) := ⟨rfl, rfl, rfl, rfl⟩
  have hdistinct : (Compiler.withNames Interner.empty .none).names.Distinct :=
    Interner.distinct_empty.of_le ⟨_, Lexicon.names_ofNames _⟩
  have hwithin : (Compiler.withNames Interner.empty .none).names.Within
      (Compiler.withNames names .none).names := by
    show (Lexicon.ofNames Interner.empty).names.Within (Lexicon.ofNames names).names
    rw [Lexicon.names_ofNames, Lexicon.names_ofNames]
    exact (Interner.within_empty names).internAll _
  obtain ⟨houtput, hcompilers⟩ := source.output_rename hagrees hdistinct hwithin format
  simp only [alone, Source.compile]
  rw [houtput, hcompilers.rendered, hcompilers.counts]

/-- No unit fails to be emitted: it has errors, or everything in it can be. -/
theorem Source.output_ok (source : Source) (format : Format) :
    ∃ text, (source.alone format).output = .ok text := by
  cases format with
  | tokens => exact ⟨_, rfl⟩
  | ast => exact ⟨_, rfl⟩
  | none => exact ⟨_, rfl⟩
  | ir =>
    simp only [alone, Source.compile, Source.output]
    split
    · exact ⟨"", rfl⟩
    · next hzero =>
      obtain ⟨⟨wildcard, hscoped⟩, hready⟩ := Compiler.ready_of_compile
        (c := Compiler.withNames Interner.empty .none) (Nat.eq_zero_of_not_pos hzero)
      obtain ⟨values, hvalues⟩ := (Module.emittedSoundly hscoped hready).values
      simp only [irText, hvalues]
      exact ⟨_, rfl⟩

theorem compileAll_eq (format : Format) (sources : List Source) (names : Interner) :
    compileAll format sources names = sources.map fun source => (source, source.alone format) := by
  induction sources generalizing names with
  | nil => rfl
  | cons source sources ih =>
    have hone := source.compile_eq_alone format names
    simp only [compileAll, List.map_cons]
    rw [hone, ih]

end Cli

end ImpLang
