import ImpLang.Compiler
import ImpLang.Proofs.Token.Reader

/-!
The passes of a compiler in terms of the source alone. The tokens it makes with its name table are
those that the source has by itself, so a pass is a function of the source and the table, which
grows by the texts that are numbered.
-/

namespace ImpLang

namespace Compiler

theorem diagnostics_reportAll (c : Compiler) (reports : Array Diagnostic) :
    (c.reportAll reports).diagnostics = c.diagnostics ++ reports := by
  rw [reportAll, ← Array.foldl_toList]
  obtain ⟨reports⟩ := reports
  induction reports generalizing c with
  | nil => simp
  | cons d ds ih =>
    rw [List.foldl_cons, ih]
    simp [report]

theorem names_reportAll (c : Compiler) (reports : Array Diagnostic) :
    (c.reportAll reports).names = c.names := by
  rw [reportAll, ← Array.foldl_toList]
  obtain ⟨reports⟩ := reports
  induction reports generalizing c with
  | nil => rfl
  | cons d ds ih =>
    rw [List.foldl_cons, ih]
    rfl

/-! ## Tokens -/

variable (c : Compiler) (name source : String)

/-- A compiler shows its name table in the numbers of symbols only: it gives the tokens of a source
that the source has by itself, and makes the reports on them. -/
theorem lex_eq (file : FileId) :
    let lexed := Token.lex file source
    ∃ lexicon : Lexicon,
      lexicon.names = c.names.internAll (lexed.filterMap (·.token.internedText?)) ∧
      c.lex file source = (lexed.map Lexed.token,
        (c.adopt lexicon).reportAll (lexed.flatMap Lexed.reports).toArray) := by
  intro lexed
  have htokens : (c.lexed (source.toList.length + 1) file source).1 = lexed :=
    c.lexed_eq _ file source
  refine ⟨(c.lexed (source.toList.length + 1) file source).2, c.names_lexed _ file source, ?_⟩
  rw [← htokens]
  rfl

theorem tokens_lex (file : FileId) :
    (c.lex file source).1 = (Token.lex file source).map Lexed.token := by
  obtain ⟨lexicon, -, heq⟩ := c.lex_eq source file
  rw [heq]

theorem diagnostics_lex (file : FileId) :
    (c.lex file source).2.diagnostics =
      c.diagnostics ++ ((Token.lex file source).flatMap Lexed.reports).toArray := by
  obtain ⟨lexicon, -, heq⟩ := c.lex_eq source file
  rw [heq, diagnostics_reportAll]
  rfl

/-- The texts of tokens are numbered in the order of the tokens. -/
theorem names_lex (file : FileId) :
    (c.lex file source).2.names =
      c.names.internAll ((Token.lex file source).filterMap (·.token.internedText?)) := by
  obtain ⟨lexicon, hnames, heq⟩ := c.lex_eq source file
  rw [heq, names_reportAll, ← hnames]
  rfl

/-- A parser has its tokens made beforehand. When one of them comes into its window, it leaves the
name table as if it were read only then, and it spells the lexeme that would be read, whatever has
been numbered in between. -/
theorem names_enter_scan {s : Parser.State} {lexicon : Lexicon} {lexed : Lexed} {ch : Char}
    {text : List Char} (hnames : s.names = lexicon.names)
    (hpayload : lexed.token.payload = (Lexeme.scan ch text).payload) :
    (s.enter lexed).names = (lexicon.scan ch text).2.names ∧
      (lexicon.scan ch text).1.spell (s.enter lexed).names = Lexeme.scan ch text := by
  have hreads := lexicon.reads_scan ch text
  have hsame : (s.enter lexed).names = (lexicon.scan ch text).2.names := by
    rw [Parser.State.enter_names_eq, hreads.names, hnames, Token.internedText?, hpayload]
  exact ⟨hsame, hreads.spell _ (hsame ▸ Interner.le_refl _)⟩

/-! ## Modules -/

/-- Reading a source with a compiler is reading it with the name table of the compiler. -/
theorem parseSource_eq :
    let parsed := Module.parse ⟨c.files.size⟩ source c.names
    ∃ lexicon : Lexicon, lexicon.names = parsed.names ∧
      c.parseSource name source =
        (parsed.result, ((c.addFile name).2.adopt lexicon).reportAll parsed.reports) := by
  intro parsed
  have htokens : ((c.addFile name).2.lexed (source.toList.length + 1) ⟨c.files.size⟩ source).1 =
      Token.lex ⟨c.files.size⟩ source := c.lexed_eq _ ⟨c.files.size⟩ source
  refine ⟨c.grow parsed.names (Module.names_ofTokens ..), rfl, ?_⟩
  simp only [parsed, Module.parse, ← htokens]
  rfl

theorem result_parseSource :
    (c.parseSource name source).1 = (Module.parse ⟨c.files.size⟩ source c.names).result := by
  obtain ⟨lexicon, -, heq⟩ := c.parseSource_eq name source
  rw [heq]

theorem diagnostics_parseSource :
    (c.parseSource name source).2.diagnostics =
      c.diagnostics ++ (Module.parse ⟨c.files.size⟩ source c.names).reports := by
  obtain ⟨lexicon, -, heq⟩ := c.parseSource_eq name source
  rw [heq, diagnostics_reportAll]
  rfl

theorem names_parseSource :
    (c.parseSource name source).2.names = (Module.parse ⟨c.files.size⟩ source c.names).names := by
  obtain ⟨lexicon, hnames, heq⟩ := c.parseSource_eq name source
  rw [heq, names_reportAll, ← hnames]
  rfl

variable (module : Module)

theorem module_bind : (c.bind module).1 = (module.resolveNames c.names).module := rfl

theorem names_bind : (c.bind module).2.names = (module.resolveNames c.names).names :=
  names_reportAll ..

theorem diagnostics_bind :
    (c.bind module).2.diagnostics = c.diagnostics ++ (module.resolveNames c.names).reports :=
  diagnostics_reportAll ..

/-- Compiling is reading and then binding. -/
theorem compile_eq :
    c.compile name source = (c.parseSource name source).2.bind (c.parseSource name source).1 := by
  rw [compile]

theorem module_compile :
    let parsed := Module.parse ⟨c.files.size⟩ source c.names
    (c.compile name source).1 = (parsed.result.resolveNames parsed.names).module := by
  intro parsed
  rw [compile_eq]
  simp only [bind, result_parseSource, names_parseSource, parsed]

end Compiler

end ImpLang
