import Mathlib.Algebra.GroupWithZero.Nat
import ImpLang.Cli.Run
import ImpLang.Cli.World
import ImpLang.Proofs.Cli.Sharing

/-!
Units do not influence each other. A run of the command line on several units writes what the units
give alone, in the order of the inputs, and fails if one of them has errors alone.
-/

namespace ImpLang

namespace Cli

variable {format : Format} {text : Source → String}

theorem outputs_eq (h : ∀ source : Source, (source.alone format).output = .ok (text source))
    (sources : List Source) :
    outputs (sources.map fun source => (source, source.alone format)) =
      .ok (String.join (sources.map fun source => headed (1 < sources.length) source (text source))) := by
  have hone : ∀ several, outputOf several ∘ (fun source => (source, source.alone format)) =
      fun source => pure (headed several source (text source)) := by
    intro several
    funext source
    rw [Function.comp_apply, outputOf, h]
    rfl
  rw [outputs, List.length_map, List.mapM_map, hone, List.mapM_pure]
  rfl

theorem totals_eq (results : List (Source × UnitResult)) :
    totals results = ⟨(results.map fun result => result.2.counts.errors).sum,
      (results.map fun result => result.2.counts.warnings).sum⟩ := by
  have hfrom : ∀ counts : DiagnosticCounts,
      results.foldl (fun counts result => counts.merge result.2.counts) counts =
        ⟨counts.errors + (results.map fun result => result.2.counts.errors).sum,
          counts.warnings + (results.map fun result => result.2.counts.warnings).sum⟩ := by
    induction results with
    | nil => exact fun _ => rfl
    | cons result results ih =>
      intro counts
      rw [List.foldl_cons, ih]
      simp [DiagnosticCounts.merge, Nat.add_assoc]
  rw [totals, hfrom]
  simp [DiagnosticCounts.zero]

theorem hasErrors_totals (results : List (Source × UnitResult)) :
    (totals results).hasErrors = results.any fun result => result.2.counts.hasErrors := by
  rw [totals_eq]
  induction results with
  | nil => rfl
  | cons result results ih =>
    rw [List.any_cons, ← ih]
    simp only [DiagnosticCounts.hasErrors, List.map_cons, List.sum_cons, ← Bool.decide_or]
    exact decide_eq_decide.2 Nat.add_pos_iff_pos_or_pos

/-- The counts of all units, each compiled alone. -/
def countsAlone (format : Format) (sources : List Source) : DiagnosticCounts :=
  ⟨(sources.map fun source => (source.alone format).counts.errors).sum,
    (sources.map fun source => (source.alone format).counts.warnings).sum⟩

variable {m : Type → Type} [Monad m] [Host m]

/-- The end of a run on units that have been compiled alone: the reports, in the order of the inputs,
and the sums of the counts go to the error stream, the outputs follow each other in the same order,
and the run fails if one of the units has errors. -/
def concludeAlone (options : Options) (format : Format) (text : Source → String)
    (sources : List Source) : ExceptT RunError m Unit := do
  let reports := sources.flatMap fun source => (source.alone format).rendered
  let counts := countsAlone format sources
  Host.putErr (m := m) (String.join ((reports ++ [toString counts]).map (· ++ "\n")))
  if format ≠ .none then
    deliver options
      (String.join (sources.map fun source => headed (1 < sources.length) source (text source)))
  if sources.any fun source => (source.alone format).counts.hasErrors then
    throw (.compilation counts.errors)

theorem conclude_eq [LawfulMonad m]
    (htext : ∀ source : Source, (source.alone format).output = .ok (text source)) (options : Options)
    (sources : List Source) :
    (conclude options format (sources.map fun source => (source, source.alone format)) :
      ExceptT RunError m Unit) = concludeAlone options format text sources := by
  have hok : ∀ output : String,
      (ExceptT.mk (pure (Except.ok output)) : ExceptT RunError m String) = pure output := fun _ => rfl
  simp only [conclude, concludeAlone]
  rw [outputs_eq htext, hasErrors_totals, totals_eq, hok, pure_bind]
  simp only [countsAlone, List.map_map, List.any_map, List.flatMap_map, Function.comp_def]

/-- Results from whatever tables are the results of the units alone. -/
theorem results_eq {results : List (Source × UnitResult)}
    (h : ∀ result ∈ results, ∃ names, result.2 = (result.1.compile format names).1) :
    results = (results.map Prod.fst).map fun source => (source, source.alone format) := by
  rw [List.map_map]
  refine (List.map_id results).symm.trans (List.map_congr_left fun result hresult => ?_)
  obtain ⟨names, hnames⟩ := h result hresult
  exact Prod.ext rfl (hnames.trans (result.1.compile_eq_alone format names))

/-- What a unit gives does not depend on the texts that others have put into the name table. So a run
ends as if each of its units had been compiled alone, whatever the tables were that they came upon and
the order in which they were compiled, and none of them fails to be emitted. -/
theorem compile_alone (m : Type → Type) [Monad m] [LawfulMonad m] [Host m] (format : Format) :
    (∀ (source : Source) (names : Interner),
      (source.compile format names).1 = source.alone format) ∧
    ∃ text : Source → String,
      (∀ source : Source, (source.alone format).output = .ok (text source)) ∧
      (∀ (options : Options) (results : List (Source × UnitResult)),
        (∀ result ∈ results, ∃ names, result.2 = (result.1.compile format names).1) →
        (conclude options format results : ExceptT RunError m Unit) =
          concludeAlone options format text (results.map Prod.fst)) ∧
      ∀ options : Options, Format.ofName? (options.format.getD "none") = some format →
        (compile options : ExceptT RunError m Unit) =
          collect options.inputs >>= concludeAlone options format text := by
  obtain ⟨text, htext⟩ := Classical.axiomOfChoice fun source : Source => source.output_ok format
  refine ⟨fun source => source.compile_eq_alone format, text, htext, fun options results h => ?_,
    fun options hformat => ?_⟩
  · conv => lhs; rw [results_eq h]
    exact conclude_eq htext options _
  · simp only [compile, hformat]
    refine congrArg (collect options.inputs >>= ·) (funext fun sources => ?_)
    rw [compileAll_eq]
    exact conclude_eq htext options sources

/-- With two files of a host in memory, each compiled on a table that has texts of the other one. -/
theorem compile_alone_pair :
    let sources : List Source := [⟨"a.imp", "def x = 1;"⟩, ⟨"b.imp", "let y = x; def z = 2;"⟩]
    let options : Options := ⟨["a.imp", "b.imp"], none, some "ir", 0⟩
    let results := sources.map fun source => (source, (source.compile .ir ⟨#["z", "y", "x"]⟩).1)
    ∃ text : Source → String,
      (conclude options .ir results : ExceptT RunError (StateM World) Unit) =
        concludeAlone options .ir text (results.map Prod.fst) ∧
      (compile options : ExceptT RunError (StateM World) Unit) =
        collect options.inputs >>= concludeAlone options .ir text := by
  intro sources options results
  obtain ⟨-, text, -, hresults, hcompile⟩ := compile_alone (StateM World) .ir
  refine ⟨text, hresults options results fun result hresult => ?_, hcompile options (by decide)⟩
  obtain ⟨source, -, rfl⟩ := List.mem_map.1 hresult
  refine ⟨⟨#["z", "y", "x"]⟩, ?_⟩
  dsimp only

end Cli

end ImpLang
