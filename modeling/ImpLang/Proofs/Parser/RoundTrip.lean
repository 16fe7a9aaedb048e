import ImpLang.Proofs.Parser.Reading
import ImpLang.Proofs.Parser.Reprinting

/-!
Reading undoes printing. The printed text of what is read without a report is read without a report
itself, as a tree that is alike, and that tree is printed the same. Left out are the forms whose text
is read as something else, and floats.
-/

namespace ImpLang

open Token (Lexes Anything)

variable {names : Interner}

/-- Every statement stands on a line of its own. -/
theorem Stmnt.exists_lines {ss : List Stmnt} (h : Node.AllPrintable names (Stmnt.nodesOf ss)) :
    ∃ ts, Lexes Anything (String.join ((Print.stmnts names 0 ss).map (· ++ "\n"))) ts ∧
      Derives names .free (.stmnts (Stmnt.relabelList .flat ss)) ts := by
  induction ss with
  | nil => exact ⟨[], Token.Lexes.empty, .stmntsNil⟩
  | cons s ss ih =>
    obtain ⟨hs, hss⟩ := Node.allPrintable_append.1 h
    obtain ⟨ts, hs⟩ := Stmnt.readable hs 0
    obtain ⟨us, hlexes, hderives⟩ := ih hss
    have hend : Lexes Anything "\n" [] := Token.lexes_gap (by decide)
    have hall := (hs.lexes.closed hend (by decide)).snug hlexes
    rw [List.append_nil] at hall
    rw [Print.stmnts, List.map_cons, String.join_cons]
    exact ⟨ts ++ us, hall, hs.stmnts hderives⟩

namespace Module

theorem parse_print {module : Module} (h : Node.AllPrintable names module.walk) (file : FileId)
    (table : Interner) :
    let again := Module.parse file (module.print names) table
    again.reports = #[] ∧ Stmnt.AlikeList names again.names module.stmnts again.result.stmnts ∧
      again.result.print again.names = module.print names := by
  intro again
  obtain ⟨ts, hlexes, hderives⟩ := Stmnt.exists_lines h
  obtain ⟨hwords, hsilent⟩ := Token.lex_of_lexes hlexes file
  obtain ⟨hreports, halike⟩ := parse_accepts file _ table hsilent hwords rfl hderives
  have halike : Stmnt.AlikeList names again.names module.stmnts again.result.stmnts :=
    Stmnt.alikeList_of_flat halike
  exact ⟨hreports, halike, print_alike halike⟩

/-- What is read without a report is printable if all of it is clear. -/
theorem printable_parse (file : FileId) (source : String) (table : Interner)
    (h : (Module.parse file source table).reports = #[])
    (hclear : ∀ node ∈ (Module.parse file source table).result.walk, node.isClear = true) :
    Node.AllPrintable (Module.parse file source table).names
      (Module.parse file source table).result.walk := by
  obtain ⟨ts, eof, htokens, -, hderives⟩ := Module.parse_derives file source table h
  have hwritable : ∀ t ∈ ts, t.payload.IsWritable := by
    intro t ht
    have hmem : t ∈ (Token.lex file source).map Lexed.token :=
      htokens ▸ List.mem_append_left _ ht
    obtain ⟨lexed, hlexed, rfl⟩ := List.mem_map.1 hmem
    exact Token.isWritable_lexFrom file _ _ _ lexed hlexed
  exact fun node hnode => ⟨hderives.regular node hnode, hderives.faultless node hnode,
    hderives.named hwritable node hnode, hclear node hnode⟩

end Module

namespace Compiler

/-- A source that is read without a report and is clear is printed as one that any compiler reads
without a report. What is read from it is alike, and printed to the same text. -/
theorem parseSource_print (c d : Compiler) (name other source : String)
    (h : (c.parseSource name source).2.diagnostics = c.diagnostics)
    (hclear : ∀ node ∈ (c.parseSource name source).1.walk, node.isClear = true) :
    let read := c.parseSource name source
    let again := d.parseSource other (read.1.print read.2.names)
    again.2.diagnostics = d.diagnostics ∧
      Stmnt.AlikeList read.2.names again.2.names read.1.stmnts again.1.stmnts ∧
      again.1.print again.2.names = read.1.print read.2.names := by
  simp only [diagnostics_parseSource, names_parseSource, result_parseSource,
    Array.append_right_eq_self] at h hclear ⊢
  exact Module.parse_print (Module.printable_parse _ source c.names h hclear) _ d.names

end Compiler

/-- As an argument a bare assignment keeps the parentheses around its target, as an operand it loses
them. -/
example :
    let clear source := (Compiler.new.parseSource "a" source).1.walk.all Node.isClear
    clear "def x = f(a = b) * c;" = true ∧ clear "def x = f((a) = b) * c;" = true ∧
      clear "def x = ((a) = b) * c;" = false := by
  decide +kernel

end ImpLang
