import ImpLang.Proofs.Parser.Following
import ImpLang.Proofs.Parser.Source

/-!
A source read with another name table gives the same tree, the same declarations and the same reports,
but for the numbers of its symbols.
-/

namespace ImpLang

namespace Parser

namespace Link

/-- The link between runs on one source with different name tables. -/
def rename (source target : Interner) : Link :=
  ofLt id (fun _ _ => Iff.rfl) Decls.empty #[] source target

variable (source target : Interner)

/-- Behind no declarations, declarations keep their numbers. -/
theorem decl_eq_id {L : Link} (h : L.decls = Decls.empty) : L.decl = id := by
  funext ⟨i⟩
  rw [decl, h]
  exact congrArg DeclId.mk (Nat.zero_add i)

theorem relabel_rename : (rename source target).relabel = .symbols (source.carry target) := by
  rw [relabel, decl_eq_id rfl]
  rfl

theorem lexed_rename (l : Lexed) : (rename source target).lexed l = l := by
  have hreports : l.reports.map (rename source target).diagnostic = l.reports := List.map_id ..
  rw [lexed, hreports]
  rfl

end Link

/-- Two runs begin alike in front of the same tokens. -/
theorem rel_opening {L : Link} {names names' : Interner} (h : names.Within names')
    (hdecls : L.decls = Decls.empty) (hreports : L.reports = #[])
    (hfirst : L.place Place.first = Place.first) (file : FileId) (tokens : List Lexed)
    (hstopped : L.stops Place.first)
    (hplaced : ∀ t ∈ (State.opening file tokens names).pending,
      L.starts t.span.start ∧ L.stops t.span.stop) :
    L.Rel (State.opening file tokens names)
      (State.opening file (tokens.map L.lexed) names') := by
  have horigin : ∀ file, L.span (Span.origin file) = Span.origin file := fun file => by
    simp only [Link.span, Span.origin, hfirst]
  have hblank : ∀ (here : Token) (beyond : List Lexed) {here' : Token}, here' = L.token here →
      (∀ t ∈ here :: beyond.map Lexed.token, L.starts t.span.start ∧ L.stops t.span.stop) →
      L.Ahead ⟨[], here, beyond, none, Decls.empty, names, #[]⟩
        ⟨[], here', beyond.map L.lexed, none, Decls.empty, names', #[]⟩ := fun _ _ _ hhere hall =>
    ⟨hhere, rfl, h, by simp [hdecls, Decls.empty], by simp [hreports], hall⟩
  have hahead : L.Ahead (State.opening file tokens names)
      (State.opening file (tokens.map L.lexed) names') := by
    rcases tokens with _ | ⟨first, _ | ⟨second, rest⟩⟩
    · refine hblank _ [] ?_ hplaced
      rw [Link.token, horigin]
    · have hone := hblank first.token [] rfl
        (by simpa [State.opening, State.pending] using hplaced)
      exact hone.enter first
    · have htwo := hblank first.token (second :: rest) rfl
        (by simpa [State.opening, State.pending] using hplaced)
      exact (htwo.enter first).enter second
  have hbehind : (State.opening file tokens names).behind = [] := behind_opening ..
  have hbehind' : (State.opening file (tokens.map L.lexed) names').behind = [] :=
    behind_opening ..
  refine ⟨hahead, ?_, ?_, ?_, fun t _ => ?_⟩
  · rw [State.prev, State.prev, hbehind, hbehind', hahead.here]
    exact (horigin _).symm
  · rw [State.prev, hbehind]
    exact hstopped
  · rw [State.prevKind, State.prevKind, hbehind, hbehind']
  · simp only [(fresh_opening ..).1, reduceCtorEq]

variable {source target : Interner}

theorem rel_start {names names' : Interner} (h : names.Within names') (file : FileId)
    (text : String) :
    (Link.rename source target).Rel (State.start file text names) (State.start file text names') := by
  have hrel := rel_opening (L := Link.rename source target) h rfl rfl rfl file
    (significant (Token.lex file text)) trivial fun _ _ => ⟨trivial, trivial⟩
  rwa [funext (Link.lexed_rename source target), List.map_id'] at hrel

end Parser

/-- Reading numbers texts only. -/
theorem Module.parse_names (file : FileId) (text : String) (names : Interner) :
    names ≤ (Module.parse file text names).names := Module.names_ofTokens ..

/-- With a name table that has more texts, a source is read the same but for the numbers of its
symbols. -/
theorem Module.parse_rename {names names' : Interner} (h : names.Within names') (file : FileId)
    (text : String) :
    (Module.parse file text names).names.Within (Module.parse file text names').names ∧
    (Module.parse file text names').reports = (Module.parse file text names).reports ∧
    ∀ source target, (Module.parse file text names).names ≤ source →
      (Module.parse file text names').names ≤ target →
      (Module.parse file text names').result =
        (Module.parse file text names).result.relabel (.symbols (source.carry target)) := by
  obtain ⟨ss, t, hrun, heq⟩ := Parser.exists_run file text names
  obtain ⟨ss', t', hrun', heq'⟩ := Parser.exists_run file text names'
  have hfollows : ∀ source target, t.names ≤ source → t'.names ≤ target →
      ss' = Stmnt.relabelList (Parser.Link.rename source target).relabel ss ∧
        (Parser.Link.rename source target).Rel t t' := fun source target =>
    Parser.follows_stmnts (Parser.follows_rules _ _) _ _ _ _ ss t ss' t'
      (Parser.rel_start h file text) hrun hrun'
  obtain ⟨-, hrel⟩ := hfollows t.names t'.names (Interner.le_refl _) (Interner.le_refl _)
  rw [heq, heq']
  refine ⟨hrel.names, ?_, fun source target hsource htarget => ?_⟩
  · rw [hrel.reports]
    show #[] ++ t.reports.map id = t.reports
    rw [Array.map_id, Array.empty_append]
  · obtain ⟨hss, hrel⟩ := hfollows source target hsource htarget
    rw [Parser.Link.relabel_rename] at hss
    have hdecls : t'.decls = t.decls.relabel (.symbols (source.carry target)) := by
      have hall := hrel.decls
      rw [Parser.Link.relabel_rename] at hall
      exact congrArg Decls.mk (hall.trans (Array.empty_append ..))
    have hhere : t'.here = t.here := hrel.here
    rw [hss, hdecls, hhere]
    rfl

end ImpLang
