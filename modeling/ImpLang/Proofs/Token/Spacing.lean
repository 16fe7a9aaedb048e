import ImpLang.Token.Gap
import Mathlib.Data.List.Infix

/-!
The grammar of the text between tokens, and that a gap is read by it. Block comments nest: a comment
opens and closes with its marks, and between them stand comments and characters at which no mark
stands.
-/

namespace ImpLang

/-- What stands between the marks of a block comment. -/
inductive CommentBody : List Char → Prop
  | nil : CommentBody []
  | char {c : Char} {body : List Char} (opens : ¬['/', '*'] <+: c :: (body ++ ['*', '/']))
      (closes : ¬['*', '/'] <+: c :: (body ++ ['*', '/'])) (rest : CommentBody body) :
      CommentBody (c :: body)
  | comment {inner body : List Char} (inside : CommentBody inner) (rest : CommentBody body) :
      CommentBody ('/' :: '*' :: (inner ++ '*' :: '/' :: body))

/-- A whole block comment. -/
def BlockComment (text : List Char) : Prop :=
  ∃ body, CommentBody body ∧ text = '/' :: '*' :: (body ++ ['*', '/'])

/-- A text that begins with a block comment which it does not close. -/
def OpenComment (text : List Char) : Prop :=
  ['/', '*'] <+: text ∧ ∀ comment, BlockComment comment → ¬comment <+: text

/-- The text of a gap in front of another text: white space, comments up to a newline or the end,
and block comments. -/
inductive Spacing (behind : List Char) : List Char → Prop
  | nil : Spacing behind []
  | white {c : Char} {text : List Char} (h : Text.isWhiteSpace c = true)
      (rest : Spacing behind text) : Spacing behind (c :: text)
  | line {line text : List Char} (same : '\n' ∉ line)
      (ends : ∀ c ∈ (text ++ behind).head?, c = '\n') (rest : Spacing behind text) :
      Spacing behind ('/' :: '/' :: (line ++ text))
  | block {comment text : List Char} (h : BlockComment comment) (rest : Spacing behind text) :
      Spacing behind (comment ++ text)

namespace Spacing

variable {behind between text : List Char}

/-- A gap goes on with a gap. -/
theorem append (h : Spacing (between ++ behind) text) (h' : Spacing behind between) :
    Spacing behind (text ++ between) := by
  induction h with
  | nil => exact h'
  | white hwhite _ ih => exact .white hwhite ih
  | @line line text same ends _ ih =>
    have hline := Spacing.line same (by rwa [List.append_assoc]) ih
    simpa only [List.cons_append, List.append_assoc] using hline
  | block hcomment _ ih =>
    have hblock := Spacing.block hcomment ih
    rwa [← List.append_assoc] at hblock

/-- A new line ends the last comment of a text as well as its end does. -/
theorem newline (h : Spacing behind text) (more : List Char) :
    Spacing (behind ++ '\n' :: more) text := by
  induction h with
  | nil => exact .nil
  | white hwhite _ ih => exact .white hwhite ih
  | line same ends _ ih =>
    refine .line same (fun c hc => ?_) ih
    rw [← List.append_assoc, List.head?_append] at hc
    cases hhead : (_ ++ behind).head? with
    | none =>
      rw [hhead] at hc
      exact (Option.some.inj hc).symm
    | some d =>
      rw [hhead] at hc
      exact Option.some.inj hc ▸ ends d hhead
  | block hcomment _ ih => exact .block hcomment ih

end Spacing

namespace Gap

/-- The rest of a block comment with `depth` others open inside it. -/
inductive Closes : (depth : Nat) → List Char → Prop
  | last {body : List Char} (h : CommentBody body) : Closes 0 (body ++ ['*', '/'])
  | inner {depth : Nat} {body rest : List Char} (h : CommentBody body) (outer : Closes depth rest) :
      Closes (depth + 1) (body ++ '*' :: '/' :: rest)

namespace Closes

variable {depth : Nat} {text : List Char}

theorem char {c : Char} (opens : ¬['/', '*'] <+: c :: text) (closes : ¬['*', '/'] <+: c :: text)
    (h : Closes depth text) : Closes depth (c :: text) := by
  cases h with
  | last h => exact .last (.char opens closes h)
  | @inner depth body rest h outer =>
    have hfront : c :: (body ++ ['*', '/']) <+: c :: (body ++ '*' :: '/' :: rest) :=
      ⟨rest, by simp⟩
    exact .inner (.char (fun hp => opens (hp.trans hfront)) (fun hp => closes (hp.trans hfront)) h)
      outer

theorem comment {inner : List Char} (hinner : CommentBody inner) (h : Closes depth text) :
    Closes depth ('/' :: '*' :: (inner ++ '*' :: '/' :: text)) := by
  cases h with
  | last h =>
    have hall := Closes.last (.comment hinner h)
    simpa only [List.cons_append, List.append_assoc] using hall
  | inner h outer =>
    have hall := Closes.inner (.comment hinner h) outer
    simpa only [List.cons_append, List.append_assoc] using hall

/-- Behind the opening mark that it belongs to, the rest of a comment makes a whole one. -/
theorem block (h : Closes 0 text) : BlockComment ('/' :: '*' :: text) := by
  cases h with
  | last h => exact ⟨_, h, rfl⟩

end Closes

-- All that follows goes by the equations of the scan.
attribute [local simp] scanFrom

/-- What the scan of a gap has found from the character `n` on: a gap of the grammar, and behind it
no more or a comment that opens and takes all the rest. -/
def Spaced (n : Nat) (text : List Char) (gap : Gap) : Prop :=
  ∃ between rest, text = between ++ rest ∧ Spacing rest between ∧
    (gap = ⟨n + between.length, none⟩ ∨
      gap = ⟨n + text.length, some (n + between.length)⟩ ∧ ['/', '*'] <+: rest)

/-- What the scan has found from a state on. -/
def Reads (part : GapPart) (n : Nat) (text : List Char) (gap : Gap) : Prop :=
  match part with
  | .blank => Spaced n text gap
  | .line => ∃ line rest, text = line ++ rest ∧ '\n' ∉ line ∧ (∀ c ∈ rest.head?, c = '\n') ∧
      Spaced (n + line.length) rest gap
  | .block opening depth => gap = ⟨n + text.length, some opening⟩ ∨
      ∃ comment rest, text = comment ++ rest ∧ Closes depth comment ∧
        Spaced (n + comment.length) rest gap

theorem Spaced.here (n : Nat) (text : List Char) : Spaced n text ⟨n, none⟩ :=
  ⟨[], text, rfl, .nil, .inl rfl⟩

/-- A gap begins with any piece of one. -/
theorem Spaced.append {n : Nat} (front : List Char) {text : List Char} {gap : Gap}
    (hfront : ∀ between rest, text = between ++ rest → Spacing rest between →
      Spacing rest (front ++ between))
    (h : Spaced (n + front.length) text gap) : Spaced n (front ++ text) gap := by
  obtain ⟨between, rest, rfl, hspacing, hgap⟩ := h
  refine ⟨front ++ between, rest, (List.append_assoc ..).symm, hfront _ _ rfl hspacing, ?_⟩
  simpa only [List.length_append, Nat.add_assoc] using hgap

/-- So does the rest of a block comment. -/
theorem Reads.append {opening depth depth' n : Nat} (front : List Char) {text : List Char} {gap : Gap}
    (hfront : ∀ comment rest, text = comment ++ rest → Closes depth' comment →
      Closes depth (front ++ comment))
    (h : Reads (.block opening depth') (n + front.length) text gap) :
    Reads (.block opening depth) n (front ++ text) gap := by
  rcases h with hopen | ⟨comment, rest, rfl, hcloses, hrest⟩
  · left
    rw [hopen, List.length_append, Nat.add_assoc]
  · refine .inr ⟨front ++ comment, rest, (List.append_assoc ..).symm, hfront _ _ rfl hcloses, ?_⟩
    rwa [List.length_append, ← Nat.add_assoc]

/-- A gap is read by its grammar. -/
theorem reads_scanFrom (part : GapPart) (n : Nat) (text : List Char) :
    Reads part n text (scanFrom part n text) := by
  fun_induction scanFrom part n text with
  | case1 n text ih =>
    obtain ⟨line, rest, rfl, hsame, hends, hrest⟩ := ih
    have hsize : n + 2 + line.length = n + ('/' :: '/' :: line).length := by
      simp only [List.length_cons]; omega
    refine Spaced.append ('/' :: '/' :: line) (fun between behind hbetween h => ?_)
      (hsize ▸ hrest)
    exact .line hsame (hbetween ▸ hends) h
  | case2 n text ih =>
    rcases ih with hopen | ⟨comment, rest, rfl, hcloses, hrest⟩
    · refine ⟨[], _, rfl, .nil, .inr ⟨?_, text, rfl⟩⟩
      rw [hopen]
      simp only [List.length_cons, List.length_nil, Nat.add_zero, Gap.mk.injEq, and_true]
      omega
    · have hsize : n + 2 + comment.length = n + ('/' :: '*' :: comment).length := by
        simp only [List.length_cons]; omega
      refine Spaced.append ('/' :: '*' :: comment) (fun between behind _ h => ?_)
        (hsize ▸ hrest)
      exact .block hcloses.block h
  | case3 n c text hline hblock hwhite ih =>
    exact Spaced.append [c] (fun between behind _ h => .white hwhite h) ih
  | case4 n c text hline hblock hother => exact .here n _
  | case5 n => exact .here n _
  | case6 n c text ih =>
    by_cases hc : c = '\n'
    · rw [if_pos hc] at ih ⊢
      have hwhite : Text.isWhiteSpace c = true := by
        rw [hc]; rfl
      refine ⟨[], c :: text, rfl, by simp, by simp [hc], ?_⟩
      exact Spaced.append [c] (fun between behind _ h => .white hwhite h) ih
    · rw [if_neg hc] at ih ⊢
      obtain ⟨line, rest, rfl, hsame, hends, hrest⟩ := ih
      refine ⟨c :: line, rest, rfl, ?_, hends, ?_⟩
      · simpa [hsame] using Ne.symm hc
      · rwa [List.length_cons, Nat.add_comm line.length, ← Nat.add_assoc]
  | case7 n => exact ⟨[], [], rfl, by simp, by simp, .here n _⟩
  | case8 opening depth n text ih =>
    refine Reads.append ['/', '*'] (fun comment rest _ h => ?_) ih
    cases h with
    | inner hbody houter =>
      exact .comment hbody houter
  | case9 opening n text ih => exact .inr ⟨['*', '/'], text, rfl, .last .nil, ih⟩
  | case10 opening depth n text ih =>
    exact Reads.append ['*', '/'] (fun comment rest _ h => .inner .nil h) ih
  | case11 opening depth n c text hopens hlast hinner ih =>
    refine Reads.append [c] (fun comment rest htext h => .char ?_ ?_ h) ih
    · rintro ⟨tail, hmark⟩
      obtain ⟨rfl, rfl⟩ : '/' = c ∧ '*' :: tail = comment := by simpa using hmark
      exact hopens _ rfl htext
    · rintro ⟨tail, hmark⟩
      obtain ⟨rfl, rfl⟩ : '*' = c ∧ '/' :: tail = comment := by simpa using hmark
      cases depth with
      | zero => exact hlast _ rfl rfl htext
      | succ depth => exact hinner _ _ rfl rfl htext
  | case12 opening depth n => exact .inl rfl

/-! ## Scanning what the grammar describes -/

/-- A mark at the front of a text is one with more text behind it. -/
theorem mark_append {a b c : Char} {text more : List Char} (h : text ≠ []) :
    [a, b] <+: c :: (text ++ more) ↔ [a, b] <+: c :: text := by
  obtain ⟨d, text, rfl⟩ := List.exists_cons_of_ne_nil h
  simp [List.cons_prefix_cons]

theorem scanFrom_char {opening depth n : Nat} {c : Char} {text : List Char}
    (opens : ¬['/', '*'] <+: c :: text) (closes : ¬['*', '/'] <+: c :: text) :
    scanFrom (.block opening depth) n (c :: text) = scanFrom (.block opening depth) (n + 1) text := by
  refine scanFrom.eq_10 _ _ _ _ _ ?_ ?_ ?_
  · rintro rest rfl rfl
    exact opens ⟨rest, rfl⟩
  · rintro rest - rfl rfl
    exact closes ⟨rest, rfl⟩
  · rintro _ rest - rfl rfl
    exact closes ⟨rest, rfl⟩

/-- The scan passes over what stands between the marks of a comment. -/
theorem scanFrom_body {body : List Char} (h : CommentBody body) (opening depth n : Nat)
    (behind : List Char) :
    scanFrom (.block opening depth) n (body ++ '*' :: '/' :: behind) =
      scanFrom (.block opening depth) (n + body.length) ('*' :: '/' :: behind) := by
  induction h generalizing depth n behind with
  | nil => rfl
  | @char c body opens closes rest ih =>
    have hmore : body ++ '*' :: '/' :: behind = (body ++ ['*', '/']) ++ behind := by simp
    have hne : body ++ ['*', '/'] ≠ [] := by simp
    rw [List.cons_append, scanFrom_char, ih, List.length_cons, Nat.add_right_comm, Nat.add_assoc]
    · rwa [hmore, mark_append hne]
    · rwa [hmore, mark_append hne]
  | @comment inner body inside rest ih ih' =>
    have hinner := ih (depth + 1) (n + 2) (body ++ '*' :: '/' :: behind)
    have hbody := ih' depth (n + 2 + inner.length + 2) behind
    simp only [List.cons_append, List.append_assoc, scanFrom, hinner, hbody]
    congr 1
    simp only [List.length_cons, List.length_append]
    omega

theorem scanFrom_comment {comment : List Char} (h : BlockComment comment) (n : Nat)
    (behind : List Char) :
    scanFrom .blank n (comment ++ behind) = scanFrom .blank (n + comment.length) behind := by
  obtain ⟨body, hbody, rfl⟩ := h
  have hscan := scanFrom_body hbody n 0 (n + 2) behind
  simp only [List.cons_append, List.append_assoc, List.nil_append, scanFrom, hscan]
  congr 1
  simp only [List.length_cons, List.length_append, List.length_nil]
  omega

theorem scanFrom_white {c : Char} (h : Text.isWhiteSpace c = true) (n : Nat) (text : List Char) :
    scanFrom .blank n (c :: text) = scanFrom .blank (n + 1) text := by
  have hslash : c ≠ '/' := by
    rintro rfl
    exact absurd h (by decide)
  rw [scanFrom.eq_3 _ _ _ (fun _ hc => absurd hc hslash) (fun _ hc => absurd hc hslash), if_pos h]

/-- A newline ends a comment of a line just as it stands between tokens. -/
theorem scanFrom_line {line : List Char} (rest : List Char) (same : '\n' ∉ line)
    (ends : ∀ c ∈ rest.head?, c = '\n') (n : Nat) :
    scanFrom .line n (line ++ rest) = scanFrom .blank (n + line.length) rest := by
  induction line generalizing n with
  | nil =>
    cases rest with
    | nil => rfl
    | cons c rest =>
      obtain rfl : c = '\n' := ends c rfl
      exact (scanFrom_white (c := '\n') rfl n rest).symm
  | cons c line ih =>
    rw [List.mem_cons, not_or] at same
    rw [List.cons_append, scanFrom, if_neg (Ne.symm same.1), ih same.2, List.length_cons,
      Nat.add_right_comm, Nat.add_assoc]

/-- The scan passes over a gap. -/
theorem scanFrom_spacing {behind between : List Char} (h : Spacing behind between) (n : Nat) :
    scanFrom .blank n (between ++ behind) = scanFrom .blank (n + between.length) behind := by
  induction h generalizing n with
  | nil => rfl
  | @white c text hwhite rest ih =>
    rw [List.cons_append, scanFrom_white hwhite, ih, List.length_cons, Nat.add_right_comm,
      Nat.add_assoc]
  | @line line text same ends rest ih =>
    have hline := scanFrom_line (text ++ behind) same ends (n + 2)
    simp only [List.cons_append, List.append_assoc, scanFrom, hline, ih]
    congr 1
    simp only [List.length_cons, List.length_append]
    omega
  | @block comment text hcomment rest ih =>
    rw [List.append_assoc, scanFrom_comment hcomment, ih, List.length_append, Nat.add_assoc]

/-- A comment that stays open was opened in the text that is read. -/
theorem unclosed_ge {n opening : Nat} {text : List Char}
    (h : (scanFrom .blank n text).unclosed = some opening) : n ≤ opening := by
  obtain ⟨between, rest, -, -, hgap | ⟨hgap, -⟩⟩ := reads_scanFrom .blank n text
  · rw [hgap] at h; cases h
  · rw [hgap] at h; cases h; exact Nat.le_add_right ..

/-- A comment at which the scan stops is open: a whole one would have been passed over. -/
theorem openComment_of_unclosed {n : Nat} {text : List Char} (hmark : ['/', '*'] <+: text)
    (h : (scanFrom .blank n text).unclosed = some n) : OpenComment text := by
  refine ⟨hmark, ?_⟩
  rintro comment hcomment ⟨behind, rfl⟩
  rw [scanFrom_comment hcomment] at h
  have hge := unclosed_ge h
  obtain ⟨body, -, rfl⟩ := hcomment
  rw [List.length_cons] at hge
  omega

/-- The gap at the front of a text is one of the grammar, and behind it stands the next lexeme, the
end, or a comment that takes all the rest. -/
theorem scan_eq (text : List Char) :
    ∃ between rest, text = between ++ rest ∧ Spacing rest between ∧
      (scan text = ⟨between.length, none⟩ ∨
        scan text = ⟨text.length, some between.length⟩ ∧ OpenComment rest) := by
  obtain ⟨between, rest, rfl, hspacing, hgap⟩ := reads_scanFrom .blank 0 text
  rw [Nat.zero_add, Nat.zero_add] at hgap
  refine ⟨between, rest, rfl, hspacing, hgap.imp_right fun ⟨hgap, hmark⟩ => ⟨hgap, ?_⟩⟩
  refine openComment_of_unclosed (n := between.length) hmark ?_
  have hpass := scanFrom_spacing hspacing 0
  rw [Nat.zero_add] at hpass
  rw [← hpass, hgap]

theorem le_size (part : GapPart) (n : Nat) (text : List Char) :
    n ≤ (scanFrom part n text).size := by
  fun_induction scanFrom part n text <;> first | exact Nat.le_refl _ | omega

/-- The scan stops at a character that begins neither white space nor a comment. -/
theorem scanFrom_stops_iff {c : Char} {text : List Char} {n : Nat} :
    scanFrom .blank n (c :: text) = ⟨n, none⟩ ↔
      Text.isWhiteSpace c = false ∧ ¬['/', '/'] <+: c :: text ∧ ¬['/', '*'] <+: c :: text := by
  constructor
  · intro h
    have hpast : ∀ part m rest, n < m → scanFrom part m rest ≠ ⟨n, none⟩ := by
      intro part m rest hlt heq
      have hle := le_size part m rest
      rw [heq] at hle
      exact absurd hlt (Nat.not_lt.2 hle)
    refine ⟨?_, ?_, ?_⟩
    · rw [Bool.eq_false_iff]
      intro hwhite
      rw [scanFrom_white hwhite] at h
      exact hpast _ _ _ (Nat.lt_succ_self n) h
    · rintro ⟨rest, heq⟩
      rw [← heq] at h
      exact hpast .line (n + 2) rest (by omega) h
    · rintro ⟨rest, heq⟩
      rw [← heq] at h
      exact hpast (.block n 0) (n + 2) rest (by omega) h
  · rintro ⟨hwhite, hline, hblock⟩
    rw [scanFrom.eq_3, hwhite, if_neg Bool.false_ne_true]
    · rintro rest rfl rfl
      exact hline ⟨rest, rfl⟩
    · rintro rest rfl rfl
      exact hblock ⟨rest, rfl⟩

/-- No gap leads over the mark of a comment that stays open. -/
theorem eq_nil_of_open {behind between : List Char} (h : Spacing behind between)
    (hopen : OpenComment (between ++ behind)) : between = [] := by
  obtain ⟨⟨tail, htail⟩, hwhole⟩ := hopen
  cases h with
  | nil => rfl
  | white hwhite rest =>
    obtain ⟨rfl, -⟩ := List.cons_eq_cons.1 htail
    exact absurd hwhite (by decide)
  | line same ends rest =>
    obtain ⟨-, htail⟩ := List.cons_eq_cons.1 htail
    obtain ⟨hstar, -⟩ := List.cons_eq_cons.1 htail
    exact absurd hstar (by decide)
  | @block comment text hcomment rest =>
    exact absurd ⟨text ++ behind, (List.append_assoc ..).symm⟩ (hwhole comment hcomment)

/-- The scan takes a comment that stays open to the end. -/
theorem scanFrom_open {text : List Char} (h : OpenComment text) (n : Nat) :
    scanFrom .blank n text = ⟨n + text.length, some n⟩ := by
  obtain ⟨between, rest, rfl, hspacing, hgap⟩ := reads_scanFrom .blank n text
  obtain rfl := eq_nil_of_open hspacing h
  rw [List.nil_append] at h hgap ⊢
  rcases hgap with hgap | ⟨hgap, -⟩
  · obtain ⟨⟨tail, rfl⟩, -⟩ := h
    obtain ⟨-, -, hblock⟩ := scanFrom_stops_iff.1 hgap
    exact absurd ⟨tail, rfl⟩ hblock
  · exact hgap

end Gap

end ImpLang
