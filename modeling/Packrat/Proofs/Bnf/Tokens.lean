import Packrat.Proofs.Bnf.Written
import Packrat.Proofs.Ebnf.Tokens

/-! # Tokens of written Backus-Naur form

Which words the terminals of the notation's grammar take after spaces, and before which characters
its rules do not match. The pattern of line ends looks for a further line over any spaces, and gives
them back where the next word is none.
-/

namespace Packrat.Notation.Bnf

open Peg (Quote)
open Ebnf (namePattern spells_name)

/-- The grammar of the notation. -/
abbrev grammar : Grammar := bnf.parser.grammar

section Spaces

/-- The pattern of runs of spaces. -/
def spacePattern : Pattern := .of "[ \\t]+" wellFormed_spaces

theorem ignored : grammar.ignore = [.pattern spacePattern] := rfl

/-- The characters between words. -/
def spaces : CharSet := ⟨[(9, 9), (32, 32)]⟩

theorem contains_spaces (c : Char) : spaces.contains c = isSpace c := by
  rw [Bool.eq_iff_iff]
  simp only [spaces, isSpace, CharSet.contains, CharSet.within, Bool.and_eq_true, Bool.or_eq_true,
    decide_eq_true_eq, Bool.false_eq_true, or_false, ← Char.toNat_inj, Char.reduceToNat]
  omega

private theorem space_regex : spacePattern.regex =
    .seq (.look .textStart) (.repetition 1 none true (.chars spaces)) := by decide +kernel

/-- Nothing is skipped before characters that are no spaces. -/
theorem avoids_of_apart {sets : List CharSet} (apart : Regex.allApart [spaces] sets = true) :
    avoids grammar.ignore sets = true := by
  have begins : (LexRule.pattern spacePattern).begins = some [spaces] := by
    rw [LexRule.begins, space_regex]
    rfl
  rw [ignored, avoids, List.all_cons, begins]
  exact Bool.and_eq_true_iff.mpr ⟨apart, rfl⟩

/-- The other characters. -/
private def solids : CharSet := ⟨[(0, 8), (10, 31), (33, 0x10FFFF)]⟩

private theorem contains_solids {c : Char} (solid : isSpace c = false) :
    solids.contains c = true := by
  have valid : c.toNat < 0xD800 ∨ 0xDFFF < c.toNat ∧ c.toNat < 0x110000 := c.valid
  simp only [isSpace, Bool.or_eq_false_iff, decide_eq_false_iff_not, ← Char.toNat_inj,
    Char.reduceToNat] at solid
  simp only [solids, CharSet.contains, CharSet.within, Bool.and_eq_true, Bool.or_eq_true,
    decide_eq_true_eq, Bool.false_eq_true, or_false]
  omega

/-- A run of spaces is taken as a whole. -/
private theorem matchCount?_spaces {run rest : Text} (filled : run ≠ []) (blank : Spaces run)
    (solid : ∀ c ∈ rest.head?, isSpace c = false) :
    spacePattern.matchCount? (run ++ rest) = some run.length := by
  have steady : spacePattern.steady [solids] = true :=
    Pattern.steady_of_shape space_regex (by decide) (by decide)
  refine Pattern.matchCount?_of_spells steady ?_ fun c first =>
    ⟨_, List.mem_singleton_self _, contains_solids (solid c first)⟩
  have rounds : Regex.Spells (.repetition 1 none true (.chars spaces)) run :=
    .run (fun c member => (contains_spaces c).trans (blank c member))
      (List.length_pos_of_ne_nil filled)
  rw [space_regex]
  exact .seq .look rounds

/-- A text of which nothing is skipped does not begin with a space. -/
private theorem head_solid {text : Text} (clear : Clear grammar.ignore text) :
    ∀ c ∈ text.head?, isSpace c = false := by
  intro c head
  refine Bool.eq_false_iff.mpr fun space => ?_
  obtain ⟨others, rfl⟩ := List.head?_eq_some_iff.mp head
  have solid : ∀ d ∈ ((c :: others).dropWhile isSpace).head?, isSpace d = false := by
    intro d head
    have stops := List.head?_dropWhile_not isSpace (c :: others)
    rw [head] at stops
    simpa using stops
  have filled : (c :: others).takeWhile isSpace ≠ [] := by simp [space]
  have counted := matchCount?_spaces filled (fun d => List.mem_takeWhile_imp) solid
  rw [List.takeWhile_append_dropWhile] at counted
  have none : spacePattern.matchCount? (c :: others) = none :=
    clear (.pattern spacePattern) (by simp [ignored])
  rw [none] at counted
  cases counted

/-- Nothing is skipped of a text that does not begin with a space. -/
theorem clear_of_solid {text : Text} (solid : ∀ c ∈ text.head?, isSpace c = false) :
    Clear grammar.ignore text := by
  refine clear_of_avoids (@avoids_of_apart [solids] (by decide)) fun c head => ?_
  exact ⟨solids, List.mem_singleton_self _, contains_solids (solid c head)⟩

/-- Spaces before a clear text are skipped. -/
theorem skips_spaces {run text : Text} (clear : Clear grammar.ignore text) (blank : Spaces run) :
    Skips grammar.ignore run text := by
  cases run with
  | nil => exact .of_clear clear
  | cons c run =>
    have here : spacePattern.matchCount? (c :: run ++ ([] ++ text)) = some (c :: run).length :=
      matchCount?_spaces nofun blank (head_solid clear)
    have taken : ignoredCount? grammar.ignore (c :: run ++ ([] ++ text)) =
        some (c :: run).length := by
      rw [ignoredCount?, ignored, List.findSome?_cons, LexRule.matchCount?, here]
      rfl
    have skips := Skips.after_piece (List.cons_ne_nil c run) taken (.of_clear clear)
    rwa [List.append_nil] at skips

end Spaces

section Lines

/-- The pattern of line ends. -/
def linePattern : Pattern := .of "(?:[ \\t]*\\r?\\n)+" wellFormed_lineEnd

/-- What takes one line end, after spaces. -/
private def line : Regex :=
  .seq (.repetition 0 none true (.chars spaces))
    (.seq (.repetition 0 (some 1) true (.literal ['\r'])) (.literal ['\n']))

private theorem line_regex : linePattern.regex =
    .seq (.look .textStart) (.repetition 1 none true line) := by decide +kernel

private theorem spells_lineEnd {run : Text} (blank : Spaces run) (carriage : Bool) :
    line.Spells (run ++ lineEnd carriage) := by
  refine .seq (.run (fun c member => (contains_spaces c).trans (blank c member))
    (Nat.zero_le _)) ?_
  cases carriage with
  | true => exact .seq (.once .literal) .literal
  | false => exact .seq .without .literal

/-- Line ends, after spaces, are words of the expression of one of them. -/
private theorem lines_of_lineEnds {word : Text} (ends : LineEnds word) :
    ∀ run, Spaces run → ∃ lines : List Text, lines ≠ [] ∧ lines.flatten = run ++ word ∧
      ∀ piece ∈ lines, line.Spells piece := by
  induction ends with
  | one carriage =>
    intro run blank
    exact ⟨[run ++ lineEnd carriage], List.cons_ne_nil _ _, by simp,
      List.forall_mem_singleton.mpr (spells_lineEnd blank carriage)⟩
  | more carriage blank' _ ih =>
    intro run blank
    obtain ⟨lines, -, same, each⟩ := ih _ blank'
    exact ⟨(run ++ lineEnd carriage) :: lines, List.cons_ne_nil _ _, by simp [same],
      List.forall_mem_cons.mpr ⟨spells_lineEnd blank carriage, each⟩⟩

/-- A line end begins with a carriage return or a newline after its spaces. -/
private theorem head_of_spells {word : Text} (spells : line.Spells word) :
    ∃ c ∈ (word.dropWhile isSpace).head?, c = '\r' ∨ c = '\n' := by
  cases spells with
  | @seq _ _ run word blank back =>
    have space : ∀ c ∈ run, isSpace c = true := fun c member =>
      (contains_spaces c).symm.trans (blank.contains_of_run c member)
    rw [List.dropWhile_append_of_pos space]
    cases back with
    | @seq _ _ carriage newline optional last =>
      cases last
      cases optional with
      | @repetition _ _ _ _ words enough bounded rounds =>
        cases words with
        | nil => exact ⟨'\n', rfl, .inr rfl⟩
        | cons first others =>
          cases rounds first (List.mem_cons_self ..)
          exact ⟨'\r', rfl, .inl rfl⟩

/-- The characters with which a line end begins. -/
def lineStarts : List CharSet := [.single '\r', .single '\n']

theorem LineEnds.begins {word : Text} (ends : LineEnds word) (rest : Text) :
    Text.BeginsIn lineStarts (word ++ rest) := by
  have here (carriage : Bool) (rest : Text) :
      Text.BeginsIn lineStarts (lineEnd carriage ++ rest) := by
    cases carriage <;> exact .single (by simp [lineStarts])
  cases ends with
  | one carriage => exact here carriage rest
  | more carriage _ _ =>
    rw [List.append_assoc]
    exact here carriage _

theorem LineEnds.ne_nil {word : Text} (ends : LineEnds word) : word ≠ [] := by
  cases ends with
  | one carriage => cases carriage <;> exact List.cons_ne_nil _ _
  | more carriage _ _ => cases carriage <;> exact List.cons_ne_nil _ _

/-- After spaces a rule or an alternative begins, or the text ends. -/
abbrev Resumes (text : Text) : Prop := Leads Spaces [.single '<', .single '|'] text

/-- No line end is looked for in vain. -/
private theorem line_ends_eq_nil {place : Place} (resumes : Resumes place.after) :
    line.ends place = [] := by
  obtain ⟨run, rest, blank, after, begins⟩ := resumes
  refine List.eq_nil_iff_forall_not_mem.mpr fun next member => ?_
  obtain ⟨word, taken, -, spells⟩ := Regex.between_ends member
  obtain ⟨c, head, start⟩ := head_of_spells spells
  obtain ⟨others, same⟩ := List.head?_eq_some_iff.mp head
  have left : place.after.dropWhile isSpace = c :: (others ++ next.after) := by
    rw [taken, List.dropWhile_append, if_neg (by simp [same]), same, List.cons_append]
  have right : place.after.dropWhile isSpace = rest.dropWhile isSpace := by
    rw [after, List.dropWhile_append_of_pos blank]
  rw [right] at left
  cases rest with
  | nil => cases left
  | cons d rest =>
    have mark : d = '<' ∨ d = '|' := by
      simpa [CharSet.contains_single] using begins d rfl
    have solid : isSpace d = false := by rcases mark with rfl | rfl <;> decide
    rw [List.dropWhile_cons, if_neg (by simp [solid])] at left
    obtain ⟨rfl, -⟩ := List.cons.inj left
    rcases mark with rfl | rfl <;> revert start <;> decide

/-- Line ends are taken as a whole. -/
theorem matchCount?_lineEnds {word rest : Text} (ends : LineEnds word) (resumes : Resumes rest) :
    linePattern.matchCount? (word ++ rest) = some word.length := by
  refine Pattern.matchCount?_of_prefers line_regex (by decide) fun place after => ?_
  obtain ⟨lines, filled, same, each⟩ := lines_of_lineEnds ends [] nofun
  rw [List.nil_append] at same
  rw [← same] at after ⊢
  have steady : line.steady [.all] = true := by decide
  -- the spaces after the last line end begin one more round, which the mark after them gives up
  refine @Regex.Prefers.repetition _ place _ line.Spells (fun _ => True) ?_
    (fun _ _ _ _ => trivial) _ each trivial _ _ _ rfl ?_ ?_ nofun ?_ after
  · exact fun word rest spells _ place after => Regex.prefers_of_steady steady spells
      (fun c _ => ⟨.all, List.mem_singleton_self _, CharSet.contains_all c⟩) after
  · exact fun word spells => spells.ne_nil (by decide)
  · exact List.length_pos_of_ne_nil filled
  · exact fun _ next after => line_ends_eq_nil (after ▸ resumes)

end Lines

section Literals

/-- The pattern of literals. -/
def textPattern : Pattern :=
  .of "\"(?:[^\"\\\\\\n]|\\\\.)*\"|'(?:[^'\\\\\\n]|\\\\.)*'" wellFormed_text

/-- The characters that stand for themselves between quotes. -/
private def unescaped (quote : Quote) : CharSet :=
  match quote with
  | .single => ⟨[(0, 9), (11, 38), (40, 91), (93, 0x10FFFF)]⟩
  | .double => ⟨[(0, 9), (11, 33), (35, 91), (93, 0x10FFFF)]⟩

private def piece (quote : Quote) : Regex :=
  .alt (.chars (unescaped quote)) (.seq (.literal ['\\']) (.chars (others '\n')))

private def enclosed (quote : Quote) : Regex :=
  .seq (.literal [quote.mark])
    (.seq (.repetition 0 none true (piece quote)) (.literal [quote.mark]))

private theorem text_regex : textPattern.regex =
    .seq (.look .textStart) (.alt (enclosed .double) (enclosed .single)) := by decide +kernel

private theorem contains_unescaped {quote : Quote} {c : Char}
    (plain : c ≠ '\\' ∧ c ≠ quote.mark ∧ c ≠ '\n') : (unescaped quote).contains c = true := by
  have valid : c.toNat < 0xD800 ∨ 0xDFFF < c.toNat ∧ c.toNat < 0x110000 := c.valid
  simp only [ne_eq, ← Char.toNat_inj] at plain
  cases quote <;>
  · simp only [Quote.mark, Char.reduceToNat] at plain
    simp only [unescaped, CharSet.contains, CharSet.within, Bool.and_eq_true, Bool.or_eq_true,
      decide_eq_true_eq, Bool.false_eq_true, or_false]
    omega

/-- The body of a literal is made of pieces, one for every character. -/
private theorem pieces_of_spelled {quote : Quote} {text body : Text}
    (spelled : Spelled quote text body) :
    ∃ words : List Text, words.flatten = body ∧ ∀ word ∈ words, (piece quote).Spells word := by
  have escape {c : Char} (other : c ≠ '\n') : (piece quote).Spells (['\\'] ++ [c]) :=
    .other (.seq .literal (.chars (contains_others other (by decide))))
  induction spelled with
  | nil => exact ⟨[], rfl, nofun⟩
  | plain plain _ ih =>
    obtain ⟨words, rfl, each⟩ := ih
    exact ⟨[_] :: words, rfl,
      List.forall_mem_cons.mpr ⟨.preferred (.chars (contains_unescaped plain)), each⟩⟩
  | escaped marked _ ih =>
    obtain ⟨words, rfl, each⟩ := ih
    refine ⟨['\\', _] :: words, rfl, List.forall_mem_cons.mpr ⟨escape ?_, each⟩⟩
    rcases marked with rfl | rfl | rfl <;> decide
  | newline _ ih =>
    obtain ⟨words, rfl, each⟩ := ih
    exact ⟨['\\', 'n'] :: words, rfl, List.forall_mem_cons.mpr ⟨escape (by decide), each⟩⟩

/-- Every written literal is a word of the pattern of literals. -/
theorem spells_enclose {quote : Quote} {text body : Text} (spelled : Spelled quote text body) :
    textPattern.regex.Spells (enclose quote body) := by
  have rounds : Regex.Spells (.repetition 0 none true (piece quote)) body := by
    obtain ⟨words, rfl, each⟩ := pieces_of_spelled spelled
    exact .repetition (Nat.zero_le _) nofun each
  have here : (enclosed quote).Spells (enclose quote body) :=
    @Regex.Spells.seq _ _ [quote.mark] _ .literal (.seq rounds .literal)
  rw [text_regex]
  cases quote with
  | single => exact .seq .look (.other here)
  | double => exact .seq .look (.preferred here)

theorem stripQuotes_enclose (quote : Quote) (body : Text) :
    Escape.stripQuotes (enclose quote body) = body := by
  rw [Escape.stripQuotes, enclose, List.tail_cons, List.dropLast_concat]

/-- Reading the body of a literal gives the text that it stands for. -/
theorem unescape_spelled {quote : Quote} {text body : Text} (spelled : Spelled quote text body) :
    Escape.unescape language body = .ok text := by
  suffices resolved : ∀ whole, Escape.resolve language whole body = .ok text from resolved body
  intro whole
  induction spelled with
  | nil => rfl
  | plain plain _ ih => simp [Escape.resolve, plain.1, ih, Except.map]
  | escaped marked _ ih =>
    rcases marked with rfl | rfl | rfl <;> simp [Escape.resolve, Escape.short?, ih, Except.map]
  | newline _ ih => simp [Escape.resolve, Escape.short?, ih, Except.map]

end Literals

section Productions

theorem syntax_declared : grammar.productions.find? "syntax" = some (.sequence
    [.optional (.token "line-end"), .oneOrMore (.reference "rule")]) :=
  (Table.find?_ofList _ _).trans rfl

/-- What ends a rule: its line, or the text. -/
def ending : Rule := .ordered [.token "line-end", .absent .anyChar]

theorem rule_declared : grammar.productions.find? "rule" = some (.sequence
    [.text "<", .token "rule-name", .text ">", .text "::=", .reference "expression", ending]) :=
  (Table.find?_ofList _ _).trans rfl

/-- An alternative after the first, whose bar may begin a new line. -/
def alternative : Rule :=
  .sequence [.optional (.token "line-end"), .text "|", .reference "list"]

theorem expression_declared : grammar.productions.find? "expression" = some (.sequence
    [.reference "list", .zeroOrMore alternative]) :=
  (Table.find?_ofList _ _).trans rfl

/-- A term of an alternative. -/
def term : Rule := .ordered [.reference "reference", .reference "literal"]

theorem list_declared : grammar.productions.find? "list" = some (.oneOrMore term) :=
  (Table.find?_ofList _ _).trans rfl

theorem reference_declared : grammar.productions.find? "reference" = some (.sequence
    [.text "<", .token "rule-name", .text ">"]) :=
  (Table.find?_ofList _ _).trans rfl

theorem literal_declared : grammar.productions.find? "literal" = some (.token "text") :=
  (Table.find?_ofList _ _).trans rfl

end Productions

section Words

variable {run rest : Text} (blank : Spaces run)

/-- The characters with which the marks of the notation begin. -/
def markStarts : Text := "<>:|".toList

private theorem marks_apart :
    (markStarts.all fun c => Regex.allApart [spaces] [.single c]) = true := by decide

include blank

theorem takes_mark {mark : String} {c : Char} {others : Text} (chars : mark.toList = c :: others)
    (known : c ∈ markStarts) :
    grammar.Takes (.text mark) (run ++ (mark.toList ++ rest)) rest fun tree =>
      ∃ offset, tree = .token ⟨.rule mark, mark.toList, offset⟩ := by
  have clear : Clear grammar.ignore (mark.toList ++ rest) := by
    refine clear_of_avoids (avoids_of_apart (List.all_eq_true.mp marks_apart c known)) ?_
    rw [chars]
    exact .single (List.mem_singleton_self _)
  exact (skips_spaces clear blank).takes_text (by simp [chars])

/-- A name is taken before spaces or the mark that closes it. -/
theorem takes_name (name : Name) (ends : rest.BeginsIn [spaces, .single '>']) :
    grammar.Takes (.token "rule-name") (run ++ (name.1 ++ rest)) rest fun tree =>
      ∃ offset, tree = .token ⟨.rule "rule-name", name.1, offset⟩ := by
  have declared : grammar.lexicon.find? "rule-name" = some (.pattern namePattern) :=
    (Table.find?_insertAll _ _ _).trans rfl
  exact Skips.takes_spelled (fun _ clear => skips_spaces clear blank) declared (by decide +kernel)
    (by decide +kernel) (by decide +kernel) (spells_name name) ends

theorem takes_literal {quote : Quote} {text body : Text} (spelled : Spelled quote text body) :
    grammar.Takes (.token "text") (run ++ (enclose quote body ++ rest)) rest fun tree =>
      ∃ offset, tree = .token ⟨.rule "text", enclose quote body, offset⟩ := by
  have declared : grammar.lexicon.find? "text" = some (.pattern textPattern) :=
    (Table.find?_insertAll _ _ _).trans rfl
  have steady : textPattern.steady [.all] = true :=
    Pattern.steady_of_shape text_regex (by decide) (by decide)
  have solid : textPattern.regex.nullable = false := by
    rw [text_regex]
    rfl
  have apart : Regex.allApart [spaces] textPattern.regex.begins = true := by
    rw [text_regex]
    decide
  exact Skips.takes_spelled (fun _ clear => skips_spaces clear blank) declared steady solid
    (avoids_of_apart apart) (spells_enclose spelled)
    (fun c _ => ⟨.all, List.mem_singleton_self _, CharSet.contains_all c⟩)

theorem takes_lineEnds {word : Text} (ends : LineEnds word) (resumes : Resumes rest) :
    grammar.Takes (.token "line-end") (run ++ (word ++ rest)) rest fun _ => True := by
  have declared : grammar.lexicon.find? "line-end" = some (.pattern linePattern) :=
    (Table.find?_insertAll _ _ _).trans rfl
  have begins : Text.BeginsIn lineStarts (word ++ rest) := ends.begins rest
  have skips := skips_spaces (clear_of_avoids (avoids_of_apart (by decide)) begins) blank
  exact (skips.takes_token declared ends.ne_nil (matchCount?_lineEnds ends resumes)).mono
    fun _ _ => trivial

/-- After spaces nothing is left at the end of the text. -/
theorem refuses_anyChar : grammar.Refuses .anyChar run := by
  have clear : Clear grammar.ignore [] :=
    clear_of_avoids (avoids_of_apart rfl) (@Text.BeginsIn.nil [])
  have refuses : grammar.Refuses .anyChar (run ++ []) :=
    Skips.refuses_terminal rfl (skips_spaces clear blank) (.inl rfl)
  rwa [List.append_nil] at refuses

end Words

section Marks

/-- A rule does not match before characters that it does not begin with. -/
theorem refuses_of_leads {rule : Rule} {sets : List CharSet} {text : Text}
    (shunned : grammar.shuns 5 rule sets = true) (leads : Leads Spaces sets text) :
    grammar.Refuses rule text := by
  obtain ⟨rank, ranked⟩ := bnf_agrees.tame.ranked
  obtain ⟨run, rest, blank, rfl, begins⟩ := leads
  have clear := Grammar.clear_of_shuns shunned begins
  exact (skips_spaces clear blank).refuses_of_shuns ranked shunned begins

/-- Characters with which the rules of the notation do not begin. -/
@[mk_iff]
structure Shunning : Prop where
  reference : grammar.shuns 5 (.reference "reference") [.single '"', .single '\''] = true
  term : grammar.shuns 5 term (.single '|' :: lineStarts) = true
  lineEnd : grammar.shuns 5 (.token "line-end") [.single '<', .single '|'] = true
  bar : grammar.shuns 5 (.text "|") [.single '<'] = true
  rule : grammar.shuns 5 (.reference "rule") [] = true

theorem shunning : Shunning := by
  rw [shunning_iff]
  decide +kernel

end Marks

end Packrat.Notation.Bnf
