import Packrat.Proofs.Abnf.RoundTrip
import Packrat.Proofs.Notation.Folding
import Packrat.Proofs.Remainders

/-! # Core rules

The core rules of RFC 5234 are patterns for tokens, and appendix B.1 of the RFC writes them as rules
(`appendix`). A rule of the appendix leaves of every text what its pattern leaves
(`leaves_appendix`). A token is never found at the end of a text, though, so there the two differ in
`LWSP`, which can match nothing.
-/

namespace Packrat.Notation.Abnf

section Appendix

open Numeral

theorem isName_of_letters {text : Text} (letters : text ≠ [] ∧ text.all isLetter = true) :
    isName ['-'] text = true := by
  obtain ⟨filled, all⟩ := letters
  cases text with
  | nil => exact absurd rfl filled
  | cons c rest =>
    obtain ⟨first, others⟩ := Bool.and_eq_true_iff.mp all
    refine Bool.and_eq_true_iff.mpr ⟨first, List.all_eq_true.mpr fun d member => ?_⟩
    rw [isNameChar, List.all_eq_true.mp others d member, Bool.true_or, Bool.true_or]

/-- A name of letters only. -/
def Name.ofLetters (text : String)
    (letters : text.toList ≠ [] ∧ text.toList.all isLetter = true := by decide) : Name :=
  ⟨text.toList, isName_of_letters letters⟩

theorem Repeat.unbounded : ∀ least ∈ (none : Option Count), ∀ most ∈ (none : Option Count),
    least.value ≤ most.value := by
  intro least member
  cases member

/-- Any number of times. -/
def Repeat.any : Repeat := .between none none Repeat.unbounded

/-- The code point of a hexadecimal numeral. -/
def Scalar.hex (digits : String) (numeral : isNumeral 16 digits.toList = true := by decide)
    (valid : (valueOf 16 digits.toList).isValidChar := by decide) : Scalar .hexadecimal :=
  ⟨digits.toList, numeral, valid⟩

namespace Element

/-- The character of a code point. -/
def code (scalar : Scalar .hexadecimal)
    (short : (Number.row .hexadecimal false scalar []).Short := by decide) :
    Element Number.Short :=
  .number (.row .hexadecimal false scalar []) short

/-- The characters between two code points. -/
def codes (low high : Scalar .hexadecimal) (ordered : low.char ≤ high.char := by decide) :
    Element Number.Short :=
  .number (.range .hexadecimal false low high ordered) trivial

/-- A string without a mark. -/
def text (text : String) (plain : '"' ∉ text.toList := by decide) : Element Number.Short :=
  .quoted ⟨none, text.toList, plain⟩

end Element

/-- Elements one after the other. -/
def Concatenation.of (first : Element Number.Short) :
    List (Element Number.Short) → Concatenation Number.Short
  | [] => .last (.of none first)
  | next :: others => .more (.of none first) (of next others)

/-- Alternatives in order. -/
def Alternation.of (first : Concatenation Number.Short) :
    List (Concatenation Number.Short) → Alternation Number.Short
  | [] => .last first
  | next :: others => .more first (of next others)

/-- One of several elements. -/
def Alternation.among (first : Element Number.Short) (more : List (Element Number.Short)) :
    Alternation Number.Short :=
  .of (.of first []) (more.map fun element => .of element [])

/-- The rules of RFC 5234, appendix B.1. -/
def appendix : List (Definition Number.Short) :=
  let cr : Name := .ofLetters "CR"
  let crlf : Name := .ofLetters "CRLF"
  let digit : Name := .ofLetters "DIGIT"
  let htab : Name := .ofLetters "HTAB"
  let lf : Name := .ofLetters "LF"
  let sp : Name := .ofLetters "SP"
  let wsp : Name := .ofLetters "WSP"
  [⟨.ofLetters "ALPHA",
     .among (.codes (.hex "41") (.hex "5A")) [.codes (.hex "61") (.hex "7A")]⟩,
   ⟨.ofLetters "BIT", .among (.text "0") [.text "1"]⟩,
   ⟨.ofLetters "CHAR", .among (.codes (.hex "01") (.hex "7F")) []⟩,
   ⟨cr, .among (.code (.hex "0D")) []⟩,
   ⟨crlf, .of (.of (.reference cr) [.reference lf]) []⟩,
   ⟨.ofLetters "CTL", .among (.codes (.hex "00") (.hex "1F")) [.code (.hex "7F")]⟩,
   ⟨digit, .among (.codes (.hex "30") (.hex "39")) []⟩,
   ⟨.ofLetters "DQUOTE", .among (.code (.hex "22")) []⟩,
   ⟨.ofLetters "HEXDIG", .among (.reference digit)
     [.text "A", .text "B", .text "C", .text "D", .text "E", .text "F"]⟩,
   ⟨htab, .among (.code (.hex "09")) []⟩,
   ⟨lf, .among (.code (.hex "0A")) []⟩,
   ⟨.ofLetters "LWSP", .last (.last (.of (some .any)
     (.group (.of (.of (.reference wsp) []) [.of (.reference crlf) [.reference wsp]]))))⟩,
   ⟨.ofLetters "OCTET", .among (.codes (.hex "00") (.hex "FF")) []⟩,
   ⟨sp, .among (.code (.hex "20")) []⟩,
   ⟨.ofLetters "VCHAR", .among (.codes (.hex "21") (.hex "7E")) []⟩,
   ⟨wsp, .among (.reference sp) [.reference htab]⟩]

/-- The appendix gives the core rules and no others. -/
theorem appendix_names :
    (appendix.map fun definition => definition.name.string) = coreRules.map (·.1) := by
  decide

/-- The rules that the appendix denotes. -/
def appendixRules : List (String × Rule) :=
  appendix.map fun definition => (definition.name.string, definition.body.denote)

/-- The core rules of one character take the characters that the appendix says. -/
theorem agree_appendix : coreRules.all (fun core => core.2.regex.oneOf?.all fun sets =>
    (oneOfWithin appendixRules 2 core.1).any (CharSet.agree sets)) = true := by
  decide +kernel

end Appendix

section Leaves

/-- The characters of `WSP`. -/
private def blanks : CharSet := ⟨[(9, 9), (32, 32)]⟩

/-- A line break, as an expression. -/
private def lineBreak : Regex := .literal ['\r', '\n']

/-- A blank or a line break and a blank, as an expression. -/
private def fold : Regex := .alt (.chars blanks) (.seq lineBreak (.chars blanks))

/-- The text after a line break. -/
private def afterBreak (text : Text) : Option Text :=
  (text.afterOneOf [.single '\r']).bind (Text.afterOneOf [.single '\n'])

/-- The text after a blank or a line break and a blank. -/
private def afterFold (text : Text) : Option Text :=
  (text.afterOneOf [blanks]).or ((afterBreak text).bind (Text.afterOneOf [blanks]))

/-- The patterns of the core rules of more than one character. -/
private theorem coreRules_regex : ∀ core ∈ coreRules, core.2.regex.oneOf? = none →
    (core.1 = "CRLF" ∧ core.2.regex = .seq (.look .textStart) lineBreak) ∨
    (core.1 = "LWSP" ∧ core.2.regex = .seq (.look .textStart) (.repetition 0 none true fold)) := by
  decide +kernel

private theorem steps_lineBreak : lineBreak.Steps afterBreak := by
  intro place
  have both := Regex.Steps.literal_cons (.literal_cons .literal_nil '\n') '\r' place
  simp only [Option.bind_fun_some] at both
  exact both

private theorem steps_fold : fold.Steps afterFold := by
  refine .alt (.chars blanks) (.seq steps_lineBreak (.chars blanks)) fun text => ?_
  cases text with
  | nil => exact .inl rfl
  | cons c rest =>
    by_cases same : c = '\r'
    · subst same
      exact .inl rfl
    · refine .inr ?_
      have other : (CharSet.single '\r').contains c = false :=
        Bool.eq_false_iff.mpr fun belongs => same ((CharSet.contains_single _ _).mp belongs)
      simp [afterBreak, Text.afterOneOf, other]

private theorem length_of_afterBreak {text rest : Text} (taken : afterBreak text = some rest) :
    text.length = rest.length + 2 := by
  obtain ⟨middle, first, second⟩ := Option.bind_eq_some_iff.mp taken
  rw [Text.length_of_afterOneOf first, Text.length_of_afterOneOf second]

private theorem length_of_afterFold {text rest : Text} (taken : afterFold text = some rest) :
    rest.length < text.length := by
  rcases Option.or_eq_some_iff.mp taken with blank | ⟨-, folded⟩
  · exact Text.length_of_afterOneOf blank ▸ Nat.lt_succ_self _
  · obtain ⟨middle, broken, blank⟩ := Option.bind_eq_some_iff.mp folded
    rw [length_of_afterBreak broken, Text.length_of_afterOneOf blank]
    omega

variable {target : Grammar} (plain : target.ignore = [])
  (declared : ∀ definition ∈ appendix,
    target.productions.find? definition.name.string = some definition.body.denote)

include declared in
private theorem declared_of_lookup {name : String} {rule : Rule}
    (found : appendixRules.lookup name = some rule) :
    target.productions.find? name = some rule := by
  obtain ⟨front, back, parts, -⟩ := List.lookup_eq_some_iff.mp found
  have member : (name, rule) ∈ appendixRules := by simp [parts]
  obtain ⟨definition, listed, same⟩ := List.mem_map.mp member
  cases same
  exact declared definition listed

include plain declared

private theorem steps_of_found {name : String} {sets : List CharSet}
    (found : oneOfWithin appendixRules 2 name = some sets) :
    target.Steps (.reference name) (Text.afterOneOf sets) :=
  Grammar.steps_of_oneOfWithin plain (fun _ _ => declared_of_lookup declared) name sets found

private theorem steps_crlf : target.Steps (.reference "CRLF") afterBreak := by
  have cr : target.Steps (.reference "CR") (Text.afterOneOf [.single '\r']) :=
    steps_of_found plain declared rfl
  have lf : target.Steps (.reference "LF") (Text.afterOneOf [.single '\n']) :=
    steps_of_found plain declared rfl
  exact fun text => Grammar.leaves_reference (declared_of_lookup declared rfl)
    (Grammar.leaves_pair (cr text) lf)

/-- The rule that `LWSP` repeats. -/
private theorem steps_either : target.Steps
    (.ordered [.reference "WSP", .sequence [.reference "CRLF", .reference "WSP"]]) afterFold := by
  have spaces : target.Steps (.reference "WSP") (Text.afterOneOf [.single ' ', .single '\t']) :=
    steps_of_found plain declared rfl
  have agrees : CharSet.agree [blanks] [.single ' ', .single '\t'] = true := by decide +kernel
  have wsp : target.Steps (.reference "WSP") (Text.afterOneOf [blanks]) := fun text =>
    Text.afterOneOf_of_agree agrees text ▸ spaces text
  intro text
  have both := Grammar.leaves_ordered_cons (wsp text) (Grammar.leaves_ordered_cons
    (Grammar.leaves_pair (steps_crlf plain declared text) wsp) (Grammar.leaves_ordered_nil text))
  rwa [Option.or_none] at both

/-- Written out, a core rule leaves of every text what its pattern does. -/
theorem leaves_appendix {name : String} {pattern : Pattern} (core : (name, pattern) ∈ coreRules)
    (text : Text) :
    target.Leaves (.reference name) text ((pattern.matchCount? text).map text.drop) := by
  cases single : pattern.regex.oneOf? with
  | some sets =>
    have check := List.all_eq_true.mp agree_appendix _ core
    rw [single, Option.all_some] at check
    obtain ⟨sets', found, agrees⟩ := (Option.any_eq_true _ _).mp check
    rw [Pattern.map_matchCount?_of_oneOf single, Text.afterOneOf_of_agree agrees]
    exact steps_of_found plain declared found text
  | none =>
    rcases coreRules_regex _ core single with ⟨rfl, shape⟩ | ⟨rfl, shape⟩
    · rw [Pattern.map_matchCount?_of_steps shape rfl steps_lineBreak]
      exact steps_crlf plain declared text
    · obtain ⟨rest, exhausts⟩ := Text.exists_exhausts (fun _ _ => length_of_afterFold) text
      rw [Pattern.map_matchCount? shape rfl, steps_fold.exhausts rfl exhausts]
      exact Grammar.leaves_reference (declared_of_lookup declared rfl)
        (Grammar.leaves_exhausts (steps_either plain declared) (fun _ _ => length_of_afterFold)
          exhausts)

end Leaves

section Tokens

/-- The lexical rules of the core rules. -/
def coreTokens : Lexicon := .ofList (coreRules.map fun core => (core.1, LexRule.pattern core.2))

/-- The specification has the tokens of the core rules and ignores nothing. -/
private def Standard (spec : Specification) : Prop := spec.lexicon = coreTokens ∧ spec.ignore = []

private theorem Standard.production {spec : Specification} (standard : Standard spec)
    (name : String) (rule : Except Error Rule) :
    Settles Standard (fun _ => True) (spec.production name rule) := by
  unfold Specification.production
  split
  · trivial
  · split
    · trivial
    · cases rule with
      | ok rule => exact standard
      | error fault => trivial

private theorem foldGrammar_standard (tree : Tree) :
    Settles Standard (fun _ => True) (foldGrammar tree) := by
  unfold foldGrammar
  split
  · rename_i nodes
    have any : Settles (fun _ => True) (fun _ => True) (nodes.foldlM foldRule .empty) := by
      cases nodes.foldlM foldRule .empty <;> trivial
    refine any.bind fun rules _ => Settles.bind
      (Settles.foldlM (fun name _ _ standard => standard.production name _) ⟨rfl, rfl⟩)
      fun spec standard => Settles.foldlM (fun entry _ spec standard => ?_) standard
    cases Rule.alternatives true entry.2 with
    | ok rule => exact standard.production entry.1 (.ok rule)
    | error fault => trivial
  · trivial

/-- A parser that is compiled has the tokens of the core rules, and ignores what it is told to. -/
theorem tokens_of_compile {text : Text} {ignore : List LexRule} {parser : Parser}
    (compiled : abnf.compile text ignore = .ok parser) :
    parser.grammar.lexicon = Lexicon.standard.insertAll coreTokens.entries ∧
      parser.grammar.ignore = ignore := by
  unfold Notation.compile at compiled
  cases read : abnf.read text with
  | error fault =>
    rw [read] at compiled
    cases compiled
  | ok spec =>
    rw [read] at compiled
    cases compiled
    obtain ⟨tree, -, folded⟩ := Error.bind_eq_ok.mp read
    obtain ⟨lexicon, none⟩ := (foldGrammar_standard tree).ok folded
    constructor
    · exact congrArg (fun tokens : Lexicon => Lexicon.standard.insertAll tokens.entries) lexicon
    · exact congrArg (· ++ ignore) none

private theorem find?_coreTokens {name : String} {pattern : Pattern}
    (core : (name, pattern) ∈ coreRules) :
    (Lexicon.standard.insertAll coreTokens.entries).find? name = some (.pattern pattern) := by
  have all : (coreRules.map fun core =>
      (Lexicon.standard.insertAll coreTokens.entries).find? core.1) =
        coreRules.map fun core => some (LexRule.pattern core.2) := rfl
  exact List.map_inj_left.mp all _ core

end Tokens

section Callers

/-- The rule `a`, which is another rule. -/
def caller (name : Name) : Definition Number.Short := ⟨⟨['a'], rfl⟩, .among (.reference name) []⟩

private theorem coreRules_apart : "a" ∉ coreRules.map (·.1) := by decide

section Compiled

variable {name : Name} {pattern : Pattern} (core : (name.string, pattern) ∈ coreRules)

include core

/-- Built in, a core rule takes what its pattern takes, but nothing at the end of a text. -/
theorem exists_builtIn {text : Text} (renders : Renders [caller name] text) :
    ∃ parser, abnf.compile text [] = .ok parser ∧ ∀ cursor, ∃ outcome environment,
      (Environment.start parser.grammar).applyAt? "a" cursor = some (some outcome, environment) ∧
      outcome.stop? = (if cursor.rest = [] then none
        else pattern.matchCount? cursor.rest).map cursor.forward := by
  have distinct : ([caller name].map Definition.name).Nodup := List.nodup_singleton _
  obtain ⟨parser, compiled, productions⟩ :=
    exists_compiled (List.cons_ne_nil _ _) distinct renders []
  obtain ⟨lexicon, plain⟩ := tokens_of_compile compiled
  have listed : name.string ∈ coreRules.map (·.1) := List.mem_map.mpr ⟨_, core, rfl⟩
  have declared : parser.grammar.productions.find? "a" = some (.reference name.string) :=
    (productions _ _).mpr (.inl ⟨_, List.mem_singleton_self _, rfl, rfl⟩)
  have borrowed : parser.grammar.productions.find? name.string = some (.token name.string) := by
    refine (productions _ _).mpr (.inr ⟨listed, fun definition member same => ?_,
      ⟨_, List.mem_singleton_self _, List.mem_singleton_self _⟩, rfl⟩)
    obtain rfl := List.mem_singleton.mp member
    exact coreRules_apart ((show "a" = name.string from same) ▸ listed)
  have known : (Terminal.listed name.string).lexical? parser.grammar.lexicon =
      some (name.string, .pattern pattern, false) := by
    rw [Terminal.lexical?, lexicon, find?_coreTokens core]
    rfl
  refine ⟨parser, compiled, fun cursor => Grammar.exists_applied declared ?_⟩
  have leaves := Grammar.leaves_reference borrowed
    (Grammar.leaves_terminal known plain cursor.rest)
  split at leaves
  · rw [if_pos ‹_›]
    exact leaves
  · rw [if_neg ‹_›]
    exact leaves

/-- Written out, a core rule takes what its pattern takes. -/
theorem exists_writtenOut {text : Text} (renders : Renders (caller name :: appendix) text) :
    ∃ parser, abnf.compile text [] = .ok parser ∧ ∀ cursor, ∃ outcome environment,
      (Environment.start parser.grammar).applyAt? "a" cursor = some (some outcome, environment) ∧
      outcome.stop? = (pattern.matchCount? cursor.rest).map cursor.forward := by
  have distinct : ((caller name :: appendix).map Definition.name).Nodup := by
    have all : (⟨['a'], rfl⟩ : Name) ∉ appendix.map Definition.name ∧
        (appendix.map Definition.name).Nodup := by decide
    exact List.nodup_cons.mpr all
  obtain ⟨parser, compiled, productions⟩ :=
    exists_compiled (List.cons_ne_nil _ _) distinct renders []
  have plain := (tokens_of_compile compiled).2
  have declared (definition : Definition Number.Short)
      (member : definition ∈ caller name :: appendix) :
      parser.grammar.productions.find? definition.name.string = some definition.body.denote :=
    (productions _ _).mpr (.inl ⟨definition, member, rfl, rfl⟩)
  refine ⟨parser, compiled, fun cursor =>
    Grammar.exists_applied (declared _ (List.mem_cons_self ..)) ?_⟩
  exact leaves_appendix plain
    (fun definition member => declared definition (List.mem_cons_of_mem _ member)) core cursor.rest

end Compiled

/-- Only the pattern of `LWSP` matches nothing. -/
private theorem matchCount?_nil : ∀ core ∈ coreRules,
    core.2.matchCount? [] = if core.1 = "LWSP" then some 0 else none := by
  decide +kernel

/-- A core rule matches at the same places of a text whether it is built in or written out as the
appendix has it, and it ends at the same ones. Only at the end of the text `LWSP`, which can match
nothing, does so if it is written out and is rejected as a token. -/
theorem compile_core_rule {name : Name} (core : name.string ∈ coreRules.map (·.1))
    {text text' : Text} (renders : Renders [caller name] text)
    (renders' : Renders (caller name :: appendix) text') :
    ∃ builtIn writtenOut,
      abnf.compile text [] = .ok builtIn ∧ abnf.compile text' [] = .ok writtenOut ∧
      ∀ cursor, ∃ outcome outcome' environment environment',
        (Environment.start builtIn.grammar).applyAt? "a" cursor =
          some (some outcome, environment) ∧
        (Environment.start writtenOut.grammar).applyAt? "a" cursor =
          some (some outcome', environment') ∧
        if name.string = "LWSP" ∧ cursor.rest = [] then
          outcome.stop? = none ∧ outcome'.stop? = some cursor
        else outcome.stop? = outcome'.stop? := by
  obtain ⟨⟨known, pattern⟩, listed, same⟩ := List.mem_map.mp core
  obtain rfl : known = name.string := same
  obtain ⟨builtIn, compiled, applied⟩ := exists_builtIn listed renders
  obtain ⟨writtenOut, compiled', applied'⟩ := exists_writtenOut listed renders'
  refine ⟨builtIn, writtenOut, compiled, compiled', fun cursor => ?_⟩
  obtain ⟨outcome, environment, here, stops⟩ := applied cursor
  obtain ⟨outcome', environment', here', stops'⟩ := applied' cursor
  refine ⟨outcome, outcome', environment, environment', here, here', ?_⟩
  rw [stops, stops']
  by_cases ended : cursor.rest = []
  · have nothing := matchCount?_nil _ listed
    rw [if_pos ended, ended]
    by_cases lwsp : name.string = "LWSP"
    · rw [if_pos ⟨lwsp, rfl⟩, nothing, if_pos lwsp]
      exact ⟨rfl, congrArg some cursor.forward_zero⟩
    · rw [if_neg fun both => lwsp both.1, nothing, if_neg lwsp]
  · rw [if_neg ended, if_neg fun both => ended both.2]

/-- Core rules, and the rule that refers to one, with spaces between the words. -/
theorem compile_core_rule_hexdig :
    let hexdig : Name := .ofLetters "HEXDIG"
    hexdig.string ∈ coreRules.map (·.1) ∧
      Renders [caller hexdig] "a = HEXDIG".toList ∧
      Renders (caller hexdig :: appendix) (print [' '] (caller hexdig :: appendix)) ∧
      ∃ builtIn writtenOut, abnf.compile "a = HEXDIG".toList [] = .ok builtIn ∧
        abnf.compile (print [' '] (caller hexdig :: appendix)) [] = .ok writtenOut ∧
        ∀ cursor, ∃ outcome outcome' environment environment',
          (Environment.start builtIn.grammar).applyAt? "a" cursor =
            some (some outcome, environment) ∧
          (Environment.start writtenOut.grammar).applyAt? "a" cursor =
            some (some outcome', environment') ∧
          outcome.stop? = outcome'.stop? := by
  intro hexdig
  have core : hexdig.string ∈ coreRules.map (·.1) := by decide
  have gap : Gap IsComment [' '] := .blank rfl .nil
  have renders : Renders [caller hexdig] "a = HEXDIG".toList :=
    renders_print gap (List.cons_ne_nil _ _) _
  have renders' := renders_print gap (List.cons_ne_nil _ _) (caller hexdig :: appendix)
  obtain ⟨builtIn, writtenOut, compiled, compiled', applied⟩ :=
    compile_core_rule core renders renders'
  refine ⟨core, renders, renders', builtIn, writtenOut, compiled, compiled', fun cursor => ?_⟩
  obtain ⟨outcome, outcome', environment, environment', here, here', same⟩ := applied cursor
  rw [if_neg fun both => absurd both.1 (by decide)] at same
  exact ⟨outcome, outcome', environment, environment', here, here', same⟩

/-- At the end of a text the built-in `LWSP` is rejected, and the one of the appendix matches. -/
theorem compile_lwsp_at_end :
    let lwsp : Name := .ofLetters "LWSP"
    ∃ builtIn writtenOut, abnf.compile "a = LWSP".toList [] = .ok builtIn ∧
      abnf.compile (print [' '] (caller lwsp :: appendix)) [] = .ok writtenOut ∧
      (∃ reject environment, (Environment.start builtIn.grammar).applyAt? "a" (.start []) =
        some (some (.error reject), environment)) ∧
      ∃ found environment, (Environment.start writtenOut.grammar).applyAt? "a" (.start []) =
        some (some (.ok found), environment) ∧ found.cursor = .start [] := by
  intro lwsp
  obtain ⟨⟨known, pattern⟩, listed, same⟩ :=
    List.mem_map.mp (show lwsp.string ∈ coreRules.map (·.1) by decide)
  obtain rfl : known = lwsp.string := same
  have gap : Gap IsComment [' '] := .blank rfl .nil
  obtain ⟨builtIn, compiled, applied⟩ :=
    exists_builtIn listed (renders_print gap (List.cons_ne_nil _ _) _)
  obtain ⟨writtenOut, compiled', applied'⟩ :=
    exists_writtenOut listed (renders_print gap (List.cons_ne_nil _ _) _)
  obtain ⟨outcome, environment, here, stops⟩ := applied (.start [])
  obtain ⟨outcome', environment', here', stops'⟩ := applied' (.start [])
  have nothing : pattern.matchCount? [] = some 0 := matchCount?_nil _ listed
  rw [show (Cursor.start []).rest = [] from rfl, nothing, Option.map_some,
    Cursor.forward_zero] at stops'
  refine ⟨builtIn, writtenOut, compiled, compiled', ?_, ?_⟩
  · cases outcome with
    | ok found => cases stops
    | error reject => exact ⟨reject, environment, here⟩
  · cases outcome' with
    | ok found => exact ⟨found, environment', here', Option.some.inj stops'⟩
    | error reject => cases stops'

end Callers

end Packrat.Notation.Abnf
