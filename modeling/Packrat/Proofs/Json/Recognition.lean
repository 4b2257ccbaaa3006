import Packrat.Proofs.Json.Reading

/-! # Documents are recognised

Wherever the tokens of a document stand in a text, the grammar takes exactly them, and the tree
that it builds folds into what is read off the document.
-/

namespace Packrat.Json

/-- The JSON grammar has no left recursion, and no two forms of a value begin alike. -/
theorem tame : parser.grammar.Tame :=
  @Grammar.Tame.of_checks _ ["object", "array", "value", "member", "members", "elements"] 3
    (by decide +kernel) (by decide +kernel)

private theorem ignored : parser.grammar.ignore = .blanks :: [] := rfl

/-- The forms of a value. -/
def forms : List Rule :=
  [.reference "object", .reference "array", .token "jsonString", .token "jsonNumber",
    .text "true", .text "false", .text "null"]

section Productions

theorem value_declared :
    parser.grammar.productions.find? "value" = some (.choice forms) :=
  (Table.find?_ofList _ _).trans rfl

private theorem object_declared : parser.grammar.productions.find? "object" = some (.ordered
    [.sequence [.text "\x7b", .reference "members", .text "\x7d"],
     .sequence [.text "\x7b", .text "\x7d"]]) :=
  (Table.find?_ofList _ _).trans rfl

private theorem members_declared : parser.grammar.productions.find? "members" = some (.ordered
    [.sequence [.reference "member", .text ",", .reference "members"],
     .reference "member"]) :=
  (Table.find?_ofList _ _).trans rfl

private theorem member_declared : parser.grammar.productions.find? "member" = some (.sequence
    [.token "jsonString", .text ":", .reference "value"]) :=
  (Table.find?_ofList _ _).trans rfl

private theorem array_declared : parser.grammar.productions.find? "array" = some (.ordered
    [.sequence [.text "[", .reference "elements", .text "]"],
     .sequence [.text "[", .text "]"]]) :=
  (Table.find?_ofList _ _).trans rfl

private theorem elements_declared : parser.grammar.productions.find? "elements" = some (.ordered
    [.sequence [.reference "value", .text ",", .reference "elements"],
     .reference "value"]) :=
  (Table.find?_ofList _ _).trans rfl

end Productions

/-- The characters that come after a token with a pattern. -/
private def closers : List CharSet :=
  [.blank, .single ',', .single ':', .single ']', .single '\x7d']

private theorem closed_of_mark {run : Text} (c : Char) (rest : Text)
    (blank : ∀ c ∈ run, CharClass.isBlank c = true) (mark : CharSet.single c ∈ closers) :
    Text.BeginsIn closers (run ++ (c :: rest)) :=
  .after_blanks blank (List.mem_cons_self ..) (.single mark)

section Tokens

variable {run rest : Text} (blank : ∀ c ∈ run, CharClass.isBlank c = true)

include blank

private theorem takes_mark {mark : String} {c : Char} {others : Text}
    (chars : mark.toList = c :: others) (known : c ∈ "\x7b\x7d[]:,tfn".toList) :
    parser.grammar.Takes (.text mark) (run ++ (mark.toList ++ rest)) rest fun tree =>
      ∃ offset, tree = .token ⟨.rule mark, mark.toList, offset⟩ := by
  have avoided : ("\x7b\x7d[]:,tfn".toList.all fun c =>
      avoids parser.grammar.ignore [.single c]) = true := by decide +kernel
  exact Grammar.takes_text ignored blank chars (List.all_eq_true.mp avoided c known)

private theorem takes_string (raw : StringText) (closed : rest.BeginsIn closers) :
    parser.grammar.Takes (.token "jsonString") (run ++ (raw.1 ++ rest)) rest fun tree =>
      ∃ offset, tree = .token ⟨.rule "jsonString", raw.1, offset⟩ :=
  Grammar.takes_token ignored blank string_declared (by decide +kernel)
    (by decide +kernel) (by decide +kernel) (Pattern.spells_of_whole raw.2) closed

private theorem takes_number (raw : NumberText) (closed : rest.BeginsIn closers) :
    parser.grammar.Takes (.token "jsonNumber") (run ++ (raw.1 ++ rest)) rest fun tree =>
      ∃ offset, tree = .token ⟨.rule "jsonNumber", raw.1, offset⟩ :=
  Grammar.takes_token ignored blank number_declared (by decide +kernel)
    (by decide +kernel) (by decide +kernel) (Pattern.spells_of_whole raw.2) closed

/-- A rule refuses what begins with a mark that it does not begin with. -/
private theorem refuses_mark {rule : Rule} {c : Char}
    (shunned : parser.grammar.shuns 4 rule [.single c] = true) :
    parser.grammar.Refuses rule (run ++ (c :: rest)) := by
  obtain ⟨rank, ranked⟩ := tame.ranked
  exact Grammar.refuses_of_shuns ignored blank ranked shunned (.single (List.mem_singleton_self _))

end Tokens

private theorem takes_value {rule : Rule} {text rest : Text} {document : Document}
    (member : rule ∈ forms)
    (here : parser.grammar.Takes rule text rest fun tree => toValue tree = document.read) :
    parser.grammar.Takes (.reference "value") text rest fun tree =>
      ∃ body, tree = .named "value" body ∧ toValue body = document.read := by
  obtain ⟨rank, ranked⟩ := tame.ranked
  have exclusive := tame.exclusive _ _ value_declared _ (List.mem_cons_self ..)
  refine Grammar.takes_reference value_declared ?_
  refine Grammar.takes_choice exclusive member
    (fun rule _ cursor => Grammar.exists_gives ranked rule cursor) ?_
  exact here.mono fun tree folded => ⟨tree, rfl, folded⟩

/-- The tokens stand in the text before the rest. -/
abbrev Stand (lexemes : List Lexeme) (text rest : Text) : Prop :=
  Spaced (fun _ => True) (lexemes.map Lexeme.word) text rest

theorem stand_cons {lexeme : Lexeme} {lexemes : List Lexeme} {text rest : Text}
    (stand : Stand (lexeme :: lexemes) text rest) :
    ∃ run middle, (∀ c ∈ run, CharClass.isBlank c = true) ∧
      text = run ++ (lexeme.word ++ middle) ∧ Stand lexemes middle rest := by
  obtain ⟨run, middle, blank, same, -, more⟩ := Spaced.cons_iff.mp stand
  exact ⟨run, middle, blank, same, more⟩

theorem stand_append {lexemes lexemes' : List Lexeme} {text rest : Text}
    (stand : Stand (lexemes ++ lexemes') text rest) :
    ∃ middle, Stand lexemes text middle ∧ Stand lexemes' middle rest := by
  rw [Stand, List.map_append] at stand
  exact Spaced.append_iff.mp stand

/-- The only token stands right before the rest. -/
theorem stand_single {lexeme : Lexeme} {text rest : Text}
    (stand : Stand [lexeme] text rest) :
    ∃ run, (∀ c ∈ run, CharClass.isBlank c = true) ∧ text = run ++ (lexeme.word ++ rest) := by
  obtain ⟨run, middle, blank, same, more⟩ := stand_cons stand
  cases more
  exact ⟨run, blank, same⟩

/-- What a rule for a member takes, given what the rule for its value takes. -/
private theorem takes_member {key : StringText} {document : Document} {text rest : Text}
    (takes : ∀ {text : Text}, Stand document.lexemes text rest →
      parser.grammar.Takes (.reference "value") text rest fun tree =>
        ∃ body, tree = .named "value" body ∧ toValue body = document.read)
    (stand : Stand (.string key.1 :: .mark ":" :: document.lexemes) text rest) :
    parser.grammar.Takes (.reference "member") text rest fun tree =>
      ∃ body, tree = .named "member" body ∧ toNamedMember "member" body =
        (do let key ← stringOf key.1; return (key, ← document.read)) := by
  obtain ⟨run, middle, blank, rfl, colon⟩ := stand_cons stand
  obtain ⟨run', middle', blank', rfl, value⟩ := stand_cons colon
  have closed := closed_of_mark ':' middle' blank' (by simp [closers])
  refine Grammar.takes_reference member_declared (Grammar.takes_sequence ?_)
  refine .cons (takes_string blank key closed) ?_
  rintro _ ⟨offset, rfl⟩
  refine .cons (takes_mark blank' rfl (by decide)) ?_
  rintro _ ⟨offset', rfl⟩
  refine .cons (takes value) ?_
  rintro _ ⟨body, rfl, folded⟩
  refine .nil ⟨_, rfl, ?_⟩
  simp only [toNamedMember, toNamedValue, if_true, folded]

/-- The mark is the next thing in the text that is no blank. -/
private def Ahead (mark : Char) (text : Text) : Prop :=
  ∃ run rest, (∀ c ∈ run, CharClass.isBlank c = true) ∧ text = run ++ (mark :: rest)

/-- A list between marks is taken, if the rule for it takes it. -/
private theorem takes_between {left right : String} {c d : Char} {others others' : Text}
    {rule : Rule} {rules : List Rule} {lexemes : List Lexeme} {text rest : Text}
    {holds holds' : Tree → Prop} (chars : left.toList = c :: others)
    (chars' : right.toList = d :: others') (known : c ∈ "\x7b\x7d[]:,tfn".toList)
    (known' : d ∈ "\x7b\x7d[]:,tfn".toList)
    (stand : Stand (.mark left :: (lexemes ++ [.mark right])) text rest)
    (takes : ∀ {text rest : Text}, Stand lexemes text rest → Ahead d rest →
      parser.grammar.Takes rule text rest holds)
    (folds : ∀ first node last, holds node → holds' (.array [first, node, last])) :
    parser.grammar.Takes (.ordered (.sequence [.text left, rule, .text right] :: rules)) text rest
      holds' := by
  obtain ⟨run, middle, blank, rfl, inner⟩ := stand_cons stand
  obtain ⟨middle', inside, last⟩ := stand_append inner
  obtain ⟨run', blank', rfl⟩ := stand_single last
  have ahead : Ahead d (run' ++ ((Lexeme.mark right).word ++ rest)) :=
    ⟨run', others' ++ rest, blank', by rw [Lexeme.word, chars', List.cons_append]⟩
  refine Grammar.takes_ordered_head (Grammar.takes_sequence ?_)
  refine .cons (takes_mark blank chars known) fun first _ => ?_
  refine .cons (takes inside ahead) fun node folded => ?_
  refine .cons (takes_mark blank' chars' known') fun last _ => ?_
  exact .nil (folds first node last folded)

/-- Marks with nothing between them are taken, if the rule for what could be there refuses. -/
private theorem takes_nothing_between {left right : String} {c d : Char} {others others' : Text}
    {rule : Rule} {text rest : Text} {holds : Tree → Prop} (chars : left.toList = c :: others)
    (chars' : right.toList = d :: others') (known : c ∈ "\x7b\x7d[]:,tfn".toList)
    (known' : d ∈ "\x7b\x7d[]:,tfn".toList)
    (stand : Stand [.mark left, .mark right] text rest)
    (shunned : parser.grammar.shuns 4 rule [.single d] = true)
    (folds : ∀ first last, holds (.array [first, last])) :
    parser.grammar.Takes (.ordered [.sequence [.text left, rule, .text right],
      .sequence [.text left, .text right]]) text rest holds := by
  obtain ⟨run, middle, blank, rfl, inner⟩ := stand_cons stand
  obtain ⟨run', blank', rfl⟩ := stand_single inner
  have refuses : parser.grammar.Refuses rule (run' ++ ((Lexeme.mark right).word ++ rest)) := by
    rw [Lexeme.word, chars']
    exact refuses_mark blank' shunned
  refine Grammar.takes_ordered_tail (Grammar.refuses_sequence ?_)
    (Grammar.takes_ordered_head (Grammar.takes_sequence ?_))
  · exact .tail (takes_mark blank chars known) (.head refuses)
  · refine .cons (takes_mark blank chars known) fun first _ => ?_
    refine .cons (takes_mark blank' chars' known') fun last _ => ?_
    exact .nil (folds first last)

/-- A list is its first item, a comma and more of it, where that stands. -/
private theorem takes_more {item list : Rule} {lexemes lexemes' : List Lexeme}
    {rules : List Rule} {text rest : Text} {holds holds' : Tree → Prop} {all : Tree → Prop}
    (stand : Stand (lexemes ++ .mark "," :: lexemes') text rest)
    (first : ∀ {text rest : Text}, Stand lexemes text rest → rest.BeginsIn closers →
      parser.grammar.Takes item text rest holds)
    (more : ∀ {text : Text}, Stand lexemes' text rest →
      parser.grammar.Takes list text rest holds')
    (folds : ∀ node comma node', holds node → holds' node' → all (.array [node, comma, node'])) :
    parser.grammar.Takes (.ordered (.sequence [item, .text ",", list] :: rules)) text rest all := by
  obtain ⟨middle, front, back⟩ := stand_append stand
  obtain ⟨run, middle', blank, rfl, others⟩ := stand_cons back
  have closed := closed_of_mark ',' middle' blank (by simp [closers])
  refine Grammar.takes_ordered_head (Grammar.takes_sequence ?_)
  refine .cons (first front closed) fun node here => ?_
  refine .cons (takes_mark blank rfl (by decide)) fun comma _ => ?_
  refine .cons (more others) fun node' there => ?_
  exact .nil (folds node comma node' here there)

/-- A list is its first item where no comma comes. -/
private theorem takes_last {item list : Rule} {text rest : Text} {d : Char}
    {holds : Tree → Prop} (closer : d = ']' ∨ d = '\x7d') (ahead : Ahead d rest)
    (here : rest.BeginsIn closers → parser.grammar.Takes item text rest holds) :
    parser.grammar.Takes (.ordered [.sequence [item, .text ",", list], item]) text rest holds := by
  obtain ⟨run, after, blank, rfl⟩ := ahead
  have takes := here (closed_of_mark d after blank (by rcases closer with rfl | rfl <;> simp [closers]))
  have refuses : parser.grammar.Refuses (.text ",") (run ++ (d :: after)) :=
    refuses_mark blank (by rcases closer with rfl | rfl <;> decide +kernel)
  refine Grammar.takes_ordered_tail (Grammar.refuses_sequence ?_)
    (Grammar.takes_ordered_head takes)
  exact .tail takes (.head refuses)

mutual

/-- A value is taken as far as its tokens go. -/
private theorem takes_document : ∀ (document : Document) {text rest : Text},
    Stand document.lexemes text rest → rest.BeginsIn closers →
      parser.grammar.Takes (.reference "value") text rest fun tree =>
        ∃ body, tree = .named "value" body ∧ toValue body = document.read
  | .object members, text, rest, stand, closed => by
      refine takes_value (List.mem_cons_self ..) (Grammar.takes_reference object_declared ?_)
      refine takes_between rfl rfl (by decide) (by decide) stand (takes_members members) ?_
      intro first node last folded
      simp only [toValue, toObject, folded, Document.read, if_true]
  | .emptyObject, text, rest, stand, closed => by
      refine takes_value (List.mem_cons_self ..) (Grammar.takes_reference object_declared ?_)
      refine takes_nothing_between rfl rfl (by decide) (by decide) stand (by decide +kernel) ?_
      intro first last
      simp only [toValue, toObject, Document.read, if_true]
  | .array elements, text, rest, stand, closed => by
      have form : Rule.reference "array" ∈ forms := by simp [forms]
      refine takes_value form (Grammar.takes_reference array_declared ?_)
      refine takes_between rfl rfl (by decide) (by decide) stand (takes_elements elements) ?_
      intro first node last folded
      simp [toValue, toArray, folded, Document.read]
  | .emptyArray, text, rest, stand, closed => by
      have form : Rule.reference "array" ∈ forms := by simp [forms]
      refine takes_value form (Grammar.takes_reference array_declared ?_)
      refine takes_nothing_between rfl rfl (by decide) (by decide) stand (by decide +kernel) ?_
      intro first last
      simp [toValue, toArray, Document.read]
  | .string raw, text, rest, stand, closed => by
      obtain ⟨run, blank, rfl⟩ := stand_single stand
      have form : Rule.token "jsonString" ∈ forms := by simp [forms]
      refine takes_value form ((takes_string blank raw closed).mono ?_)
      rintro _ ⟨offset, rfl⟩
      rfl
  | .number raw, text, rest, stand, closed => by
      obtain ⟨run, blank, rfl⟩ := stand_single stand
      have form : Rule.token "jsonNumber" ∈ forms := by simp [forms]
      refine takes_value form ((takes_number blank raw closed).mono ?_)
      rintro _ ⟨offset, rfl⟩
      rfl
  | .bool true, text, rest, stand, closed => by
      obtain ⟨run, blank, rfl⟩ := stand_single stand
      have form : Rule.text "true" ∈ forms := by simp [forms]
      refine takes_value form ((takes_mark blank rfl (by decide)).mono ?_)
      rintro _ ⟨offset, rfl⟩
      rfl
  | .bool false, text, rest, stand, closed => by
      obtain ⟨run, blank, rfl⟩ := stand_single stand
      have form : Rule.text "false" ∈ forms := by simp [forms]
      refine takes_value form ((takes_mark blank rfl (by decide)).mono ?_)
      rintro _ ⟨offset, rfl⟩
      rfl
  | .null, text, rest, stand, closed => by
      obtain ⟨run, blank, rfl⟩ := stand_single stand
      have form : Rule.text "null" ∈ forms := by simp [forms]
      refine takes_value form ((takes_mark blank rfl (by decide)).mono ?_)
      rintro _ ⟨offset, rfl⟩
      rfl

/-- The members of an object are taken up to its closing mark. -/
private theorem takes_members : ∀ (members : Members) {text rest : Text},
    Stand members.lexemes text rest → Ahead '\x7d' rest →
      parser.grammar.Takes (.reference "members") text rest fun tree =>
        toMembers tree = members.read
  | .last key value, text, rest, stand, ahead => by
      refine Grammar.takes_reference members_declared (takes_last (.inr rfl) ahead fun closed => ?_)
      have member := takes_member (takes_document value · closed) stand
      refine member.mono ?_
      rintro _ ⟨body, rfl, folded⟩
      simp only [toMembers, toMemberList, if_true, folded, Members.read, bind_assoc, pure_bind]
  | .more key value others, text, rest, stand, ahead => by
      refine Grammar.takes_reference members_declared ?_
      have stand' : Stand ((.string key.1 :: .mark ":" :: value.lexemes) ++
        .mark "," :: others.lexemes) text rest := stand
      refine takes_more stand'
        (fun stand closed => takes_member (takes_document value · closed) stand)
        (fun stand => takes_members others stand ahead) ?_
      rintro _ comma node' ⟨body, rfl, folded⟩ folded'
      simp only [toMembers, toMemberList, toMember, if_true, folded, folded', Members.read,
        bind_assoc, pure_bind]

/-- The elements of an array are taken up to its closing mark. -/
private theorem takes_elements : ∀ (elements : Elements) {text rest : Text},
    Stand elements.lexemes text rest → Ahead ']' rest →
      parser.grammar.Takes (.reference "elements") text rest fun tree =>
        toElements tree = elements.read
  | .last item, text, rest, stand, ahead => by
      refine Grammar.takes_reference elements_declared (takes_last (.inl rfl) ahead fun closed => ?_)
      refine (takes_document item stand closed).mono ?_
      rintro _ ⟨body, rfl, folded⟩
      simp only [toElements, toElementList, if_true, folded, Elements.read]
  | .more item others, text, rest, stand, ahead => by
      refine Grammar.takes_reference elements_declared ?_
      refine takes_more stand (takes_document item)
        (fun stand => takes_elements others stand ahead) ?_
      rintro _ comma node' ⟨body, rfl, folded⟩ folded'
      simp only [toElements, toElementList, toNamedValue, if_true, folded, folded',
        Elements.read]

end

/-- The text of a document is parsed, and its tree folds into what is read off the document. -/
theorem parseAll_of_writes {document : Document} {text : Text} (writes : document.Writes text) :
    ∃ tree, parser.parseAll "value" text = .ok tree ∧ toValue tree = document.read := by
  obtain ⟨rest, stand, blank⟩ := writes
  have closed : rest.BeginsIn closers :=
    List.append_nil rest ▸ .after_blanks blank (List.mem_cons_self ..) .nil
  have takes := takes_document document stand closed
  obtain ⟨tree, parsed, body, same, folded⟩ :=
    Parser.parseAll_of_takes ignored (by decide +kernel) takes blank
  cases same
  exact ⟨tree, parsed, folded⟩

end Packrat.Json
