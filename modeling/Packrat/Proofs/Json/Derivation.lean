import Packrat.Proofs.Building
import Packrat.Proofs.Json.Document

/-! # The documents of trees

Every tree that the JSON grammar builds has the tokens of a document. One production is looked at
at a time.
-/

namespace Packrat.Json

/-- The body of a production has the tokens of a derivation. -/
def Derives (name : String) (body : Tree) : Prop :=
  match name with
  | "members" => ∃ members : Members, body.terminals = members.lexemes.map Lexeme.word
  | "elements" => ∃ elements : Elements, body.terminals = elements.lexemes.map Lexeme.word
  | "member" => ∃ (key : StringText) (value : Document),
      body.terminals = key.1 :: ":".toList :: value.lexemes.map Lexeme.word
  | _ => ∃ document : Document, body.terminals = document.lexemes.map Lexeme.word

variable {body : Tree}

/-- What a rule of the JSON grammar builds from the bodies of its productions. -/
private abbrev Builds (rule : Rule) (tree : Tree) : Prop :=
  rule.Builds parser.grammar.lexicon Derives tree

/-- A text as it stands builds a token of the text. -/
private theorem terminals_of_text {mark : String} (builds : Builds (.text mark) body) :
    body.terminals = [mark.toList] := by
  obtain ⟨offset, rfl⟩ := builds.text
  rfl

/-- A token with a steady pattern has a text that the pattern matches as a whole. -/
private theorem whole_of_token {name : String} {pattern : Pattern} {follow : List CharSet}
    (declared : parser.grammar.lexicon.find? name = some (.pattern pattern))
    (steady : pattern.steady follow = true) (builds : Builds (.token name) body) :
    ∃ raw, pattern.Whole raw ∧ body.terminals = [raw] := by
  obtain ⟨name, rule, caseless, rest, count, offset, lexical, counted, rfl⟩ := builds.leaf
  rw [Terminal.lexical?, declared] at lexical
  cases lexical
  exact ⟨_, Pattern.whole_of_matchCount? steady counted, rfl⟩

private theorem string_of_token (builds : Builds (.token "jsonString") body) :
    ∃ raw : StringText, body.terminals = [raw.1] := by
  obtain ⟨raw, whole, terminals⟩ := whole_of_token string_declared stringPattern_steady builds
  exact ⟨⟨raw, whole⟩, terminals⟩

private theorem number_of_token (builds : Builds (.token "jsonNumber") body) :
    ∃ raw : NumberText, body.terminals = [raw.1] := by
  obtain ⟨raw, whole, terminals⟩ := whole_of_token number_declared numberPattern_steady builds
  exact ⟨⟨raw, whole⟩, terminals⟩

/-- A list between marks has the tokens of the marks and those of the list between them. -/
private theorem between_terminals {left right list : String}
    (builds : Builds (.sequence [.text left, .reference list, .text right]) body) :
    ∃ inner, Derives list inner ∧
      body.terminals = left.toList :: (inner.terminals ++ [right.toList]) := by
  obtain ⟨first, node, last, rfl, opens, here, closes⟩ := builds.triple
  obtain ⟨inner, rfl, derives⟩ := here.named
  refine ⟨inner, derives, ?_⟩
  simp [Tree.terminals, Tree.terminalsAll, terminals_of_text opens, terminals_of_text closes]

/-- Two marks have their own tokens only. -/
private theorem empty_terminals {left right : String}
    (builds : Builds (.sequence [.text left, .text right]) body) :
    body.terminals = [left.toList, right.toList] := by
  obtain ⟨first, last, rfl, opens, closes⟩ := builds.pair
  simp [Tree.terminals, Tree.terminalsAll, terminals_of_text opens, terminals_of_text closes]

/-- A list has its first item, a comma and more, or only its last item. -/
private theorem list_terminals {item list : String}
    (builds : Builds (.ordered [.sequence [.reference item, .text ",", .reference list],
      .reference item]) body) :
    (∃ first more, Derives item first ∧ Derives list more ∧
        body.terminals = first.terminals ++ ",".toList :: more.terminals) ∨
      ∃ last, Derives item last ∧ body.terminals = last.terminals := by
  obtain ⟨rule, among, builds⟩ := builds.orderedAlternative
  simp only [List.mem_cons, List.not_mem_nil, or_false] at among
  rcases among with rfl | rfl
  · obtain ⟨node, comma, node', rfl, here, mark, there⟩ := builds.triple
    obtain ⟨first, rfl, derives⟩ := here.named
    obtain ⟨more, rfl, derives'⟩ := there.named
    refine .inl ⟨first, more, derives, derives', ?_⟩
    simp [Tree.terminals, Tree.terminalsAll, terminals_of_text mark]
  · obtain ⟨last, rfl, derives⟩ := builds.named
    exact .inr ⟨last, derives, rfl⟩

private theorem object_derives (builds : Builds (.ordered
      [.sequence [.text "\x7b", .reference "members", .text "\x7d"],
       .sequence [.text "\x7b", .text "\x7d"]]) body) : Derives "object" body := by
  obtain ⟨rule, among, builds⟩ := builds.orderedAlternative
  simp only [List.mem_cons, List.not_mem_nil, or_false] at among
  rcases among with rfl | rfl
  · obtain ⟨inner, ⟨members, terminals⟩, same⟩ := between_terminals builds
    refine ⟨.object members, ?_⟩
    rw [same, terminals]
    simp [Document.lexemes, Lexeme.word]
  · exact ⟨.emptyObject, empty_terminals builds⟩

private theorem array_derives (builds : Builds (.ordered
      [.sequence [.text "[", .reference "elements", .text "]"],
       .sequence [.text "[", .text "]"]]) body) : Derives "array" body := by
  obtain ⟨rule, among, builds⟩ := builds.orderedAlternative
  simp only [List.mem_cons, List.not_mem_nil, or_false] at among
  rcases among with rfl | rfl
  · obtain ⟨inner, ⟨elements, terminals⟩, same⟩ := between_terminals builds
    refine ⟨.array elements, ?_⟩
    rw [same, terminals]
    simp [Document.lexemes, Lexeme.word]
  · exact ⟨.emptyArray, empty_terminals builds⟩

private theorem members_derives (builds : Builds (.ordered
      [.sequence [.reference "member", .text ",", .reference "members"],
       .reference "member"]) body) : Derives "members" body := by
  rcases list_terminals builds with
    ⟨first, more, ⟨key, value, here⟩, ⟨members, there⟩, same⟩ | ⟨last, ⟨key, value, here⟩, same⟩
  · refine ⟨.more key value members, ?_⟩
    rw [same, here, there]
    simp [Members.lexemes, Lexeme.word]
  · refine ⟨.last key value, ?_⟩
    rw [same, here]
    simp [Members.lexemes, Lexeme.word]

private theorem elements_derives (builds : Builds (.ordered
      [.sequence [.reference "value", .text ",", .reference "elements"],
       .reference "value"]) body) : Derives "elements" body := by
  rcases list_terminals builds with
    ⟨first, more, ⟨item, here⟩, ⟨elements, there⟩, same⟩ | ⟨last, ⟨item, here⟩, same⟩
  · refine ⟨.more item elements, ?_⟩
    rw [same, here, there]
    simp [Elements.lexemes, Lexeme.word]
  · refine ⟨.last item, ?_⟩
    rw [same, here]
    simp [Elements.lexemes]

private theorem member_derives (builds : Builds (.sequence
      [.token "jsonString", .text ":", .reference "value"]) body) : Derives "member" body := by
  obtain ⟨first, colon, node, rfl, token, mark, here⟩ := builds.triple
  obtain ⟨key, raw⟩ := string_of_token token
  obtain ⟨inner, rfl, value, terminals⟩ := here.named
  refine ⟨key, value, ?_⟩
  simp [Tree.terminals, Tree.terminalsAll, raw, terminals_of_text mark, terminals]

private theorem value_derives (builds : Builds (.choice
      [.reference "object", .reference "array", .token "jsonString", .token "jsonNumber",
        .text "true", .text "false", .text "null"]) body) : Derives "value" body := by
  obtain ⟨rule, among, builds⟩ := builds.alternative
  simp only [List.mem_cons, List.not_mem_nil, or_false] at among
  rcases among with rfl | rfl | rfl | rfl | rfl | rfl | rfl
  · obtain ⟨inner, rfl, derives⟩ := builds.named
    exact derives
  · obtain ⟨inner, rfl, derives⟩ := builds.named
    exact derives
  · obtain ⟨raw, terminals⟩ := string_of_token builds
    exact ⟨.string raw, terminals⟩
  · obtain ⟨raw, terminals⟩ := number_of_token builds
    exact ⟨.number raw, terminals⟩
  · exact ⟨.bool true, terminals_of_text builds⟩
  · exact ⟨.bool false, terminals_of_text builds⟩
  · exact ⟨.null, terminals_of_text builds⟩

/-- What the body of a production builds from derivations has the tokens of one. -/
theorem derives_of_builds (name : String) (rule : Rule) (tree : Tree)
    (declared : parser.grammar.productions.find? name = some rule) (builds : Builds rule tree) :
    Derives name tree := by
  have member := Table.mem_of_find?_ofList declared
  simp only [List.mem_cons, Prod.mk.injEq, List.not_mem_nil, or_false] at member
  rcases member with ⟨rfl, rfl⟩ | ⟨rfl, rfl⟩ | ⟨rfl, rfl⟩ | ⟨rfl, rfl⟩ | ⟨rfl, rfl⟩ | ⟨rfl, rfl⟩
  · exact object_derives builds
  · exact members_derives builds
  · exact member_derives builds
  · exact array_derives builds
  · exact elements_derives builds
  · exact value_derives builds

end Packrat.Json
