import Packrat.Parser

/-! # The grammar of JSON

Members and elements are right-recursive lists. White space of any kind may stand between
tokens, and a value is exactly one of its forms.
-/

namespace Packrat.Json

/-- The pattern of string tokens. -/
def stringPattern : Pattern :=
  .of "\"(?:\\\\(?:[\"\\\\/bfnrt]|u[0-9a-fA-F]\x7b4\x7d)|[^\"\\\\\\x00-\\x1F\\x7F])*\""

/-- The pattern of number tokens. -/
def numberPattern : Pattern :=
  .of "-?(?:0|[1-9][0-9]*)(?:\\.[0-9]+)?(?:[eE][+-]?[0-9]+)?" Pattern.wellFormed_number

/-- The grammar of JSON texts. -/
def specification : Specification where
  lexicon := .ofList
    [("jsonString", .pattern stringPattern), ("jsonNumber", .pattern numberPattern)]
  ignore := [.pattern (.of "\\s+" Pattern.wellFormed_blanks)]
  productions := .ofList
    [("object", .ordered
       [.sequence [.text "\x7b", .reference "members", .text "\x7d"],
        .sequence [.text "\x7b", .text "\x7d"]]),
     ("members", .ordered
       [.sequence [.reference "member", .text ",", .reference "members"],
        .reference "member"]),
     ("member", .sequence [.token "jsonString", .text ":", .reference "value"]),
     ("array", .ordered
       [.sequence [.text "[", .reference "elements", .text "]"],
        .sequence [.text "[", .text "]"]]),
     ("elements", .ordered
       [.sequence [.reference "value", .text ",", .reference "elements"],
        .reference "value"]),
     ("value", .choice
       [.reference "object", .reference "array", .token "jsonString", .token "jsonNumber",
        .text "true", .text "false", .text "null"])]

/-- The parser of JSON texts. -/
def parser : Parser := specification.parser

theorem string_declared :
    parser.grammar.lexicon.find? "jsonString" = some (.pattern stringPattern) :=
  (Table.find?_insertAll _ _ _).trans rfl

theorem number_declared :
    parser.grammar.lexicon.find? "jsonNumber" = some (.pattern numberPattern) :=
  (Table.find?_insertAll _ _ _).trans rfl

end Packrat.Json
