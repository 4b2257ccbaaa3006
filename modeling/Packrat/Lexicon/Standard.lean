import Packrat.Lexicon.Rule

/-! # Standard tokens

The lexical rules that every parser has unless its specification replaces them.
-/

namespace Packrat

/-- The pattern of a source that is well formed. -/
def Pattern.of (source : String)
    (wellFormed : (Pattern.ofSource? source).isSome = true := by decide +kernel) : Pattern :=
  (Pattern.ofSource? source).get wellFormed

namespace Pattern

/-- The sources of patterns that more than one lexical rule has. -/
def sharedSources : List String :=
  ["[A-Za-z]", "[0-9]", "[0-9A-Fa-f]", "[01]", "[A-Za-z_][A-Za-z0-9_]*",
    "[A-Za-z][A-Za-z0-9_\\-]*", "-?(?:0|[1-9][0-9]*)(?:\\.[0-9]+)?(?:[eE][+-]?[0-9]+)?", "\\s+"]

theorem wellFormed_of_shared {source : String} (shared : source ∈ sharedSources) :
    (ofSource? source).isSome = true := by
  have all : (sharedSources.all fun source => (ofSource? source).isSome) = true := by
    decide +kernel
  exact List.all_eq_true.mp all source shared

theorem wellFormed_letter : (ofSource? "[A-Za-z]").isSome = true :=
  wellFormed_of_shared (by simp [sharedSources])

theorem wellFormed_digit : (ofSource? "[0-9]").isSome = true :=
  wellFormed_of_shared (by simp [sharedSources])

theorem wellFormed_hexDigit : (ofSource? "[0-9A-Fa-f]").isSome = true :=
  wellFormed_of_shared (by simp [sharedSources])

theorem wellFormed_bit : (ofSource? "[01]").isSome = true :=
  wellFormed_of_shared (by simp [sharedSources])

theorem wellFormed_identifier : (ofSource? "[A-Za-z_][A-Za-z0-9_]*").isSome = true :=
  wellFormed_of_shared (by simp [sharedSources])

theorem wellFormed_hyphenated : (ofSource? "[A-Za-z][A-Za-z0-9_\\-]*").isSome = true :=
  wellFormed_of_shared (by simp [sharedSources])

theorem wellFormed_number :
    (ofSource? "-?(?:0|[1-9][0-9]*)(?:\\.[0-9]+)?(?:[eE][+-]?[0-9]+)?").isSome = true :=
  wellFormed_of_shared (by simp [sharedSources])

theorem wellFormed_blanks : (ofSource? "\\s+").isSome = true :=
  wellFormed_of_shared (by simp [sharedSources])

end Pattern

namespace LexRule

/-- The literal rule for a text. -/
def ofText (text : String) : LexRule := .literal text.toList

/-- The standard rules in the order of their declaration. -/
def standardTokens : List (String × LexRule) :=
  [("letter", .pattern (.of "[A-Za-z]" Pattern.wellFormed_letter)),
   ("digit", .pattern (.of "[0-9]" Pattern.wellFormed_digit)),
   ("hexDigit", .pattern (.of "[0-9A-Fa-f]" Pattern.wellFormed_hexDigit)),
   ("identifier", .pattern (.of "[A-Za-z_][A-Za-z0-9_]*" Pattern.wellFormed_identifier)),
   ("jsonString", .pattern (.of
     "\"(?:[^\"\\\\\\x00-\\x1F\\x7F]|\\\\(?:[\"\\\\/bfnrt]|u[0-9a-fA-F]\x7b4\x7d))*\"")),
   ("jsonStringSingleQuote", .pattern (.of
     "'(?:[^'\\\\\\x00-\\x1F\\x7F]|\\\\(?:['\\\\/bfnrt]|u[0-9a-fA-F]\x7b4\x7d))*'")),
   ("jsonNumber", .pattern (.of
     "-?(?:0|[1-9][0-9]*)(?:\\.[0-9]+)?(?:[eE][+-]?[0-9]+)?" Pattern.wellFormed_number)),
   ("integer", .pattern (.of "[1-9][0-9]*")),
   ("bit", .pattern (.of "[01]" Pattern.wellFormed_bit)),
   ("cr", .ofText "\r"),
   ("lf", .ofText "\n"),
   ("crlf", .ofText "\r\n"),
   ("quote", .ofText "'"),
   ("doubleQuote", .ofText "\""),
   ("sp", .ofText " "),
   ("tab", .ofText "\t"),
   ("whitespace", .pattern (.of "[ \\t\\r\\n]+")),
   ("cComment", .pattern (.of "(?s)/\\*.*?\\*/")),
   ("cppComment", .pattern (.of "//[^\\n]*\\n?")),
   ("shComment", .pattern (.of "#[^\\n]*\\n?"))]

end LexRule

/-- The standard rules by name. -/
def Lexicon.standard : Lexicon := .ofList LexRule.standardTokens

end Packrat
