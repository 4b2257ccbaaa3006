import Packrat.Notation.Basic
import Packrat.Notation.Shape

/-! # Augmented Backus-Naur form

The notation of RFC 5234 with the string marks of RFC 7405. Alternatives are ordered, and `=/`
adds alternatives to a rule. Quoted strings are compared without regard to case unless they are
marked `%s`. The core rules of RFC 5234 are there for every grammar that does not define them.
-/

namespace Packrat.Notation.Abnf

/-- The name used in reports. -/
def language : String := "ABNF"

/-- The core rules of RFC 5234, appendix B.1. -/
def coreRules : List (String × Pattern) :=
  [("ALPHA", .of "[A-Za-z]" Pattern.wellFormed_letter),
   ("BIT", .of "[01]" Pattern.wellFormed_bit),
   ("CHAR", .of "[\\x01-\\x7F]"),
   ("CR", .of "\\r"),
   ("CRLF", .of "\\r\\n"),
   ("CTL", .of "[\\x00-\\x1F\\x7F]"),
   ("DIGIT", .of "[0-9]" Pattern.wellFormed_digit),
   ("DQUOTE", .of "\""),
   ("HEXDIG", .of "[0-9A-Fa-f]" Pattern.wellFormed_hexDigit),
   ("HTAB", .of "\\t"),
   ("LF", .of "\\n"),
   ("LWSP", .of "(?:[ \\t]|\\r\\n[ \\t])*"),
   ("OCTET", .of "[\\x00-\\xFF]"),
   ("SP", .of " "),
   ("VCHAR", .of "[\\x21-\\x7E]"),
   ("WSP", .of "[ \\t]")]

/-- The pattern of a core rule. -/
def coreRule? (name : String) : Option Pattern := coreRules.lookup name

theorem wellFormed_rulename : (Pattern.ofSource? "[A-Za-z][A-Za-z0-9\\-]*").isSome = true := by
  decide +kernel

theorem wellFormed_repeat : (Pattern.ofSource? "[0-9]*\\*[0-9]*|[0-9]+").isSome = true := by
  decide +kernel

theorem wellFormed_charVal :
    (Pattern.ofSource? "%[sSiI]\"[^\"]*\"|\"[^\"]*\"").isSome = true := by decide +kernel

/-- The source of the pattern of numeric values. -/
def numValSource : String :=
  "%[bB][01]+(?:(?:\\.[01]+)+|-[01]+)?" ++
    "|%[dD][0-9]+(?:(?:\\.[0-9]+)+|-[0-9]+)?" ++
    "|%[xX][0-9A-Fa-f]+(?:(?:\\.[0-9A-Fa-f]+)+|-[0-9A-Fa-f]+)?"

theorem wellFormed_numVal : (Pattern.ofSource? numValSource).isSome = true := by decide +kernel

theorem wellFormed_comment : (Pattern.ofSource? ";[^\n]*").isSome = true := by decide +kernel

/-- The notation described by a grammar. -/
def specification : Specification where
  lexicon := .ofList
    [("rulename", .pattern (.of "[A-Za-z][A-Za-z0-9\\-]*" wellFormed_rulename)),
     ("repeat", .pattern (.of "[0-9]*\\*[0-9]*|[0-9]+" wellFormed_repeat)),
     ("char-val", .pattern (.of "%[sSiI]\"[^\"]*\"|\"[^\"]*\"" wellFormed_charVal)),
     ("num-val", .pattern (.of numValSource wellFormed_numVal)),
     ("prose-val", .pattern (.of "<[^>]*>"))]
  ignore :=
    [.pattern (.of "\\s+" Pattern.wellFormed_blanks),
     .pattern (.of ";[^\n]*" wellFormed_comment)]
  productions := .ofList
    [("rulelist", .oneOrMore (.reference "rule")),
     ("rule", .sequence
       [.token "rulename", .reference "defined-as", .reference "alternation"]),
     ("defined-as", .ordered [.text "=/", .text "="]),
     ("alternation", .sequence
       [.reference "concatenation",
        .zeroOrMore (.sequence [.text "/", .reference "concatenation"])]),
     ("concatenation", .oneOrMore (.reference "repetition")),
     ("repetition", .sequence [.optional (.token "repeat"), .reference "element"]),
     ("element", .ordered
       [.reference "reference", .reference "group", .reference "option",
        .reference "char-val", .reference "num-val", .reference "prose-val"]),
     -- a name before `=` or `=/` starts the next rule
     ("reference", .sequence [.token "rulename", .absent (.reference "defined-as")]),
     ("group", .sequence [.text "(", .reference "alternation", .text ")"]),
     ("option", .sequence [.text "[", .reference "alternation", .text "]"]),
     ("char-val", .token "char-val"),
     ("num-val", .token "num-val"),
     ("prose-val", .token "prose-val")]

/-- The number of values that a repeat count can have. -/
def countBound : Nat := Nat.pow 2 64

/-- The number of values that a numeral of a numeric value can have. -/
def numeralBound : Nat := Nat.pow 2 32

/-- A repeat count, which may be left out. -/
def count (digits : Text) : Except Error (Option Nat) :=
  if digits.isEmpty then .ok none
  else
    match Numeral.read 10 countBound digits with
    | .ok value => .ok (some value)
    | .error fault => Error.build (.badCount digits fault)

/-- The bounds of `n*m`, in which either may be left out, or of `n`. -/
def repeatBounds (text : Text) : Except Error (Nat × Option Nat) :=
  match text.dropWhile (· != '*') with
  | _ :: upper => do
      let min ← count (text.takeWhile (· != '*'))
      return (min.getD 0, ← count upper)
  | [] => do
      let exact ← count text
      return (exact.getD 0, exact)

/-- The text without the quotes at its ends, however many they are. -/
def trimQuotes (text : Text) : Text :=
  ((text.dropWhile (· == '"')).reverse.dropWhile (· == '"')).reverse

/-- The rule of the quoted string in a text. -/
def quotedRule (sensitive : Bool) (text : Text) : Except Error Rule :=
  let value := trimQuotes text
  if value.isEmpty then .ok .empty else Rule.literal? value (!sensitive)

/-- The rule of a string, with the mark before it that says how to compare it. The mark is one
byte, so a wider character in its place cannot be cut off. -/
def charVal (text : Text) : Except Error Rule :=
  match text with
  | '%' :: mark :: quotes =>
      if mark.utf8Size = 1 then quotedRule (mark = 's' || mark = 'S') quotes
      else .error (.misplacedCut text)
  | ['%'] => .error (.misplacedCut text)
  | _ => quotedRule false text

/-- The radix that the letter of a numeric value stands for. -/
def radix? : Char → Option Nat
  | 'b' | 'B' => some 2
  | 'd' | 'D' => some 10
  | 'x' | 'X' => some 16
  | _ => none

/-- The code point of a numeral in a numeric value. -/
def numeral (text : Text) (radix : Nat) (digits : Text) : Except Error Nat :=
  match Numeral.read radix numeralBound digits with
  | .ok value => .ok value
  | .error fault => Error.build (.badNumeral digits text fault)

/-- The rule for characters in a row, given by their code points. -/
def codePoints (text : Text) (codes : List Nat) : Except Error Rule :=
  Rule.pattern? (String.ofList text)
    ("".intercalate (codes.map fun code => "\\x\x7b" ++ Numeral.hex code ++ "\x7d"))

/-- The pieces of a text between the dots in it. -/
def splitDots : Text → List Text
  | [] => [[]]
  | c :: rest =>
      if c = '.' then [] :: splitDots rest
      else
        match splitDots rest with
        | [] => [[c]]
        | piece :: more => (c :: piece) :: more

/-- The rule of a numeric value: one character, several in a row, or a range of them. -/
def numVal (text : Text) : Except Error Rule :=
  match text with
  | mark :: letter :: digits =>
      match if mark.utf8Size = 1 then radix? letter else none with
      | none => Error.build (.badNumericValue text)
      | some radix =>
          match digits.dropWhile (· != '-') with
          | _ :: upper => do
              let low ← numeral text radix (digits.takeWhile (· != '-'))
              let high ← numeral text radix upper
              Rule.codeRange? low high
          | [] => do codePoints text (← (splitDots digits).mapM (numeral text radix))
  | _ => Error.build (.badNumericValue text)

/-- The rule of a reference. A core rule is written out on the spot if `inlineCore` says so. -/
def reference (inlineCore : Bool) (name : String) : Except Error Rule :=
  match if inlineCore then coreRule? name else none with
  | some pattern => .ok (.pattern name pattern)
  | none => Rule.reference? name

/-- The rule of an element with the repeat before it, if there is one. -/
def repetitionOf (bounds : Tree) (rule : Rule) : Except Error Rule :=
  if bounds.isAbsent then .ok rule
  else do
    let (min, max) ← repeatBounds (← bounds.leafText language "repetition")
    Rule.repetition? (.ok rule) min max

mutual

/-- The alternatives of a named alternation. -/
def foldAlternation (inlineCore : Bool) : Tree → Except Error (List Rule)
  | node@(.named name body) =>
      if name = "alternation" then foldAlternatives inlineCore body
      else node.defect language "alternation"
  | node => node.defect language "alternation"

/-- The alternatives of the body of an alternation. -/
def foldAlternatives (inlineCore : Bool) : Tree → Except Error (List Rule)
  | .array [first, rest] => do
      let head ← foldConcatenation inlineCore first
      match rest with
      | .array others => return head :: (← foldBranches inlineCore others)
      | other => other.defect language "alternation"
  | body => body.defect language "alternation"

/-- The alternatives after the first. -/
def foldBranches (inlineCore : Bool) : List Tree → Except Error (List Rule)
  | [] => .ok []
  | .array [_, branch] :: more => do
      let rule ← foldConcatenation inlineCore branch
      return rule :: (← foldBranches inlineCore more)
  | node :: _ => node.defect language "alternation"

/-- The rule of a named concatenation. -/
def foldConcatenation (inlineCore : Bool) : Tree → Except Error Rule
  | node@(.named name body) =>
      if name = "concatenation" then foldSequence inlineCore body
      else node.defect language "concatenation"
  | node => node.defect language "concatenation"

/-- The rule of the body of a concatenation. -/
def foldSequence (inlineCore : Bool) : Tree → Except Error Rule
  | .array items => do Rule.concatenation (← foldAll inlineCore items)
  | body => body.defect language "concatenation"

/-- The rules of several repetitions. -/
def foldAll (inlineCore : Bool) : List Tree → Except Error (List Rule)
  | [] => .ok []
  | item :: more => do
      let rule ← foldRepetition inlineCore item
      return rule :: (← foldAll inlineCore more)

/-- The rule of a named repetition. -/
def foldRepetition (inlineCore : Bool) : Tree → Except Error Rule
  | node@(.named name body) =>
      if name = "repetition" then foldRepeated inlineCore body
      else node.defect language "repetition"
  | node => node.defect language "repetition"

/-- The rule of the body of a repetition. -/
def foldRepeated (inlineCore : Bool) : Tree → Except Error Rule
  | .array [bounds, element] => do repetitionOf bounds (← foldElement inlineCore element)
  | body => body.defect language "repetition"

/-- The rule of a named element. -/
def foldElement (inlineCore : Bool) : Tree → Except Error Rule
  | node@(.named name body) =>
      if name = "element" then foldVariant inlineCore body else node.defect language "element"
  | node => node.defect language "element"

/-- The rule of an element of any variant. -/
def foldVariant (inlineCore : Bool) : Tree → Except Error Rule
  | element@(.named kind body) =>
      if kind = "reference" then
        match body with
        | .array [target, _] => do
            reference inlineCore (← target.leafName language "reference")
        | other => other.defect language "reference"
      else if kind = "group" then foldEnclosed inlineCore "group" body
      else if kind = "option" then (foldEnclosed inlineCore "option" body).map .optional
      else if kind = "char-val" then do charVal (← body.leafText language "char-val")
      else if kind = "num-val" then do numVal (← body.leafText language "num-val")
      else if kind = "prose-val" then do
        let prose ← body.leafName language "prose-val"
        .error (.unsupported language ("prose-val " ++ prose))
      else element.defect language "element"
  | element => element.defect language "element"

/-- The rule of an alternation between brackets. -/
def foldEnclosed (inlineCore : Bool) (kind : String) : Tree → Except Error Rule
  | .array [_, alternation, _] => do
      Rule.alternatives true (← foldAlternation inlineCore alternation)
  | body => body.defect language kind

end

/-- Adds a definition to the alternatives of the rules before it. -/
def foldRule (rules : Table (List Rule)) : Tree → Except Error (Table (List Rule))
  | node@(.named name body) =>
      if name = "rule" then
        match body with
        | .array [defined, operator, alternation] => do
            let name ← defined.leafName language "rule"
            match operator with
            | .named "defined-as" mark => do
                let mark ← mark.leafText language "defined-as"
                let branches ← foldAlternation false alternation
                if mark = ['='] then
                  if rules.contains name then Error.build (.duplicateRule name)
                  else return rules.insert name branches
                else if mark = ['=', '/'] then
                  match rules.find? name with
                  | some existing => return rules.insert name (existing ++ branches)
                  | none => Error.build (.missingRule name)
                else operator.defect language "defined-as"
            | _ => operator.defect language "defined-as"
        | other => other.defect language "rule"
      else node.defect language "rule"
  | node => node.defect language "rule"

/-- The names of the core rules that the rules of a table refer to and the table does not
define. -/
def borrowed (rules : Table (List Rule)) : List String :=
  let referenced := rules.entries.flatMap fun entry => Rule.referencesAll entry.2
  (coreRules.map (·.1)).filter fun name => referenced.contains name && !rules.contains name

/-- The specification of a list of rules. -/
def ofRules (rules : Table (List Rule)) : Except Error Specification := do
  let lexicon := Table.ofList (coreRules.map fun core => (core.1, LexRule.pattern core.2))
  let spec ← (borrowed rules).foldlM (fun spec name => spec.production name (Rule.token? name))
    { Specification.empty with lexicon }
  rules.entries.foldlM
    (fun spec entry => do spec.production entry.1 (.ok (← Rule.alternatives true entry.2))) spec

/-- The productions of a grammar. -/
def foldGrammar : Tree → Except Error Specification
  | .array nodes => do ofRules (← nodes.foldlM foldRule .empty)
  | node => node.defect language "rulelist"

/-- The rule of an expression, with core rules written out. -/
def foldFragment (body : Tree) : Except Error Rule := do
  Rule.alternatives true (← foldAlternatives true body)

end Packrat.Notation.Abnf

namespace Packrat.Notation

/-- Augmented Backus-Naur form. -/
def abnf : Notation where
  name := Abnf.language
  grammarProduction := "rulelist"
  fragmentProduction := "alternation"
  specification := Abnf.specification
  foldGrammar := Abnf.foldGrammar
  foldFragment := Abnf.foldFragment

end Packrat.Notation
