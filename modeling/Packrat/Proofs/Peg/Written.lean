import Packrat.Notation.Peg
import Packrat.Proofs.Spacing

/-! # Written parsing expression grammars

The expressions of the notation apart from any text: what they are made of, the words that they
are written in, and the rules that they denote. A grammar is rendered with blanks between its
words.
-/

namespace Packrat.Notation.Peg

/-- The letters with which a name begins. -/
def isNameStart (c : Char) : Bool :=
  CharClass.isAsciiUpper c || CharClass.isAsciiLower c || c = '_'

/-- Whether a text is a letter and letters or digits after it. -/
def isName : Text → Bool
  | [] => false
  | c :: rest => isNameStart c && rest.all fun c => isNameStart c || CharClass.isAsciiDigit c

/-- The names of productions and of lexical rules. -/
abbrev Name : Type := { text : Text // isName text = true }

/-- The name as a string. -/
def Name.string (name : Name) : String := String.ofList name.1

/-- The operators before an item. -/
inductive Lookahead where
  | ahead
  | absent

/-- The operators after an item. -/
inductive Times where
  | zeroOrMore
  | oneOrMore
  | optional

/-- The marks around a literal. -/
inductive Quote where
  | single
  | double

mutual

/-- What operators are applied to. A lexical name is written as one word or as three, and has a
name that does not stand for something else. -/
inductive Primary where
  | group (inner : Expression)
  | endOfText
  | nothing
  | lexical (name : Name) (other : name.1 ≠ "EOF".toList ∧ name.1 ≠ "e".toList) (apart : Bool)
  | literal (quote : Quote) (text : Text)
  | any
  | reference (name : Name)

/-- A primary with the operators before and after it. -/
inductive Item where
  | of (before : Option Lookahead) (operand : Primary) (after : Option Times)

/-- Items one after the other, of which there is one at least. -/
inductive Sequence where
  | last (item : Item)
  | more (item : Item) (rest : Sequence)

/-- Alternatives in order, of which there is one at least. -/
inductive Expression where
  | last (branch : Sequence)
  | more (branch : Sequence) (rest : Expression)

end

/-- A rule of a grammar, and whether it ends with a mark. -/
structure Definition where
  name : Name
  body : Expression
  closed : Bool

section Words

namespace Quote

/-- The character of the mark. -/
def mark : Quote → Char
  | .single => '\''
  | .double => '"'

/-- A text with its backslashes and marks escaped. -/
def escape (quote : Quote) : Text → Text
  | [] => []
  | c :: rest =>
      if c = '\\' || c = quote.mark then '\\' :: c :: quote.escape rest else c :: quote.escape rest

/-- A text between the marks. -/
def enclose (quote : Quote) (text : Text) : Text :=
  quote.mark :: (quote.escape text ++ [quote.mark])

end Quote

/-- The word of an operator before an item. -/
def Lookahead.mark : Lookahead → String
  | .ahead => "&"
  | .absent => "!"

/-- The word of an operator after an item. -/
def Times.mark : Times → String
  | .zeroOrMore => "*"
  | .oneOrMore => "+"
  | .optional => "?"

mutual

/-- The words of a primary. -/
def Primary.words : Primary → List Text
  | .group inner => "(".toList :: (inner.words ++ [")".toList])
  | .endOfText => ["<EOF>".toList]
  | .nothing => ["<e>".toList]
  | .lexical name _ apart =>
      if apart then ["<".toList, name.1, ">".toList] else ["<".toList ++ (name.1 ++ ">".toList)]
  | .literal quote text => [quote.enclose text]
  | .any => [".".toList]
  | .reference name => [name.1]

/-- The words of an item. -/
def Item.words : Item → List Text
  | .of before operand after =>
      (before.map fun mark => mark.mark.toList).toList ++
        (operand.words ++ (after.map fun mark => mark.mark.toList).toList)

/-- The words of a sequence. -/
def Sequence.words : Sequence → List Text
  | .last item => item.words
  | .more item rest => item.words ++ rest.words

/-- The words of an expression. -/
def Expression.words : Expression → List Text
  | .last branch => branch.words
  | .more branch rest => branch.words ++ "/".toList :: rest.words

end

/-- The words of a rule. -/
def Definition.words (definition : Definition) : List Text :=
  definition.name.1 :: "<-".toList ::
    (definition.body.words ++ if definition.closed then [";".toList] else [])

/-- The text ends or goes on with a blank. -/
def Breaks (text : Text) : Prop := ∀ c ∈ text.head?, CharClass.isBlank c = true

/-- The text consists of the words of the rules, each after a run of blanks and before a blank or
the end. -/
def Renders (definitions : List Definition) (text : Text) : Prop :=
  ∃ rest, Spaced Breaks (definitions.flatMap Definition.words) text rest ∧
    ∀ c ∈ rest, CharClass.isBlank c = true

/-- The words of the rules with a single blank between any two. -/
def print (definitions : List Definition) : Text :=
  [' '].intercalate (definitions.flatMap Definition.words)

private theorem spaced_intercalate (words : List Text) :
    Spaced Breaks words ([' '].intercalate words) [] := by
  induction words with
  | nil => exact .nil
  | cons word words ih =>
    cases words with
    | nil => exact Spaced.cons_iff.mpr ⟨[], [], nofun, by simp, nofun, .nil⟩
    | cons next words =>
      have single : ∀ c ∈ [' '], CharClass.isBlank c = true :=
        List.forall_mem_singleton.mpr rfl
      have joined : Breaks ([' '] ++ [' '].intercalate (next :: words)) := by
        intro c head
        obtain rfl : ' ' = c := Option.some.inj head
        decide
      exact Spaced.cons_iff.mpr ⟨[], _, nofun, by simp, joined, ih.after single⟩

/-- Every grammar can be rendered. -/
theorem renders_print (definitions : List Definition) : Renders definitions (print definitions) :=
  ⟨[], spaced_intercalate _, nofun⟩

end Words

section Denotations

/-- A rule on its own, or several put together. -/
def oneOr (together : List Rule → Rule) : List Rule → Rule
  | [rule] => rule
  | rules => together rules

/-- The rule of an item with the operator before it. -/
def Lookahead.denote : Lookahead → Rule → Rule
  | .ahead => .ahead
  | .absent => .absent

/-- The rule of an item with the operator after it. -/
def Times.denote : Times → Rule → Rule
  | .zeroOrMore => .zeroOrMore
  | .oneOrMore => .oneOrMore
  | .optional => .optional

mutual

/-- The rule that a primary denotes. -/
def Primary.denote : Primary → Rule
  | .group inner => oneOr .ordered inner.denotes
  | .endOfText => .endOfText
  | .nothing => .empty
  | .lexical name _ _ => .token name.string
  | .literal _ text => if text.isEmpty then .empty else .text (String.ofList text)
  | .any => .anyChar
  | .reference name => .reference name.string

/-- The rule that an item denotes. -/
def Item.denote : Item → Rule
  | .of before operand after =>
      let repeated := after.elim operand.denote (·.denote operand.denote)
      before.elim repeated (·.denote repeated)

/-- The rules of the items of a sequence. -/
def Sequence.denotes : Sequence → List Rule
  | .last item => [item.denote]
  | .more item rest => item.denote :: rest.denotes

/-- The rules of the alternatives of an expression. -/
def Expression.denotes : Expression → List Rule
  | .last branch => [oneOr .sequence branch.denotes]
  | .more branch rest => oneOr .sequence branch.denotes :: rest.denotes

end

/-- The rule that an expression denotes. -/
def Expression.denote (expression : Expression) : Rule := oneOr .ordered expression.denotes

end Denotations

end Packrat.Notation.Peg
