import Packrat.Json.Decode
import Packrat.Proofs.Spacing

/-! # JSON documents

The context-free grammar of JSON as a family of derivations. A derivation has the tokens that it
writes, in order, and a text is that of a document if it consists of its tokens with any white
space between them. `Document.Denotes` says which value a document stands for, and
`Document.fault?` which of its tokens is the first that stands for nothing.
-/

namespace Packrat.Json

/-- A token of a JSON text. -/
inductive Lexeme where
  /-- A punctuation mark or a word that stands for itself. -/
  | mark (text : String)
  | string (raw : Text)
  | number (raw : Text)

namespace Lexeme

/-- The characters of a token. -/
def word : Lexeme → Text
  | .mark text => text.toList
  | .string raw | .number raw => raw

/-- The error of a result, if it is one. -/
def errorOf {α : Type} : Except Error α → Option Error
  | .ok _ => none
  | .error fault => some fault

/-- The error of a token that stands for nothing. -/
def fault? : Lexeme → Option Error
  | .mark _ => none
  | .string raw => errorOf (stringOf raw)
  | .number raw => errorOf (numberOf raw)

end Lexeme

/-- The texts of string tokens. -/
abbrev StringText : Type := { raw : Text // stringPattern.Whole raw }

/-- The texts of number tokens. -/
abbrev NumberText : Type := { raw : Text // numberPattern.Whole raw }

theorem stringPattern_steady : stringPattern.steady [.single ':'] = true := by decide +kernel

theorem numberPattern_steady : numberPattern.steady [.single ':'] = true := by decide +kernel

mutual

/-- A derivation of a value. -/
inductive Document where
  | object (members : Members)
  | emptyObject
  | array (elements : Elements)
  | emptyArray
  | string (raw : StringText)
  | number (raw : NumberText)
  | bool (value : Bool)
  | null

/-- A derivation of the members of an object, of which there is one at least. -/
inductive Members where
  | last (key : StringText) (value : Document)
  | more (key : StringText) (value : Document) (rest : Members)

/-- A derivation of the elements of an array, of which there is one at least. -/
inductive Elements where
  | last (item : Document)
  | more (item : Document) (rest : Elements)

end

mutual

/-- The tokens of a value in order. -/
def Document.lexemes : Document → List Lexeme
  | .object members => .mark "\x7b" :: (members.lexemes ++ [.mark "\x7d"])
  | .emptyObject => [.mark "\x7b", .mark "\x7d"]
  | .array elements => .mark "[" :: (elements.lexemes ++ [.mark "]"])
  | .emptyArray => [.mark "[", .mark "]"]
  | .string raw => [.string raw.1]
  | .number raw => [.number raw.1]
  | .bool value => [.mark (if value then "true" else "false")]
  | .null => [.mark "null"]

/-- The tokens of members in order. -/
def Members.lexemes : Members → List Lexeme
  | .last key value => .string key.1 :: .mark ":" :: value.lexemes
  | .more key value rest =>
      .string key.1 :: .mark ":" :: (value.lexemes ++ .mark "," :: rest.lexemes)

/-- The tokens of elements in order. -/
def Elements.lexemes : Elements → List Lexeme
  | .last item => item.lexemes
  | .more item rest => item.lexemes ++ .mark "," :: rest.lexemes

end

/-- What a token of a document may be. -/
def Lexeme.Known : Lexeme → Prop
  | .mark text =>
      text ∈ ["\x7b", "\x7d", "[", "]", ":", ",", "true", "false", "null"]
  | .string raw => stringPattern.Whole raw
  | .number raw => numberPattern.Whole raw

section Known

variable {front back : List Lexeme}

private theorem known_append (here : ∀ lexeme ∈ front, lexeme.Known)
    (more : ∀ lexeme ∈ back, lexeme.Known) : ∀ lexeme ∈ front ++ back, lexeme.Known :=
  List.forall_mem_append.mpr ⟨here, more⟩

private theorem known_cons {lexeme : Lexeme} (here : lexeme.Known)
    (more : ∀ lexeme ∈ back, lexeme.Known) : ∀ other ∈ lexeme :: back, other.Known :=
  List.forall_mem_cons.mpr ⟨here, more⟩

mutual

/-- The tokens of a document are marks of the grammar, strings and numbers. -/
theorem Document.known : ∀ (document : Document), ∀ lexeme ∈ document.lexemes, lexeme.Known
  | .object members =>
      known_cons (by simp [Lexeme.Known])
        (known_append members.known (List.forall_mem_singleton.mpr (by simp [Lexeme.Known])))
  | .emptyObject => by simp [Document.lexemes, Lexeme.Known]
  | .array elements =>
      known_cons (by simp [Lexeme.Known])
        (known_append elements.known (List.forall_mem_singleton.mpr (by simp [Lexeme.Known])))
  | .emptyArray => by simp [Document.lexemes, Lexeme.Known]
  | .string raw => List.forall_mem_singleton.mpr raw.2
  | .number raw => List.forall_mem_singleton.mpr raw.2
  | .bool value => by cases value <;> simp [Document.lexemes, Lexeme.Known]
  | .null => by simp [Document.lexemes, Lexeme.Known]

private theorem Members.known : ∀ (members : Members), ∀ lexeme ∈ members.lexemes, lexeme.Known
  | .last key value => known_cons key.2 (known_cons (by simp [Lexeme.Known]) value.known)
  | .more key value rest =>
      known_cons key.2 (known_cons (by simp [Lexeme.Known])
        (known_append value.known (known_cons (by simp [Lexeme.Known]) rest.known)))

private theorem Elements.known : ∀ (elements : Elements), ∀ lexeme ∈ elements.lexemes, lexeme.Known
  | .last item => item.known
  | .more item rest =>
      known_append item.known (known_cons (by simp [Lexeme.Known]) rest.known)

end

end Known

/-- The entries are in the order of their names, and every name has the value of its last
member. -/
def LastHolds (members entries : List (String × Value)) : Prop :=
  (entries.Pairwise fun first second => first.1 < second.1) ∧
    ∀ name, Table.lookupEntry name entries = Table.lookupEntry name members.reverse

mutual

/-- The document stands for the value. -/
inductive Document.Denotes : Document → Value → Prop where
  | object {members values entries} (each : Members.Denote members values)
      (last : LastHolds values entries) : Document.Denotes (.object members) (.object entries)
  | emptyObject : Document.Denotes .emptyObject (.object [])
  | array {elements items} (each : Elements.Denote elements items) :
      Document.Denotes (.array elements) (.array items)
  | emptyArray : Document.Denotes .emptyArray (.array [])
  | string {raw text} (decodes : stringOf raw.1 = .ok text) :
      Document.Denotes (.string raw) (.string text)
  | number {raw value} (decodes : numberOf raw.1 = .ok value) :
      Document.Denotes (.number raw) value
  | bool {value} : Document.Denotes (.bool value) (.bool value)
  | null : Document.Denotes .null .null

/-- The members stand for the keys and values, in order. -/
inductive Members.Denote : Members → List (String × Value) → Prop where
  | last {raw document key value} (decodes : stringOf raw.1 = .ok key)
      (denotes : Document.Denotes document value) :
      Members.Denote (.last raw document) [(key, value)]
  | more {raw document rest key value values} (decodes : stringOf raw.1 = .ok key)
      (denotes : Document.Denotes document value) (others : Members.Denote rest values) :
      Members.Denote (.more raw document rest) ((key, value) :: values)

/-- The elements stand for the items, in order. -/
inductive Elements.Denote : Elements → List Value → Prop where
  | last {document item} (denotes : Document.Denotes document item) :
      Elements.Denote (.last document) [item]
  | more {document rest item items} (denotes : Document.Denotes document item)
      (others : Elements.Denote rest items) :
      Elements.Denote (.more document rest) (item :: items)

end

namespace Document

/-- The error of the first token that stands for nothing. -/
def fault? (document : Document) : Option Error := document.lexemes.findSome? Lexeme.fault?

/-- The text consists of the tokens of the document with runs of white space before, between and
after them. -/
def Writes (document : Document) (text : Text) : Prop :=
  ∃ rest, Spaced (fun _ => True) (document.lexemes.map Lexeme.word) text rest ∧
    ∀ c ∈ rest, CharClass.isBlank c = true

/-- The tokens of a document, one right after the other, are a text of it. -/
theorem writes_flatten (document : Document) :
    document.Writes (document.lexemes.map Lexeme.word).flatten := by
  refine ⟨[], ?_, nofun⟩
  induction document.lexemes.map Lexeme.word with
  | nil => exact .nil
  | cons word words ih =>
    have none : ∀ c ∈ ([] : Text), CharClass.isBlank c = true := nofun
    exact .cons none trivial ih

end Document

end Packrat.Json
