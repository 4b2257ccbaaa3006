import Packrat.Text.Quoted

/-! # Tokens

A token is a piece of text together with the rule that took it. Two sentinels stand for the end
of the text and for a rule that matched nothing; they are no rules, whatever a rule is called.
-/

namespace Packrat

/-- What a token is the result of. -/
inductive TokenKind where
  | rule (name : String)
  | eof
  | empty
  deriving DecidableEq, Repr

namespace TokenKind

/-- The name of the rule, or that of the sentinel. -/
def name : TokenKind → String
  | .rule name => name
  | .eof => "EOF"
  | .empty => "EMPTY"

/-- Whether this is the rule of the given name. -/
def is (kind : TokenKind) (name : String) : Bool := kind = .rule name

end TokenKind

/-- A piece of text with its kind and the byte offset where it starts. -/
structure Token where
  kind : TokenKind
  text : Text
  start : Nat
  deriving DecidableEq, Repr

namespace Token

/-- The byte offset after the token. -/
def stop (token : Token) : Nat := token.start + token.text.byteLength

/-- The sentinel for the end of the text. -/
def eof (offset : Nat) : Token := ⟨.eof, [], offset⟩

/-- The sentinel for nothing found. -/
def empty (offset : Nat) : Token := ⟨.empty, [], offset⟩

/-- Whether the token is a sentinel. -/
def isSentinel (token : Token) : Bool := token.kind = .eof || token.kind = .empty

/-- The kind with the quoted text. -/
def shape (token : Token) : String := s!"{token.kind.name}({token.text.quoted})"

/-- The kind with the quoted text and the offset. -/
def display (token : Token) : String := s!"{token.shape} at {token.start}"

end Token

end Packrat
