import Packrat.Lexicon.Standard
import Packrat.Proofs.Memoization
import Packrat.Proofs.Yield

/-! # Trees lose and duplicate no text

The tokens of a tree that a lossless rule gives stand one after the other, with nothing between
them but what is ignored (`Stands`). So the first starts after what is ignored at the cursor, each
other one after what is ignored where the one before it stops, and the match ends where the last
one stops, whatever was tried before and however often a repetition counts an empty round.
-/

namespace Packrat

/-- The byte offsets where a token starts and stops. -/
def Token.range (token : Token) : Nat × Nat := (token.start, token.stop)

namespace Tree

theorem hull_cons (range : Nat × Nat) (ranges : List (Nat × Nat)) :
    hull (range :: ranges) = match hull ranges with
      | none => some range
      | some rest => some (range.1, rest.2) := by
  cases ranges with
  | nil => rfl
  | cons next ranges => simp [hull]

theorem hull_append (front back : List (Nat × Nat)) :
    hull (front ++ back) = match hull front, hull back with
      | none, range => range
      | some range, none => some range
      | some first, some last => some (first.1, last.2) := by
  induction front with
  | nil => rfl
  | cons range front ih =>
    rw [List.cons_append, hull_cons, hull_cons, ih]
    cases hull front <;> cases hull back <;> rfl

/-- From where the first of several tokens starts to where the last one stops. -/
def extent (tokens : List Token) : Option (Nat × Nat) :=
  hull (tokens.map Token.range)

theorem extent_cons (token : Token) (tokens : List Token) :
    extent (token :: tokens) =
      some (token.start, ((token :: tokens).getLast (List.cons_ne_nil token tokens)).stop) := by
  change some (token.start, (((token :: tokens).map Token.range).getLast _).2) = _
  rw [List.getLast_map]
  rfl

mutual

/-- The span of a tree is the extent of its tokens. -/
theorem span_eq : ∀ tree : Tree, tree.span = extent tree.tokens
  | .token leaf => by
      rw [span, tokens]
      split <;> rfl
  | .named _ node => span_eq node
  | .array nodes => hull_spans nodes

theorem hull_spans : ∀ nodes : List Tree, hull (spans nodes) = extent (tokensAll nodes)
  | [] => rfl
  | node :: more => by
      rw [spans, tokensAll, extent, List.map_append, hull_append, ← extent, ← extent,
        ← span_eq node, ← hull_spans more]
      cases node.span with
      | none => rfl
      | some range =>
        dsimp only
        rw [hull_cons]
        cases hull (spans more) <;> rfl

end

end Tree

/-- What the words take up at the front of a text with the ignored text before each of them. -/
def Text.woven (ignore : List LexRule) : Text → List Text → Text
  | _, [] => []
  | text, word :: words =>
      let count := skipCount ignore 0 text
      text.take count ++ (word ++ woven ignore ((text.drop count).drop word.length) words)

/-- Between two cursors that words stand between there is nothing but the words and what is
ignored before each of them. -/
theorem Lies.rest_eq {ignore : List LexRule} {words : List Text} {first second : Cursor}
    (lies : Lies ignore words first second) :
    first.rest = Text.woven ignore first.rest words ++ second.rest := by
  induction lies with
  | nil => rfl
  | @cons cursor count words next more ih =>
    have after : (cursor.skip ignore).rest.drop ((cursor.skip ignore).rest.take count).length =
        ((cursor.skip ignore).forward count).rest := by
      rw [Cursor.rest_forward, List.length_take, List.drop_eq_drop_iff]
      omega
    change cursor.rest = cursor.rest.take _ ++ ((cursor.skip ignore).rest.take count ++
      Text.woven ignore ((cursor.skip ignore).rest.drop _) words) ++ next.rest
    rw [after, List.append_assoc, List.append_assoc, ← ih, Cursor.rest_forward,
      List.take_append_drop]
    exact (List.take_append_drop ..).symm

namespace Stands

variable {ignore : List LexRule} {tokens : List Token} {first second : Cursor}

theorem text_eq (stands : Stands ignore tokens first second) : second.text = first.text := by
  induction stands with
  | nil => rfl
  | cons _ ih => exact ih.trans (by simp)

theorem start_head {token : Token} (stands : Stands ignore tokens first second)
    (head : tokens.head? = some token) : token.start = (first.skip ignore).offset := by
  cases stands with
  | nil => cases head
  | cons =>
    cases head
    rfl

theorem stop_last {token : Token} (stands : Stands ignore tokens first second)
    (last : tokens.getLast? = some token) : token.stop = second.offset := by
  induction stands with
  | nil => cases last
  | @cons cursor name count tokens next more ih =>
    cases tokens with
    | nil =>
      cases last
      cases more
      rfl
    | cons other tokens => exact ih (by simpa [List.getLast?_cons_cons] using last)

/-- Each token starts after what is ignored where the one before it stops. -/
theorem isChain (stands : Stands ignore tokens first second) :
    tokens.IsChain fun token later =>
      later.start = ((first.seek token.stop).skip ignore).offset := by
  suffices chain : ∀ origin : Cursor, origin.text = first.text →
      tokens.IsChain fun token later =>
        later.start = ((origin.seek token.stop).skip ignore).offset from chain first rfl
  intro origin here
  induction stands with
  | nil => exact .nil
  | @cons cursor name count tokens next more ih =>
    refine .cons (ih (here.trans (by simp))) ?_
    intro later head
    rw [more.start_head head]
    have place : origin.text = ((cursor.skip ignore).forward count).text := here.trans (by simp)
    exact congrArg (fun cursor => (cursor.skip ignore).offset) (Cursor.seek_offset place).symm

theorem extent_eq (stands : Stands ignore tokens first second) :
    Tree.extent tokens = tokens.head?.map fun token => (token.start, second.offset) := by
  cases tokens with
  | nil => rfl
  | cons token tokens =>
    have last := stands.stop_last (List.getLast?_eq_some_getLast (List.cons_ne_nil token tokens))
    rw [List.head?_cons, Option.map_some, ← last, Tree.extent_cons]

end Stands

namespace Environment

/-- Where a lossless rule matches in an environment, after any calls at places of the text, the
tokens of its tree follow each other from the cursor to the end of the match with nothing but
ignored text between them, and the match has read exactly the terminals with that text. -/
theorem tokens_cover_match (grammar : Grammar) (productions : grammar.lossless = true) (text : Text)
    (history : List Call) (texts : ∀ call ∈ history, call.cursor.text = text)
    (environment : Environment) (reached : (start grammar).Reaches history environment)
    (rule : Rule) (lossless : rule.lossless = true) (cursor : Cursor) (here : cursor.text = text)
    (found : Match) (next : Environment)
    (made : environment.evalAt? rule cursor = some (.ok found, next)) :
    (found.node.tokens = [] → found.cursor = cursor) ∧
      (∀ first ∈ found.node.tokens.head?, first.start = (cursor.skip grammar.ignore).offset) ∧
      (found.node.tokens.IsChain fun token later =>
        later.start = ((cursor.seek token.stop).skip grammar.ignore).offset) ∧
      (∀ last ∈ found.node.tokens.getLast?, last.stop = found.cursor.offset) ∧
      found.node.span =
        found.node.tokens.head?.map (fun first => (first.start, found.cursor.offset)) ∧
      found.node.terminals = found.node.tokens.map (·.text) ∧
      cursor.rest = Text.woven grammar.ignore cursor.rest found.node.terminals ++
        found.cursor.rest := by
  have ended := reached.map_evalAt? texts rule here
  rw [made, Grammar.evalAt?_eq] at ended
  have gives : grammar.Gives rule cursor (.ok found) := ended.symm
  have stands := Grammar.stands_of_gives productions lossless gives
  refine ⟨fun none => ?_, fun first head => stands.start_head head, stands.isChain,
    fun last ended => stands.stop_last ended, ?_, found.node.terminals_eq, ?_⟩
  · rw [none] at stands
    cases stands
    rfl
  · rw [Tree.span_eq, stands.extent_eq]
  · exact (Grammar.lies_of_gives productions lossless gives).rest_eq

/-- A repetition of letters reads `a`, ` b` and the blank after them with an empty token, and counts
one more empty token as often as it takes to make up six. -/
theorem tokens_cover_padded_repetition :
    let letters : Rule := .pattern "letters" (Pattern.of "[ab]*")
    let grammar : Grammar := ⟨.ofList [("letters", letters)], .empty, [.literal [' ']]⟩
    let rule : Rule := .repetition (.reference "letters") 6 none
    let cursor : Cursor := .start ['a', ' ', 'b', ' ', 'c']
    ∃ environment found next,
      (start grammar).Reaches [.parse rule cursor] environment ∧
      environment.evalAt? rule cursor = some (.ok found, next) ∧
      found.node.tokens.length = 6 ∧
      found.node.span = some (0, found.cursor.offset) ∧
      cursor.rest = Text.woven [.literal [' ']] cursor.rest found.node.terminals ++
        found.cursor.rest := by
  intro letters grammar rule cursor
  have texts : ∀ call ∈ [Call.parse rule cursor], call.cursor.text = cursor.text := by
    simp [Call.cursor]
  have fresh : (start grammar).memo.Sound grammar cursor.text := .empty grammar cursor.text
  obtain ⟨environment, reached⟩ := exists_reaches fresh texts (by decide +kernel)
  have matched : (grammar.evalAt? rule cursor).any (fun outcome => outcome.toOption.any fun found =>
      found.node.tokens.length = 6 ∧ found.node.tokens.head?.map (·.start) = some 0) = true := by
    decide +kernel
  have same := reached.map_evalAt? texts rule rfl
  cases ended : grammar.evalAt? rule cursor with
  | none =>
    rw [ended] at matched
    cases matched
  | some outcome =>
    rw [ended] at matched same
    cases outcome with
    | error reject => cases matched
    | ok found =>
      obtain ⟨⟨outcome, next⟩, made, rfl⟩ := Option.map_eq_some_iff.mp same
      obtain ⟨six, front⟩ := of_decide_eq_true matched
      obtain ⟨-, -, -, -, span, -, rest⟩ := tokens_cover_match grammar (by decide +kernel)
        cursor.text _ texts environment reached rule (by decide +kernel) cursor rfl found next made
      obtain ⟨first, head, start⟩ := Option.map_eq_some_iff.mp front
      rw [head, Option.map_some, start] at span
      exact ⟨environment, found, next, reached, made, six, span, rest⟩

end Environment

end Packrat
