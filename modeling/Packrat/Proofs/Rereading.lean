import Packrat.Proofs.Coverage
import Packrat.Proofs.Ignoring

/-! # What lookaheads read twice

A positive lookahead leaves the tokens it has read in the tree, and reading goes on from before
them. So a token starts after what is ignored where the token before it stops, or where an earlier
one starts (`Rereads.start_eq`). The tokens of a match are in the order of the text exactly if none
that takes text starts where a later one does (`Rereads.inOrder_iff`), as in all trees without
lookaheads, and then the span of the tree covers them.
-/

namespace Packrat

/-- No token starts before an earlier one stops. -/
def InOrder (tokens : List Token) : Prop :=
  tokens.Pairwise fun token later => token.stop ≤ later.start

/-- No token that takes text starts where a later one does. -/
def ReadOnce (tokens : List Token) : Prop :=
  tokens.Pairwise fun token later => token.start = later.start → token.text = []

instance (tokens : List Token) : Decidable (InOrder tokens) :=
  inferInstanceAs (Decidable (List.Pairwise _ _))

instance (tokens : List Token) : Decidable (ReadOnce tokens) :=
  inferInstanceAs (Decidable (List.Pairwise _ _))

namespace Token

theorem start_le_stop (token : Token) : token.start ≤ token.stop := Nat.le_add_right ..

theorem stop_eq_start_iff {token : Token} : token.stop = token.start ↔ token.text = [] := by
  constructor
  · intro same
    have short := Text.length_le_byteLength token.text
    apply List.length_eq_zero_iff.mp
    unfold stop at same
    omega
  · intro none
    rw [stop, none]
    rfl

end Token

/-- Tokens are read from a cursor to another one, each after what is ignored, but those that a
lookahead has read are passed again by the ones after them. -/
inductive Rereads (ignore : List LexRule) : List Token → Cursor → Cursor → Prop where
  | nil {cursor} : Rereads ignore [] cursor cursor
  | cons {cursor name count tokens next}
      (more : Rereads ignore tokens ((cursor.skip ignore).forward count) next) :
      Rereads ignore
        (⟨.rule name, (cursor.skip ignore).rest.take count, (cursor.skip ignore).offset⟩ :: tokens)
        cursor next
  | ahead {cursor there front back next} (peeked : Rereads ignore front cursor there)
      (more : Rereads ignore back cursor next) : Rereads ignore (front ++ back) cursor next

namespace Rereads

variable {ignore : List LexRule} {tokens front back : List Token} {token : Token}
  {first second third : Cursor}

theorem append (before : Rereads ignore front first second)
    (after : Rereads ignore back second third) :
    Rereads ignore (front ++ back) first third := by
  induction before with
  | nil => exact after
  | cons _ ih => exact .cons (ih after)
  | ahead peeked _ _ ih =>
    rw [List.append_assoc]
    exact .ahead peeked (ih after)

theorem joins (ignore : List LexRule) : Joins ignore (Rereads ignore) where
  nil _ := .nil
  single _ _ _ := .cons .nil
  append := append

theorem returns (ignore : List LexRule) : Returns (Rereads ignore) := by
  intro tokens first second reads
  have ahead := Rereads.ahead reads .nil
  rwa [List.append_nil] at ahead

theorem start_head (reads : Rereads ignore tokens first second) (head : tokens.head? = some token) :
    token.start = (first.skip ignore).offset := by
  induction reads with
  | nil => cases head
  | cons =>
    cases head
    rfl
  | @ahead cursor there front back next _ _ ih ih' =>
    cases front with
    | nil => exact ih' head
    | cons earlier front => exact ih head

theorem extent_start (reads : Rereads ignore tokens first second) {range : Nat × Nat}
    (extent : Tree.extent tokens = some range) : range.1 = (first.skip ignore).offset := by
  cases tokens with
  | nil => cases extent
  | cons head tokens =>
    rw [Tree.extent_cons] at extent
    obtain rfl := Option.some.inj extent
    exact reads.start_head rfl

/-- A token stands in the text where it says, after what is ignored at the cursor. -/
theorem placed (reads : Rereads ignore tokens first second) (member : token ∈ tokens) :
    token.text <+: (first.seek token.start).rest ∧ (first.skip ignore).offset ≤ token.start := by
  suffices placed : ∀ origin : Cursor, origin.text = first.text →
      token.text <+: (origin.seek token.start).rest ∧ (first.skip ignore).offset ≤ token.start from
    placed first rfl
  intro origin here
  induction reads with
  | nil => cases member
  | @cons cursor name count tokens next more ih =>
    rcases List.mem_cons.mp member with rfl | member
    · have place : origin.seek (cursor.skip ignore).offset = cursor.skip ignore :=
        Cursor.seek_offset (here.trans (by simp))
      rw [place]
      exact ⟨List.take_prefix .., le_rfl⟩
    · obtain ⟨stands, after⟩ := ih member (here.trans (by simp))
      have on := (Cursor.LeadsTo.forward (cursor.skip ignore) count).offset_le
      have skipped := (((cursor.skip ignore).forward count).leadsTo_skip ignore).offset_le
      exact ⟨stands, on.trans (skipped.trans after)⟩
  | ahead _ _ ih ih' =>
    rcases List.mem_append.mp member with member | member
    · exact ih member here
    · exact ih' member here

theorem offset_le_start (reads : Rereads ignore tokens first second) (member : token ∈ tokens) :
    first.offset ≤ token.start :=
  (first.leadsTo_skip ignore).offset_le.trans (reads.placed member).2

/-- Where the tokens that start at the first place of all take no text, all start there. -/
theorem start_eq_of_forall (reads : Rereads ignore tokens first second)
    (empty : ∀ token ∈ tokens, token.start = (first.skip ignore).offset → token.text = []) :
    ∀ token ∈ tokens, token.start = (first.skip ignore).offset := by
  induction reads with
  | nil => exact nofun
  | @cons cursor name count tokens next more ih =>
    obtain ⟨none, others⟩ := List.forall_mem_cons.mp empty
    have none : (cursor.skip ignore).rest.take count = [] := none rfl
    have still : (cursor.skip ignore).forward count = cursor.skip ignore := by
      apply Cursor.eq_of_offset
      · exact Cursor.text_forward ..
      · simp [Cursor.forward, none]
    rw [still, cursor.skip_skip] at ih
    exact List.forall_mem_cons.mpr ⟨rfl, ih others⟩
  | ahead _ _ ih ih' =>
    obtain ⟨ahead, others⟩ := List.forall_mem_append.mp empty
    exact List.forall_mem_append.mpr ⟨ih ahead, ih' others⟩

theorem inOrder_of_readOnce (reads : Rereads ignore tokens first second) (once : ReadOnce tokens) :
    InOrder tokens := by
  induction reads with
  | nil => exact .nil
  | @cons cursor name count tokens next more ih =>
    obtain ⟨-, others⟩ := List.pairwise_cons.mp once
    apply List.pairwise_cons.mpr
    constructor
    · intro later member
      exact more.offset_le_start member
    · exact ih others
  | @ahead cursor there front back next peeked more ih ih' =>
    obtain ⟨ahead, others, across⟩ := List.pairwise_append.mp once
    refine List.pairwise_append.mpr ⟨ih ahead, ih' others, ?_⟩
    intro token among later member
    -- what is read ahead and starts with the first of the others takes no text
    cases back with
    | nil => cases member
    | cons other back =>
      have start := more.start_head rfl
      have still : token.start = (cursor.skip ignore).offset := by
        refine peeked.start_eq_of_forall ?_ token among
        intro token among same
        exact across token among other (List.mem_cons_self ..) (same.trans start.symm)
      have none := across token among other (List.mem_cons_self ..) (still.trans start.symm)
      rw [Token.stop_eq_start_iff.mpr none, still]
      exact (more.placed member).2

/-- Tokens are in the order of the text exactly if none that takes text is read again. -/
theorem inOrder_iff (reads : Rereads ignore tokens first second) :
    InOrder tokens ↔ ReadOnce tokens := by
  constructor
  · intro ordered
    refine List.Pairwise.imp ?_ ordered
    intro token later before same
    have after := token.start_le_stop
    apply Token.stop_eq_start_iff.mp
    omega
  · exact reads.inOrder_of_readOnce

end Rereads

/-- Where nothing is read ahead, tokens are in the order of the text. -/
theorem Stands.inOrder {ignore : List LexRule} {tokens : List Token} {first second : Cursor}
    (stands : Stands ignore tokens first second) : InOrder tokens := by
  suffices both : Rereads ignore tokens first second ∧ InOrder tokens from both.2
  induction stands with
  | nil => exact ⟨.nil, .nil⟩
  | cons more ih =>
    obtain ⟨reads, ordered⟩ := ih
    refine ⟨.cons reads, List.pairwise_cons.mpr ⟨?_, ordered⟩⟩
    intro later member
    exact reads.offset_le_start member

/-- The extent of tokens in the order of the text covers all of them. -/
theorem InOrder.covers {tokens : List Token} (ordered : InOrder tokens) {range : Nat × Nat}
    (extent : Tree.extent tokens = some range) {token : Token} (member : token ∈ tokens) :
    range.1 ≤ token.start ∧ token.stop ≤ range.2 := by
  obtain ⟨head, tokens, rfl⟩ := List.exists_cons_of_ne_nil (List.ne_nil_of_mem member)
  rw [Tree.extent_cons] at extent
  obtain rfl := Option.some.inj extent
  constructor
  · have starts : (head :: tokens).Pairwise fun token later => token.start ≤ later.start :=
      ordered.imp fun before => (Token.start_le_stop _).trans before
    exact starts.rel_head member
  · have stops : (head :: tokens).Pairwise fun token later => token.stop ≤ later.stop :=
      ordered.imp fun before => before.trans (Token.start_le_stop _)
    exact stops.rel_getLast member

/-- The place after tokens that are read from a cursor: where the last of them stops. -/
def Cursor.resume (cursor : Cursor) (tokens : List Token) : Cursor :=
  tokens.getLast?.elim cursor fun last => cursor.seek last.stop

namespace Rereads

variable {ignore : List LexRule} {tokens front back : List Token} {token : Token}
  {cursor first second : Cursor}

/-- After a token reading goes on from where it stops. -/
theorem resume_cons {count : Nat} {name : String} :
    cursor.resume (⟨.rule name, (cursor.skip ignore).rest.take count,
      (cursor.skip ignore).offset⟩ :: tokens) =
      ((cursor.skip ignore).forward count).resume tokens := by
  have text : cursor.text = ((cursor.skip ignore).forward count).text := by simp
  cases tokens with
  | nil => exact Cursor.seek_offset text
  | cons next tokens =>
    have last := List.getLast?_eq_some_getLast (List.cons_ne_nil next tokens)
    rw [Cursor.resume, Cursor.resume, List.getLast?_cons_cons, last]
    unfold Cursor.seek
    rw [Option.elim_some, Option.elim_some, text]

/-- What was read before other tokens does not matter for where they lead. -/
theorem resume_append (some : back ≠ []) : cursor.resume (front ++ back) = cursor.resume back := by
  rw [Cursor.resume, List.getLast?_append_of_ne_nil front some, Cursor.resume]

/-- A token among tokens and others is among the tokens, or among the others after all of them. -/
private theorem split_append {ahead others : List Token}
    (same : ahead ++ others = front ++ token :: back) :
    (∃ rest, ahead = front ++ token :: rest) ∨
      ∃ between, front = ahead ++ between ∧ others = between ++ token :: back := by
  rcases List.append_eq_append_iff.mp same with ⟨between, rfl, rest⟩ | ⟨between, rfl, rest⟩
  · exact .inr ⟨between, rfl, rest⟩
  · cases between with
    | nil => exact .inr ⟨[], by simp, rest.symm⟩
    | cons head between =>
      obtain ⟨rfl, -⟩ := List.cons.inj rest
      exact .inl ⟨between, rfl⟩

/-- A token starts after what is ignored where the token before it stops, or where an earlier one
starts. -/
theorem start_eq (reads : Rereads ignore tokens first second)
    (split : tokens = front ++ token :: back) :
    token.start = ((first.resume front).skip ignore).offset ∨
      ∃ earlier ∈ front, token.start = earlier.start := by
  induction reads generalizing front back with
  | nil => simp at split
  | @cons cursor name count tokens next more ih =>
    cases front with
    | nil =>
      obtain ⟨rfl, -⟩ := List.cons.inj split
      exact .inl rfl
    | cons here front =>
      obtain ⟨rfl, rest⟩ := List.cons.inj split
      rw [resume_cons]
      refine (ih rest).imp_right ?_
      rintro ⟨earlier, member, same⟩
      exact ⟨earlier, List.mem_cons_of_mem _ member, same⟩
  | @ahead cursor there ahead others next peeked more ih ih' =>
    rcases split_append split with ⟨rest, within⟩ | ⟨between, rfl, rest⟩
    · exact ih within
    rcases ih' rest with start | ⟨earlier, member, start⟩
    · by_cases none : between = []
      · -- the first of the others starts where the first that is read ahead does
        subst none
        cases ahead with
        | nil => exact .inl start
        | cons head ahead =>
          have again : token.start = head.start := start.trans (peeked.start_head rfl).symm
          exact .inr ⟨head, by simp, again⟩
      · rw [resume_append none]
        exact .inl start
    · exact .inr ⟨earlier, List.mem_append_right _ member, start⟩

end Rereads

namespace Grammar

/-- The tokens of the tree of a match are read from the cursor to the end of the match. -/
theorem reads_of_gives {grammar : Grammar} {rule : Rule} {cursor : Cursor} {found : Match}
    (gives : grammar.Gives rule cursor (.ok found)) :
    Rereads grammar.ignore found.node.tokens cursor found.cursor :=
  joined_of_gives (Rereads.joins _) (.inr (Rereads.returns _)) (.inr (Rereads.returns _)) gives

end Grammar

namespace Environment

/-- Where a rule matches on an environment that calls at places of a text have led to, each token of
the tree stands in the text where it says, and starts after what is ignored where the token before
it stops, or where an earlier one starts. The tokens are in the order of the text exactly if none
that takes text starts where a later one does, which is so if there is no lookahead whose tree is
kept, and then the span covers all of them; it always starts where the first of them can. -/
theorem Reaches.inOrder_iff_readOnce {grammar : Grammar} {text : Text} {history : List Call}
    {environment : Environment} (reached : (start grammar).Reaches history environment)
    (texts : ∀ call ∈ history, call.cursor.text = text) {rule : Rule} {cursor : Cursor}
    (here : cursor.text = text) {found : Match} {next : Environment}
    (made : environment.evalAt? rule cursor = some (.ok found, next)) :
    let tokens := found.node.tokens
    found.node.terminals = tokens.map (·.text) ∧
      (∀ token ∈ tokens, token.text <+: (cursor.seek token.start).rest) ∧
      (∀ front token back, tokens = front ++ token :: back →
        token.start = ((cursor.resume front).skip grammar.ignore).offset ∨
          ∃ earlier ∈ front, token.start = earlier.start) ∧
      (InOrder tokens ↔ ReadOnce tokens) ∧
      (grammar.lossless = true → rule.lossless = true → InOrder tokens) ∧
      ∀ range, found.node.span = some range →
        range.1 = (cursor.skip grammar.ignore).offset ∧
        (∀ token ∈ tokens, range.1 ≤ token.start) ∧
        (InOrder tokens → ∀ token ∈ tokens, token.stop ≤ range.2) := by
  intro tokens
  have ended := reached.map_evalAt? texts rule here
  rw [made, Grammar.evalAt?_eq] at ended
  have gives : grammar.Gives rule cursor (.ok found) := ended.symm
  have reads : Rereads grammar.ignore tokens cursor found.cursor := Grammar.reads_of_gives gives
  refine ⟨found.node.terminals_eq, ?_, ?_, reads.inOrder_iff, ?_, ?_⟩
  · intro token member
    exact (reads.placed member).1
  · intro front token back split
    exact reads.start_eq split
  · intro productions lossless
    exact (Grammar.stands_of_gives productions lossless gives).inOrder
  · intro range span
    rw [Tree.span_eq] at span
    have first := reads.extent_start span
    refine ⟨first, ?_, ?_⟩
    · intro token member
      rw [first]
      exact (reads.placed member).2
    · intro ordered token member
      exact (ordered.covers span member).2

/-- What a lookahead at the end of a sequence has read is after what the sequence has taken, so that
the tokens are in order and the span goes on past the match. -/
theorem Reaches.inOrder_lookahead_last :
    let grammar : Grammar := ⟨.ofList [("first", .text "a")], .empty, []⟩
    let rule : Rule := .sequence [.reference "first", .ahead (.text "b")]
    let early : Call := .apply "first" (.start ['a', 'b'])
    ∃ environment found next, (start grammar).Reaches [early] environment ∧
      environment.evalAt? rule (.start ['a', 'b']) = some (.ok found, next) ∧
      found.cursor.offset = 1 ∧ InOrder found.node.tokens ∧ found.node.span = some (0, 2) ∧
      ∀ token ∈ found.node.tokens, token.stop ≤ 2 := by
  intro grammar rule early
  have texts : ∀ call ∈ [early], call.cursor.text = ['a', 'b'] := by simp [early, Call.cursor]
  have fresh : (start grammar).memo.Sound grammar ['a', 'b'] := .empty grammar _
  obtain ⟨environment, reached⟩ := exists_reaches fresh texts
    (show ∀ call ∈ [early], (call.direct? grammar).isSome = true by decide +kernel)
  have answer := reached.map_evalAt? texts rule (Cursor.text_start ['a', 'b'])
  obtain ⟨found, ended, once, span, stop⟩ : ∃ found,
      grammar.evalAt? rule (.start ['a', 'b']) = some (.ok found) ∧ ReadOnce found.node.tokens ∧
        found.node.span = some (0, 2) ∧ found.cursor.offset = 1 :=
    ⟨_, rfl, by decide, rfl, rfl⟩
  obtain ⟨⟨outcome, next⟩, made, rfl⟩ := Option.map_eq_some_iff.mp (answer.trans ended)
  obtain ⟨-, -, -, order, -, covered⟩ :=
    reached.inOrder_iff_readOnce texts (Cursor.text_start ['a', 'b']) made
  obtain ⟨-, -, inside⟩ := covered _ span
  have ordered := order.mpr once
  exact ⟨environment, found, next, reached, made, stop, ordered, span, inside ordered⟩

/-- What a lookahead has read is there twice, the second time after the token behind it, and the
span of the tree ends before that token. -/
theorem lookahead_reads_twice :
    let grammar : Grammar := ⟨.empty, .empty, []⟩
    let both : Rule := .sequence [.text "a", .text "b"]
    ∃ found environment,
      (start grammar).evalAt? (.sequence [.ahead both, .text "a"]) (.start ['a', 'b']) =
        some (.ok found, environment) ∧
      found.node.tokens.map Token.range = [(0, 1), (1, 2), (0, 1)] ∧
      found.node.span = some (0, 1) ∧ ¬ InOrder found.node.tokens :=
  ⟨_, _, rfl, rfl, rfl, by decide⟩

end Environment

end Packrat
