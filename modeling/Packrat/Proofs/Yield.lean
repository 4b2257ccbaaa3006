import Packrat.Proofs.Termination
import Packrat.Tree

/-! # What the tokens of a tree are

The tokens of the tree of a match, in order, are what the match has taken: each stands after what
is ignored where the one before it ends, and the match ends with the last (`stands_of_gives`). Only
a positive lookahead leaves tokens in a tree that are not taken. A relation that counts those as
well holds of the tokens of every match as soon as it holds of one token and of tokens after tokens
(`joined_of_gives`).
-/

namespace Packrat

namespace Tree

mutual

/-- The tokens below a tree in order, without sentinels. -/
def tokens : Tree → List Token
  | .token leaf => if leaf.isSentinel then [] else [leaf]
  | .named _ node => node.tokens
  | .array nodes => tokensAll nodes

/-- The tokens below several trees in order, without sentinels. -/
def tokensAll : List Tree → List Token
  | [] => []
  | node :: more => node.tokens ++ tokensAll more

end

theorem tokensAll_append (front back : List Tree) :
    tokensAll (front ++ back) = tokensAll front ++ tokensAll back := by
  induction front with
  | nil => rfl
  | cons node front ih => simp only [List.cons_append, tokensAll, ih, List.append_assoc]

mutual

/-- The terminals of a tree are the texts of its tokens. -/
theorem terminals_eq : ∀ tree : Tree, tree.terminals = tree.tokens.map (·.text)
  | .token leaf => by
      rw [terminals, tokens]
      split <;> rfl
  | .named _ node => terminals_eq node
  | .array nodes => terminalsAll_eq nodes

theorem terminalsAll_eq :
    ∀ nodes : List Tree, terminalsAll nodes = (tokensAll nodes).map (·.text)
  | [] => rfl
  | node :: more => by
      rw [terminalsAll, tokensAll, List.map_append, terminals_eq node, terminalsAll_eq more]

end

end Tree

/-- The words stand between two cursors, each after what is ignored there. -/
inductive Lies (ignore : List LexRule) : List Text → Cursor → Cursor → Prop where
  | nil {cursor} : Lies ignore [] cursor cursor
  | cons {cursor count words next}
      (more : Lies ignore words ((cursor.skip ignore).forward count) next) :
      Lies ignore ((cursor.skip ignore).rest.take count :: words) cursor next

/-- The tokens stand between two cursors, each at the place and with the characters that it says,
after what is ignored there. -/
inductive Stands (ignore : List LexRule) : List Token → Cursor → Cursor → Prop where
  | nil {cursor} : Stands ignore [] cursor cursor
  | cons {cursor name count tokens next}
      (more : Stands ignore tokens ((cursor.skip ignore).forward count) next) :
      Stands ignore
        (⟨.rule name, (cursor.skip ignore).rest.take count, (cursor.skip ignore).offset⟩ :: tokens)
        cursor next

theorem Stands.lies {ignore : List LexRule} {tokens : List Token} {first second : Cursor}
    (stands : Stands ignore tokens first second) :
    Lies ignore (tokens.map (·.text)) first second := by
  induction stands with
  | nil => exact .nil
  | cons _ ih => exact .cons ih

/-- A relation between the tokens of two places that holds of none, of a token after what is
ignored, and of tokens after tokens. -/
structure Joins (ignore : List LexRule) (Between : List Token → Cursor → Cursor → Prop) :
    Prop where
  nil (cursor : Cursor) : Between [] cursor cursor
  single (cursor : Cursor) (name : String) (count : Nat) :
    Between [⟨.rule name, (cursor.skip ignore).rest.take count, (cursor.skip ignore).offset⟩]
      cursor ((cursor.skip ignore).forward count)
  append {front back : List Token} {first second third : Cursor}
    (before : Between front first second) (after : Between back second third) :
    Between (front ++ back) first third

/-- Tokens that are read ahead count as read. -/
def Returns (Between : List Token → Cursor → Cursor → Prop) : Prop :=
  ∀ tokens first second, Between tokens first second → Between tokens first first

/-- Tokens between a cursor and itself are there any number of times. -/
theorem Joins.replicate {ignore : List LexRule} {Between : List Token → Cursor → Cursor → Prop}
    (joins : Joins ignore Between) {node : Tree} {cursor : Cursor}
    (still : Between node.tokens cursor cursor) (count : Nat) :
    Between (Tree.tokensAll (List.replicate count node)) cursor cursor := by
  induction count with
  | zero => exact joins.nil cursor
  | succ count ih => exact joins.append still ih

theorem Stands.joins (ignore : List LexRule) : Joins ignore (Stands ignore) where
  nil _ := .nil
  single _ _ _ := .cons .nil
  append before after := by
    induction before with
    | nil => exact after
    | cons _ ih => exact .cons (ih after)

namespace Rule

mutual

/-- Whether a rule has no positive lookahead whose tree it keeps. -/
def lossless : Rule → Bool
  | .ahead _ => false
  | .sequence rules | .choice rules | .ordered rules => allLossless rules
  | .optional rule | .repetition rule _ _ | .veiled rule => rule.lossless
  | .endOfText | .empty | .terminal _ | .absent _ | .reference _ => true

/-- Whether several rules have no positive lookahead. -/
def allLossless : List Rule → Bool
  | [] => true
  | rule :: more => rule.lossless && allLossless more

end

theorem lossless_of_mem {rules : List Rule} (all : allLossless rules = true) {rule : Rule}
    (member : rule ∈ rules) : rule.lossless = true := by
  induction rules with
  | nil => cases member
  | cons head more ih =>
    obtain ⟨here, others⟩ := Bool.and_eq_true_iff.mp all
    rcases List.mem_cons.mp member with rfl | member
    · exact here
    · exact ih others member

end Rule

namespace Grammar

variable {grammar : Grammar}

/-- Whether no production has a positive lookahead. -/
def lossless (grammar : Grammar) : Bool :=
  grammar.productions.entries.all fun entry => entry.2.lossless

theorem lossless_of_find? (productions : grammar.lossless = true) {name : String} {rule : Rule}
    (declared : grammar.productions.find? name = some rule) : rule.lossless = true :=
  List.all_eq_true.mp productions _ (Table.mem_of_find? declared)

variable {Between : List Token → Cursor → Cursor → Prop}

/-- The tokens of a match are related from the cursor to its end, if none of them is read ahead or
those count too. -/
private def Joined (Between : List Token → Cursor → Cursor → Prop) (rule : Rule) (cursor : Cursor)
    (outcome : Outcome) : Prop :=
  rule.lossless = true ∨ Returns Between → ∀ found, outcome = .ok found →
    Between found.node.tokens cursor found.cursor

private theorem sequenced_join (joins : Joins grammar.ignore Between) {rules : List Rule}
    {cursor : Cursor} {result : Except Reject (List Tree × Cursor)}
    (sequenced : Sequenced (fun rule cursor outcome =>
      grammar.Gives rule cursor outcome ∧ Joined Between rule cursor outcome)
      rules cursor result)
    (kept : Rule.allLossless rules = true ∨ Returns Between) {nodes : List Tree} {next : Cursor}
    (matched : result = .ok (nodes, next)) :
    Between (Tree.tokensAll nodes) cursor next := by
  induction sequenced generalizing nodes with
  | nil =>
    cases matched
    exact joins.nil _
  | reject => cases matched
  | @next _ _ _ found result here rest ih =>
    cases result with
    | error reject => cases matched
    | ok pair =>
      cases matched
      have first := kept.imp_left fun all => (Bool.and_eq_true_iff.mp all).1
      have others := kept.imp_left fun all => (Bool.and_eq_true_iff.mp all).2
      exact joins.append (here.2 first found rfl) (ih others rfl)

private theorem tried_join {cursor : Cursor} {rules : List Rule} {ambiguity : Option Reject}
    {outcome : Outcome} (tried : Tried (fun rule cursor outcome =>
      grammar.Gives rule cursor outcome ∧ Joined Between rule cursor outcome)
      cursor rules ambiguity outcome)
    (kept : Rule.allLossless rules = true ∨ Returns Between) {found : Match}
    (matched : outcome = .ok found) :
    Between found.node.tokens cursor found.cursor := by
  induction tried with
  | nil => cases matched
  | found here =>
    have first := kept.imp_left fun all => (Bool.and_eq_true_iff.mp all).1
    exact here.2 first found matched
  | next here rest ih =>
    have others := kept.imp_left fun all => (Bool.and_eq_true_iff.mp all).2
    exact ih others matched

/-- Rounds go on from the tokens of those before. -/
private theorem repeated_join (joins : Joins grammar.ignore Between) {rule : Rule} {min fuel : Nat}
    {max : Option Nat} {nodes : List Tree} {first cursor : Cursor} {rounds : Rounds}
    (repeated : Repeated (fun cursor outcome =>
      grammar.Gives rule cursor outcome ∧ Joined Between rule cursor outcome)
      min max fuel nodes cursor rounds) (kept : rule.lossless = true ∨ Returns Between)
    (before : Between (Tree.tokensAll nodes.reverse) first cursor) :
    Between (Tree.tokensAll rounds.nodes.reverse) first rounds.cursor := by
  induction repeated with
  | spent | full | reject => exact before
  | @next fuel nodes cursor found rounds room here shorter rest ih =>
    refine ih ?_
    have joined := joins.append before (here.2 kept found rfl)
    simpa [Tree.tokensAll_append, Tree.tokensAll] using joined
  | @still fuel nodes cursor found room here same =>
    have leads : cursor.LeadsTo found.cursor := eval_after here.1
    have still : found.cursor = cursor := leads.eq_of_length (Nat.not_lt.mp same)
    have joined := here.2 kept found rfl
    rw [still] at joined
    rw [List.reverse_append, List.reverse_replicate, Tree.tokensAll_append, still]
    exact joins.append before (joins.replicate joined _)

/-- What holds of no tokens, of one and of tokens after tokens holds of those of a match, if none of
them is read ahead or those count too. -/
theorem joined_of_gives (joins : Joins grammar.ignore Between)
    (productions : grammar.lossless = true ∨ Returns Between) {rule : Rule}
    (kept : rule.lossless = true ∨ Returns Between) {cursor : Cursor} {found : Match}
    (gives : grammar.Gives rule cursor (.ok found)) :
    Between found.node.tokens cursor found.cursor := by
  suffices closed : ∀ rule cursor outcome, grammar.Unfolds (fun rule cursor outcome =>
      grammar.Gives rule cursor outcome ∧ Joined Between rule cursor outcome)
      rule cursor outcome → Joined Between rule cursor outcome from
    eval_induct closed gives kept found rfl
  intro rule cursor outcome unfolds kept found matched
  cases unfolds with
  | endOfText =>
    unfold Outcome.atEnd at matched
    split at matched <;> cases matched
    exact joins.nil _
  | empty =>
    cases matched
    exact joins.nil _
  | terminal =>
    obtain ⟨name, rule, caseless, count, -, -, -, rfl⟩ := Terminal.eval_eq_ok_iff.mp matched
    exact joins.single cursor name count
  | @sequence rules _ result members =>
    cases result with
    | error reject => cases matched
    | ok pair =>
      cases matched
      exact sequenced_join joins members kept rfl
  | choice all =>
    obtain ⟨rule, among, here⟩ := exists_rule_of_mem all (Outcome.mem_of_unique matched)
    exact here.2 (kept.imp_left fun all => Rule.lossless_of_mem all among) found rfl
  | ordered tried => exact tried_join tried kept matched
  | @optional rule _ outcome here =>
    cases outcome with
    | error reject =>
      cases matched
      exact joins.nil _
    | ok inner =>
      cases matched
      exact here.2 kept found rfl
  | repetition repeated =>
    unfold Rounds.outcome at matched
    split at matched
    · cases matched
    · cases matched
      exact repeated_join joins repeated kept (joins.nil _)
  | @absent _ _ outcome here =>
    cases outcome with
    | ok _ => cases matched
    | error reject =>
      cases matched
      exact joins.nil _
  | @ahead rule _ outcome here =>
    -- a lookahead is not lossless, so that what it has read is there only to count as read
    obtain none | back := kept
    · cases none
    · cases outcome with
      | error reject => cases matched
      | ok inner =>
        cases matched
        exact back _ _ _ (here.2 (.inr back) inner rfl)
  | missing => cases matched
  | @reference name rule _ outcome declared here =>
    cases outcome with
    | error reject => cases matched
    | ok inner =>
      cases matched
      have body := productions.imp_left fun all => lossless_of_find? all declared
      exact here.2 body inner rfl
  | veiled here => exact here.2 kept found matched

/-- The tokens of the tree of a match are what the match has taken. -/
theorem stands_of_gives (productions : grammar.lossless = true) {rule : Rule}
    (lossless : rule.lossless = true) {cursor : Cursor} {found : Match}
    (gives : grammar.Gives rule cursor (.ok found)) :
    Stands grammar.ignore found.node.tokens cursor found.cursor :=
  joined_of_gives (Stands.joins _) (.inl productions) (.inl lossless) gives

/-- The terminals of the tree of a match are the words that the match has taken. -/
theorem lies_of_gives (productions : grammar.lossless = true) {rule : Rule}
    (lossless : rule.lossless = true) {cursor : Cursor} {found : Match}
    (gives : grammar.Gives rule cursor (.ok found)) :
    Lies grammar.ignore found.node.terminals cursor found.cursor :=
  found.node.terminals_eq ▸ (stands_of_gives productions lossless gives).lies

end Grammar

end Packrat
