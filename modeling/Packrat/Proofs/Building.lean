import Packrat.Proofs.Pattern.Spelling
import Packrat.Proofs.Terminal
import Packrat.Proofs.Unfolding

/-! # The trees that rules build

`Rule.Builds` says which trees a rule can build, given those that the productions build. What holds
of everything that the bodies of productions build from it holds of every named node of the tree
of a match (`Grammar.every_of_gives`), so a fold over trees can be looked at one production at a
time.
-/

namespace Packrat

/-- The trees that a rule can build, whatever the text, from those that productions build. -/
inductive Rule.Builds (lexicon : Lexicon) (known : String → Tree → Prop) : Rule → Tree → Prop where
  | endOfText {offset} : Builds lexicon known .endOfText (.token (.eof offset))
  | empty {offset} : Builds lexicon known .empty (.token (.empty offset))
  | terminal {leaf name rule caseless rest count start}
      (lexical : leaf.lexical? lexicon = some (name, rule, caseless))
      (counted : rule.matchCount? caseless rest = some count) :
      Builds lexicon known (.terminal leaf) (.token ⟨.rule name, rest.take count, start⟩)
  | sequence {rules : List Rule} {nodes : List Tree} (long : rules.length = nodes.length)
      (members : ∀ {rule tree}, (rule, tree) ∈ rules.zip nodes → Builds lexicon known rule tree) :
      Builds lexicon known (.sequence rules) (.array nodes)
  | choice {rules rule tree} (among : rule ∈ rules) (inner : Builds lexicon known rule tree) :
      Builds lexicon known (.choice rules) tree
  | ordered {rules rule tree} (among : rule ∈ rules) (inner : Builds lexicon known rule tree) :
      Builds lexicon known (.ordered rules) tree
  | without {rule offset} : Builds lexicon known (.optional rule) (.token (.empty offset))
  | optional {rule tree} (inner : Builds lexicon known rule tree) :
      Builds lexicon known (.optional rule) tree
  | repetition {rule : Rule} {min : Nat} {max : Option Nat} {nodes : List Tree}
      (enough : min ≤ nodes.length) (rounds : ∀ node ∈ nodes, Builds lexicon known rule node) :
      Builds lexicon known (.repetition rule min max) (.array nodes)
  | absent {rule offset} : Builds lexicon known (.absent rule) (.token (.empty offset))
  | ahead {rule tree} (inner : Builds lexicon known rule tree) :
      Builds lexicon known (.ahead rule) tree
  | reference {name tree} (inner : known name tree) :
      Builds lexicon known (.reference name) (.named name tree)
  | veiled {rule tree} (inner : Builds lexicon known rule tree) :
      Builds lexicon known (.veiled rule) tree

namespace Rule.Builds

variable {lexicon : Lexicon} {known : String → Tree → Prop} {rules : List Rule} {tree : Tree}

/-- The members of a sequence build the nodes of its tree. -/
theorem members (builds : Builds lexicon known (.sequence rules) tree) :
    ∃ nodes, tree = .array nodes ∧ List.Forall₂ (Builds lexicon known) rules nodes := by
  cases builds with
  | sequence long members => exact ⟨_, rfl, List.forall₂_iff_zip.mpr ⟨long, members⟩⟩

/-- Two rules one after the other build two nodes. -/
theorem pair {first second : Rule} (builds : Builds lexicon known (.sequence [first, second]) tree) :
    ∃ node node', tree = .array [node, node'] ∧ Builds lexicon known first node ∧
      Builds lexicon known second node' := by
  obtain ⟨_, rfl, _ | ⟨first, _ | ⟨second, _ | _⟩⟩⟩ := builds.members
  exact ⟨_, _, rfl, first, second⟩

/-- Three rules one after the other build three nodes. -/
theorem triple {first second third : Rule}
    (builds : Builds lexicon known (.sequence [first, second, third]) tree) :
    ∃ node node' node'', tree = .array [node, node', node''] ∧ Builds lexicon known first node ∧
      Builds lexicon known second node' ∧ Builds lexicon known third node'' := by
  obtain ⟨_, rfl, _ | ⟨first, _ | ⟨second, _ | ⟨third, _ | _⟩⟩⟩⟩ := builds.members
  exact ⟨_, _, _, rfl, first, second, third⟩

/-- The rounds of a repetition build the nodes of its tree. -/
theorem rounds {rule : Rule} {min : Nat} {max : Option Nat}
    (builds : Builds lexicon known (.repetition rule min max) tree) :
    ∃ nodes, tree = .array nodes ∧ min ≤ nodes.length ∧
      ∀ node ∈ nodes, Builds lexicon known rule node := by
  cases builds with
  | repetition enough rounds => exact ⟨_, rfl, enough, rounds⟩

/-- A reference builds a node of its own name. -/
theorem named {name : String} (builds : Builds lexicon known (.reference name) tree) :
    ∃ body, tree = .named name body ∧ known name body := by
  cases builds with
  | reference inner => exact ⟨_, rfl, inner⟩

/-- A terminal builds a token of what its lexical rule takes. -/
theorem leaf {terminal : Terminal} (builds : Builds lexicon known (.terminal terminal) tree) :
    ∃ name rule caseless rest count start,
      terminal.lexical? lexicon = some (name, rule, caseless) ∧
      rule.matchCount? caseless rest = some count ∧
      tree = .token ⟨.rule name, rest.take count, start⟩ := by
  cases builds with
  | terminal lexical counted => exact ⟨_, _, _, _, _, _, lexical, counted, rfl⟩

/-- A token of a pattern has a text that is spelled by the pattern. -/
theorem spelled {name : String} {pattern : Pattern}
    (declared : lexicon.find? name = some (.pattern pattern))
    (plain : (pattern.regex.anchored && pattern.regex.LoopsAdvance) = true)
    (builds : Builds lexicon known (.token name) tree) :
    ∃ text start, tree = .token ⟨.rule name, text, start⟩ ∧ pattern.regex.Spells text := by
  obtain ⟨name, rule, caseless, rest, count, start, lexical, counted, rfl⟩ := builds.leaf
  rw [Terminal.lexical?, declared] at lexical
  cases lexical
  obtain ⟨anchored, loops⟩ := Bool.and_eq_true_iff.mp plain
  obtain ⟨word, after, rfl, rfl, spells⟩ := Pattern.spells_of_matchCount? anchored loops counted
  exact ⟨word, start, by rw [List.take_left], spells⟩

/-- A text as it stands builds a token of the text. -/
theorem text {text : String} (builds : Builds lexicon known (.text text) tree) :
    ∃ start, tree = .token ⟨.rule text, text.toList, start⟩ := by
  obtain ⟨name, rule, caseless, rest, count, start, lexical, counted, rfl⟩ := builds.leaf
  cases lexical
  simp only [LexRule.matchCount?, Bool.false_eq_true, if_false, Option.ite_none_right_eq_some,
    List.isPrefixOf_iff_prefix, Option.some.injEq] at counted
  obtain ⟨⟨suffix, rfl⟩, rfl⟩ := counted
  exact ⟨start, by rw [List.take_left]⟩

/-- One of several alternatives builds the tree of a choice. -/
theorem alternative (builds : Builds lexicon known (.choice rules) tree) :
    ∃ rule ∈ rules, Builds lexicon known rule tree := by
  cases builds with
  | choice among inner => exact ⟨_, among, inner⟩

/-- One of several alternatives builds the tree of an ordered choice. -/
theorem orderedAlternative (builds : Builds lexicon known (.ordered rules) tree) :
    ∃ rule ∈ rules, Builds lexicon known rule tree := by
  cases builds with
  | ordered among inner => exact ⟨_, among, inner⟩

/-- An optional rule builds the tree of its operand, or nothing. -/
theorem operand {rule : Rule} (builds : Builds lexicon known (.optional rule) tree) :
    (∃ offset, tree = .token (.empty offset)) ∨ Builds lexicon known rule tree := by
  cases builds with
  | without => exact .inl ⟨_, rfl⟩
  | optional inner => exact .inr inner

theorem mono {known' : String → Tree → Prop} {rule : Rule}
    (weaker : ∀ name tree, known name tree → known' name tree)
    (builds : Builds lexicon known rule tree) : Builds lexicon known' rule tree := by
  induction builds with
  | endOfText => exact .endOfText
  | empty => exact .empty
  | terminal lexical counted => exact .terminal lexical counted
  | sequence long _ ih => exact .sequence long ih
  | choice among _ ih => exact .choice among ih
  | ordered among _ ih => exact .ordered among ih
  | without => exact .without
  | optional _ ih => exact .optional ih
  | repetition enough _ ih => exact .repetition enough ih
  | absent => exact .absent
  | ahead _ ih => exact .ahead ih
  | reference inner => exact .reference (weaker _ _ inner)
  | veiled _ ih => exact .veiled ih

end Rule.Builds

/-- Every named node of a tree has a property. -/
inductive Tree.Every (holds : String → Tree → Prop) : Tree → Prop where
  | token {leaf} : Every holds (.token leaf)
  | named {name node} (here : holds name node) (below : Every holds node) :
      Every holds (.named name node)
  | array {nodes : List Tree} (each : ∀ node ∈ nodes, Every holds node) :
      Every holds (.array nodes)

theorem Rule.Builds.every {lexicon : Lexicon} {holds : String → Tree → Prop} {rule : Rule}
    {tree : Tree} (builds : rule.Builds lexicon (fun name tree =>
      holds name tree ∧ tree.Every holds) tree) : tree.Every holds := by
  induction builds with
  | endOfText | empty | terminal | without | absent => exact .token
  | @sequence rules nodes long members ih =>
    refine .array fun node member => ?_
    obtain ⟨index, short, rfl⟩ := List.getElem_of_mem member
    have long' : index < rules.length := long ▸ short
    exact @ih rules[index] nodes[index]
      (List.mem_iff_getElem.mpr ⟨index, by simp [long', short], by simp⟩)
  | choice _ _ ih | ordered _ _ ih | optional _ ih | ahead _ ih | veiled _ ih => exact ih
  | repetition _ _ ih => exact .array ih
  | reference inner => exact .named inner.1 inner.2

namespace Grammar

variable {grammar : Grammar} {known : String → Tree → Prop}
  (closed : ∀ name rule tree, grammar.productions.find? name = some rule →
    rule.Builds grammar.lexicon known tree → known name tree)

/-- The tree of a match is one that the rule can build. -/
private def BuildsRight (grammar : Grammar) (known : String → Tree → Prop) (rule : Rule)
    (_ : Cursor) (outcome : Outcome) : Prop :=
  ∀ found, outcome = .ok found → rule.Builds grammar.lexicon known found.node

private theorem sequenced_builds {rules : List Rule} {cursor : Cursor}
    {result : Except Reject (List Tree × Cursor)}
    (sequenced : Sequenced (fun rule cursor outcome =>
      grammar.Gives rule cursor outcome ∧ grammar.BuildsRight known rule cursor outcome)
      rules cursor result)
    {nodes : List Tree} {next : Cursor} (matched : result = .ok (nodes, next)) :
    List.Forall₂ (Rule.Builds grammar.lexicon known) rules nodes := by
  induction sequenced generalizing nodes with
  | nil =>
    cases matched
    exact .nil
  | reject => cases matched
  | @next _ _ _ found result here rest ih =>
    cases result with
    | error reject => cases matched
    | ok pair =>
      cases matched
      exact .cons (here.2 found rfl) (ih rfl)

private theorem tried_builds {cursor : Cursor} {rules : List Rule} {ambiguity : Option Reject}
    {outcome : Outcome} (tried : Tried (fun rule cursor outcome =>
      grammar.Gives rule cursor outcome ∧ grammar.BuildsRight known rule cursor outcome)
      cursor rules ambiguity outcome) {found : Match} (matched : outcome = .ok found) :
    ∃ rule ∈ rules, rule.Builds grammar.lexicon known found.node := by
  induction tried with
  | nil => cases matched
  | found here => exact ⟨_, List.mem_cons_self .., here.2 found matched⟩
  | next here rest ih =>
    obtain ⟨rule, among, builds⟩ := ih matched
    exact ⟨rule, List.mem_cons_of_mem _ among, builds⟩

private theorem repeated_builds {rule : Rule} {min fuel : Nat} {max : Option Nat}
    {nodes : List Tree} {cursor : Cursor} {rounds : Rounds}
    (repeated : Repeated (fun cursor outcome =>
      grammar.Gives rule cursor outcome ∧ grammar.BuildsRight known rule cursor outcome)
      min max fuel nodes cursor rounds)
    (before : ∀ node ∈ nodes, rule.Builds grammar.lexicon known node) :
    ∀ node ∈ rounds.nodes, rule.Builds grammar.lexicon known node := by
  induction repeated with
  | spent | full | reject => exact before
  | next room here shorter rest ih =>
    exact ih (List.forall_mem_cons.mpr ⟨here.2 _ rfl, before⟩)
  | still room here same =>
    refine List.forall_mem_append.mpr ⟨fun node member => ?_, before⟩
    rw [List.eq_of_mem_replicate member]
    exact here.2 _ rfl

include closed

/-- If the bodies of productions build only what is known of them, every match of a rule has a
tree that the rule can build from that. -/
theorem builds_of_gives {rule : Rule} {cursor : Cursor} {found : Match}
    (gives : grammar.Gives rule cursor (.ok found)) :
    rule.Builds grammar.lexicon known found.node := by
  suffices kept : ∀ rule cursor outcome, grammar.Unfolds (fun rule cursor outcome =>
      grammar.Gives rule cursor outcome ∧ grammar.BuildsRight known rule cursor outcome)
      rule cursor outcome → grammar.BuildsRight known rule cursor outcome from
    eval_induct kept gives found rfl
  intro rule cursor outcome unfolds found matched
  cases unfolds with
  | endOfText =>
    unfold Outcome.atEnd at matched
    split at matched <;> cases matched
    exact .endOfText
  | empty =>
    cases matched
    exact .empty
  | terminal =>
    obtain ⟨name, rule, caseless, count, lexical, -, counted, rfl⟩ :=
      Terminal.eval_eq_ok_iff.mp matched
    exact .terminal lexical counted
  | @sequence rules _ result members =>
    cases result with
    | error reject => cases matched
    | ok pair =>
      cases matched
      obtain ⟨long, members⟩ := List.forall₂_iff_zip.mp (sequenced_builds members rfl)
      exact .sequence long members
  | choice all =>
    obtain ⟨rule, among, here⟩ := exists_rule_of_mem all (Outcome.mem_of_unique matched)
    exact .choice among (here.2 found rfl)
  | ordered tried =>
    obtain ⟨rule, among, builds⟩ := tried_builds tried matched
    exact .ordered among builds
  | @optional rule _ outcome here =>
    cases outcome with
    | error reject =>
      cases matched
      exact .without
    | ok inner =>
      cases matched
      exact .optional (here.2 found rfl)
  | repetition repeated =>
    unfold Rounds.outcome at matched
    split at matched
    · cases matched
    · rename_i enough
      cases matched
      refine .repetition (by rw [List.length_reverse]; omega) fun node member => ?_
      exact repeated_builds repeated nofun node (List.mem_reverse.mp member)
  | @absent _ _ outcome here =>
    cases outcome with
    | ok _ => cases matched
    | error reject =>
      cases matched
      exact .absent
  | @ahead _ _ outcome here =>
    cases outcome with
    | error reject => cases matched
    | ok inner =>
      cases matched
      exact .ahead (here.2 inner rfl)
  | missing => cases matched
  | @reference name rule _ outcome declared here =>
    cases outcome with
    | error reject => cases matched
    | ok inner =>
      cases matched
      exact .reference (closed name rule inner.node declared (here.2 inner rfl))
  | veiled here => exact .veiled (here.2 found matched)

end Grammar

/-- What the bodies of productions build only from trees that have a property, and what then has
the property itself, has it at every named node. -/
theorem Grammar.every_of_gives {grammar : Grammar} {holds : String → Tree → Prop}
    (closed : ∀ name rule tree, grammar.productions.find? name = some rule →
      rule.Builds grammar.lexicon holds tree → holds name tree)
    {rule : Rule} {cursor : Cursor} {found : Match}
    (gives : grammar.Gives rule cursor (.ok found)) : found.node.Every holds := by
  refine Rule.Builds.every (builds_of_gives (fun name rule tree declared builds => ?_) gives)
  exact ⟨closed name rule tree declared (builds.mono fun _ _ => And.left), builds.every⟩

end Packrat
