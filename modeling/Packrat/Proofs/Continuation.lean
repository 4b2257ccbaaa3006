import Packrat.Proofs.Gaps
import Packrat.Proofs.Parsing
import Packrat.Proofs.Pattern.Appended

/-! # Evaluation in a text that goes on

The same piece of text is read on its own and within a longer text, where other characters stand
before it and a suffix after it. `Mirrors` relates two cursors at the same place of the piece: what
is left to read after what is ignored differs by the suffix only. If the terminals that a rule leads
to do not notice the suffix, the rule matches at both cursors or at neither, its trees differ in
their offsets only, and it moves on by the same characters (`Grammar.exists_alike_of_gives`).
-/

namespace Packrat

namespace Tree

mutual

/-- The tree with the offsets of all tokens forgotten. -/
def placeless : Tree → Tree
  | .token leaf => .token { leaf with start := 0 }
  | .named name node => .named name node.placeless
  | .array nodes => .array (placelessAll nodes)

/-- The trees with the offsets of all tokens forgotten. -/
def placelessAll : List Tree → List Tree
  | [] => []
  | node :: more => node.placeless :: placelessAll more

end

theorem placelessAll_eq_map (nodes : List Tree) : placelessAll nodes = nodes.map placeless := by
  induction nodes with
  | nil => rfl
  | cons node more ih => rw [placelessAll, ih, List.map_cons]

theorem placeless_array {nodes nodes' : List Tree}
    (same : nodes.map placeless = nodes'.map placeless) :
    (Tree.array nodes).placeless = (Tree.array nodes').placeless := by
  rw [placeless, placeless, placelessAll_eq_map, placelessAll_eq_map, same]

end Tree

namespace LexRule

/-- A rule that advances takes no more characters than there are. -/
theorem count_le {rule : LexRule} (advances : rule.advances = true) {text : Text} {count : Nat}
    (taken : rule.matchCount? false text = some count) : count ≤ text.length := by
  cases rule with
  | literal expected =>
    simp only [matchCount?, Bool.false_eq_true, if_false, List.isPrefixOf_iff_prefix,
      Option.ite_none_right_eq_some, Option.some.injEq] at taken
    exact taken.2 ▸ taken.1.length_le
  | pattern tried =>
    simp only [LexRule.advances, Bool.and_eq_true] at advances
    obtain ⟨word, rest, rfl, rfl, -⟩ :=
      Pattern.spells_of_matchCount? advances.1.1 advances.1.2 taken
    simp

end LexRule

/-- After what is ignored the same is left at both cursors, with the suffix after it at the second;
where nothing is left at the first, what remains of the suffix is left at the second. -/
def Mirrors (ignore : List LexRule) (suffix close : Text) (first second : Cursor) : Prop :=
  (second.skip ignore).rest =
    if (first.skip ignore).rest = [] then close else (first.skip ignore).rest ++ suffix

/-- Where the suffix follows a text, nothing of it is skipped before the text has been read, and all
but its remains is skipped thereafter. -/
def Follows (ignore : List LexRule) (suffix close : Text) : Prop :=
  ∀ first second : Cursor, second.rest = first.rest ++ suffix →
    Mirrors ignore suffix close first second

theorem follows_nil (ignore : List LexRule) : Follows ignore [] [] := by
  intro first second same
  rw [List.append_nil] at same
  rw [Mirrors, Cursor.skip, Cursor.skip, Cursor.rest_forward, Cursor.rest_forward, same]
  split
  · assumption
  · rw [List.append_nil]

section Blanks

variable {ignore others : List LexRule} (first : ignore = .blanks :: others)

include first

private theorem ignoredCount?_append {suffix text : Text} {c : Char}
    (settled : ∀ rule ∈ others, rule.settled suffix = true)
    (solid : CharClass.isBlank c = false) :
    ignoredCount? ignore (c :: text ++ suffix) = ignoredCount? ignore (c :: text) := by
  subst first
  rw [ignoredCount?, ignoredCount?, List.cons_append, List.findSome?_cons, List.findSome?_cons,
    LexRule.matchCount?_blanks_eq_none solid, LexRule.matchCount?_blanks_eq_none solid,
    ← List.cons_append]
  simp only [Option.filter_none]
  induction others with
  | nil => rfl
  | cons rule others ih =>
    obtain ⟨here, more⟩ := List.forall_mem_cons.mp settled
    rw [List.findSome?_cons, List.findSome?_cons, LexRule.matchCount?_append here, ih more]

private theorem le_of_ignored (advances : ∀ rule ∈ others, rule.advances = true) {text : Text}
    {count : Nat} (ignored : ignoredCount? ignore text = some count) :
    0 < count ∧ count ≤ text.length := by
  obtain ⟨rule, member, taken⟩ := List.exists_of_findSome?_eq_some ignored
  obtain ⟨counted, positive⟩ := Option.filter_eq_some_iff.mp taken
  have blanks : LexRule.blanks.advances = true := by decide +kernel
  have here : rule.advances = true := by
    rcases List.mem_cons.mp (first ▸ member) with rfl | member
    · exact blanks
    · exact advances rule member
  exact ⟨by simpa using positive, LexRule.count_le here counted⟩

/-- Where white space is ignored, a blank before the rest of a suffix is skipped once the text has
been read. -/
theorem follows_blank {blank : Char} {close : Text} (blank' : CharClass.isBlank blank = true)
    (clear : Clear ignore close)
    (settled : ∀ rule ∈ others, rule.settled (blank :: close) = true)
    (advances : ∀ rule ∈ others, rule.advances = true) :
    Follows ignore (blank :: close) close := by
  intro cursor second same
  induction left : cursor.rest.length using Nat.strong_induction_on generalizing cursor second with
  | h length ih =>
    -- the same piece is ignored at both cursors, and after it the rest of the text is shorter
    have further {count : Nat} (positive : 0 < count) (within : count ≤ cursor.rest.length)
        (here : (cursor.forward count).skip ignore = cursor.skip ignore)
        (there : (second.forward count).skip ignore = second.skip ignore) :
        Mirrors ignore (blank :: close) close cursor second := by
      rw [Mirrors, ← here, ← there]
      refine ih (cursor.forward count).rest.length ?_ _ _ ?_ rfl
      · rw [Cursor.rest_forward, List.length_drop]
        omega
      · rw [Cursor.rest_forward, Cursor.rest_forward, same,
          List.drop_append_of_le_length within]
    cases text : cursor.rest with
    | nil =>
      rw [text, List.nil_append] at same
      have skipped : (second.skip ignore).rest = close :=
        (Skips.of_clear clear).blank first blank' second same
      rw [Mirrors, Cursor.skip_of_none (.inl text), if_pos text, skipped]
    | cons c rest =>
      rw [text] at same further
      cases known : CharClass.isBlank c with
      | true =>
        exact further Nat.one_pos (by simp) (Cursor.skip_blank first known text)
          (Cursor.skip_blank first known same)
      | false =>
        have ignored : ignoredCount? ignore second.rest = ignoredCount? ignore cursor.rest := by
          rw [same, text]
          exact ignoredCount?_append first settled known
        cases counted : ignoredCount? ignore cursor.rest with
        | none =>
          have there := Cursor.skip_of_none (.inr (ignored.trans counted))
          rw [Mirrors, there, Cursor.skip_of_none (.inr counted), if_neg (by simp [text]), text,
            same]
        | some count =>
          obtain ⟨positive, within⟩ := le_of_ignored first advances counted
          rw [text] at within
          exact further positive within (Cursor.skip_forward (by simp [text]) counted)
            (Cursor.skip_forward (by simp [same]) (ignored.trans counted))

/-- A blank may stand before the text. -/
theorem Follows.after_blank {suffix close : Text} (follows : Follows ignore suffix close)
    {blank : Char} (blank' : CharClass.isBlank blank = true) (text : Text) (second : Cursor)
    (left : second.rest = blank :: (text ++ suffix)) :
    Mirrors ignore suffix close (.start text) second := by
  have mirrors := follows (.start text) (second.forward 1) (by rw [Cursor.rest_forward, left]; rfl)
  rwa [Mirrors, Cursor.skip_blank first blank' left] at mirrors

end Blanks

/-- From two cursors the next ones are reached by standing still, or by going on to a place before
the suffix. -/
def Paced (suffix : Text) (first second next next' : Cursor) : Prop :=
  (next = first ∧ next' = second) ∨
    (next.rest.length < first.rest.length ∧ next'.rest.length < second.rest.length ∧
      next'.rest = next.rest ++ suffix)

namespace Paced

variable {ignore : List LexRule} {suffix close : Text}
  {first second next next' last last' : Cursor}

theorem refl (suffix : Text) (first second : Cursor) : Paced suffix first second first second :=
  .inl ⟨rfl, rfl⟩

theorem trans (paced : Paced suffix first second next next')
    (more : Paced suffix next next' last last') : Paced suffix first second last last' := by
  rcases paced with ⟨rfl, rfl⟩ | ⟨shorter, shorter', before⟩
  · exact more
  · rcases more with ⟨rfl, rfl⟩ | ⟨less, less', same⟩
    · exact .inr ⟨shorter, shorter', before⟩
    · exact .inr ⟨less.trans shorter, less'.trans shorter', same⟩

theorem mirrors (follows : Follows ignore suffix close)
    (paced : Paced suffix first second next next')
    (mirrors : Mirrors ignore suffix close first second) :
    Mirrors ignore suffix close next next' := by
  rcases paced with ⟨rfl, rfl⟩ | ⟨-, -, same⟩
  · exact mirrors
  · exact follows next next' same

theorem length_lt_iff (paced : Paced suffix first second next next') :
    next.rest.length < first.rest.length ↔ next'.rest.length < second.rest.length := by
  rcases paced with ⟨rfl, rfl⟩ | ⟨shorter, shorter', -⟩
  · simp
  · simp [shorter, shorter']

end Paced

namespace Outcome

/-- Both outcomes are rejects, or matches whose trees differ in offsets only and that keep pace. -/
def Alike (suffix : Text) (first second : Cursor) : Outcome → Outcome → Prop
  | .ok found, .ok found' =>
      found.node.placeless = found'.node.placeless ∧
        Paced suffix first second found.cursor found'.cursor
  | .error _, .error _ => True
  | _, _ => False

variable {suffix : Text} {first second : Cursor} {outcome outcome' : Outcome}

theorem alike_orEmpty (alike : Alike suffix first second outcome outcome') :
    Alike suffix first second (.orEmpty first outcome) (.orEmpty second outcome') := by
  match outcome, outcome', alike with
  | .ok _, .ok _, alike => exact alike
  | .error _, .error _, _ => exact ⟨rfl, .refl ..⟩

theorem alike_absent (alike : Alike suffix first second outcome outcome') :
    Alike suffix first second (.absent first outcome) (.absent second outcome') := by
  match outcome, outcome', alike with
  | .ok _, .ok _, _ => exact trivial
  | .error _, .error _, _ => exact ⟨rfl, .refl ..⟩

theorem alike_ahead (alike : Alike suffix first second outcome outcome') :
    Alike suffix first second (.ahead first outcome) (.ahead second outcome') := by
  match outcome, outcome', alike with
  | .ok _, .ok _, alike => exact ⟨alike.1, .refl ..⟩
  | .error _, .error _, _ => exact trivial

theorem alike_named (name : String) (alike : Alike suffix first second outcome outcome') :
    Alike suffix first second (.named name first (some outcome))
      (.named name second (some outcome')) := by
  match outcome, outcome', alike with
  | .ok _, .ok _, alike => exact ⟨congrArg (Tree.named name) alike.1, alike.2⟩
  | .error _, .error _, _ => exact trivial

private theorem successes_alike {outcomes outcomes' : List Outcome}
    (each : List.Forall₂ (Alike suffix first second) outcomes outcomes') :
    List.Forall₂ (fun found found' => Alike suffix first second (.ok found) (.ok found'))
      (successes outcomes) (successes outcomes') := by
  induction each with
  | nil => exact .nil
  | @cons outcome outcome' _ _ alike _ ih =>
    match outcome, outcome', alike with
    | .ok _, .ok _, alike => exact .cons alike ih
    | .error _, .error _, _ => exact ih

theorem alike_unique {rules : List Rule} {outcomes outcomes' : List Outcome}
    (each : List.Forall₂ (Alike suffix first second) outcomes outcomes') :
    Alike suffix first second (unique first rules outcomes) (unique second rules outcomes') := by
  have members := successes_alike each
  unfold unique
  generalize successes outcomes = found at members
  generalize successes outcomes' = found' at members
  cases members with
  | nil => exact trivial
  | cons alike others =>
    cases others with
    | nil => exact alike
    | cons _ _ => exact trivial

end Outcome

namespace Terminal

/-- Whether a terminal is seen to take the same from a text if that goes on with the suffix, and
nothing from what remains of the suffix. -/
def settled (lexicon : Lexicon) (suffix close : Text) (leaf : Terminal) : Bool :=
  match leaf.lexical? lexicon with
  | some (_, rule, caseless) =>
      !caseless && rule.settled suffix && rule.advances && (rule.matchCount? false close).isNone
  | none => true

theorem alike_eval {lexicon : Lexicon} {ignore : List LexRule} {suffix close : Text}
    {leaf : Terminal} (settled : leaf.settled lexicon suffix close = true) {first second : Cursor}
    (mirrors : Mirrors ignore suffix close first second) :
    Outcome.Alike suffix first second (leaf.eval lexicon ignore first)
      (leaf.eval lexicon ignore second) := by
  have matched {cursor : Cursor} {found : Match}
      (evaluated : leaf.eval lexicon ignore cursor = .ok found) :=
    eval_eq_ok_iff.mp evaluated
  unfold Mirrors at mirrors
  cases here : leaf.eval lexicon ignore first with
  | ok found =>
    obtain ⟨name, rule, caseless, count, lexical, filled, counted, rfl⟩ := matched here
    simp only [Terminal.settled, lexical, Bool.and_eq_true, Bool.not_eq_true'] at settled
    obtain ⟨⟨⟨rfl, settled⟩, advances⟩, -⟩ := settled
    rw [if_neg filled] at mirrors
    have here' : leaf.eval lexicon ignore second =
        .ok (taken name (second.skip ignore) count) :=
      eval_eq_ok_iff.mpr ⟨name, rule, false, count, lexical, by simp [mirrors, filled],
        by rw [mirrors, LexRule.matchCount?_append settled, counted], rfl⟩
    have positive := LexRule.count_pos advances counted
    have within := LexRule.count_le advances counted
    have shorter := (first.leadsTo_skip ignore).length_le
    have shorter' := (second.leadsTo_skip ignore).length_le
    rw [mirrors, List.length_append] at shorter'
    rw [here']
    refine ⟨?_, .inr ⟨?_, ?_, ?_⟩⟩
    · simp only [Terminal.taken, Tree.placeless, mirrors, List.take_append_of_le_length within]
    · simp only [Terminal.taken, Cursor.rest_forward, List.length_drop]
      omega
    · simp only [Terminal.taken, Cursor.rest_forward, mirrors, List.length_drop,
        List.length_append]
      omega
    · simp only [Terminal.taken, Cursor.rest_forward, mirrors,
        List.drop_append_of_le_length within]
  | error reject =>
    cases there : leaf.eval lexicon ignore second with
    | error reject' => exact trivial
    | ok found =>
      obtain ⟨name, rule, caseless, count, lexical, filled, counted, rfl⟩ := matched there
      simp only [Terminal.settled, lexical, Bool.and_eq_true, Bool.not_eq_true'] at settled
      obtain ⟨⟨⟨rfl, settled⟩, -⟩, none⟩ := settled
      split at mirrors
      · rw [mirrors, Option.isNone_iff_eq_none.mp none] at counted
        cases counted
      · rename_i left
        rw [mirrors, LexRule.matchCount?_append settled] at counted
        have taken := eval_eq_ok_iff.mpr ⟨name, rule, false, count, lexical, left, counted, rfl⟩
        rw [here] at taken
        cases taken

end Terminal

namespace Rule

mutual

/-- Whether all terminals of a rule are settled and it refers only to productions of the given
names; it does not ask for the end of the text. -/
def settled (lexicon : Lexicon) (suffix close : Text) (names : List String) : Rule → Bool
  | .endOfText => false
  | .empty => true
  | .terminal leaf => leaf.settled lexicon suffix close
  | .sequence rules | .choice rules | .ordered rules =>
      allSettled lexicon suffix close names rules
  | .optional rule | .repetition rule _ _ | .absent rule | .ahead rule | .veiled rule =>
      rule.settled lexicon suffix close names
  | .reference name => names.contains name

/-- Whether all of several rules are settled. -/
def allSettled (lexicon : Lexicon) (suffix close : Text) (names : List String) :
    List Rule → Bool
  | [] => true
  | rule :: more =>
      rule.settled lexicon suffix close names && allSettled lexicon suffix close names more

end

end Rule

namespace Grammar

variable {grammar : Grammar} {suffix close : Text} {names : List String}

/-- Whether the productions of the given names refer to no others and their terminals are
settled. -/
def settled (grammar : Grammar) (suffix close : Text) (names : List String) : Bool :=
  names.all fun name => (grammar.productions.find? name).all
    (·.settled grammar.lexicon suffix close names)

/-- At a cursor that mirrors the given one a settled rule has an outcome that is alike. -/
private def Transfers (grammar : Grammar) (suffix close : Text) (names : List String) (rule : Rule)
    (first : Cursor) (outcome : Outcome) : Prop :=
  rule.settled grammar.lexicon suffix close names = true →
    ∀ second, Mirrors grammar.ignore suffix close first second →
      ∃ outcome', grammar.Gives rule second outcome' ∧
        Outcome.Alike suffix first second outcome outcome'

/-- The results of sequences are rejects, or trees and cursors that keep pace. -/
private def Sequel (suffix : Text) (first second : Cursor) :
    Except Reject (List Tree × Cursor) → Except Reject (List Tree × Cursor) → Prop
  | .ok (nodes, next), .ok (nodes', next') =>
      nodes.map Tree.placeless = nodes'.map Tree.placeless ∧ Paced suffix first second next next'
  | .error _, .error _ => True
  | _, _ => False

private theorem exists_sequenced (follows : Follows grammar.ignore suffix close)
    {rules : List Rule} {first : Cursor} {result : Except Reject (List Tree × Cursor)}
    (sequenced : Sequenced (fun rule cursor outcome => grammar.Gives rule cursor outcome ∧
      grammar.Transfers suffix close names rule cursor outcome) rules first result)
    (settled : Rule.allSettled grammar.lexicon suffix close names rules = true) {second : Cursor}
    (mirrors : Mirrors grammar.ignore suffix close first second) :
    ∃ result', Sequenced grammar.Gives rules second result' ∧
      Sequel suffix first second result result' := by
  induction sequenced generalizing second with
  | nil => exact ⟨_, .nil, rfl, .refl ..⟩
  | reject here =>
    obtain ⟨settled, -⟩ := Bool.and_eq_true_iff.mp settled
    obtain ⟨outcome', gives, alike⟩ := here.2 settled second mirrors
    match outcome', gives, alike with
    | .error _, gives, _ => exact ⟨_, .reject gives, trivial⟩
  | @next rule more first found result here _ ih =>
    obtain ⟨settled, others⟩ := Bool.and_eq_true_iff.mp settled
    obtain ⟨outcome', gives, alike⟩ := here.2 settled second mirrors
    match outcome', gives, alike with
    | .ok found', gives, ⟨node, paced⟩ =>
      obtain ⟨result', sequenced, sequel⟩ := ih others (paced.mirrors follows mirrors)
      refine ⟨_, .next gives sequenced, ?_⟩
      match result, result', sequel with
      | .ok _, .ok _, ⟨nodes, more⟩ =>
        exact ⟨by simp only [List.map_cons, node, nodes], paced.trans more⟩
      | .error _, .error _, _ => exact trivial

private theorem exists_outcomes {rules : List Rule} {first : Cursor} {outcomes : List Outcome}
    (each : List.Forall₂ (fun rule outcome => grammar.Gives rule first outcome ∧
      grammar.Transfers suffix close names rule first outcome) rules outcomes)
    (settled : Rule.allSettled grammar.lexicon suffix close names rules = true) {second : Cursor}
    (mirrors : Mirrors grammar.ignore suffix close first second) :
    ∃ outcomes', List.Forall₂ (fun rule outcome => grammar.Gives rule second outcome) rules
        outcomes' ∧ List.Forall₂ (Outcome.Alike suffix first second) outcomes outcomes' := by
  induction each with
  | nil => exact ⟨[], .nil, .nil⟩
  | cons here _ ih =>
    obtain ⟨settled, others⟩ := Bool.and_eq_true_iff.mp settled
    obtain ⟨outcome', gives, alike⟩ := here.2 settled second mirrors
    obtain ⟨outcomes', more, alikes⟩ := ih others
    exact ⟨outcome' :: outcomes', .cons gives more, .cons alike alikes⟩

private theorem exists_tried {rules : List Rule} {first : Cursor} {ambiguity : Option Reject}
    {outcome : Outcome}
    (tried : Tried (fun rule cursor outcome => grammar.Gives rule cursor outcome ∧
      grammar.Transfers suffix close names rule cursor outcome) first rules ambiguity outcome)
    (settled : Rule.allSettled grammar.lexicon suffix close names rules = true) {second : Cursor}
    (mirrors : Mirrors grammar.ignore suffix close first second) (ambiguity' : Option Reject) :
    ∃ outcome', Tried grammar.Gives second rules ambiguity' outcome' ∧
      Outcome.Alike suffix first second outcome outcome' := by
  induction tried generalizing ambiguity' with
  | nil => exact ⟨_, .nil, trivial⟩
  | found here =>
    obtain ⟨settled, -⟩ := Bool.and_eq_true_iff.mp settled
    obtain ⟨outcome', gives, alike⟩ := here.2 settled second mirrors
    match outcome', gives, alike with
    | .ok _, gives, alike => exact ⟨_, .found gives, alike⟩
  | next here _ ih =>
    obtain ⟨settled, others⟩ := Bool.and_eq_true_iff.mp settled
    obtain ⟨outcome', gives, alike⟩ := here.2 settled second mirrors
    match outcome', gives, alike with
    | .error _, gives, _ =>
      obtain ⟨outcome', tried, alike⟩ := ih others _
      exact ⟨outcome', .next gives tried, alike⟩

private theorem exists_repeated (follows : Follows grammar.ignore suffix close) {rule : Rule}
    (settled : rule.settled grammar.lexicon suffix close names = true) {min fuel fuel' : Nat}
    {max : Option Nat} {nodes nodes' : List Tree} {first second : Cursor} {rounds : Rounds}
    (repeated : Repeated (fun cursor outcome => grammar.Gives rule cursor outcome ∧
      grammar.Transfers suffix close names rule cursor outcome) min max fuel nodes first rounds)
    (mirrors : Mirrors grammar.ignore suffix close first second)
    (same : nodes.map Tree.placeless = nodes'.map Tree.placeless)
    (enough : first.rest.length < fuel) (enough' : second.rest.length < fuel') :
    ∃ rounds', Repeated (grammar.Gives rule) min max fuel' nodes' second rounds' ∧
      rounds.nodes.map Tree.placeless = rounds'.nodes.map Tree.placeless ∧
      Paced suffix first second rounds.cursor rounds'.cursor := by
  have length {nodes nodes' : List Tree}
      (same : nodes.map Tree.placeless = nodes'.map Tree.placeless) :
      nodes.length = nodes'.length := by
    simpa using congrArg List.length same
  obtain ⟨fuel', rfl⟩ : ∃ more, fuel' = more + 1 := ⟨fuel' - 1, by omega⟩
  induction repeated generalizing second nodes' fuel' with
  | spent => omega
  | full full => exact ⟨_, .full (length same ▸ full), same, .refl ..⟩
  | reject room here =>
    obtain ⟨outcome', gives, alike⟩ := here.2 settled second mirrors
    match outcome', gives, alike with
    | .error _, gives, _ =>
      exact ⟨_, .reject (length same ▸ room) gives, same, .refl ..⟩
  | @next fuel nodes first found rounds room here shorter _ ih =>
    obtain ⟨outcome', gives, alike⟩ := here.2 settled second mirrors
    match outcome', gives, alike with
    | .ok found', gives, ⟨node, paced⟩ =>
      have shorter' := paced.length_lt_iff.mp shorter
      obtain ⟨fuel', rfl⟩ : ∃ more, fuel' = more + 1 := ⟨fuel' - 1, by omega⟩
      obtain ⟨rounds', repeated, nodes, more⟩ := @ih (found'.node :: nodes') found'.cursor
        (paced.mirrors follows mirrors) (by simp only [List.map_cons, node, same]) (by omega)
        fuel' (by omega)
      exact ⟨rounds', .next (length same ▸ room) gives shorter' repeated, nodes, paced.trans more⟩
  | @still fuel nodes first found room here long =>
    obtain ⟨outcome', gives, alike⟩ := here.2 settled second mirrors
    match outcome', gives, alike with
    | .ok found', gives, ⟨node, paced⟩ =>
      have long' : ¬ found'.cursor.rest.length < second.rest.length :=
        fun shorter => long (paced.length_lt_iff.mpr shorter)
      refine ⟨_, .still (length same ▸ room) gives long', ?_, paced⟩
      simp only [List.map_append, List.map_replicate, node, same, length same]

private theorem alike_outcome {first second : Cursor} {rounds rounds' : Rounds}
    (same : rounds.nodes.map Tree.placeless = rounds'.nodes.map Tree.placeless)
    (paced : Paced suffix first second rounds.cursor rounds'.cursor) (rule : Rule) (min : Nat) :
    Outcome.Alike suffix first second (rounds.outcome first rule min)
      (rounds'.outcome second rule min) := by
  have length : rounds.nodes.length = rounds'.nodes.length := by
    simpa using congrArg List.length same
  unfold Rounds.outcome
  rw [length]
  split
  · exact trivial
  · refine ⟨Tree.placeless_array ?_, paced⟩
    rw [List.map_reverse, List.map_reverse, same]

/-- A settled rule has alike outcomes at two cursors of which one mirrors the other. -/
theorem exists_alike_of_gives (follows : Follows grammar.ignore suffix close)
    (closed : grammar.settled suffix close names = true) {rule : Rule}
    (settled : rule.settled grammar.lexicon suffix close names = true) {first second : Cursor}
    {outcome : Outcome} (gives : grammar.Gives rule first outcome)
    (mirrors : Mirrors grammar.ignore suffix close first second) :
    ∃ outcome', grammar.Gives rule second outcome' ∧
      Outcome.Alike suffix first second outcome outcome' := by
  suffices transfers : grammar.Transfers suffix close names rule first outcome from
    transfers settled second mirrors
  refine eval_induct (fun rule first outcome unfolds settled second mirrors => ?_) gives
  cases unfolds with
  | endOfText => cases settled
  | empty => exact ⟨_, gives_of_unfolds .empty, rfl, .refl ..⟩
  | terminal => exact ⟨_, gives_of_unfolds .terminal, Terminal.alike_eval settled mirrors⟩
  | @sequence _ _ result members =>
    obtain ⟨result', members, sequel⟩ := exists_sequenced follows members settled mirrors
    refine ⟨_, gives_of_unfolds (.sequence members), ?_⟩
    match result, result', sequel with
    | .ok _, .ok _, ⟨nodes, paced⟩ => exact ⟨Tree.placeless_array nodes, paced⟩
    | .error _, .error _, _ => exact trivial
  | choice all =>
    obtain ⟨outcomes', all, alike⟩ := exists_outcomes all settled mirrors
    exact ⟨_, gives_of_unfolds (.choice all), Outcome.alike_unique alike⟩
  | ordered tried =>
    obtain ⟨outcome', tried, alike⟩ := exists_tried tried settled mirrors none
    exact ⟨outcome', gives_of_unfolds (.ordered tried), alike⟩
  | optional here =>
    obtain ⟨outcome', gives, alike⟩ := here.2 settled second mirrors
    exact ⟨_, gives_of_unfolds (.optional gives), Outcome.alike_orEmpty alike⟩
  | @repetition rule min max _ rounds repeated =>
    have inner : rule.settled grammar.lexicon suffix close names = true := settled
    obtain ⟨rounds', repeated, nodes, paced⟩ := exists_repeated follows inner repeated mirrors
      (show [].map Tree.placeless = [].map Tree.placeless from rfl) (Nat.lt_succ_self _)
      (Nat.lt_succ_self second.rest.length)
    exact ⟨_, gives_of_unfolds (.repetition repeated), alike_outcome nodes paced rule min⟩
  | absent here =>
    obtain ⟨outcome', gives, alike⟩ := here.2 settled second mirrors
    exact ⟨_, gives_of_unfolds (.absent gives), Outcome.alike_absent alike⟩
  | ahead here =>
    obtain ⟨outcome', gives, alike⟩ := here.2 settled second mirrors
    exact ⟨_, gives_of_unfolds (.ahead gives), Outcome.alike_ahead alike⟩
  | missing missing => exact ⟨_, gives_of_unfolds (.missing missing), trivial⟩
  | @reference name body _ _ declared here =>
    have settled' : body.settled grammar.lexicon suffix close names = true := by
      have checked := List.all_eq_true.mp closed name (List.contains_iff_mem.mp settled)
      rwa [declared] at checked
    obtain ⟨outcome', gives, alike⟩ := here.2 settled' second mirrors
    exact ⟨_, gives_of_unfolds (.reference declared gives), Outcome.alike_named name alike⟩
  | veiled here =>
    obtain ⟨outcome', gives, alike⟩ := here.2 settled second mirrors
    exact ⟨outcome', gives_of_unfolds (.veiled gives), alike⟩

end Grammar

/-- Where the end of a text is always left after what is ignored, a run before it is skipped. -/
private theorem exists_skips {ignore : List LexRule} {rest close : Text}
    (each : ∀ cursor : Cursor, cursor.rest = rest → (cursor.skip ignore).rest = close) :
    ∃ run, rest = run ++ close ∧ Skips ignore run close := by
  have left := each (.start rest) rfl
  rw [Cursor.skip, Cursor.rest_forward] at left
  have parts : rest = rest.take (skipCount ignore 0 rest) ++ close := by
    conv_lhs => rw [← List.take_append_drop (skipCount ignore 0 rest) rest]
    exact congrArg _ left
  exact ⟨_, parts, fun cursor same => each cursor (same.trans parts.symm)⟩

/-- A production that matches all of a text matches the same in a longer one, up to what remains of
the suffix after what is ignored. -/
theorem Parser.takes_of_parseAll {parser : Parser} {suffix close : Text} {names : List String}
    (follows : Follows parser.grammar.ignore suffix close)
    (closed : parser.grammar.settled suffix close names = true) {production : String}
    (among : production ∈ names) {text whole : Text}
    (mirrors : ∀ second : Cursor, second.rest = whole →
      Mirrors parser.grammar.ignore suffix close (.start text) second)
    {tree : Tree} (parsed : parser.parseAll production text = .ok tree) :
    ∃ run, parser.grammar.Takes (.reference production) whole (run ++ close) (fun node =>
        ∃ body, node = .named production body ∧ body.placeless = tree.placeless) ∧
      Skips parser.grammar.ignore run close := by
  obtain ⟨rule, found, declared, gives, ended, rfl⟩ := gives_of_parseAll parsed
  have settled : rule.settled parser.grammar.lexicon suffix close names = true := by
    have checked := List.all_eq_true.mp closed production among
    rwa [declared] at checked
  have matched (second : Cursor) (left : second.rest = whole) : ∃ found' : Match,
      parser.grammar.Gives rule second (.ok found') ∧
        Outcome.Alike suffix (.start text) second (.ok found) (.ok found') := by
    obtain ⟨outcome', gives', alike⟩ :=
      Grammar.exists_alike_of_gives follows closed settled gives (mirrors second left)
    match outcome', gives', alike with
    | .ok found', gives', alike => exact ⟨found', gives', alike⟩
  -- a match of no characters leaves the whole text, and any other what follows it
  obtain ⟨rest, within, left⟩ : ∃ rest : Text,
      (∀ second next : Cursor, second.rest = whole →
        Paced suffix (.start text) second found.cursor next → next.rest = rest) ∧
      ∀ cursor : Cursor, cursor.rest = rest →
        (cursor.skip parser.grammar.ignore).rest = close := by
    by_cases still : found.cursor = .start text
    · refine ⟨whole, fun second next left paced => ?_, fun cursor left => ?_⟩
      · rcases paced with ⟨-, rfl⟩ | ⟨shorter, -⟩
        · exact left
        · rw [still] at shorter
          omega
      · have mirrored := mirrors cursor left
        rwa [Mirrors, ← still, if_pos ended] at mirrored
    · refine ⟨found.cursor.rest ++ suffix, fun second next left paced => ?_, fun cursor left => ?_⟩
      · rcases paced with ⟨same, -⟩ | ⟨-, -, same⟩
        · exact absurd same still
        · exact same
      · have mirrored := follows found.cursor cursor left
        rwa [Mirrors, if_pos ended] at mirrored
  obtain ⟨run, rfl, skips⟩ := exists_skips left
  refine ⟨run, Grammar.takes_reference declared fun second same => ?_, skips⟩
  obtain ⟨found', gives', node, paced⟩ := matched second same
  exact ⟨found', gives', within second _ same paced, _, rfl, node.symm⟩

end Packrat
