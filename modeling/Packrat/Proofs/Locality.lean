import Packrat.Lexicon.Standard
import Packrat.Proofs.Memoization

/-! # Only the rest of the text is read

What lies before a cursor has no influence on what is applied there. `Cursor.behind` puts a text
in front of the one a cursor stands in; every rule then gives the outcome it gave, with all offsets
moved on by the length of that text. A pattern sees a text that begins at the cursor, so this holds
of `^`, `\A` and `\b` too.
-/

namespace Packrat

namespace Cursor

variable {front : Text} {cursor : Cursor}

/-- The same place when a text is put in front of the one that the cursor stands in. -/
def behind (front : Text) (cursor : Cursor) : Cursor where
  before := cursor.before ++ front.reverse
  rest := cursor.rest
  offset := front.byteLength + cursor.offset
  offset_eq := by
    rw [Text.byteLength_append, Text.byteLength_reverse, cursor.offset_eq, Nat.add_comm]

@[simp] theorem rest_behind : (cursor.behind front).rest = cursor.rest := rfl

@[simp] theorem offset_behind :
    (cursor.behind front).offset = front.byteLength + cursor.offset := rfl

@[simp] theorem atEnd_behind : (cursor.behind front).atEnd = cursor.atEnd := rfl

@[simp] theorem text_behind : (cursor.behind front).text = front ++ cursor.text := by
  simp [text, behind]

theorem forward_behind (count : Nat) :
    (cursor.behind front).forward count = (cursor.forward count).behind front := by
  apply eq_of_offset
  · simp
  · simp [forward, Nat.add_assoc]

theorem skip_behind (ignore : List LexRule) :
    (cursor.behind front).skip ignore = (cursor.skip ignore).behind front :=
  forward_behind _

/-- A boundary of a text is the start of what follows it, behind what precedes it. -/
theorem seek_start_append (front rest : Text) :
    (start (front ++ rest)).seek front.byteLength = (start rest).behind front := by
  have place : ((start rest).behind front).offset = front.byteLength := by simp [start]
  rw [← place]
  exact seek_offset (by simp)

end Cursor

/-- The token that starts a number of bytes later. -/
def Token.shift (bytes : Nat) (token : Token) : Token :=
  { token with start := bytes + token.start }

@[simp] theorem Token.stop_shift (bytes : Nat) (token : Token) :
    (token.shift bytes).stop = bytes + token.stop :=
  Nat.add_assoc ..

@[simp] theorem Token.shape_shift (bytes : Nat) (token : Token) :
    (token.shift bytes).shape = token.shape := rfl

theorem Cursor.scan_behind {front : Text} {cursor : Cursor} (ignore : List LexRule) (name : String)
    (rule : LexRule) (caseless : Bool) :
    (cursor.behind front).scan ignore name rule caseless =
      let (token, next) := cursor.scan ignore name rule caseless
      (token.shift front.byteLength, next.behind front) := by
  simp only [scan, skip_behind, atEnd_behind, rest_behind, forward_behind]
  cases (cursor.skip ignore).atEnd with
  | true => rfl
  | false => cases rule.matchCount? caseless (cursor.skip ignore).rest <;> rfl

namespace Tree

mutual

/-- The tree all of whose tokens start a number of bytes later. -/
def shift (bytes : Nat) : Tree → Tree
  | .token leaf => .token (leaf.shift bytes)
  | .named name node => .named name (node.shift bytes)
  | .array nodes => .array (shiftAll bytes nodes)

/-- The trees all of whose tokens start a number of bytes later. -/
def shiftAll (bytes : Nat) : List Tree → List Tree
  | [] => []
  | node :: more => node.shift bytes :: shiftAll bytes more

end

theorem shiftAll_eq_map (bytes : Nat) (nodes : List Tree) :
    shiftAll bytes nodes = nodes.map (shift bytes) := by
  induction nodes with
  | nil => rfl
  | cons node more ih => rw [shiftAll, ih, List.map_cons]

@[simp] theorem shape_shift (bytes : Nat) (node : Tree) :
    (node.shift bytes).shape = node.shape := by
  cases node with
  | token leaf => rfl
  | named name node => rfl
  | array nodes => simp [shift, shape, shiftAll_eq_map]

end Tree

/-- The reason with all offsets moved on by a number of bytes. -/
def Reason.shift (bytes : Nat) : Reason → Reason
  | .inputLeft offset => .inputLeft (bytes + offset)
  | .unknownToken name => .unknownToken name
  | .tokenMissing terminal found offset before =>
      .tokenMissing terminal found (bytes + offset) before
  | .noAlternative offset => .noAlternative (bytes + offset)
  | .severalMatch offset alternatives ends =>
      .severalMatch (bytes + offset) alternatives (ends.map (bytes + ·))
  | .unknownProduction name => .unknownProduction name
  | .unexpected shape offset => .unexpected shape (bytes + offset)
  | .tooFew min rule => .tooFew min rule
  | .lookahead reason => .lookahead (reason.shift bytes)
  | .stated text => .stated text

/-- The match at the same place when a text is put in front. -/
def Match.behind (front : Text) (found : Match) : Match :=
  ⟨found.cursor.behind front, found.node.shift front.byteLength⟩

/-- The reject at the same place when a text is put in front. Its kind stays. -/
def Reject.behind (front : Text) (reject : Reject) : Reject :=
  ⟨reject.cursor.behind front, reject.reason.shift front.byteLength, reject.kind⟩

@[simp] theorem Reject.isAmbiguous_behind (front : Text) (reject : Reject) :
    (reject.behind front).isAmbiguous = reject.isAmbiguous := rfl

namespace Outcome

variable {front : Text}

/-- The outcome at the same place when a text is put in front. -/
def behind (front : Text) : Outcome → Outcome
  | .ok found => .ok (found.behind front)
  | .error reject => .error (reject.behind front)

theorem atEnd_behind (cursor : Cursor) :
    atEnd (cursor.behind front) = (atEnd cursor).behind front := by
  unfold atEnd
  rw [Cursor.atEnd_behind]
  split <;> rfl

theorem successes_behind (outcomes : List Outcome) :
    successes (outcomes.map (behind front)) = (successes outcomes).map (Match.behind front) := by
  induction outcomes with
  | nil => rfl
  | cons outcome more ih =>
    cases outcome with
    | ok found => simp [successes, behind, ih]
    | error reject => simp [successes, behind, ih]

theorem ambiguity?_behind (outcomes : List Outcome) :
    ambiguity? (outcomes.map (behind front)) =
      (ambiguity? outcomes).map (Reject.behind front) := by
  induction outcomes with
  | nil => rfl
  | cons outcome more ih =>
    cases outcome with
    | ok found => simpa [ambiguity?, behind] using ih
    | error reject =>
      simp only [List.map_cons, behind, ambiguity?, Reject.isAmbiguous_behind, ih]
      split <;> rfl

theorem noAlternative_behind (cursor : Cursor) (ambiguity : Option Reject) :
    Reject.noAlternative (cursor.behind front) (ambiguity.map (Reject.behind front)) =
      (Reject.noAlternative cursor ambiguity).behind front := by
  cases ambiguity <;> rfl

theorem unique_behind (cursor : Cursor) (rules : List Rule) (outcomes : List Outcome) :
    unique (cursor.behind front) rules (outcomes.map (behind front)) =
      (unique cursor rules outcomes).behind front := by
  rw [unique, unique, successes_behind, ambiguity?_behind]
  match successes outcomes with
  | [] => exact congrArg Except.error (noAlternative_behind ..)
  | [found] => rfl
  | first :: second :: more =>
    simp [behind, Reject.behind, Reason.shift, Match.behind]

theorem orEmpty_behind (cursor : Cursor) (outcome : Outcome) :
    orEmpty (cursor.behind front) (outcome.behind front) =
      (orEmpty cursor outcome).behind front := by
  cases outcome <;> rfl

theorem absent_behind (cursor : Cursor) (outcome : Outcome) :
    absent (cursor.behind front) (outcome.behind front) =
      (absent cursor outcome).behind front := by
  cases outcome with
  | ok found =>
    simp [absent, behind, Match.behind, Reject.mismatch, Reject.behind, Reason.shift]
  | error reject => rfl

theorem ahead_behind (cursor : Cursor) (outcome : Outcome) :
    ahead (cursor.behind front) (outcome.behind front) = (ahead cursor outcome).behind front := by
  cases outcome <;> rfl

theorem named_behind (name : String) (cursor : Cursor) (applied : Option Outcome) :
    named name (cursor.behind front) (applied.map (behind front)) =
      (named name cursor applied).behind front := by
  match applied with
  | none => rfl
  | some (.ok found) => rfl
  | some (.error reject) => rfl

end Outcome

namespace Terminal

variable {front : Text}

theorem tryRule_behind (terminal : Terminal) (ignore : List LexRule) (name : String)
    (rule : LexRule) (caseless : Bool) (cursor : Cursor) :
    terminal.tryRule ignore name rule caseless (cursor.behind front) =
      (terminal.tryRule ignore name rule caseless cursor).behind front := by
  rw [tryRule, tryRule, Cursor.scan_behind]
  rcases cursor.scan ignore name rule caseless with ⟨⟨kind, text, start⟩, next⟩
  cases kind <;> rfl

theorem eval_behind (lexicon : Lexicon) (ignore : List LexRule) (terminal : Terminal)
    (cursor : Cursor) :
    terminal.eval lexicon ignore (cursor.behind front) =
      (terminal.eval lexicon ignore cursor).behind front := by
  cases terminal with
  | listed name =>
    simp only [eval]
    cases lexicon.find? name with
    | none => rfl
    | some rule => exact tryRule_behind ..
  | inline name rule caseless => exact tryRule_behind ..

end Terminal

namespace Rounds

variable {front : Text}

/-- The rounds at the same place when a text is put in front. -/
def behind (front : Text) (rounds : Rounds) : Rounds :=
  ⟨rounds.nodes.map (·.shift front.byteLength), rounds.cursor.behind front,
    rounds.failure.map (Reject.behind front)⟩

theorem outcome_behind (rounds : Rounds) (cursor : Cursor) (rule : Rule) (min : Nat) :
    (rounds.behind front).outcome (cursor.behind front) rule min =
      (rounds.outcome cursor rule min).behind front := by
  simp only [outcome, behind, List.length_map]
  split
  · cases rounds.failure <;> rfl
  · simp [Outcome.behind, Match.behind, Tree.shift, Tree.shiftAll_eq_map]

/-- Rounds of a rule that is not affected by what lies in front are not affected either. -/
theorem read_behind {parse : Cursor → Option Outcome}
    (parsed : ∀ cursor, parse (cursor.behind front) = (parse cursor).map (Outcome.behind front))
    (min : Nat) (max : Option Nat) (fuel : Nat) (nodes : List Tree) (cursor : Cursor) :
    read parse min max fuel (nodes.map (·.shift front.byteLength)) (cursor.behind front) =
      (read parse min max fuel nodes cursor).map (behind front) := by
  induction fuel generalizing nodes cursor with
  | zero => rfl
  | succ fuel ih =>
    simp only [read, List.length_map, parsed]
    split
    · rfl
    · cases parse cursor with
      | none => rfl
      | some outcome =>
        cases outcome with
        | error reject => rfl
        | ok found =>
          have next := ih (found.node :: nodes) found.cursor
          change (if found.cursor.rest.length < cursor.rest.length then _ else _) =
            Option.map _ (if found.cursor.rest.length < cursor.rest.length then _ else _)
          split
          · exact next
          · simp [behind, Match.behind]

end Rounds

/-- Several trees with the cursor after them, or a reject, when a text is put in front. -/
private def sequelBehind (front : Text) :
    Except Reject (List Tree × Cursor) → Except Reject (List Tree × Cursor)
  | .ok (nodes, next) => .ok (nodes.map (·.shift front.byteLength), next.behind front)
  | .error reject => .error (reject.behind front)

namespace Rule

variable {front : Text} {lexicon : Lexicon} {ignore : List LexRule}
  {apply : String → Cursor → Option (Option Outcome)}
  (applied : ∀ name cursor,
    apply name (cursor.behind front) = (apply name cursor).map (Option.map (Outcome.behind front)))

include applied

set_option linter.unusedSectionVars false

mutual

/-- A rule is not affected by what lies in front, if the applications of productions are not. -/
theorem eval_behind : ∀ (rule : Rule) (cursor : Cursor),
    rule.eval ⟨lexicon, ignore, apply⟩ (cursor.behind front) =
      (rule.eval ⟨lexicon, ignore, apply⟩ cursor).map (Outcome.behind front)
  | .endOfText, cursor => congrArg some (Outcome.atEnd_behind cursor)
  | .empty, _ => rfl
  | .terminal leaf, cursor => congrArg some (leaf.eval_behind lexicon ignore cursor)
  | .sequence rules, cursor => by
      simp only [eval, evalSequence_behind rules cursor]
      rcases evalSequence ⟨lexicon, ignore, apply⟩ rules cursor with - | reject | pair
      · rfl
      · rfl
      · simp [sequelBehind, Except.map, Outcome.behind, Match.behind, Tree.shift,
          Tree.shiftAll_eq_map]
  | .choice rules, cursor => by
      simp only [eval, evalAll_behind rules cursor]
      cases evalAll ⟨lexicon, ignore, apply⟩ rules cursor with
      | none => rfl
      | some outcomes => exact congrArg some (Outcome.unique_behind cursor rules outcomes)
  | .ordered rules, cursor => evalOrdered_behind rules cursor none
  | .optional rule, cursor => by
      simp only [eval, eval_behind rule cursor]
      cases rule.eval ⟨lexicon, ignore, apply⟩ cursor with
      | none => rfl
      | some outcome => exact congrArg some (Outcome.orEmpty_behind cursor outcome)
  | .repetition rule min max, cursor => by
      have rounds := Rounds.read_behind (eval_behind rule) min max (cursor.rest.length + 1) []
        cursor
      rw [List.map_nil] at rounds
      simp only [eval, Cursor.rest_behind, rounds]
      cases Rounds.read (rule.eval ⟨lexicon, ignore, apply⟩) min max (cursor.rest.length + 1) []
        cursor with
      | none => rfl
      | some rounds => exact congrArg some (rounds.outcome_behind cursor rule min)
  | .absent rule, cursor => by
      simp only [eval, eval_behind rule cursor]
      cases rule.eval ⟨lexicon, ignore, apply⟩ cursor with
      | none => rfl
      | some outcome => exact congrArg some (Outcome.absent_behind cursor outcome)
  | .ahead rule, cursor => by
      simp only [eval, eval_behind rule cursor]
      cases rule.eval ⟨lexicon, ignore, apply⟩ cursor with
      | none => rfl
      | some outcome => exact congrArg some (Outcome.ahead_behind cursor outcome)
  | .reference name, cursor => by
      simp only [eval, applied name cursor]
      cases apply name cursor with
      | none => rfl
      | some outcome => exact congrArg some (Outcome.named_behind name cursor outcome)
  | .veiled rule, cursor => eval_behind rule cursor

theorem evalSequence_behind : ∀ (rules : List Rule) (cursor : Cursor),
    evalSequence ⟨lexicon, ignore, apply⟩ rules (cursor.behind front) =
      (evalSequence ⟨lexicon, ignore, apply⟩ rules cursor).map (sequelBehind front)
  | [], _ => rfl
  | rule :: more, cursor => by
      simp only [evalSequence, eval_behind rule cursor]
      rcases rule.eval ⟨lexicon, ignore, apply⟩ cursor with - | reject | found
      · rfl
      · rfl
      · have rest := evalSequence_behind more found.cursor
        simp only [Option.map_some, Outcome.behind, Match.behind, Option.bind_eq_bind,
          Option.bind_some, rest]
        rcases evalSequence ⟨lexicon, ignore, apply⟩ more found.cursor with - | reject | pair <;>
          rfl

theorem evalAll_behind : ∀ (rules : List Rule) (cursor : Cursor),
    evalAll ⟨lexicon, ignore, apply⟩ rules (cursor.behind front) =
      (evalAll ⟨lexicon, ignore, apply⟩ rules cursor).map (List.map (Outcome.behind front))
  | [], _ => rfl
  | rule :: more, cursor => by
      simp only [evalAll, eval_behind rule cursor, evalAll_behind more cursor]
      cases rule.eval ⟨lexicon, ignore, apply⟩ cursor with
      | none => rfl
      | some outcome => cases evalAll ⟨lexicon, ignore, apply⟩ more cursor <;> rfl

theorem evalOrdered_behind : ∀ (rules : List Rule) (cursor : Cursor)
    (ambiguity : Option Reject),
    evalOrdered ⟨lexicon, ignore, apply⟩ rules (cursor.behind front)
        (ambiguity.map (Reject.behind front)) =
      (evalOrdered ⟨lexicon, ignore, apply⟩ rules cursor ambiguity).map (Outcome.behind front)
  | [], cursor, ambiguity => congrArg some (congrArg Except.error (Outcome.noAlternative_behind ..))
  | rule :: more, cursor, ambiguity => by
      simp only [evalOrdered, eval_behind rule cursor]
      rcases rule.eval ⟨lexicon, ignore, apply⟩ cursor with - | reject | found
      · rfl
      · have known : (ambiguity.map (Reject.behind front)).or
            (if (reject.behind front).isAmbiguous then some (reject.behind front) else none) =
              (ambiguity.or (if reject.isAmbiguous then some reject else none)).map
                (Reject.behind front) := by
          rw [Reject.isAmbiguous_behind]
          cases ambiguity with
          | none => cases reject.isAmbiguous <;> rfl
          | some first => rfl
        have rest := evalOrdered_behind more cursor
          (ambiguity.or (if reject.isAmbiguous then some reject else none))
        rw [← known] at rest
        exact rest
      · rfl

end

end Rule

namespace Grammar

variable {grammar : Grammar}

theorem applyWithin?_behind (front : Text) (depth : Nat) (name : String) (cursor : Cursor) :
    grammar.applyWithin? depth name (cursor.behind front) =
      (grammar.applyWithin? depth name cursor).map (Option.map (Outcome.behind front)) := by
  induction depth generalizing name cursor with
  | zero => rfl
  | succ depth ih =>
    rw [applyWithin?, applyWithin?]
    cases grammar.productions.find? name with
    | none => rfl
    | some rule =>
      have evaluated : rule.eval ⟨grammar.lexicon, grammar.ignore, grammar.applyWithin? depth⟩
          (cursor.behind front) = _ := Rule.eval_behind ih rule cursor
      simp only [evaluated, Option.map_map]
      rfl

/-- A longer text has a higher limit, which makes no difference to what is applied. -/
theorem applyAt?_behind (front : Text) (name : String) (cursor : Cursor) :
    grammar.applyAt? name (cursor.behind front) =
      (grammar.applyAt? name cursor).map (Option.map (Outcome.behind front)) := by
  let first := grammar.depthLimit (cursor.behind front).text.length
  let second := grammar.depthLimit cursor.text.length
  have longer : grammar.applyWithin? (max first second) name (cursor.behind front) =
      grammar.applyAt? name (cursor.behind front) :=
    applyWithin?_of_limit_le (Nat.le_max_left first second)
  have shorter : grammar.applyWithin? (max first second) name cursor =
      grammar.applyAt? name cursor :=
    applyWithin?_of_limit_le (Nat.le_max_right first second)
  rw [← longer, ← shorter]
  exact applyWithin?_behind front _ name cursor

theorem evalAt?_behind (front : Text) (rule : Rule) (cursor : Cursor) :
    grammar.evalAt? rule (cursor.behind front) =
      (grammar.evalAt? rule cursor).map (Outcome.behind front) := by
  rw [evalAt?_eq, evalAt?_eq]
  exact Rule.eval_behind (applyAt?_behind front) rule cursor

end Grammar

/-- A boundary of a text cuts it in two parts, of which the second begins at the boundary. -/
theorem Text.exists_cut {text : Text} {offset : Nat} (boundary : text.IsBoundary offset) :
    ∃ front suffix, text = front ++ suffix ∧ front.byteLength = offset ∧
      text.between? offset text.byteLength = some suffix := by
  obtain ⟨count, rfl⟩ := (isBoundary_iff text offset).mp boundary
  have whole : text.IsBoundary text.byteLength :=
    (isBoundary_iff _ _).mpr ⟨text.length, by rw [List.take_length]⟩
  have all : text.charsWithin text.byteLength = text.length := by
    simpa using charsWithin_byteLength_take text text.length
  have short : byteLength (text.take count) ≤ text.byteLength := by
    conv_rhs => rw [← List.take_append_drop count text, byteLength_append]
    exact Nat.le_add_right ..
  refine ⟨text.take count, text.drop count, (List.take_append_drop ..).symm, rfl, ?_⟩
  rw [between?, if_pos ⟨short, boundary, whole⟩, all, List.take_length,
    charsWithin_byteLength_take]
  rcases Nat.le_total count text.length with within | beyond
  · rw [Nat.min_eq_left within]
  · rw [Nat.min_eq_right beyond, List.drop_length, List.drop_eq_nil_of_le beyond]

namespace Environment

/-- At a boundary of a text, productions and rules have the outcomes that they have at the start
of the rest of the text, with all offsets moved on by the offset of the boundary; and they end
there exactly when they end at the start of the rest. -/
theorem outcomes_unaffected_by_front (grammar : Grammar) (text : Text) (offset : Nat)
    (boundary : text.IsBoundary offset) :
    ∃ front suffix, text = front ++ suffix ∧ front.byteLength = offset ∧
      text.between? offset text.byteLength = some suffix ∧
      (∀ name, ((start grammar).applyAt? name ((Cursor.start text).seek offset)).map Prod.fst =
        ((start grammar).applyAt? name (.start suffix)).map fun result =>
          result.1.map (Outcome.behind front)) ∧
      ∀ rule, ((start grammar).evalAt? rule ((Cursor.start text).seek offset)).map Prod.fst =
        ((start grammar).evalAt? rule (.start suffix)).map fun result =>
          result.1.behind front := by
  obtain ⟨front, suffix, rfl, rfl, cut⟩ := Text.exists_cut boundary
  refine ⟨front, suffix, rfl, rfl, cut, fun name => ?_, fun rule => ?_⟩
  · have applied (cursor : Cursor) :
        ((start grammar).applyAt? name cursor).map Prod.fst = grammar.applyAt? name cursor :=
      (Reaches.nil _).map_on? nofun (.apply name cursor) rfl
    rw [applied, Cursor.seek_start_append, Grammar.applyAt?_behind, ← applied, Option.map_map]
    rfl
  · have evaluated (cursor : Cursor) :
        ((start grammar).evalAt? rule cursor).map Prod.fst = grammar.evalAt? rule cursor :=
      (Reaches.nil _).map_evalAt? nofun rule rfl
    rw [evaluated, Cursor.seek_start_append, Grammar.evalAt?_behind, ← evaluated, Option.map_map]
    rfl

/-- After the two bytes of `é` a pattern finds the start of a text and of a word, where the whole
text has neither. -/
theorem outcomes_unaffected_by_front_after_letter :
    let grammar : Grammar := ⟨.ofList [("edge", .pattern "edge" (.of "^\\bx"))], .empty, []⟩
    let text : Text := ['é', 'x']
    text.IsBoundary 2 ∧
      ((start grammar).applyAt? "edge" ((Cursor.start text).seek 2)).map Prod.fst =
        some (some (.ok ⟨(Cursor.start text).seek 3, .token ⟨.rule "edge", ['x'], 2⟩⟩)) := by
  intro grammar text
  refine ⟨by decide, ?_⟩
  obtain ⟨front, suffix, whole, bytes, -, applied, -⟩ :=
    outcomes_unaffected_by_front grammar text 2 (by decide)
  obtain ⟨rfl, rfl⟩ := Text.append_inj (show ['é'] ++ ['x'] = front ++ suffix from whole) bytes.symm
  have alone : (((start grammar).applyAt? "edge" (.start ['x'])).map Prod.fst) =
      some (some (.ok ⟨(Cursor.start ['x']).forward 1, .token ⟨.rule "edge", ['x'], 0⟩⟩)) :=
    ((Reaches.nil _).map_on? nofun (.apply "edge" (.start ['x'])) rfl).trans rfl
  obtain ⟨⟨result, after⟩, ended, rfl⟩ := Option.map_eq_some_iff.mp alone
  rw [applied "edge", ended]
  rfl

end Environment

end Packrat
