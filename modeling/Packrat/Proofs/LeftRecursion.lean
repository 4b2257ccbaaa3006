import Packrat.Json.Grammar
import Packrat.Notation.Abnf
import Packrat.Notation.Bnf
import Packrat.Notation.Ebnf
import Packrat.Notation.Peg
import Packrat.Notation.Wsn
import Packrat.Proofs.Memoization
import Packrat.Proofs.Pattern.Interval
import Packrat.Proofs.Termination

/-! # Grammars without left recursion

Which rules advance, and which productions a rule may apply before it does, is read off the rules:
`Rule.Advancing` and `Rule.HeadReference` look at no pattern but those of code point ranges. If the
productions can be ranked so that every head reference leads to a smaller rank, then every
application ends with a match or a reject, whatever the operands of repetitions are. What the
checks of `Grammar.Ranked` see is no less, so that theorem does the work.
-/

namespace Packrat

namespace Rule

/-- A rule that takes a character wherever it matches, by its form. -/
inductive Advancing : Rule → Prop where
  | literal {name : String} {text : Text} {caseless : Bool} (written : text ≠ []) :
      Advancing (.terminal (.inline name (.literal text) caseless))
  | codePoint {code : Nat} {rule : Rule} (built : codePoint? code = .ok rule) : Advancing rule
  | codeRange {low high : Nat} {rule : Rule} (built : codeRange? low high = .ok rule) :
      Advancing rule
  | sequence {rules : List Rule} {rule : Rule} (member : rule ∈ rules)
      (advancing : Advancing rule) : Advancing (.sequence rules)
  | choice {rules : List Rule} (each : ∀ rule ∈ rules, Advancing rule) : Advancing (.choice rules)
  | ordered {rules : List Rule} (each : ∀ rule ∈ rules, Advancing rule) :
      Advancing (.ordered rules)
  | repetition {rule : Rule} {min : Nat} {max : Option Nat} (some : 1 ≤ min)
      (advancing : Advancing rule) : Advancing (.repetition rule min max)

/-- The rule may apply the production of the name before it has passed an advancing rule. -/
inductive HeadReference : Rule → String → Prop where
  | reference {name : String} : HeadReference (.reference name) name
  | sequence {front back : List Rule} {rule : Rule} {name : String}
      (passed : ∀ before ∈ front, ¬ before.Advancing) (head : HeadReference rule name) :
      HeadReference (.sequence (front ++ rule :: back)) name
  | choice {rules : List Rule} {rule : Rule} {name : String} (member : rule ∈ rules)
      (head : HeadReference rule name) : HeadReference (.choice rules) name
  | ordered {rules : List Rule} {rule : Rule} {name : String} (member : rule ∈ rules)
      (head : HeadReference rule name) : HeadReference (.ordered rules) name
  | optional {rule : Rule} {name : String} (head : HeadReference rule name) :
      HeadReference (.optional rule) name
  | repetition {rule : Rule} {min : Nat} {max : Option Nat} {name : String}
      (head : HeadReference rule name) : HeadReference (.repetition rule min max) name
  | absent {rule : Rule} {name : String} (head : HeadReference rule name) :
      HeadReference (.absent rule) name
  | ahead {rule : Rule} {name : String} (head : HeadReference rule name) :
      HeadReference (.ahead rule) name
  | veiled {rule : Rule} {name : String} (head : HeadReference rule name) :
      HeadReference (.veiled rule) name

theorem anyAdvances_of_mem {rules : List Rule} {rule : Rule} (member : rule ∈ rules)
    (advances : rule.advances = true) : anyAdvances rules = true := by
  induction rules with
  | nil => cases member
  | cons head more ih =>
    simp only [anyAdvances, Bool.or_eq_true]
    rcases List.mem_cons.mp member with rfl | member
    · exact .inl advances
    · exact .inr (ih member)

theorem allAdvance_of_forall {rules : List Rule} (each : ∀ rule ∈ rules, rule.advances = true) :
    allAdvance rules = true := by
  induction rules with
  | nil => rfl
  | cons head more ih =>
    obtain ⟨here, others⟩ := List.forall_mem_cons.mp each
    simp only [allAdvance, here, ih others, Bool.and_self]

/-- The pattern of a set of characters in a range takes a character. -/
theorem advances_of_range {pattern : Pattern} {first last : Char}
    (regex : pattern.regex = .seq (.look .textStart) (.ofSet (.range first last))) :
    (LexRule.pattern pattern).advances = true := by
  simp only [LexRule.advances, regex]
  unfold Regex.ofSet
  cases (CharSet.range first last).only? <;> rfl

theorem Advancing.advances {rule : Rule} (advancing : rule.Advancing) : rule.advances = true := by
  induction advancing with
  | literal written => simpa [Rule.advances, LexRule.advances] using written
  | codePoint built =>
    obtain ⟨name, c, rfl⟩ := eq_of_codePoint? built
    rfl
  | codeRange built =>
    obtain ⟨first, last, -, -, -, name, pattern, rfl, regex⟩ := eq_of_codeRange? built
    exact advances_of_range regex
  | sequence member _ ih => exact anyAdvances_of_mem member ih
  | choice _ ih => exact allAdvance_of_forall ih
  | ordered _ ih => exact allAdvance_of_forall ih
  | repetition some _ ih =>
    simp only [Rule.advances, ih, Bool.and_true, decide_eq_true_eq]
    omega

mutual

/-- The productions that the checks of ranks look at are head references. -/
theorem headReference_of_mem : ∀ (rule : Rule) (name : String),
    name ∈ rule.heads → rule.HeadReference name
  | .sequence rules, name, member => by
      obtain ⟨front, rule, back, rfl, passed, head⟩ := exists_of_mem_sequenceHeads rules name member
      exact .sequence passed head
  | .choice rules, name, member => by
      obtain ⟨rule, among, head⟩ := exists_of_mem_allHeads rules name member
      exact .choice among head
  | .ordered rules, name, member => by
      obtain ⟨rule, among, head⟩ := exists_of_mem_allHeads rules name member
      exact .ordered among head
  | .optional rule, name, member => .optional (headReference_of_mem rule name member)
  | .repetition rule _ _, name, member => .repetition (headReference_of_mem rule name member)
  | .absent rule, name, member => .absent (headReference_of_mem rule name member)
  | .ahead rule, name, member => .ahead (headReference_of_mem rule name member)
  | .veiled rule, name, member => .veiled (headReference_of_mem rule name member)
  | .reference _, _, member => List.mem_singleton.mp member ▸ .reference
  | .endOfText, _, member => absurd member List.not_mem_nil
  | .empty, _, member => absurd member List.not_mem_nil
  | .terminal _, _, member => absurd member List.not_mem_nil

theorem exists_of_mem_sequenceHeads : ∀ (rules : List Rule) (name : String),
    name ∈ sequenceHeads rules → ∃ front rule back, rules = front ++ rule :: back ∧
      (∀ before ∈ front, ¬ before.Advancing) ∧ rule.HeadReference name
  | [], _, member => absurd member List.not_mem_nil
  | rule :: more, name, member => by
      rcases List.mem_append.mp member with here | later
      · exact ⟨[], rule, more, rfl, fun _ none => absurd none List.not_mem_nil,
          headReference_of_mem rule name here⟩
      · split at later
        · cases later
        · rename_i still
          obtain ⟨front, other, back, rfl, passed, head⟩ :=
            exists_of_mem_sequenceHeads more name later
          exact ⟨rule :: front, other, back, rfl,
            List.forall_mem_cons.mpr ⟨fun advancing => still advancing.advances, passed⟩, head⟩

theorem exists_of_mem_allHeads : ∀ (rules : List Rule) (name : String),
    name ∈ allHeads rules → ∃ rule ∈ rules, rule.HeadReference name
  | [], _, member => absurd member List.not_mem_nil
  | rule :: more, name, member => by
      rcases List.mem_append.mp member with here | later
      · exact ⟨rule, List.mem_cons_self .., headReference_of_mem rule name here⟩
      · obtain ⟨other, among, head⟩ := exists_of_mem_allHeads more name later
        exact ⟨other, List.mem_cons_of_mem _ among, head⟩

end

/-- Whether a rule is a literal that is not empty. -/
def isLiteral : Rule → Bool
  | .terminal (.inline _ (.literal text) _) => !text.isEmpty
  | _ => false

mutual

/-- The productions that a rule may apply before it has passed a literal. -/
def earlyReferences : Rule → List String
  | .sequence rules => sequenceEarly rules
  | .choice rules | .ordered rules => allEarly rules
  | .optional rule | .repetition rule _ _ | .absent rule | .ahead rule | .veiled rule =>
      rule.earlyReferences
  | .reference name => [name]
  | .endOfText | .empty | .terminal _ => []

/-- The productions that rules one after the other may apply before they have passed a literal. -/
def sequenceEarly : List Rule → List String
  | [] => []
  | rule :: more => rule.earlyReferences ++ if rule.isLiteral then [] else sequenceEarly more

/-- The productions that any of several rules may apply before it has passed a literal. -/
def allEarly : List Rule → List String
  | [] => []
  | rule :: more => rule.earlyReferences ++ allEarly more

end

theorem advancing_of_isLiteral {rule : Rule} (literal : rule.isLiteral = true) :
    rule.Advancing := by
  unfold isLiteral at literal
  split at literal
  · exact .literal (by simpa using literal)
  · cases literal

theorem mem_sequenceEarly {front back : List Rule} {rule : Rule} {name : String}
    (passed : ∀ before ∈ front, ¬ before.Advancing) (early : name ∈ rule.earlyReferences) :
    name ∈ sequenceEarly (front ++ rule :: back) := by
  induction front with
  | nil => exact List.mem_append_left _ early
  | cons first front ih =>
    obtain ⟨here, others⟩ := List.forall_mem_cons.mp passed
    refine List.mem_append_right _ ?_
    rw [if_neg fun literal => here (advancing_of_isLiteral literal)]
    exact ih others

theorem mem_allEarly {rules : List Rule} {rule : Rule} {name : String} (member : rule ∈ rules)
    (early : name ∈ rule.earlyReferences) : name ∈ allEarly rules := by
  induction rules with
  | nil => cases member
  | cons first more ih =>
    rcases List.mem_cons.mp member with rfl | member
    · exact List.mem_append_left _ early
    · exact List.mem_append_right _ (ih member)

/-- A head reference comes before any literal. -/
theorem HeadReference.mem_earlyReferences {rule : Rule} {name : String}
    (head : rule.HeadReference name) : name ∈ rule.earlyReferences := by
  induction head with
  | reference => exact List.mem_singleton_self _
  | sequence passed _ ih => exact mem_sequenceEarly passed ih
  | choice member _ ih => exact mem_allEarly member ih
  | ordered member _ ih => exact mem_allEarly member ih
  | optional _ ih | repetition _ ih | absent _ ih | ahead _ ih | veiled _ ih => exact ih

end Rule

namespace Grammar

/-- Every head reference of a body names a production that the grammar does not have or one of a
smaller rank. -/
def WithoutLeftRecursion (grammar : Grammar) (rank : String → Nat) : Prop :=
  ∀ name rule, grammar.productions.find? name = some rule → ∀ head, rule.HeadReference head →
    grammar.productions.find? head = none ∨ rank head < rank name

theorem WithoutLeftRecursion.ranked {grammar : Grammar} {rank : String → Nat}
    (ranked : grammar.WithoutLeftRecursion rank) : grammar.Ranked rank :=
  fun name rule found head member =>
    ranked name rule found head (Rule.headReference_of_mem rule head member)

/-- Whether the productions that a body may apply before a literal stand before it in a list. -/
def earlyRankedBy (grammar : Grammar) (order : List String) : Bool :=
  grammar.productions.entries.all fun entry => entry.2.earlyReferences.all fun head =>
    (grammar.productions.find? head).isNone || order.idxOf head < order.idxOf entry.1

theorem withoutLeftRecursion_of_order {grammar : Grammar} {order : List String}
    (ordered : grammar.earlyRankedBy order = true) :
    grammar.WithoutLeftRecursion (order.idxOf ·) := by
  intro name rule found head reference
  have entry := List.all_eq_true.mp ordered _ (Table.mem_of_find? found)
  simpa using List.all_eq_true.mp entry head reference.mem_earlyReferences

/-- Every production of the grammar gives a match or a reject at every place of every text,
without a table and with one that any calls at places of the text have left. -/
def Terminates (grammar : Grammar) : Prop :=
  ∀ name, grammar.productions.contains name = true → ∀ cursor : Cursor,
    (∃ outcome, grammar.applyAt? name cursor = some (some outcome)) ∧
    ∀ history environment, (∀ call ∈ history, call.cursor.text = cursor.text) →
      (Environment.start grammar).Reaches history environment →
      ∃ outcome next, environment.applyAt? name cursor = some (some outcome, next)

theorem WithoutLeftRecursion.terminates {grammar : Grammar} {rank : String → Nat}
    (ranked : grammar.WithoutLeftRecursion rank) : grammar.Terminates := by
  intro name defined cursor
  obtain ⟨rule, found⟩ := Option.isSome_iff_exists.mp defined
  obtain ⟨result, ended⟩ := Option.isSome_iff_exists.mp
    (applyAt?_isSome ranked.ranked name cursor)
  have applied := ended
  rw [applyAt?_eq, found] at applied
  obtain ⟨outcome, -, rfl⟩ := Option.map_eq_some_iff.mp applied
  refine ⟨⟨outcome, ended⟩, fun history environment texts reached => ?_⟩
  have same := reached.map_on? texts (.apply name cursor) rfl
  obtain ⟨⟨result, next⟩, made, rfl⟩ := Option.map_eq_some_iff.mp (same.trans ended)
  exact ⟨outcome, next, made⟩

/-- The grammars of JSON and of the notations, each with an order of its productions in which a
body refers before its first literal to earlier ones only. -/
def builtIn : List (Grammar × List String) :=
  [(Json.parser.grammar, ["object", "array", "value", "member", "members", "elements"]),
   (Notation.bnf.parser.grammar,
     ["reference", "literal", "list", "expression", "rule", "syntax"]),
   (Notation.ebnf.parser.grammar,
     ["reference", "terminal", "option", "repeat", "group", "factor", "concatenation",
      "alternation", "rule", "grammar"]),
   (Notation.abnf.parser.grammar,
     ["defined-as", "reference", "group", "option", "char-val", "num-val", "prose-val", "element",
      "repetition", "concatenation", "alternation", "rule", "rulelist"]),
   (Notation.peg.parser.grammar,
     ["group", "end", "nothing", "lexical", "literal", "any", "reference", "primary", "suffix",
      "prefix", "sequence", "expression", "rule", "grammar"]),
   (Notation.wsn.parser.grammar,
     ["identifier", "literal", "option", "group", "repeat", "factor", "term", "expression",
      "production", "syntax"])]

theorem builtIn_ranked : ∀ entry ∈ builtIn, entry.1.earlyRankedBy entry.2 = true := by
  decide +kernel

/-- A grammar whose productions can be ranked so that head references lead to smaller ranks gives
a match or a reject for every production, text and place, whatever operands its repetitions have.
The grammars of JSON and of the five notations can be ranked so. -/
theorem terminates_without_left_recursion :
    (∀ (grammar : Grammar) (rank : String → Nat), grammar.WithoutLeftRecursion rank →
      grammar.Terminates) ∧
    ∀ grammar ∈ [Json.parser.grammar, Notation.bnf.parser.grammar, Notation.ebnf.parser.grammar,
      Notation.abnf.parser.grammar, Notation.peg.parser.grammar, Notation.wsn.parser.grammar],
      (∃ rank, grammar.WithoutLeftRecursion rank) ∧ grammar.Terminates := by
  refine ⟨fun grammar rank ranked => ranked.terminates, fun grammar member => ?_⟩
  obtain ⟨entry, known, rfl⟩ := List.mem_map.mp (show grammar ∈ builtIn.map Prod.fst from member)
  have ranked := withoutLeftRecursion_of_order (builtIn_ranked entry known)
  exact ⟨⟨_, ranked⟩, ranked.terminates⟩

/-- A list of runs of an optional letter, of which each run counts three letters at least, is read
from every place of every text to its end. -/
theorem terminates_with_nullable_operand :
    let run : Rule := .repetition (.optional (.text "x")) 3 none
    let grammar : Grammar := ⟨.ofList [("runs", .sequence [.reference "run",
      .optional (.sequence [.text ",", .reference "runs"])]), ("run", run)], .empty, []⟩
    grammar.WithoutLeftRecursion (["run", "runs"].idxOf ·) ∧ grammar.Terminates := by
  intro run grammar
  have ranked : grammar.WithoutLeftRecursion (["run", "runs"].idxOf ·) :=
    withoutLeftRecursion_of_order (by decide +kernel)
  exact ⟨ranked, terminates_without_left_recursion.1 grammar _ ranked⟩

end Grammar

end Packrat
