import Packrat.Proofs.Abnf.AnyTree
import Packrat.Proofs.Notation.AnyTree

/-! # Where folds break off

A fold that meets a tree of any shape comes to a value or reports an error, but for the folds of
augmented Backus-Naur form, which cut off the first byte of what follows a percent sign. They break
off exactly at severed texts in the places of quoted strings (`misplacedCut_of_fold`). A numeric
value, whose letter is looked at first, is never cut so.
-/

namespace Packrat.Notation

namespace Abnf

/-- The body of an alternation that is a single quoted string. -/
def quotedTree (text : Text) : Tree :=
  .array [.named "concatenation" (.array [.named "repetition" (.array [.token (.empty 0),
    .named "element" (.named "char-val" (.token ⟨.rule "char-val", text, 0⟩))])]), .array []]

/-- The rule list of a single rule that is a quoted string. -/
def quotedRulelist (text : Text) : Tree :=
  .array [.named "rule" (.array [.token ⟨.rule "rulename", ['a'], 0⟩,
    .named "defined-as" (.token ⟨.rule "=", ['='], 1⟩), .named "alternation" (quotedTree text)])]

private theorem foldAlternatives_quotedTree {inlineCore : Bool} {text : Text}
    (severed : Severed text) :
    foldAlternatives inlineCore (quotedTree text) = .error (.misplacedCut text) := by
  have cut := charVal_of_severed severed
  simp [quotedTree, foldAlternatives, foldConcatenation, foldSequence, foldAll, foldRepetition,
    foldRepeated, foldElement, foldVariant, Tree.leafText, Token.isSentinel, bind, Except.bind, cut]

private theorem foldFragment_quotedTree {text : Text} (severed : Severed text) :
    abnf.foldFragment (quotedTree text) = .error (.misplacedCut text) := by
  have cut := @foldAlternatives_quotedTree true text severed
  change (foldAlternatives true (quotedTree text) >>= Rule.alternatives true) = _
  rw [cut]
  rfl

private theorem foldGrammar_quotedRulelist {text : Text} (severed : Severed text) :
    abnf.foldGrammar (quotedRulelist text) = .error (.misplacedCut text) := by
  have cut := @foldAlternatives_quotedTree false text severed
  change (foldRule .empty _ >>= _) >>= ofRules = _
  have broken : foldRule .empty (.named "rule" (.array [.token ⟨.rule "rulename", ['a'], 0⟩,
      .named "defined-as" (.token ⟨.rule "=", ['='], 1⟩),
      .named "alternation" (quotedTree text)])) = .error (.misplacedCut text) := by
    simp [foldRule, foldAlternation, Tree.leafName, Tree.leafText, Token.isSentinel, Except.map,
      bind, Except.bind, cut]
  rw [broken]
  rfl

/-- Only severed texts in the places of quoted strings are cut inside a character. -/
private def CutIn (tree : Tree) (fault : Error) : Prop :=
  ∀ text, fault = .misplacedCut text → Severed text ∧ Quotes text tree

private theorem kept_cutIn (tree : Tree) : Kept (fun _ => True) (CutIn tree) :=
  .of_plain fun _ plain text same => absurd same (plain text)

private theorem allows_cutIn (tree : Tree) : Allows (CutIn tree) tree := by
  rintro text quotes severed _ ⟨⟩
  exact ⟨severed, quotes⟩

end Abnf

private theorem kept_plain : Kept (fun _ => True) Plain := .of_plain fun _ plain => plain

private theorem plain_of_mem {language : Notation} (among : language ∈ [bnf, ebnf, peg, wsn])
    (tree : Tree) (fault : Error) (failed : language.foldGrammar tree = .error fault ∨
      language.foldFragment tree = .error fault) : Plain fault := by
  have choice : KeepsChoice fun _ => True := fun _ => trivial
  simp only [List.mem_cons, List.not_mem_nil, or_false] at among
  rcases among with rfl | rfl | rfl | rfl
  · exact failed.elim (Bnf.foldGrammar_settles kept_plain choice tree).error
      (Bnf.foldFragment_settles kept_plain choice tree).error
  · exact failed.elim (Ebnf.foldGrammar_settles kept_plain choice tree).error
      (Ebnf.foldFragment_settles kept_plain choice tree).error
  · exact failed.elim (Peg.foldGrammar_settles kept_plain tree).error
      (Peg.foldFragment_settles kept_plain tree).error
  · exact failed.elim (Wsn.foldGrammar_settles kept_plain choice tree).error
      (Wsn.foldFragment_settles kept_plain choice tree).error

/-- The folds of four notations cut no text inside a character, whatever the tree. Those of
augmented Backus-Naur form do so only with the text of a quoted string of the tree, and the texts
with which they do are the severed ones. -/
theorem misplacedCut_of_fold (text : Text) :
    (∀ language ∈ [bnf, ebnf, peg, wsn], ∀ tree,
      language.foldGrammar tree ≠ .error (.misplacedCut text) ∧
      language.foldFragment tree ≠ .error (.misplacedCut text)) ∧
    (∀ tree, (abnf.foldGrammar tree = .error (.misplacedCut text) ∨
      abnf.foldFragment tree = .error (.misplacedCut text)) → Abnf.Quotes text tree) ∧
    ((∃ tree, abnf.foldGrammar tree = .error (.misplacedCut text)) ↔ Abnf.Severed text) ∧
    ((∃ tree, abnf.foldFragment tree = .error (.misplacedCut text)) ↔ Abnf.Severed text) := by
  have grammar (tree : Tree) (failed : abnf.foldGrammar tree = .error (.misplacedCut text)) :
      Abnf.Severed text ∧ Abnf.Quotes text tree :=
    (Abnf.foldGrammar_settles (Abnf.kept_cutIn tree) tree (Abnf.allows_cutIn tree)).error
      failed text rfl
  have fragment (tree : Tree) (failed : abnf.foldFragment tree = .error (.misplacedCut text)) :
      Abnf.Severed text ∧ Abnf.Quotes text tree :=
    (Abnf.foldFragment_settles (Abnf.kept_cutIn tree) tree (Abnf.allows_cutIn tree)).error
      failed text rfl
  refine ⟨fun language among tree => ⟨fun failed => ?_, fun failed => ?_⟩, fun tree failed => ?_,
    ⟨?_, fun severed => ?_⟩, ⟨?_, fun severed => ?_⟩⟩
  · exact plain_of_mem among tree _ (.inl failed) text rfl
  · exact plain_of_mem among tree _ (.inr failed) text rfl
  · exact failed.elim (fun failed => (grammar tree failed).2) fun failed => (fragment tree failed).2
  · rintro ⟨tree, failed⟩
    exact (grammar tree failed).1
  · exact ⟨_, Abnf.foldGrammar_quotedRulelist severed⟩
  · rintro ⟨tree, failed⟩
    exact (fragment tree failed).1
  · exact ⟨_, Abnf.foldFragment_quotedTree severed⟩

/-- A percent sign with nothing after it is cut past its end. -/
theorem foldFragment_percent :
    abnf.foldFragment (Abnf.quotedTree ['%']) = .error (.misplacedCut ['%']) :=
  Abnf.foldFragment_quotedTree ⟨[], rfl, rfl⟩

end Packrat.Notation
