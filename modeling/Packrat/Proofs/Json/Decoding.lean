import Packrat.Proofs.Json.Derivation
import Packrat.Proofs.Json.Recognition

/-! # What JSON texts are parsed and folded into

A text is parsed exactly if it is that of a document, and is rejected otherwise. The tree then
folds into the value of the document, or fails with the error of the first token that stands for
nothing.
-/

namespace Packrat.Json

/-- A parsed text is that of a document. -/
theorem writes_of_parseAll {text : Text} {tree : Tree}
    (parsed : parser.parseAll "value" text = .ok tree) :
    ∃ document : Document, document.Writes text := by
  obtain ⟨rule, found, value, gives, ended, rfl⟩ := Parser.gives_of_parseAll parsed
  have lossless : rule.lossless = true := by
    have productions : parser.grammar.lossless = true := by decide +kernel
    exact List.all_eq_true.mp productions _ (Table.mem_of_find? value)
  have lies := Grammar.lies_of_gives (by decide +kernel) lossless gives
  have derives := derives_of_builds "value" rule found.node value
    (Grammar.builds_of_gives derives_of_builds gives)
  obtain ⟨document, terminals⟩ := derives
  obtain ⟨run, blank, left⟩ := found.cursor.rest_eq_skip
  have last : (found.cursor.skip [.blanks]).rest = [] := ended
  rw [last, List.append_nil] at left
  refine ⟨document, found.cursor.rest, terminals ▸ lies.spaced, ?_⟩
  rw [left]
  exact blank

/-- The parser accepts exactly the texts of documents and rejects all others. The tree of a
document folds into the value that it stands for, or fails with the error of the first token that
stands for nothing. -/
theorem parseAll_decodes (text : Text) :
    ((∃ tree, parser.parseAll "value" text = .ok tree) ↔
      ∃ document : Document, document.Writes text) ∧
    ((¬ ∃ document : Document, document.Writes text) → ∃ position message,
      parser.parseAll "value" text = .error (.rejected "value" position message)) ∧
    ∀ document : Document, document.Writes text → ∀ tree,
      parser.parseAll "value" text = .ok tree →
        (∀ value, toValue tree = .ok value ↔ document.Denotes value) ∧
        ∀ fault, toValue tree = .error fault ↔ document.fault? = some fault := by
  refine ⟨⟨?_, ?_⟩, ?_, ?_⟩
  · rintro ⟨tree, parsed⟩
    exact writes_of_parseAll parsed
  · rintro ⟨document, writes⟩
    obtain ⟨tree, parsed, -⟩ := parseAll_of_writes writes
    exact ⟨tree, parsed⟩
  · intro none
    rcases Parser.parseAll_of_tame tame value_declared text with ⟨tree, parsed⟩ | rejected
    · exact absurd (writes_of_parseAll parsed) none
    · exact rejected
  · intro document writes tree parsed
    obtain ⟨tree', parsed', folded⟩ := parseAll_of_writes writes
    obtain rfl : tree = tree' := Except.ok.inj (parsed.symm.trans parsed')
    rw [folded]
    exact ⟨fun value => Document.read_eq_ok_iff, fun fault => Document.read_eq_error_iff⟩

theorem parseAll_decodes_repeated_key :
    ∃ tree, parser.parseAll "value" "\x7b\"k\":0,\"k\":[]\x7d".toList = .ok tree ∧
      toValue tree = .ok (.object [("k", .array [])]) := by
  have key : stringPattern.Whole "\"k\"".toList := ⟨⟨3, some '"', []⟩, by decide +kernel, rfl⟩
  have zero : numberPattern.Whole "0".toList := ⟨⟨1, some '0', []⟩, by decide +kernel, rfl⟩
  let document : Document :=
    .object (.more ⟨_, key⟩ (.number ⟨_, zero⟩) (.last ⟨_, key⟩ .emptyArray))
  have writes : document.Writes "\x7b\"k\":0,\"k\":[]\x7d".toList := document.writes_flatten
  have denotes : document.Denotes (.object [("k", .array [])]) := by
    have name : stringOf "\"k\"".toList = .ok "k" := by decide +kernel
    have number : numberOf "0".toList = .ok (.integer 0) := rfl
    refine .object (.more name (.number number) (.last name .emptyArray)) ?_
    refine ⟨List.pairwise_singleton _ _, fun other => ?_⟩
    simp only [Table.lookupEntry, List.reverse_cons, List.reverse_nil, List.nil_append,
      List.singleton_append]
    split <;> rfl
  obtain ⟨accepted, -, decodes⟩ := parseAll_decodes "\x7b\"k\":0,\"k\":[]\x7d".toList
  obtain ⟨tree, parsed⟩ := accepted.mpr ⟨document, writes⟩
  exact ⟨tree, parsed, ((decodes document writes tree parsed).1 _).mpr denotes⟩

end Packrat.Json
