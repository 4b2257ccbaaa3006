import Packrat.Rule.Eval

/-! # What terminals match

A terminal matches where something is left after what is ignored and its lexical rule takes
characters from there. Its match is the token of those characters, and where it does not match its
reject is a mismatch.
-/

namespace Packrat

namespace Terminal

/-- The name of the tokens, the lexical rule, and whether case is disregarded. -/
def lexical? (lexicon : Lexicon) : Terminal → Option (String × LexRule × Bool)
  | .listed name => (lexicon.find? name).map fun rule => (name, rule, false)
  | .inline name rule caseless => some (name, rule, caseless)

/-- The match of so many characters at a cursor. -/
def taken (name : String) (here : Cursor) (count : Nat) : Match :=
  ⟨here.forward count, .token ⟨.rule name, here.rest.take count, here.offset⟩⟩

private theorem tryRule_eq (leaf : Terminal) (ignore : List LexRule) (name : String)
    (rule : LexRule) (caseless : Bool) (cursor : Cursor) :
    (∃ count, (cursor.skip ignore).rest ≠ [] ∧
        rule.matchCount? caseless (cursor.skip ignore).rest = some count ∧
        leaf.tryRule ignore name rule caseless cursor =
          .ok (taken name (cursor.skip ignore) count)) ∨
      (((cursor.skip ignore).rest = [] ∨
          rule.matchCount? caseless (cursor.skip ignore).rest = none) ∧
        ∃ reason, leaf.tryRule ignore name rule caseless cursor =
          .error (.mismatch cursor reason)) := by
  cases left : (cursor.skip ignore).rest with
  | nil =>
    refine .inr ⟨.inl rfl, .tokenMissing leaf .eof (cursor.skip ignore).offset [], ?_⟩
    simp only [tryRule, Cursor.scan, Cursor.atEnd, left, List.isEmpty_nil, if_true, Token.eof]
  | cons c rest =>
    cases tried : rule.matchCount? caseless (c :: rest) with
    | none =>
      refine .inr ⟨.inr rfl,
        .tokenMissing leaf .empty (cursor.skip ignore).offset (c :: rest), ?_⟩
      simp only [tryRule, Cursor.scan, Cursor.atEnd, left, tried, List.isEmpty_cons,
        Bool.false_eq_true, if_false, Token.empty]
    | some count =>
      refine .inl ⟨count, nofun, rfl, ?_⟩
      simp only [tryRule, Cursor.scan, Cursor.atEnd, left, tried, List.isEmpty_cons,
        Bool.false_eq_true, if_false, taken]

variable {lexicon : Lexicon} {ignore : List LexRule} {leaf : Terminal} {cursor : Cursor}

private theorem eval_eq_tryRule {name : String} {rule : LexRule} {caseless : Bool}
    (lexical : leaf.lexical? lexicon = some (name, rule, caseless)) :
    leaf.eval lexicon ignore cursor = leaf.tryRule ignore name rule caseless cursor := by
  cases leaf with
  | inline => cases lexical; rfl
  | listed name =>
    obtain ⟨rule, known, same⟩ := Option.map_eq_some_iff.mp lexical
    cases same
    simp only [eval, known]

/-- A terminal matches exactly where its rule takes characters after what is ignored. -/
theorem eval_eq_ok_iff {found : Match} :
    leaf.eval lexicon ignore cursor = .ok found ↔
      ∃ name rule caseless count, leaf.lexical? lexicon = some (name, rule, caseless) ∧
        (cursor.skip ignore).rest ≠ [] ∧
        rule.matchCount? caseless (cursor.skip ignore).rest = some count ∧
        found = taken name (cursor.skip ignore) count := by
  constructor
  · intro matched
    cases lexical : leaf.lexical? lexicon with
    | none =>
      cases leaf with
      | inline => cases lexical
      | listed name =>
        have unknown := Option.map_eq_none_iff.mp lexical
        simp only [eval, unknown] at matched
        cases matched
    | some named =>
      obtain ⟨name, rule, caseless⟩ := named
      rw [eval_eq_tryRule lexical] at matched
      rcases tryRule_eq leaf ignore name rule caseless cursor with
        ⟨count, left, counted, same⟩ | ⟨-, reason, same⟩
      · rw [same] at matched
        exact ⟨name, rule, caseless, count, rfl, left, counted, (Except.ok.inj matched).symm⟩
      · rw [same] at matched
        cases matched
  · rintro ⟨name, rule, caseless, count, lexical, left, counted, rfl⟩
    rw [eval_eq_tryRule lexical]
    rcases tryRule_eq leaf ignore name rule caseless cursor with
      ⟨count', -, counted', same⟩ | ⟨fails, -⟩
    · rw [same, Option.some.inj (counted.symm.trans counted')]
    · rcases fails with ended | none
      · exact absurd ended left
      · rw [none] at counted
        cases counted

/-- A terminal that does not match rejects with a mismatch where it is tried. -/
theorem mismatch_of_eval {reject : Reject}
    (rejected : leaf.eval lexicon ignore cursor = .error reject) :
    ∃ reason, reject = .mismatch cursor reason := by
  cases lexical : leaf.lexical? lexicon with
  | none =>
    cases leaf with
    | inline => cases lexical
    | listed name =>
      have unknown := Option.map_eq_none_iff.mp lexical
      simp only [eval, unknown] at rejected
      exact ⟨_, (Except.error.inj rejected).symm⟩
  | some named =>
    obtain ⟨name, rule, caseless⟩ := named
    rw [eval_eq_tryRule lexical] at rejected
    rcases tryRule_eq leaf ignore name rule caseless cursor with
      ⟨count, -, -, same⟩ | ⟨-, reason, same⟩
    · rw [same] at rejected
      cases rejected
    · rw [same] at rejected
      exact ⟨reason, (Except.error.inj rejected).symm⟩

end Terminal

end Packrat
