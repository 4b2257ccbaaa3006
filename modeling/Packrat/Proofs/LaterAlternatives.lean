import Packrat.Proofs.AmbiguityReports

/-! # Alternatives after an ambiguity

An ordered choice keeps the first ambiguity that one of its alternatives reports and goes on to the
others. So the ambiguity is the report of the choice exactly if all of them are rejected, and
otherwise the first of them to match is its match, whatever was reported before
(`Environment.Reaches.ordered_after_ambiguous`).
-/

namespace Packrat

namespace Grammar

variable {grammar : Grammar} {cursor : Cursor} {rule : Rule} {rules front back : List Rule}
  {known : Option Reject} {reject : Reject} {outcome : Outcome}

/-- Every one of the rules is rejected at the cursor. -/
def AllRejected (grammar : Grammar) (cursor : Cursor) (rules : List Rule) : Prop :=
  ∀ rule ∈ rules, ∃ reject, grammar.Gives rule cursor (.error reject)

/-- The match is that of the first of the rules not to be rejected at the cursor. -/
def FirstMatches (grammar : Grammar) (cursor : Cursor) (rules : List Rule) (found : Match) : Prop :=
  ∃ skipped rule others, rules = skipped ++ rule :: others ∧ grammar.AllRejected cursor skipped ∧
    grammar.Gives rule cursor (.ok found)

/-- A rule that is rejected leaves what is tried to the rules after it, and may leave an
ambiguity. -/
theorem tried_cons_iff (rejected : grammar.Gives rule cursor (.error reject)) :
    Tried grammar.Gives cursor (rule :: rules) known outcome ↔
      Tried grammar.Gives cursor rules
        (known.or (if reject.isAmbiguous then some reject else none)) outcome := by
  constructor
  · intro tried
    cases tried with
    | found here => cases rejected.symm.trans here
    | next here rest =>
      cases rejected.symm.trans here
      exact rest
  · intro rest
    exact .next rejected rest

/-- Mismatches are forgotten. -/
theorem tried_append_iff
    (before : ∀ rule ∈ front, ∃ reject, grammar.Gives rule cursor (.error reject) ∧
      reject.kind = .mismatch) :
    Tried grammar.Gives cursor (front ++ back) none outcome ↔
      Tried grammar.Gives cursor back none outcome := by
  induction front with
  | nil => exact Iff.rfl
  | cons rule front ih =>
    obtain ⟨⟨reject, rejected, kind⟩, before⟩ := List.forall_mem_cons.mp before
    have plain : reject.isAmbiguous = false := by simp [Reject.isAmbiguous, kind]
    rw [List.cons_append, tried_cons_iff rejected, plain]
    exact ih before

/-- An ambiguity that is known is the report of the rules that are tried after it, unless one of
them matches. -/
theorem tried_known_iff :
    Tried grammar.Gives cursor rules (some reject) outcome ↔
      (outcome = .error reject ∧ grammar.AllRejected cursor rules) ∨
        ∃ found, outcome = .ok found ∧ grammar.FirstMatches cursor rules found := by
  induction rules with
  | nil =>
    constructor
    · intro tried
      cases tried
      exact .inl ⟨rfl, nofun⟩
    · rintro (⟨rfl, -⟩ | ⟨found, -, skipped, rule, others, same, -⟩)
      · exact .nil
      · simp at same
  | cons rule rules ih =>
    constructor
    · intro tried
      cases tried with
      | @found _ _ _ found here => exact .inr ⟨found, rfl, [], rule, rules, rfl, nofun, here⟩
      | @next _ _ _ other _ here rest =>
        rcases ih.mp rest with ⟨rfl, all⟩ | ⟨found, rfl, skipped, later, others, rfl, all, first⟩
        · exact .inl ⟨rfl, List.forall_mem_cons.mpr ⟨⟨other, here⟩, all⟩⟩
        · refine .inr ⟨found, rfl, rule :: skipped, later, others, rfl, ?_, first⟩
          exact List.forall_mem_cons.mpr ⟨⟨other, here⟩, all⟩
    · rintro (⟨rfl, all⟩ | ⟨found, rfl, skipped, later, others, same, all, first⟩)
      · obtain ⟨⟨other, here⟩, all⟩ := List.forall_mem_cons.mp all
        exact .next here (ih.mpr (.inl ⟨rfl, all⟩))
      · cases skipped with
        | nil =>
          obtain ⟨rfl, rfl⟩ := List.cons.inj same
          exact .found first
        | cons earlier skipped =>
          obtain ⟨rfl, rfl⟩ := List.cons.inj same
          obtain ⟨⟨other, here⟩, all⟩ := List.forall_mem_cons.mp all
          exact .next here (ih.mpr (.inr ⟨found, rfl, skipped, later, others, rfl, all, first⟩))

/-- After mismatches and an ambiguity, an ordered choice has the ambiguity if all later rules are
rejected, or the match of the first that is not. -/
theorem gives_ordered_iff
    (before : ∀ rule ∈ front, ∃ reject, grammar.Gives rule cursor (.error reject) ∧
      reject.kind = .mismatch)
    (rejected : grammar.Gives rule cursor (.error reject)) (ambiguous : reject.kind = .ambiguous) :
    grammar.Gives (.ordered (front ++ rule :: back)) cursor outcome ↔
      (outcome = .error reject ∧ grammar.AllRejected cursor back) ∨
        ∃ found, outcome = .ok found ∧ grammar.FirstMatches cursor back found := by
  have reported : reject.isAmbiguous = true := by simp [Reject.isAmbiguous, ambiguous]
  have tried : grammar.Gives (.ordered (front ++ rule :: back)) cursor outcome ↔
      Tried grammar.Gives cursor (front ++ rule :: back) none outcome := by
    constructor
    · intro gives
      cases gives_iff.mp gives with
      | ordered tried => exact tried
    · intro tried
      exact gives_of_unfolds (.ordered tried)
  rw [tried, tried_append_iff before, tried_cons_iff rejected, reported]
  exact tried_known_iff

end Grammar

namespace Environment

/-- On an environment that calls at places of a text have led to, let an alternative be rejected as
ambiguous and those before it as mismatches. The ordered choice has this reject exactly if all later
alternatives are rejected, and no other one; it matches exactly if one of them does, and then as the
first of them. -/
theorem Reaches.ordered_after_ambiguous {grammar : Grammar} {text : Text} {history : List Call}
    {environment : Environment} (reached : (start grammar).Reaches history environment)
    (texts : ∀ call ∈ history, call.cursor.text = text) {cursor : Cursor}
    (here : cursor.text = text) {front back : List Rule} {rule : Rule} {reject : Reject}
    (before : ∀ earlier ∈ front, ∃ other,
      (environment.evalAt? earlier cursor).map Prod.fst = some (.error other) ∧
        other.kind = .mismatch)
    (rejected : (environment.evalAt? rule cursor).map Prod.fst = some (.error reject))
    (ambiguous : reject.kind = .ambiguous) :
    let answer (rule : Rule) := (environment.evalAt? rule cursor).map Prod.fst
    let Rejected (rule : Rule) := ∃ other, answer rule = some (.error other)
    (answer (.ordered (front ++ rule :: back)) = some (.error reject) ↔
      ∀ later ∈ back, Rejected later) ∧
    (∀ other, answer (.ordered (front ++ rule :: back)) = some (.error other) → other = reject) ∧
    ∀ found, answer (.ordered (front ++ rule :: back)) = some (.ok found) ↔
      ∃ skipped later others, back = skipped ++ later :: others ∧
        (∀ alternative ∈ skipped, Rejected alternative) ∧ answer later = some (.ok found) := by
  intro answer Rejected
  have gives (rule : Rule) (outcome : Outcome) :
      answer rule = some outcome ↔ grammar.Gives rule cursor outcome := by
    have same : answer rule = grammar.evalAt? rule cursor := reached.map_evalAt? texts rule here
    rw [same, grammar.evalAt?_eq]
    rfl
  have before : ∀ earlier ∈ front, ∃ other, grammar.Gives earlier cursor (.error other) ∧
      other.kind = .mismatch := by
    intro earlier member
    obtain ⟨other, ended, kind⟩ := before earlier member
    exact ⟨other, (gives _ _).mp ended, kind⟩
  have choice (outcome : Outcome) := @Grammar.gives_ordered_iff grammar cursor rule front back
    reject outcome before ((gives _ _).mp rejected) ambiguous
  simp only [Rejected, gives, choice]
  refine ⟨?_, ?_, ?_⟩
  · constructor
    · rintro (⟨-, all⟩ | ⟨found, same, -⟩)
      · exact all
      · cases same
    · intro all
      exact .inl ⟨trivial, all⟩
  · rintro other (⟨same, -⟩ | ⟨found, same, -⟩)
    · exact Except.error.inj same
    · cases same
  · intro found
    constructor
    · rintro (⟨same, -⟩ | ⟨other, same, first⟩)
      · cases same
      · cases same
        exact first
    · intro first
      exact .inr ⟨found, rfl, first⟩

/-- After `b`, which does not match `a`, a production with two equal alternatives is rejected as
ambiguous, and so is the choice unless `a` is among the later alternatives. -/
theorem Reaches.ordered_after_ambiguous_production :
    let grammar : Grammar := ⟨.ofList [("twice", .choice [.text "a", .text "a"])], .empty, []⟩
    let early : Call := .apply "twice" (.start ['a'])
    let cursor : Cursor := .start ['a']
    ∃ environment, (start grammar).Reaches [early] environment ∧ ∃ reject found,
      reject.kind = .ambiguous ∧
      (environment.evalAt? (.ordered [.text "b", .reference "twice", .text "b"]) cursor).map
        Prod.fst = some (.error reject) ∧
      (environment.evalAt? (.ordered [.text "b", .reference "twice", .text "b", .text "a"])
        cursor).map Prod.fst = some (.ok found) := by
  intro grammar early cursor
  have fresh : (start grammar).memo.Sound grammar ['a'] := .empty grammar _
  have texts : ∀ call ∈ [early], call.cursor.text = ['a'] := by simp [early, Call.cursor]
  obtain ⟨environment, reached⟩ := exists_reaches fresh texts
    (show ∀ call ∈ [early], (call.direct? grammar).isSome = true by decide +kernel)
  have answers (rule : Rule) := reached.map_evalAt? texts rule (Cursor.text_start ['a'])
  have mismatch : ∀ earlier ∈ [Rule.text "b"], ∃ other,
      (environment.evalAt? earlier cursor).map Prod.fst = some (.error other) ∧
        other.kind = .mismatch := by
    intro earlier member
    obtain rfl := List.mem_singleton.mp member
    exact ⟨_, (answers _).trans rfl, rfl⟩
  have missing : ∀ later ∈ [Rule.text "b"], ∃ other,
      (environment.evalAt? later cursor).map Prod.fst = some (.error other) := by
    intro later member
    obtain ⟨other, ended, -⟩ := mismatch later member
    exact ⟨other, ended⟩
  obtain ⟨found, matched⟩ : ∃ found,
      (environment.evalAt? (.text "a") cursor).map Prod.fst = some (.ok found) :=
    ⟨_, (answers _).trans rfl⟩
  obtain ⟨reject, rejected, kind⟩ : ∃ reject,
      (environment.evalAt? (.reference "twice") cursor).map Prod.fst = some (.error reject) ∧
        reject.kind = .ambiguous :=
    ⟨_, (answers _).trans rfl, rfl⟩
  obtain ⟨blocked, -, -⟩ := @Reaches.ordered_after_ambiguous _ _ _ _ reached texts _
    (Cursor.text_start ['a']) _ [.text "b"] _ _ mismatch rejected kind
  obtain ⟨-, -, overridden⟩ := @Reaches.ordered_after_ambiguous _ _ _ _ reached texts _
    (Cursor.text_start ['a']) _ [.text "b", .text "a"] _ _ mismatch rejected kind
  have first : ∃ skipped later others, [Rule.text "b", .text "a"] = skipped ++ later :: others ∧
      (∀ alternative ∈ skipped, ∃ other,
        (environment.evalAt? alternative cursor).map Prod.fst = some (.error other)) ∧
      (environment.evalAt? later cursor).map Prod.fst = some (.ok found) :=
    ⟨[.text "b"], .text "a", [], rfl, missing, matched⟩
  exact ⟨environment, reached, reject, found, kind, blocked.mpr missing,
    (overridden found).mpr first⟩

/-- A choice of two equal alternatives is ambiguous, and yet the ordered choice around it goes on to
the next alternative and matches. -/
theorem ordered_overrides_ambiguity :
    let grammar : Grammar := ⟨.empty, .empty, []⟩
    let twice : Rule := .choice [.text "a", .text "a"]
    ∃ reject found environment environment',
      (start grammar).evalAt? twice (.start ['a']) = some (.error reject, environment) ∧
      reject.kind = .ambiguous ∧
      (start grammar).evalAt? (.ordered [twice, .text "a"]) (.start ['a']) =
        some (.ok found, environment') ∧
      found.node = .token ⟨.rule "a", ['a'], 0⟩ :=
  ⟨_, _, _, _, rfl, rfl, rfl, rfl⟩

end Environment

end Packrat
