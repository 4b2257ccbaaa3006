import Packrat.Pattern.Reader

/-! # Reading a pattern before a closing bracket

What is read of a pattern is read in the same way if a closing bracket comes after the pattern,
since nothing that is read whole depends on what stands after it (`Persists`). Only a comment at
the end of the pattern would take the bracket in: then nothing is left of either text.
-/

namespace Packrat.Pattern

/-- The second text is the first, or the first with a closing bracket after it. -/
inductive Enclosed : Text → Text → Prop where
  | closed : Enclosed [] [')']
  | lost : Enclosed [] []
  | cons (c : Char) {text text' : Text} (rest : Enclosed text text') :
      Enclosed (c :: text) (c :: text')

/-- What is read of a text is read if a closing bracket comes after the text, and so it is with what
is left of the text. -/
def Persists {α : Type} (read : Text → Option (α × Text)) : Prop :=
  ∀ {text text' : Text}, Enclosed text text' → ∀ {value : α} {rest : Text},
    read text = some (value, rest) → ∃ rest', read text' = some (value, rest') ∧ Enclosed rest rest'

namespace Enclosed

variable {text text' : Text}

theorem append : ∀ text : Text, Enclosed text (text ++ [')'])
  | [] => .closed
  | c :: text => .cons c (append text)

theorem eq_nil (enclosed : Enclosed text []) : text = [] := by
  cases enclosed
  rfl

theorem length_le (enclosed : Enclosed text text') : text.length ≤ text'.length := by
  induction enclosed with
  | closed | lost => exact Nat.zero_le _
  | cons _ _ ih => exact Nat.succ_le_succ ih

theorem of_cons {c : Char} (enclosed : Enclosed (c :: text) text') :
    ∃ rest', text' = c :: rest' ∧ Enclosed text rest' := by
  cases enclosed with
  | cons _ enclosed => exact ⟨_, rfl, enclosed⟩

/-- The second text begins with no character with which the first does not begin, but for the
closing bracket. -/
theorem not_cons {c : Char} (enclosed : Enclosed text text') (inside : c ≠ ')')
    (other : ∀ rest, text = c :: rest → False) : ∀ rest', text' = c :: rest' → False := by
  rintro rest' rfl
  cases enclosed with
  | closed => exact inside rfl
  | cons _ _ => exact other _ rfl

theorem not_cons₂ {c d : Char} (enclosed : Enclosed text text') (inside : d ≠ ')')
    (other : ∀ rest, text = c :: d :: rest → False) :
    ∀ rest', text' = c :: d :: rest' → False := by
  rintro rest' rfl
  cases enclosed with
  | cons _ enclosed =>
    exact enclosed.not_cons inside (fun rest same => other rest (same ▸ rfl)) _ rfl

theorem head?_eq_some_iff {c : Char} (enclosed : Enclosed text text') (inside : c ≠ ')') :
    text'.head? = some c ↔ text.head? = some c := by
  cases enclosed with
  | closed => simp [inside.symm]
  | lost => rfl
  | cons _ _ => rfl

theorem tail (enclosed : Enclosed text text') : Enclosed text.tail text'.tail := by
  cases enclosed with
  | closed | lost => exact .lost
  | cons _ rest => exact rest

theorem dropWhile (enclosed : Enclosed text text') (accepts : Char → Bool) :
    Enclosed (text.dropWhile accepts) (text'.dropWhile accepts) := by
  induction enclosed with
  | closed =>
    rw [List.dropWhile_cons]
    split
    · exact .lost
    · exact .closed
  | lost => exact .lost
  | cons c rest ih =>
    rw [List.dropWhile_cons, List.dropWhile_cons]
    split
    · exact ih
    · exact .cons c rest

/-- A run of characters is the same if it ends before the end of the text, or before a closing
bracket. -/
theorem takeWhile {accepts : Char → Bool} (enclosed : Enclosed text text')
    (stops : text.dropWhile accepts ≠ [] ∨ accepts ')' = false) :
    text'.takeWhile accepts = text.takeWhile accepts := by
  induction enclosed with
  | closed =>
    rw [List.takeWhile_cons_of_neg (by simpa using stops), List.takeWhile_nil]
  | lost => rfl
  | cons c rest ih =>
    rw [List.takeWhile_cons, List.takeWhile_cons]
    split
    · rename_i accepted
      rw [List.dropWhile_cons_of_pos accepted] at stops
      rw [ih stops]
    · rfl

theorem skipBlanks (enclosed : Enclosed text text') (inComment : Bool) :
    Enclosed (Flags.skipBlanks inComment text) (Flags.skipBlanks inComment text') := by
  induction enclosed generalizing inComment with
  | closed =>
    cases inComment with
    | true => exact .lost
    | false => exact .closed
  | lost => exact .lost
  | cons c rest ih =>
    simp only [Flags.skipBlanks]
    split
    · exact ih _
    split
    · exact ih _
    split
    · exact ih _
    · exact .cons c rest

theorem skip (enclosed : Enclosed text text') (flags : Flags) :
    Enclosed (flags.skip text) (flags.skip text') := by
  unfold Flags.skip
  split
  · exact enclosed.skipBlanks false
  · exact enclosed

theorem verboseRun {accepts : Char → Bool} (stops : accepts ')' = false)
    (enclosed : Enclosed text text') (inComment : Bool) :
    (Flags.verboseRun accepts inComment text').1 = (Flags.verboseRun accepts inComment text).1 ∧
      Enclosed (Flags.verboseRun accepts inComment text).2
        (Flags.verboseRun accepts inComment text').2 := by
  induction enclosed generalizing inComment with
  | closed =>
    cases inComment with
    | true => exact ⟨rfl, .lost⟩
    | false =>
      have last : Flags.verboseRun accepts false [')'] = ([], [')']) := by
        simp only [Flags.verboseRun, stops]
        rfl
      rw [last]
      exact ⟨rfl, .closed⟩
  | lost => exact ⟨rfl, .lost⟩
  | cons c rest ih =>
    simp only [Flags.verboseRun]
    split
    · exact ih _
    split
    · exact ⟨congrArg (c :: ·) (ih false).1, (ih false).2⟩
    split
    · exact ih _
    split
    · exact ih _
    · exact ⟨rfl, .cons c rest⟩

theorem takeRun {accepts : Char → Bool} (stops : accepts ')' = false)
    (enclosed : Enclosed text text') {flags : Flags} {run rest : Text}
    (taken : flags.takeRun accepts text = (run, rest)) :
    ∃ rest', flags.takeRun accepts text' = (run, rest') ∧ Enclosed rest rest' := by
  unfold Flags.takeRun at taken ⊢
  split at taken
  · rename_i verbose
    obtain ⟨same, enclosed⟩ := enclosed.verboseRun stops false
    rw [taken] at same enclosed
    rw [if_pos verbose]
    exact ⟨(Flags.verboseRun accepts false text').2, Prod.ext same rfl, enclosed⟩
  · rename_i plain
    cases taken
    rw [if_neg plain]
    exact ⟨_, Prod.ext (enclosed.takeWhile (.inr stops)) rfl, enclosed.dropWhile accepts⟩

end Enclosed

namespace Escape

theorem persists_takeDigits? (flags : Flags) (count : Nat) :
    Persists (takeDigits? flags count) := by
  induction count with
  | zero =>
    intro text text' enclosed value rest read
    cases read
    exact ⟨text', rfl, enclosed⟩
  | succ count ih =>
    intro text text' enclosed value rest read
    cases enclosed with
    | closed | lost => cases read
    | cons c enclosed =>
      simp only [takeDigits?, Option.bind_eq_bind, Option.bind_eq_some_iff] at read ⊢
      obtain ⟨⟨digits, after⟩, digits_read, last⟩ := read
      split at last <;> cases last
      rename_i hex
      obtain ⟨rest', read, enclosed⟩ := ih (enclosed.skip flags) digits_read
      exact ⟨rest', ⟨(digits, rest'), read, if_pos hex⟩, enclosed⟩

theorem persists_readCodePoint? (flags : Flags) (width : Nat) :
    Persists (readCodePoint? flags width) := by
  intro text text' enclosed value rest read
  have skipped := enclosed.skip flags
  unfold readCodePoint? at read ⊢
  split at read
  · rename_i inner begins
    obtain ⟨inner', begins', skipped⟩ := (begins ▸ skipped).of_cons
    split at read
    · rename_i taken
      obtain ⟨_, taken', enclosed⟩ := (skipped.skip flags).takeRun (by decide) taken
      obtain ⟨after', rfl, left⟩ := enclosed.of_cons
      obtain ⟨c, digits, same⟩ := Option.map_eq_some_iff.mp read
      cases same
      exact ⟨_, by simp only [begins', taken', digits, Option.map_some], left.skip flags⟩
    · cases read
  · rename_i plain
    simp only [Option.bind_eq_bind, Option.bind_eq_some_iff] at read
    obtain ⟨⟨digits, after⟩, run, c, code, last⟩ := read
    obtain ⟨after', run', enclosed⟩ := persists_takeDigits? flags width skipped run
    split at last <;> cases last
    rename_i narrow
    have plain' := skipped.not_cons (by decide) plain
    exact ⟨after', by simp only [run', code, Option.bind_eq_bind, Option.bind_some, if_neg narrow],
      enclosed⟩

theorem persists_readEdge? (flags : Flags) : Persists (readEdge? flags) := by
  intro text text' enclosed value rest read
  unfold readEdge? at read
  split at read
  · obtain ⟨inner', rfl, inner⟩ := enclosed.of_cons
    have skipped := inner.skip flags
    rw [readEdge?]
    split at read
    · cases read
    · rename_i c more begins
      obtain ⟨more', begins', skipped⟩ := (begins ▸ skipped).of_cons
      rw [begins']
      dsimp only
      split at read
      · rename_i named
        rw [if_pos named]
        split at read
        · rename_i taken
          obtain ⟨_, taken', enclosed⟩ := (skipped.cons c).takeRun (by decide) taken
          obtain ⟨after', rfl, left⟩ := enclosed.of_cons
          obtain ⟨edge, known, same⟩ := Option.map_eq_some_iff.mp read
          cases same
          exact ⟨_, by simp only [taken', known, Option.map_some], left⟩
        · cases read
      · rename_i unnamed
        cases read
        exact ⟨_, if_neg unnamed, inner.cons _⟩
  · rename_i plain
    cases read
    have plain' := enclosed.not_cons (by decide) plain
    exact ⟨text', by simp only [readEdge?], enclosed⟩

theorem persists_ofClass? (flags : Flags) (negated : Bool) (unicode ascii : CharSet) :
    Persists (ofClass? flags negated unicode ascii) := by
  intro text text' enclosed value rest read
  cases negated with
  | false =>
    cases read
    exact ⟨text', rfl, enclosed⟩
  | true =>
    obtain ⟨set, found, same⟩ := Option.bind_eq_some_iff.mp read
    cases same
    exact ⟨text', Option.bind_eq_some_iff.mpr ⟨set, found, rfl⟩, enclosed⟩

theorem persists_read? (flags : Flags) : Persists (Escape.read? flags) := by
  intro text text' enclosed value rest read
  unfold Escape.read? at read
  split at read
  · cases read
  all_goals obtain ⟨rest', rfl, inner⟩ := enclosed.of_cons
  · exact persists_readCodePoint? flags 2 inner read
  · exact persists_readCodePoint? flags 4 inner read
  · exact persists_readCodePoint? flags 8 inner read
  iterate 6 exact persists_ofClass? flags _ _ _ inner read
  iterate 8 cases read; exact ⟨_, rfl, inner⟩
  · exact persists_readEdge? flags inner read
  iterate 3 cases read; exact ⟨_, rfl, inner⟩
  · split at read
    · rename_i plain
      cases read
      refine ⟨rest', ?_, inner⟩
      rw [Escape.read?, if_pos plain] <;> assumption
    · cases read

end Escape

namespace Bracket

theorem persists_readItem? (flags : Flags) : Persists (readItem? flags) := by
  intro text text' enclosed value rest read
  unfold readItem? at read
  split at read
  · cases read
  · obtain ⟨rest', rfl, inner⟩ := enclosed.of_cons
    exact Escape.persists_read? flags inner read
  · rename_i plain
    obtain ⟨rest', rfl, inner⟩ := enclosed.of_cons
    cases read
    refine ⟨rest', ?_, inner⟩
    rw [readItem?]
    exact plain

private theorem skipBlanks_of_blank {text : Text} (blank : text.dropWhile CharClass.isBlank = [])
    (inComment : Bool) : Flags.skipBlanks inComment text = [] := by
  induction text generalizing inComment with
  | nil => rfl
  | cons c text ih =>
    rw [List.dropWhile_cons] at blank
    split at blank
    · rename_i isBlank
      simp only [Flags.skipBlanks, isBlank, ih blank, if_true, ite_self]
    · cases blank

private theorem skipBlanks_dropWhile (text : Text) :
    Flags.skipBlanks false (text.dropWhile CharClass.isBlank) = Flags.skipBlanks false text := by
  induction text with
  | nil => rfl
  | cons c text ih =>
    rw [List.dropWhile_cons]
    split
    · rename_i isBlank
      simp only [Flags.skipBlanks, isBlank, ih, if_true, Bool.false_eq_true, if_false]
    · rfl

/-- The character after a hyphen is the same before a closing bracket, unless there is none. -/
theorem ahead?_enclosed {flags : Flags} {text text' : Text} (enclosed : Enclosed text text') :
    ahead? flags text' = ahead? flags text ∨
      (flags.skip text = [] ∧ ahead? flags text = none ∧ ahead? flags text' = some ')') := by
  have first {text text' : Text} (enclosed : Enclosed text text') :
      text'.head? = text.head? ∨ (text = [] ∧ text' = [')']) := by
    cases enclosed with
    | closed => exact .inr ⟨rfl, rfl⟩
    | lost => exact .inl rfl
    | cons c _ => exact .inl rfl
  by_cases verbose : flags.verbose = true
  · simp only [ahead?, Flags.skip, if_pos verbose]
    have trimmed := enclosed.dropWhile CharClass.isBlank
    rw [← skipBlanks_dropWhile text]
    generalize text.dropWhile CharClass.isBlank = start at trimmed
    generalize text'.dropWhile CharClass.isBlank = start' at trimmed
    cases trimmed with
    | closed => exact .inr ⟨rfl, rfl, rfl⟩
    | lost => exact .inl rfl
    | @cons c rest rest' inner =>
      by_cases comment : c = '#'
      · subst comment
        rcases first (inner.dropWhile CharClass.isBlank) with same | ⟨none, some⟩
        · exact .inl same
        · refine .inr ⟨skipBlanks_of_blank none true, ?_, ?_⟩
          · exact congrArg List.head? none
          · exact congrArg List.head? some
      · left
        split
        · rename_i same
          exact absurd (List.cons.inj same).1 comment
        · split
          · rename_i same
            exact absurd (List.cons.inj same).1 comment
          · rfl
  · simp only [ahead?, Flags.skip, if_neg verbose]
    rcases first enclosed with same | ⟨rfl, rfl⟩
    · exact .inl same
    · exact .inr ⟨rfl, rfl, rfl⟩

theorem persists_readRange? (flags : Flags) : Persists (readRange? flags) := by
  intro text text' enclosed value rest read
  simp only [readRange?, Option.bind_eq_bind, Option.bind_eq_some_iff] at read ⊢
  obtain ⟨⟨low, after⟩, item, read⟩ := read
  obtain ⟨after', item', left⟩ := persists_readItem? flags enclosed item
  have skipped := left.skip flags
  split at read
  · rename_i more begins
    obtain ⟨more', begins', inner⟩ := (begins ▸ skipped).of_cons
    split at read
    · rename_i alone
      obtain ⟨set, found, same⟩ := Option.bind_eq_some_iff.mp read
      cases same
      have alone' : ahead? flags more' = some ']' ∨ ahead? flags more' = some '-' := by
        rcases ahead?_enclosed inner with same | ⟨-, none, -⟩
        · rwa [same]
        · rw [none] at alone
          rcases alone with ⟨⟨⟩⟩ | ⟨⟨⟩⟩
      refine ⟨_, ⟨_, item', ?_⟩, inner.cons _⟩
      simp only [begins', if_pos alone', found, Option.bind_some]
      rfl
    · rename_i range
      obtain ⟨⟨high, last⟩, item, read⟩ := Option.bind_eq_some_iff.mp read
      obtain ⟨set, found, same⟩ := Option.bind_eq_some_iff.mp read
      cases same
      obtain ⟨last', high', left⟩ := persists_readItem? flags (inner.skip flags) item
      have range' : ¬ (ahead? flags more' = some ']' ∨ ahead? flags more' = some '-') := by
        rcases ahead?_enclosed inner with same | ⟨empty, -, -⟩
        · rwa [same]
        · rw [empty] at item
          cases item
      refine ⟨_, ⟨_, item', ?_⟩, left⟩
      simp only [begins', if_neg range', high', found, Option.bind_some]
      rfl
  · rename_i plain
    obtain ⟨set, found, same⟩ := Option.bind_eq_some_iff.mp read
    cases same
    have plain' := skipped.not_cons (by decide) plain
    exact ⟨_, ⟨_, item', by simp only [found, Option.bind_some, Option.pure_def]⟩, skipped⟩

/-- The name of a set between colons ends before the end of the text, so that a closing bracket
does not make or unmake one. -/
theorem readName?_enclosed {flags : Flags} {text text' : Text} (enclosed : Enclosed text text') :
    (readName? flags text = none ∧ readName? flags text' = none) ∨
      ∃ set rest rest', readName? flags text = some (set, rest) ∧
        readName? flags text' = some (set, rest') ∧ Enclosed rest rest' := by
  unfold readName?
  split
  · rename_i rest
    obtain ⟨rest', rfl, inner⟩ := enclosed.of_cons
    have carets : (rest'.head? = some '^') = (rest.head? = some '^') :=
      propext (inner.head?_eq_some_iff (by decide))
    have after : Enclosed (if rest.head? = some '^' then rest.tail else rest)
        (if rest'.head? = some '^' then rest'.tail else rest') := by
      simp only [carets]
      split
      · exact inner.tail
      · exact inner
    simp only [carets] at after ⊢
    generalize (if rest.head? = some '^' then rest.tail else rest) = name at after
    generalize (if rest.head? = some '^' then rest'.tail else rest') = name' at after
    have stopped := after.dropWhile (· != ':')
    split
    · rename_i last begins
      rw [begins] at stopped
      obtain ⟨_, begins', stopped⟩ := stopped.of_cons
      obtain ⟨last', rfl, left⟩ := stopped.of_cons
      have run : name'.takeWhile (· != ':') = name.takeWhile (· != ':') :=
        after.takeWhile (.inl (by rw [begins]; nofun))
      rw [begins']
      simp only [run]
      cases CharSet.named? (String.ofList (name.takeWhile (· != ':'))) with
      | none => exact .inl ⟨rfl, rfl⟩
      | some set => exact .inr ⟨_, _, _, rfl, rfl, left⟩
    · rename_i other
      have other' := stopped.not_cons₂ (by decide) other
      exact .inl ⟨rfl, by simp only⟩
  · rename_i other
    have other' := enclosed.not_cons (by decide) other
    exact .inl ⟨rfl, by simp only⟩

/-- A class begins in the same way before a closing bracket. -/
theorem begin_enclosed (flags : Flags) {text text' rest : Text} {bracket : Bracket}
    (enclosed : Enclosed text text') (begun : begin flags text = (bracket, rest)) :
    ∃ rest', begin flags text' = (bracket, rest') ∧ Enclosed rest rest' := by
  have skipped := enclosed.skip flags
  unfold begin at begun ⊢
  generalize flags.skip text = start at skipped begun
  generalize flags.skip text' = start' at skipped
  have carets : (start'.head? = some '^') = (start.head? = some '^') :=
    propext (skipped.head?_eq_some_iff (by decide))
  have after : Enclosed (if start.head? = some '^' then flags.skip start.tail else start)
      (if start'.head? = some '^' then flags.skip start'.tail else start') := by
    simp only [carets]
    split
    · exact skipped.tail.skip flags
    · exact skipped
  simp only [carets] at after ⊢
  dsimp only at begun
  generalize (if start.head? = some '^' then flags.skip start.tail else start) = inner
    at after begun
  generalize (if start.head? = some '^' then flags.skip start'.tail else start') = inner' at after
  generalize taken : flags.takeRun (· = '-') inner = run at begun
  obtain ⟨hyphens, afterRun⟩ := run
  obtain ⟨afterRun', taken', left⟩ := after.takeRun (by decide) taken
  rw [taken']
  dsimp only at begun ⊢
  split at begun
  · rename_i none
    rw [if_pos none]
    split at begun
    · obtain ⟨last', rfl, closes⟩ := after.of_cons
      cases begun
      exact ⟨_, rfl, closes.skip flags⟩
    · rename_i other
      cases begun
      have other' := after.not_cons (by decide) other
      exact ⟨_, by simp only, after⟩
  · rename_i some
    rw [if_neg some]
    cases begun
    exact ⟨_, rfl, left⟩

/-- A class is read in the same way before a closing bracket, and with more fuel. -/
theorem readOn?_enclosed (flags : Flags) {fuel fuel' : Nat} (more : fuel ≤ fuel')
    {around : List Bracket} {bracket : Bracket} {text text' : Text}
    (enclosed : Enclosed text text') {value : ClassValue} {rest : Text}
    (read : readOn? flags fuel around bracket text = some (value, rest)) :
    ∃ rest', readOn? flags fuel' around bracket text' = some (value, rest') ∧
      Enclosed rest rest' := by
  induction fuel generalizing fuel' around bracket text text' with
  | zero => cases read
  | succ fuel ih =>
    obtain ⟨fuel', rfl⟩ : ∃ less, fuel' = less + 1 := ⟨fuel' - 1, by omega⟩
    have below : fuel ≤ fuel' := Nat.le_of_succ_le_succ more
    have skipped := enclosed.skip flags
    unfold readOn? at read ⊢
    split at read
    · cases read
    · rename_i begins
      obtain ⟨last', begins', inner⟩ := (begins ▸ skipped).of_cons
      rw [begins']
      simp only [Option.bind_eq_bind, Option.bind_eq_some_iff] at read ⊢
      obtain ⟨closed, close, read⟩ := read
      split at read
      · cases read
        exact ⟨last', ⟨_, close, rfl⟩, inner⟩
      · obtain ⟨rest', read', left⟩ := ih below inner read
        exact ⟨rest', ⟨_, close, read'⟩, left⟩
    · rename_i begins
      obtain ⟨last', begins', inner⟩ := (begins ▸ skipped).of_cons
      rw [begins']
      rcases readName?_enclosed inner with ⟨none, none'⟩ | ⟨set, after, after', some, some', left⟩
      · rw [none] at read
        generalize begun : begin flags _ = pair at read
        obtain ⟨fresh, after⟩ := pair
        obtain ⟨after', begun', left⟩ := begin_enclosed flags inner begun
        simp only [none', begun']
        exact ih below left read
      · rw [some] at read
        simp only [some']
        exact ih below left read
    iterate 3
      rename_i begins
      obtain ⟨_, begins', inner⟩ := (begins ▸ skipped).of_cons
      obtain ⟨last', rfl, inside⟩ := inner.of_cons
      rw [begins']
      exact ih below inside read
    · rename_i filled noClose noOpen noCommon noLess noEither
      simp only [Option.bind_eq_bind, Option.bind_eq_some_iff] at read
      obtain ⟨⟨set, after⟩, range, read⟩ := read
      obtain ⟨after', range', left⟩ := persists_readRange? flags skipped range
      obtain ⟨rest', read', left⟩ := ih below left read
      refine ⟨rest', ?_, left⟩
      have filled' (empty : flags.skip text' = []) : False := filled (empty ▸ skipped).eq_nil
      have noClose' := skipped.not_cons (by decide) noClose
      have noOpen' := skipped.not_cons (by decide) noOpen
      have noCommon' := skipped.not_cons₂ (by decide) noCommon
      have noLess' := skipped.not_cons₂ (by decide) noLess
      have noEither' := skipped.not_cons₂ (by decide) noEither
      simp only [range', Option.bind_eq_bind, Option.bind_some]
      exact read'

theorem persists_read? (flags : Flags) : Persists (Bracket.read? flags) := by
  intro text text' enclosed value rest read
  unfold Bracket.read? at read ⊢
  generalize begun : begin flags text = pair at read
  obtain ⟨bracket, after⟩ := pair
  obtain ⟨after', begun', left⟩ := begin_enclosed flags enclosed begun
  rw [begun']
  exact readOn?_enclosed flags (Nat.succ_le_succ enclosed.length_le) left read

end Bracket

namespace Symbol

theorem persists_readFlags? (changes : List (Flag × Bool)) (on waiting : Bool) :
    Persists (readFlags? changes on waiting) := by
  intro text text' enclosed value rest read
  induction enclosed generalizing changes on waiting with
  | closed | lost => cases read
  | @cons c text text' inner ih =>
    unfold readFlags? at read
    split at read
    · cases read
    · rename_i same
      obtain ⟨rfl, rfl⟩ := List.cons.inj same
      split at read <;> cases read
      rename_i going
      exact ⟨text', if_neg going, inner⟩
    · rename_i same
      obtain ⟨rfl, rfl⟩ := List.cons.inj same
      split at read <;> cases read
      rename_i going
      exact ⟨text', if_neg going, inner⟩
    · rename_i same
      obtain ⟨rfl, rfl⟩ := List.cons.inj same
      split at read
      · rename_i switching
        obtain ⟨rest', read', left⟩ := ih _ _ _ read
        exact ⟨rest', (if_pos switching).trans read', left⟩
      · cases read
    · rename_i noColon noClose noHyphen same
      obtain ⟨rfl, rfl⟩ := List.cons.inj same
      obtain ⟨flag, known, read⟩ := Option.bind_eq_some_iff.mp read
      split at read
      · cases read
      · rename_i fresh
        obtain ⟨rest', read', left⟩ := ih _ _ _ read
        refine ⟨rest', ?_, left⟩
        rw [readFlags?]
        · rw [known]
          exact (if_neg fresh).trans read'
        · exact noColon
        · exact noClose
        · exact noHyphen

theorem persists_readName? : Persists readName? := by
  intro text text' enclosed value rest read
  unfold readName? at read ⊢
  split at read
  · rename_i run stopped
    have left := enclosed.dropWhile (· != '>')
    have run' : text'.takeWhile (· != '>') = text.takeWhile (· != '>') :=
      enclosed.takeWhile (.inl (by rw [stopped]; nofun))
    rw [stopped] at left
    obtain ⟨rest', stopped', left⟩ := left.of_cons
    rw [run', run, stopped']
    split at read
    · rename_i named
      cases read
      exact ⟨rest', if_pos named, left⟩
    · cases read
  · cases read

theorem persists_readCount? (flags : Flags) : Persists (readCount? flags) := by
  intro text text' enclosed value rest read
  unfold readCount? at read ⊢
  generalize taken : flags.takeRun CharClass.isAsciiDigit _ = run at read
  obtain ⟨digits, after⟩ := run
  obtain ⟨after', taken', left⟩ :=
    ((enclosed.skip flags).dropWhile CharClass.isBlank).takeRun (by decide) taken
  rw [taken']
  obtain ⟨count, known, same⟩ := Option.map_eq_some_iff.mp read
  cases same
  exact ⟨_, Option.map_eq_some_iff.mpr ⟨_, known, rfl⟩, left.dropWhile CharClass.isBlank⟩

theorem persists_readGreed (min : Nat) (max : Option Nat) :
    Persists fun text => some (readGreed min max text) := by
  intro text text' enclosed value rest read
  cases enclosed with
  | closed =>
    cases read
    exact ⟨_, rfl, .closed⟩
  | lost =>
    cases read
    exact ⟨_, rfl, .lost⟩
  | @cons c text text' inner =>
    by_cases lazy : c = '?'
    · subst lazy
      cases read
      exact ⟨text', rfl, inner⟩
    · have plain (text : Text) :
          readGreed min max (c :: text) = (.repetition min max true, c :: text) := by
        rw [readGreed]
        rintro _ ⟨⟩
        exact lazy rfl
      dsimp only at read
      rw [plain] at read
      cases read
      exact ⟨_, congrArg some (plain text'), inner.cons c⟩

theorem persists_readBounds? (flags : Flags) : Persists (readBounds? flags) := by
  intro text text' enclosed value rest read
  simp only [readBounds?, Option.bind_eq_bind, Option.bind_eq_some_iff] at read ⊢
  obtain ⟨⟨min, after⟩, count, read⟩ := read
  obtain ⟨after', count', left⟩ := persists_readCount? flags enclosed count
  dsimp only at read
  split at read
  · obtain ⟨last', rfl, inner⟩ := left.of_cons
    obtain ⟨rest', read', left⟩ := persists_readGreed min (some min) (inner.skip flags) read
    exact ⟨rest', ⟨_, count', read'⟩, left⟩
  · obtain ⟨more', rfl, inner⟩ := left.of_cons
    have skipped := inner.skip flags
    split at read
    · rename_i last begins
      obtain ⟨last', begins', inner⟩ := (begins ▸ skipped).of_cons
      obtain ⟨rest', read', left⟩ := persists_readGreed min none (inner.skip flags) read
      exact ⟨rest', ⟨_, count', by simp only [begins', read']⟩, left⟩
    · rename_i bounded
      obtain ⟨⟨max, after⟩, high, read⟩ := Option.bind_eq_some_iff.mp read
      obtain ⟨after', high', left⟩ := persists_readCount? flags skipped high
      dsimp only at read
      split at read
      · obtain ⟨last', rfl, inner⟩ := left.of_cons
        split at read
        · rename_i ordered
          obtain ⟨rest', read', left⟩ := persists_readGreed min (some max) (inner.skip flags) read
          have bounded' := skipped.not_cons (by decide) bounded
          refine ⟨rest', ⟨_, count', ?_⟩, left⟩
          simp only [high', Option.bind_some, if_pos ordered]
          exact read'
        · cases read
      · cases read
  · cases read

theorem persists_readOpening? (flags : Flags) : Persists (readOpening? flags) := by
  intro text text' enclosed value rest read
  have skipped := enclosed.skip flags
  unfold readOpening? at read ⊢
  split at read
  iterate 4 cases read
  · rename_i noBehind noNotBehind begins
    obtain ⟨_, begins', marked⟩ := (begins ▸ skipped).of_cons
    obtain ⟨name', rfl, inner⟩ := marked.of_cons
    have noBehind' := inner.not_cons (by decide) noBehind
    have noNotBehind' := inner.not_cons (by decide) noNotBehind
    obtain ⟨rest', read', left⟩ := persists_readName? inner read
    exact ⟨rest', by simp only [begins', read'], left⟩
  · rename_i begins
    obtain ⟨_, begins', marked⟩ := (begins ▸ skipped).of_cons
    obtain ⟨_, rfl, named⟩ := marked.of_cons
    obtain ⟨name', rfl, inner⟩ := named.of_cons
    obtain ⟨rest', read', left⟩ := persists_readName? inner read
    exact ⟨rest', by simp only [begins', read'], left⟩
  · rename_i noAhead noNotAhead noBehind noNotBehind noName noNamed begins
    obtain ⟨flagged', begins', inner⟩ := (begins ▸ skipped).of_cons
    have noAhead' := inner.not_cons (by decide) noAhead
    have noNotAhead' := inner.not_cons (by decide) noNotAhead
    have noName' := inner.not_cons (by decide) noName
    have noBehind' := inner.not_cons₂ (by decide) noBehind
    have noNotBehind' := inner.not_cons₂ (by decide) noNotBehind
    have noNamed' := inner.not_cons₂ (by decide) noNamed
    obtain ⟨rest', read', left⟩ := persists_readFlags? _ _ _ inner read
    exact ⟨rest', by simp only [begins', read'], left⟩
  · rename_i noMark
    have noMark' := skipped.not_cons (by decide) noMark
    cases read
    refine ⟨_, ?_, skipped⟩
    split
    iterate 7 exact (noMark' _ ‹_›).elim
    rfl

/-- Every symbol of a pattern is read in the same way before a closing bracket. -/
theorem persists_next? (flags : Flags) : Persists (next? flags) := by
  intro text text' enclosed value rest read
  unfold next? at read
  split at read
  · cases read
  all_goals obtain ⟨rest', rfl, inner⟩ := enclosed.of_cons
  · obtain ⟨⟨escape, after⟩, escaped, same⟩ := Option.map_eq_some_iff.mp read
    obtain ⟨after', escaped', left⟩ := Escape.persists_read? flags inner escaped
    cases escape <;> cases same <;>
      exact ⟨after', Option.map_eq_some_iff.mpr ⟨_, escaped', rfl⟩, left⟩
  · obtain ⟨⟨members, after⟩, bracket, same⟩ := Option.map_eq_some_iff.mp read
    obtain ⟨after', bracket', left⟩ := Bracket.persists_read? flags inner bracket
    cases same
    exact ⟨after', Option.map_eq_some_iff.mpr ⟨_, bracket', rfl⟩, left⟩
  · exact persists_readOpening? flags inner read
  iterate 5 cases read; exact ⟨rest', rfl, inner⟩
  iterate 3 exact persists_readGreed _ _ inner read
  · exact persists_readBounds? flags inner read
  · cases read
    refine ⟨rest', ?_, inner⟩
    rw [next?] <;> assumption

end Symbol

namespace Reader

/-- The reader with one more group around those that it reads. -/
def inside (outer : Group) (reader : Reader) : Reader :=
  { reader with around := reader.around ++ [outer] }

variable {outer : Group} {reader next last : Reader}

/-- A symbol is read within one more group as it is without. -/
theorem step?_inside {symbol : Symbol} (step : reader.step? symbol = some next) :
    (reader.inside outer).step? symbol = some (next.inside outer) := by
  cases symbol with
  | closing =>
    obtain ⟨flags, group, around, numbered, names⟩ := reader
    cases around with
    | nil => cases step
    | cons first around =>
      cases step
      rfl
  | anyChar =>
    obtain ⟨set, known, rfl⟩ := Option.map_eq_some_iff.mp step
    exact Option.map_eq_some_iff.mpr ⟨set, known, rfl⟩
  | capturing name =>
    unfold step? at step ⊢
    dsimp only at step ⊢
    split at step
    · cases step
    · rename_i fresh
      cases step
      exact if_neg fresh
  | repetition min max greedy =>
    obtain ⟨flags, ⟨before, number, branches, parts⟩, around, numbered, names⟩ := reader
    cases parts with
    | nil => cases step
    | cons part parts =>
      unfold step? at step ⊢
      dsimp only at step
      split at step
      · rename_i repeatable
        cases step
        exact if_pos repeatable
      · cases step
  | char | set | lineStart | lineEnd | look | opening | setting | bar =>
    cases step
    rfl

/-- A text is read to its end at once if nothing of it is left, or else after its first symbol. -/
theorem readOn?_cases {fuel : Nat} {text : Text} (read : reader.readOn? fuel text = some last) :
    (reader.flags.skip text = [] ∧ last = reader) ∨
      (reader.flags.skip text ≠ [] ∧ ∃ symbol rest next less, less < fuel ∧
        Symbol.next? reader.flags (reader.flags.skip text) = some (symbol, rest) ∧
        reader.step? symbol = some next ∧ next.readOn? less rest = some last) := by
  cases fuel with
  | zero =>
    rw [readOn?] at read
    split at read
    · rename_i empty
      exact .inl ⟨List.isEmpty_iff.mp empty, (Option.some.inj read).symm⟩
    · cases read
  | succ fuel =>
    rw [readOn?] at read
    split at read
    · rename_i empty
      exact .inl ⟨empty, (Option.some.inj read).symm⟩
    · rename_i filled
      obtain ⟨⟨symbol, rest⟩, first, read⟩ := Option.bind_eq_some_iff.mp read
      obtain ⟨next, step, read⟩ := Option.bind_eq_some_iff.mp read
      exact .inr ⟨filled, symbol, rest, next, fuel, Nat.lt_succ_self fuel, first, step, read⟩

/-- The number of the outermost group, which is always open. -/
def outermost? (reader : Reader) : Option Nat :=
  (reader.around.getLast?.getD reader.group).number

private theorem outermost?_congr {other : Reader} (around : reader.around = other.around)
    (number : reader.group.number = other.group.number) :
    reader.outermost? = other.outermost? := by
  rw [outermost?, outermost?, around]
  cases other.around.getLast? with
  | none => exact number
  | some _ => rfl

/-- A group around the one that is read is opened or closed. -/
private theorem outermost?_cons {flags flags' : Flags} {first group : Group} {around : List Group}
    {numbered numbered' : Nat} {names names' : List Text} :
    outermost? ⟨flags, group, first :: around, numbered, names⟩ =
      outermost? ⟨flags', first, around, numbered', names'⟩ := by
  rw [outermost?, List.getLast?_cons]
  rfl

/-- What is read leaves the outermost group its number. -/
theorem outermost?_step {symbol : Symbol} (step : reader.step? symbol = some next) :
    next.outermost? = reader.outermost? := by
  cases symbol with
  | closing =>
    obtain ⟨flags, group, around, numbered, names⟩ := reader
    cases around with
    | nil => cases step
    | cons first around =>
      cases step
      rw [outermost?_cons]
      exact outermost?_congr rfl rfl
  | anyChar =>
    obtain ⟨set, known, rfl⟩ := Option.map_eq_some_iff.mp step
    exact outermost?_congr rfl rfl
  | opening =>
    cases step
    exact outermost?_cons
  | capturing name =>
    unfold step? at step
    dsimp only at step
    split at step <;> cases step
    exact outermost?_cons
  | repetition min max greedy =>
    unfold step? at step
    dsimp only at step
    split at step
    · split at step <;> cases step
      exact outermost?_congr rfl rfl
    · cases step
  | char | set | lineStart | lineEnd | look | setting | bar =>
    cases step
    exact outermost?_congr rfl rfl

theorem outermost?_readOn? {fuel : Nat} {text : Text}
    (read : reader.readOn? fuel text = some last) :
    last.outermost? = reader.outermost? := by
  induction fuel using Nat.strongRecOn generalizing reader text with
  | _ fuel ih =>
    rcases readOn?_cases read with ⟨-, rfl⟩ | ⟨-, symbol, rest, next, less, below, -, step, read⟩
    · rfl
    · exact (ih less below read).trans (outermost?_step step)

/-- A pattern before a closing bracket is read within a group as it is read alone. Then the bracket
closes the group, unless it was taken in by a comment. -/
theorem readOn?_inside {fuel fuel' : Nat} {text text' : Text} (enclosed : Enclosed text text')
    (read : reader.readOn? fuel text = some next)
    (read' : (reader.inside outer).readOn? fuel' text' = some last) :
    last = next.inside outer ∨ (next.inside outer).step? .closing = some last := by
  induction fuel using Nat.strongRecOn generalizing reader fuel' text text' with
  | _ fuel ih =>
    have skipped := enclosed.skip reader.flags
    rcases readOn?_cases read with
      ⟨empty, rfl⟩ | ⟨filled, symbol, rest, second, less, below, first, step, read⟩
    · rcases readOn?_cases read' with
        ⟨-, rfl⟩ | ⟨filled', symbol, rest, second, less, -, first, step, read'⟩
      · exact .inl rfl
      · change next.flags.skip text' ≠ [] at filled'
        change Symbol.next? next.flags (next.flags.skip text') = _ at first
        rw [empty] at skipped
        generalize next.flags.skip text' = start' at skipped filled' first
        cases skipped with
        | lost => exact absurd rfl filled'
        | closed =>
          cases first
          rcases readOn?_cases read' with ⟨-, rfl⟩ | ⟨filled, -⟩
          · exact .inr step
          · refine absurd ?_ filled
            unfold Flags.skip
            split <;> rfl
    · obtain ⟨rest', first', left⟩ := Symbol.persists_next? reader.flags skipped first
      rcases readOn?_cases read' with
        ⟨empty', -⟩ | ⟨-, symbol', rest'', second', less', -, first'', step', read'⟩
      · exact absurd (empty' ▸ skipped).eq_nil filled
      · cases first'.symm.trans first''
        cases (step?_inside step).symm.trans step'
        exact ih less below left read read'

end Reader

end Packrat.Pattern
