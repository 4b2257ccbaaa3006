import Packrat.Proofs.Json.Standard
import Packrat.Proofs.Json.Failures
import Packrat.Proofs.Json.Printing

/-! # Decoded texts and the standard grammar

A decoded text is always one of the standard grammar if all of Unicode's white space counts. It is
one for the four blanks of the standard exactly if no other white space stands outside its strings
(`isJson_of_decode`), and the decoder does not ask for that.
-/

namespace Packrat.Json

section Documents

variable {text rest : Text}

/-- Before the rest, the text is a part that the predicate holds of, after white space. -/
private def Part (holds : Text → Prop) (text rest : Text) : Prop :=
  ∃ run part, IsGap CharClass.isBlank run ∧ text = run ++ (part ++ rest) ∧ holds part

private theorem part_single {lexeme : Lexeme} {holds : Text → Prop}
    (stand : Stand [lexeme] text rest) (here : holds lexeme.word) : Part holds text rest := by
  obtain ⟨run, blank, rfl⟩ := stand_single stand
  exact ⟨run, lexeme.word, blank, rfl, here⟩

/-- A mark with the white space around it, before another part. -/
private theorem part_mark {mark : String} {c : Char} {lexemes : List Lexeme} {holds : Text → Prop}
    (chars : mark.toList = [c]) (stand : Stand (.mark mark :: lexemes) text rest)
    (parts : ∀ {text : Text}, Stand lexemes text rest → Part holds text rest) :
    ∃ front part, text = front ++ (part ++ rest) ∧ IsMark CharClass.isBlank c front ∧
      holds part := by
  obtain ⟨run, middle, blank, rfl, more⟩ := stand_cons stand
  obtain ⟨run', part, blank', rfl, here⟩ := parts more
  exact ⟨run ++ (c :: run'), part, by simp [Lexeme.word, chars], .between blank blank', here⟩

/-- What stands between two marks, with the white space around them. -/
private theorem part_between {left right : String} {c d : Char} {lexemes : List Lexeme}
    {holds : Text → Prop} (chars : left.toList = [c]) (chars' : right.toList = [d])
    (stand : Stand (.mark left :: (lexemes ++ [.mark right])) text rest)
    (parts : ∀ {text rest : Text}, Stand lexemes text rest → Part holds text rest) :
    Part (fun part => ∃ opening inner closing, part = opening ++ (inner ++ closing) ∧
      IsMark CharClass.isBlank c opening ∧ holds inner ∧ IsMark CharClass.isBlank d closing)
      text rest := by
  obtain ⟨run, middle, blank, rfl, more⟩ := stand_cons stand
  obtain ⟨middle', inside, last⟩ := stand_append more
  obtain ⟨run', part, blank', rfl, here⟩ := parts inside
  obtain ⟨run'', blank'', rfl⟩ := stand_single last
  refine ⟨run, _, blank, ?_, c :: run', part, run'' ++ [d], rfl,
    @IsMark.between _ c [] run' nofun blank', here, @IsMark.between _ d run'' [] blank'' nofun⟩
  simp [Lexeme.word, chars, chars']

/-- Two marks, with the white space around them. -/
private theorem part_marks {left right : String} {c d : Char} (chars : left.toList = [c])
    (chars' : right.toList = [d]) (stand : Stand [.mark left, .mark right] text rest) :
    Part (fun part => ∃ opening closing, part = opening ++ closing ∧
      IsMark CharClass.isBlank c opening ∧ IsMark CharClass.isBlank d closing) text rest := by
  obtain ⟨run, middle, blank, rfl, more⟩ := stand_cons stand
  obtain ⟨run', blank', rfl⟩ := stand_single more
  refine ⟨run, _, blank, ?_, c :: run', [d], rfl, @IsMark.between _ c [] run' nofun blank',
    @IsMark.between _ d [] [] nofun nofun⟩
  simp [Lexeme.word, chars, chars']

/-- A value, a comma and what comes after that. -/
private theorem part_more {lexemes lexemes' : List Lexeme} {holds holds' : Text → Prop}
    (stand : Stand (lexemes ++ .mark "," :: lexemes') text rest)
    (first : ∀ {text rest : Text}, Stand lexemes text rest → Part holds text rest)
    (more : ∀ {text : Text}, Stand lexemes' text rest → Part holds' text rest) :
    Part (fun part => ∃ item comma others, part = item ++ (comma ++ others) ∧ holds item ∧
      IsMark CharClass.isBlank ',' comma ∧ holds' others) text rest := by
  obtain ⟨middle, front, back⟩ := stand_append stand
  obtain ⟨run, part, blank, rfl, here⟩ := first front
  obtain ⟨comma, part', rfl, parts, there⟩ := part_mark rfl back more
  exact ⟨run, _, blank, by simp, part, comma, part', rfl, here, parts, there⟩

/-- A string token is a string. -/
private theorem isString_of_whole {raw : Text} (whole : stringPattern.Whole raw) :
    IsString raw := by
  obtain ⟨pieces, rfl⟩ := stringPattern_whole_iff.mp whole
  refine .quoted ?_
  induction pieces with
  | nil => exact .nil
  | cons piece pieces ih =>
    have more := ih (stringPattern_whole_iff.mpr ⟨pieces, rfl⟩)
    rw [List.flatMap_cons]
    cases piece with
    | plain c ordinary =>
      simp only [isOrdinary, Bool.and_eq_true, bne_iff_ne, ne_eq, decide_eq_true_eq] at ordinary
      exact .unescaped ordinary.1.1.1 ordinary.1.1.2 ordinary.1.2 more
    | short letter known => exact .short (by simpa [shortLetters, or_left_comm] using known) more
    | unit first second third fourth hex => exact .unit hex more

private theorem isDigits_of_spells {digits : Text}
    (spells : Regex.Spells (.repetition 1 none true (.chars digitSet)) digits) :
    isDigits digits = true := by
  have each := spells.contains_of_run
  have filled : digits ≠ [] := by
    cases spells with
    | @repetition _ _ _ _ words enough _ rounds =>
      obtain ⟨word, others, rfl⟩ := List.exists_cons_of_length_pos enough
      cases rounds word (List.mem_cons_self ..)
      exact List.cons_ne_nil _ _
  rw [isDigits, Bool.and_eq_true]
  refine ⟨by simpa using filled, List.all_eq_true.mpr fun c member => ?_⟩
  exact contains_digitSet.mp (each c member)

/-- A word of something that may be left out. -/
private theorem optional_cases {body : Regex} {word : Text}
    (spells : Regex.Spells (.repetition 0 (some 1) true body) word) :
    word = [] ∨ body.Spells word := by
  cases spells with
  | @repetition _ _ _ _ words _ bounded rounds =>
    match words, bounded 1 rfl, rounds with
    | [], _, _ => exact .inl rfl
    | [word], _, rounds =>
      exact .inr (by simpa using rounds word (List.mem_singleton_self _))

private theorem isWhole_of_spells {whole : Text} (spells : wholeRegex.Spells whole) :
    IsWhole whole := by
  cases spells with
  | preferred inner =>
    cases inner
    exact .zero
  | other inner =>
    cases inner with
    | seq front back =>
      cases front with
      | @chars _ c belongs =>
        have range : 49 ≤ c.toNat ∧ c.toNat ≤ 57 := by
          simpa [leadingSet, CharSet.contains, CharSet.within] using belongs
        have digit : CharClass.isAsciiDigit c = true := by
          simp only [CharClass.isAsciiDigit, Bool.and_eq_true, decide_eq_true_eq, Char.le_def,
            UInt32.le_iff_toNat_le, Char.toNat_val, Char.reduceToNat]
          omega
        refine .leading ?_ (List.forall_mem_cons.mpr ⟨digit, fun d member => ?_⟩)
        · rintro rfl
          simp at range
        · exact contains_digitSet.mp (back.contains_of_run d member)

private theorem isFraction_of_spells {fraction : Text}
    (spells : Regex.Spells (.repetition 0 (some 1) true fractionRegex) fraction) :
    IsFraction fraction := by
  rcases optional_cases spells with rfl | inner
  · exact .none
  · cases inner with
    | seq front back =>
      cases front
      exact .some (isDigits_of_spells back)

private theorem isExponent_of_spells {exponent : Text}
    (spells : Regex.Spells (.repetition 0 (some 1) true exponentRegex) exponent) :
    IsExponent exponent := by
  rcases optional_cases spells with rfl | inner
  · exact .none
  · cases inner with
    | seq front back =>
      cases front with
      | @chars _ mark belongs =>
        cases back with
        | @seq _ _ sign digits front back =>
          have marked : mark = 'e' ∨ mark = 'E' := by
            simp only [CharSet.contains, CharSet.within, Bool.or_eq_true, Bool.and_eq_true,
              decide_eq_true_eq, Bool.false_eq_true, or_false] at belongs
            simp only [← Char.toNat_inj, Char.reduceToNat]
            omega
          have signed : sign ∈ [[], ['+'], ['-']] := by
            rcases optional_cases front with rfl | inner
            · exact List.mem_cons_self ..
            · cases inner with
              | @chars _ c belongs =>
                simp only [CharSet.contains, CharSet.within, Bool.or_eq_true, Bool.and_eq_true,
                  decide_eq_true_eq, Bool.false_eq_true, or_false] at belongs
                simp only [List.mem_cons, List.cons.injEq, and_true, List.not_mem_nil, or_false,
                  reduceCtorEq, false_or, ← Char.toNat_inj, Char.reduceToNat]
                omega
          exact @IsExponent.some mark sign digits marked signed (isDigits_of_spells back)

/-- A number token is a number. -/
private theorem isNumber_of_whole {raw : Text} (token : numberPattern.Whole raw) :
    IsNumber raw := by
  have spells := Pattern.spells_of_whole token
  rw [number_regex] at spells
  cases spells with
  | seq front back =>
    cases front
    cases back with
    | @seq _ _ sign _ front back =>
      have signed : sign ∈ [[], ['-']] := by
        rcases optional_cases front with rfl | inner
        · exact List.mem_cons_self ..
        · cases inner
          simp
      cases back with
      | @seq _ _ whole _ front back =>
        cases back with
        | @seq _ _ fraction exponent front' back' =>
          exact @IsNumber.parts sign whole fraction exponent signed (isWhole_of_spells front)
            (isFraction_of_spells front') (isExponent_of_spells back')

mutual

/-- Where the tokens of a document stand, there is a value. -/
private theorem part_document : ∀ (document : Document) {text rest : Text},
    Stand document.lexemes text rest → Part (IsValue CharClass.isBlank) text rest
  | .object members, _, _, stand => by
      obtain ⟨run, _, blank, same, _, _, _, rfl, opens, inner, closes⟩ :=
        part_between rfl rfl stand (part_members members)
      exact ⟨run, _, blank, same, .object opens inner closes⟩
  | .array elements, _, _, stand => by
      obtain ⟨run, _, blank, same, _, _, _, rfl, opens, inner, closes⟩ :=
        part_between rfl rfl stand (part_elements elements)
      exact ⟨run, _, blank, same, .array opens inner closes⟩
  | .emptyObject, _, _, stand => by
      obtain ⟨run, _, blank, same, _, _, rfl, opens, closes⟩ := part_marks rfl rfl stand
      exact ⟨run, _, blank, same, .emptyObject opens closes⟩
  | .emptyArray, _, _, stand => by
      obtain ⟨run, _, blank, same, _, _, rfl, opens, closes⟩ := part_marks rfl rfl stand
      exact ⟨run, _, blank, same, .emptyArray opens closes⟩
  | .string raw, _, _, stand => part_single stand (.string (isString_of_whole raw.2))
  | .number raw, _, _, stand => part_single stand (.number (isNumber_of_whole raw.2))
  | .bool true, _, _, stand => part_single stand (.word (by decide))
  | .bool false, _, _, stand => part_single stand (.word (by decide))
  | .null, _, _, stand => part_single stand (.word (by decide))

private theorem part_members : ∀ (members : Members) {text rest : Text},
    Stand members.lexemes text rest → Part (IsMembers CharClass.isBlank) text rest
  | .last key value, _, _, stand => by
      obtain ⟨run, middle, blank, rfl, more⟩ := stand_cons stand
      obtain ⟨colon, part, rfl, names, holds⟩ := part_mark rfl more (part_document value)
      exact ⟨run, _, blank, by simp [Lexeme.word],
        .last (isString_of_whole key.2) names holds⟩
  | .more key value others, _, _, stand => by
      obtain ⟨run, middle, blank, rfl, more⟩ := stand_cons stand
      obtain ⟨colon, _, rfl, names, _, _, _, rfl, holds, parts, rest⟩ :=
        part_mark rfl more fun stand =>
          part_more stand (part_document value) (part_members others)
      exact ⟨run, _, blank, by simp [Lexeme.word],
        .more (isString_of_whole key.2) names holds parts rest⟩

private theorem part_elements : ∀ (elements : Elements) {text rest : Text},
    Stand elements.lexemes text rest → Part (IsElements CharClass.isBlank) text rest
  | .last item, _, _, stand => by
      obtain ⟨run, part, blank, same, holds⟩ := part_document item stand
      exact ⟨run, part, blank, same, .last holds⟩
  | .more item others, _, _, stand => by
      obtain ⟨run, _, blank, same, _, _, _, rfl, holds, parts, rest⟩ :=
        part_more stand (part_document item) (part_elements others)
      exact ⟨run, _, blank, same, .more holds parts rest⟩

end

/-- The text of a document is a JSON text if all of Unicode's white space counts. -/
theorem isJson_of_writes {document : Document} (writes : document.Writes text) :
    IsJson CharClass.isBlank text := by
  obtain ⟨rest, stand, blank⟩ := writes
  obtain ⟨run, part, blank', rfl, value⟩ := part_document document stand
  exact .between blank' value blank

private theorem writes_of_decode {value : Value} (decoded : decode text = .ok value) :
    ∃ document : Document, document.Writes text := by
  by_contra none
  obtain ⟨position, message, rejects⟩ := parseAll_of_not_writes none
  rw [decode, rejects] at decoded
  cases decoded

/-- A decoded text is a JSON text as far as its strings, numbers, marks and words go, with any of
Unicode's white space between them. It is a JSON text of the standard exactly if the white space
outside of its strings is spaces, tabs, line feeds and carriage returns. -/
theorem isJson_of_decode {value : Value} (decoded : decode text = .ok value) :
    IsJson CharClass.isBlank text ∧
      (IsJson isBlank text ↔
        ∀ c ∈ outside text, CharClass.isBlank c = true → isBlank c = true) := by
  obtain ⟨document, writes⟩ := writes_of_decode decoded
  have json := isJson_of_writes writes
  exact ⟨json, fun strict => (strict.closes rfl).counts, json.narrow rfl⟩

private theorem decode_one {run rest : Text} (before : IsGap CharClass.isBlank run)
    (after : IsGap CharClass.isBlank rest) :
    decode (run ++ ('1' :: rest)) = .ok (.integer 1) := by
  have one : numberPattern.Whole ['1'] := ⟨⟨1, some '1', []⟩, by decide +kernel, rfl⟩
  have writes : (Document.number ⟨_, one⟩).Writes (run ++ ('1' :: rest)) :=
    ⟨rest, .cons before trivial .nil, after⟩
  rw [decode_of_writes writes]
  rfl

theorem isJson_of_decode_one :
    decode " 1\n".toList = .ok (.integer 1) ∧ IsJson isBlank " 1\n".toList := by
  have decoded : decode " 1\n".toList = .ok (.integer 1) :=
    @decode_one [' '] ['\n'] (List.forall_mem_singleton.mpr rfl)
      (List.forall_mem_singleton.mpr rfl)
  have narrow : (outside " 1\n".toList).all
      (fun c => !CharClass.isBlank c || isBlank c) = true := by decide
  refine ⟨decoded, (isJson_of_decode decoded).2.mpr fun c member blank => ?_⟩
  simpa [blank] using List.all_eq_true.mp narrow c member

/-- White space past the four blanks of the standard is skipped too. -/
theorem decode_no_break_space :
    decode "\u00a01".toList = .ok (.integer 1) ∧ ¬ IsJson isBlank "\u00a01".toList := by
  refine ⟨@decode_one ['\u00a0'] [] (List.forall_mem_singleton.mpr rfl) nofun, fun strict => ?_⟩
  have counts := (strict.closes rfl).counts '\u00a0' (by decide) (by decide)
  exact absurd counts (by decide)

end Documents

end Packrat.Json
