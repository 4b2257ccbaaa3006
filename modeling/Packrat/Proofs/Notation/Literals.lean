import Packrat.Proofs.Abnf.Values
import Packrat.Proofs.Notation.Reading

/-! # Spellings of literals

The body of a literal spells a text: each character is written as itself or as one of its escapes.
Resolving escapes reads off the text that a body spells, of which there is one at the most, and
reports a fault of the body if there is none (`resolve_eq_ok_iff`, `blames_of_resolve`).
-/

namespace Packrat.Escape

/-- The characters that a backslash leaves as they are. -/
def marks : Text := ['\\', '"', '\'', '/', '[', ']', '-']

/-- The ways to write a character in the body of a literal. -/
inductive Writes : Char → Text → Prop where
  | plain {c} (other : c ≠ '\\') : Writes c [c]
  | newline : Writes '\n' ['\\', 'n']
  | carriageReturn : Writes '\r' ['\\', 'r']
  | tab : Writes '\t' ['\\', 't']
  | null : Writes '\x00' ['\\', '0']
  | backspace : Writes '\x08' ['\\', 'b']
  | formFeed : Writes '\x0c' ['\\', 'f']
  | mark {c} (known : c ∈ marks) : Writes c ['\\', c]
  | code {c first second third fourth}
      (hex : [first, second, third, fourth].all CharClass.isAsciiHexDigit = true)
      (value : Numeral.valueOf 16 [first, second, third, fourth] = c.toNat) :
      Writes c ['\\', 'u', first, second, third, fourth]

/-- A body that writes the characters of a text one after the other. -/
inductive Spells : Text → Text → Prop where
  | nil : Spells [] []
  | cons {c text written body} (here : Writes c written) (more : Spells text body) :
      Spells (c :: text) (written ++ body)

/-- The faults that are found in the body of a literal. -/
inductive Blames (language : String) (body : Text) : BuildFault → Prop where
  | dangling : Blames language body (.danglingEscape language body)
  | unknown (letter : Char) : Blames language body (.unknownEscape language letter body)
  | badCode (digits : Text) : Blames language body (.badCodePoint language digits body)

section CodePoints

private theorem isNumeral_of_hex {first : Char} {digits : Text}
    (hex : (first :: digits).all CharClass.isAsciiHexDigit = true) :
    Numeral.isNumeral 16 (first :: digits) = true := by
  refine Bool.and_eq_true_iff.mpr ⟨rfl, List.all_eq_true.mpr fun c member => ?_⟩
  have known := List.all_eq_true.mp hex c member
  simp only [CharClass.isAsciiHexDigit, CharClass.isAsciiDigit, Bool.or_eq_true,
    Bool.and_eq_true, decide_eq_true_eq, Char.le_def, UInt32.le_iff_toNat_le, Char.toNat_val,
    Char.reduceToNat] at known
  simp only [Numeral.digit?, CharClass.isAsciiDigit, Bool.and_eq_true, decide_eq_true_eq,
    Char.le_def, UInt32.le_iff_toNat_le, Char.toNat_val, Char.reduceToNat]
  split_ifs <;> simp <;> omega

theorem scalar?_eq_some_iff {code : Nat} {c : Char} : scalar? code = some c ↔ code = c.toNat := by
  rw [scalar?]
  constructor
  · intro found
    split at found
    · rename_i valid
      rw [← Option.some.inj found, Numeral.toNat_ofNat valid]
    · cases found
  · rintro rfl
    have valid : c.toNat.isValidChar := c.valid
    rw [if_pos valid, Char.ofNat_toNat]

/-- Four hexadecimal digits stand for the character whose code point they are. -/
theorem codePoint?_eq_some_iff {first second third fourth c : Char} :
    codePoint? [first, second, third, fourth] = some c ↔
      [first, second, third, fourth].all CharClass.isAsciiHexDigit = true ∧
        Numeral.valueOf 16 [first, second, third, fourth] = c.toNat := by
  rw [codePoint?]
  by_cases hex : [first, second, third, fourth].all CharClass.isAsciiHexDigit = true
  · have below : Numeral.valueOf 16 [first, second, third, fourth] < 0x10000 := by
      simpa [Numeral.valueOf] using
        @Numeral.valueFrom_lt 16 (by decide) 0 [first, second, third, fourth]
    have read : Numeral.read 16 0x10000 [first, second, third, fourth] =
        .ok (Numeral.valueOf 16 [first, second, third, fourth]) :=
      Numeral.read_eq (by decide) (isNumeral_of_hex hex) below
    rw [if_pos (by simpa using hex), read]
    simp only [Except.toOption, Option.bind_some, scalar?_eq_some_iff, hex, true_and]
  · rw [if_neg (by simpa using hex)]
    simp [hex]

end CodePoints

section Resolving

variable {language : String} {body : Text}

/-- The escapes of one letter or mark are those that write a character. -/
theorem writes_of_short? {letter c : Char} (known : short? letter = some c) :
    Writes c ['\\', letter] := by
  unfold short? at known
  split at known <;> cases known
  · exact .newline
  · exact .carriageReturn
  · exact .tab
  · exact .null
  · exact .backspace
  · exact .formFeed
  all_goals exact .mark (by decide)

theorem resolve_short {letter c : Char} (known : short? letter = some c) (rest : Text) :
    resolve language body ('\\' :: letter :: rest) = (resolve language body rest).map (c :: ·) := by
  have other : letter ≠ 'u' := by
    rintro rfl
    cases known
  rw [resolve]
  · simp only [known]
  · simp [other]
  · simp [other]

/-- What writes a character is resolved to it. -/
theorem resolve_written {c : Char} {written : Text} (writes : Writes c written) (rest : Text) :
    resolve language body (written ++ rest) = (resolve language body rest).map (c :: ·) := by
  cases writes with
  | plain other =>
    rw [List.singleton_append, resolve]
    all_goals simp [other]
  | newline => exact resolve_short rfl rest
  | carriageReturn => exact resolve_short rfl rest
  | tab => exact resolve_short rfl rest
  | null => exact resolve_short rfl rest
  | backspace => exact resolve_short rfl rest
  | formFeed => exact resolve_short rfl rest
  | mark known =>
    refine resolve_short ?_ rest
    simp only [marks, List.mem_cons, List.not_mem_nil, or_false] at known
    rcases known with rfl | rfl | rfl | rfl | rfl | rfl | rfl <;> rfl
  | code hex value =>
    simp only [List.cons_append, List.nil_append, resolve, codePoint?_eq_some_iff.mpr ⟨hex, value⟩]

theorem resolve_spelled {text written : Text} (spells : Spells text written) :
    resolve language body written = .ok text := by
  induction spells with
  | nil => rfl
  | cons here _ ih => rw [resolve_written here, ih, Except.map]

/-- A character that is resolved goes before what the rest spells. -/
private theorem spells_of_map {c : Char} {text written rest : Text} (writes : Writes c written)
    (done : (resolve language body rest).map (c :: ·) = .ok text)
    (ih : ∀ {text}, resolve language body rest = .ok text → Spells text rest) :
    Spells text (written ++ rest) := by
  cases resolved : resolve language body rest with
  | error fault =>
    rw [resolved] at done
    cases done
  | ok text' =>
    rw [resolved] at done
    cases done
    exact .cons writes (ih resolved)

theorem spells_of_resolve {text left : Text} (done : resolve language body left = .ok text) :
    Spells text left := by
  fun_induction resolve language body left generalizing text with
  | case1 =>
    cases done
    exact .nil
  | case2 => cases done
  | case3 first second third fourth rest c found ih =>
    obtain ⟨hex, value⟩ := codePoint?_eq_some_iff.mp found
    exact spells_of_map (.code hex value) done ih
  | case4 => cases done
  | case5 => cases done
  | case6 letter rest _ _ c known ih => exact spells_of_map (writes_of_short? known) done ih
  | case7 => cases done
  | case8 c rest alone _ _ escape ih =>
    have other : c ≠ '\\' := by
      intro same
      cases rest with
      | nil => exact alone same rfl
      | cons letter rest => exact escape letter rest same rfl
    exact spells_of_map (.plain other) done ih

/-- Where resolving fails it reports a fault of the body. -/
theorem blames_of_resolve {left : Text} {error : Error}
    (failed : resolve language body left = .error error) :
    ∃ fault, error = .construction fault ∧ Blames language body fault := by
  have later {c : Char} {rest : Text}
      (failed : (resolve language body rest).map (c :: ·) = .error error)
      (ih : resolve language body rest = .error error →
        ∃ fault, error = .construction fault ∧ Blames language body fault) :
      ∃ fault, error = .construction fault ∧ Blames language body fault := by
    cases resolved : resolve language body rest with
    | error fault =>
      rw [resolved] at failed
      cases failed
      exact ih resolved
    | ok text =>
      rw [resolved] at failed
      cases failed
  fun_induction resolve language body left with
  | case1 => cases failed
  | case2 =>
    cases failed
    exact ⟨_, rfl, .dangling⟩
  | case3 first second third fourth rest c found ih => exact later failed ih
  | case4 first second third fourth rest none =>
    cases failed
    exact ⟨_, rfl, .badCode _⟩
  | case5 digits long =>
    cases failed
    exact ⟨_, rfl, .badCode _⟩
  | case6 letter rest _ _ c known ih => exact later failed ih
  | case7 letter rest _ _ none =>
    cases failed
    exact ⟨_, rfl, .unknown _⟩
  | case8 c rest alone _ _ escape ih => exact later failed ih

/-- The text of a body is the one that it spells. -/
theorem resolve_eq_ok_iff {text left : Text} :
    resolve language body left = .ok text ↔ Spells text left :=
  ⟨spells_of_resolve, resolve_spelled⟩

/-- What comes after a spelling is resolved as it is alone. -/
theorem resolve_append {text front : Text} (spells : Spells text front) (back : Text) :
    resolve language body (front ++ back) = (resolve language body back).map (text ++ ·) := by
  induction spells with
  | nil =>
    rw [List.nil_append]
    cases resolve language body back <;> rfl
  | cons here _ ih =>
    rw [List.append_assoc, resolve_written here, ih]
    cases resolve language body back <;> rfl

end Resolving

/-- Unescaping a body gives the text that it spells and reports a fault of the body if it spells
none. A body that begins with a spelling spells what the spelling does and then what the rest
does, if that spells a text. -/
theorem unescape_reads_spelling (language : String) :
    (∀ text body, unescape language body = .ok text ↔ Spells text body) ∧
      (∀ body, (¬ ∃ text, Spells text body) →
        ∃ fault, unescape language body = .error (.construction fault) ∧
          Blames language body fault) ∧
      ∀ front text, unescape language front = .ok text → ∀ back whole,
        unescape language (front ++ back) = .ok whole ↔
          ∃ rest, unescape language back = .ok rest ∧ whole = text ++ rest := by
  refine ⟨fun text body => resolve_eq_ok_iff, fun body none => ?_,
    fun front text done back whole => ?_⟩
  · cases result : unescape language body with
    | ok text => exact absurd ⟨text, resolve_eq_ok_iff.mp result⟩ none
    | error error =>
      obtain ⟨fault, rfl, blames⟩ := blames_of_resolve result
      exact ⟨fault, rfl, blames⟩
  · have spells : Spells text front := resolve_eq_ok_iff.mp done
    rw [unescape, resolve_append spells]
    constructor
    · intro success
      cases read : resolve language (front ++ back) back with
      | error error =>
        rw [read] at success
        cases success
      | ok rest =>
        rw [read] at success
        cases success
        exact ⟨rest, resolve_eq_ok_iff.mpr (resolve_eq_ok_iff.mp read), rfl⟩
    · rintro ⟨rest, read, rfl⟩
      rw [resolve_eq_ok_iff.mpr (resolve_eq_ok_iff.mp read)]
      rfl

/-- A body with escapes of every kind, and one with a surrogate. -/
theorem unescape_reads_spelling_mixed :
    unescape "PEG" "\\u00e9\\n\\[é".toList = .ok "é\n[é".toList ∧
      (¬ ∃ text, Spells text "a\\uD800".toList) ∧
      (∃ fault, unescape "PEG" "a\\uD800".toList = .error (.construction fault) ∧
        Blames "PEG" "a\\uD800".toList fault) ∧
      unescape "PEG" ("\\u00e9\\n\\[é".toList ++ "\\/".toList) =
        .ok ("é\n[é".toList ++ ['/']) := by
  obtain ⟨reads, faults, appends⟩ := unescape_reads_spelling "PEG"
  have front : unescape "PEG" "\\u00e9\\n\\[é".toList = .ok "é\n[é".toList := by rfl
  have back : unescape "PEG" "\\/".toList = .ok ['/'] := by rfl
  have none : ¬ ∃ text, Spells text "a\\uD800".toList := by
    rintro ⟨text, spells⟩
    have done := (reads text _).mpr spells
    cases done
  exact ⟨front, none, faults _ none, (appends _ _ front _ _).mpr ⟨_, back, rfl⟩⟩

end Packrat.Escape
