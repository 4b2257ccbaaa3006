import Packrat.Proofs.Json.Decoding
import Packrat.Proofs.Json.Strings

/-! # How decoding fails

A text that is not that of a document is rejected. In a document, the first token that stands for
nothing decides: a number that is out of range is not supported, but a string with half of a
surrogate pair is reported as a defect of the compiler, although it came from the text.
-/

namespace Packrat.Json

/-- The token is the first of those that may stand for nothing. -/
def StopsAt (lexemes : List Lexeme) (lexeme : Lexeme) : Prop :=
  ∃ front back, lexemes = front ++ lexeme :: back ∧ ∀ earlier ∈ front, earlier.fault? = none

theorem StopsAt.mem {lexemes : List Lexeme} {lexeme : Lexeme} (stops : StopsAt lexemes lexeme) :
    lexeme ∈ lexemes := by
  obtain ⟨front, back, rfl, -⟩ := stops
  exact List.mem_append_right _ (List.mem_cons_self ..)

/-- How the decoding of a text fails. -/
inductive Failure (text : Text) : Error → Prop where
  | rejected {position message} (none : ¬ ∃ document : Document, document.Writes text)
      (rejects : parser.parseAll "value" text = .error (.rejected "value" position message)) :
      Failure text (.rejected "value" position message)
  | halved {document : Document} {pieces} (writes : document.Writes text)
      (stops : StopsAt document.lexemes (.string (quoted pieces))) (unpaired : ¬ Paired pieces) :
      Failure text (.illegible language "jsonString")
  | outOfRange {document : Document} {raw} (writes : document.Writes text)
      (stops : StopsAt document.lexemes (.number raw)) (unread : readNumber? raw = none) :
      Failure text (.unsupported language
        ("number " ++ String.ofList raw ++ " outside the range of f64"))

section Tokens

/-- A string token stands for nothing if a surrogate in it has no partner. -/
private theorem fault?_string {pieces : List Piece} {fault : Error} :
    (Lexeme.string (quoted pieces)).fault? = some fault ↔
      ¬ Paired pieces ∧ fault = .illegible language "jsonString" := by
  rw [← readString?_eq_none_iff, Lexeme.fault?, stringOf]
  cases readString? (quoted pieces) <;> simp [Lexeme.errorOf, eq_comm]

/-- A number token stands for nothing if it is out of range. -/
private theorem fault?_number {raw : Text} {fault : Error} :
    (Lexeme.number raw).fault? = some fault ↔ readNumber? raw = none ∧
      fault = .unsupported language ("number " ++ String.ofList raw ++ " outside the range of f64") := by
  rw [Lexeme.fault?, numberOf]
  cases readNumber? raw <;> simp [Lexeme.errorOf, eq_comm]

end Tokens

section Decoding

variable {text : Text}

/-- The text of a document is decoded into what is read off the document. -/
theorem decode_of_writes {document : Document} (writes : document.Writes text) :
    decode text = document.read := by
  obtain ⟨tree, parsed, folded⟩ := parseAll_of_writes writes
  rw [decode, parsed]
  exact folded

/-- Any other text is rejected. -/
theorem parseAll_of_not_writes (none : ¬ ∃ document : Document, document.Writes text) :
    ∃ position message,
      parser.parseAll "value" text = .error (.rejected "value" position message) := by
  rcases Parser.parseAll_of_tame tame value_declared text with ⟨tree, parsed⟩ | rejected
  · exact absurd (writes_of_parseAll parsed) none
  · exact rejected

private theorem decode_eq_error_of_writes {document : Document} (writes : document.Writes text)
    {fault : Error} : decode text = .error fault ↔
      ∃ lexeme, StopsAt document.lexemes lexeme ∧ lexeme.fault? = some fault := by
  rw [decode_of_writes writes, Document.read_eq_error_iff, Document.fault?,
    List.findSome?_eq_some_iff]
  constructor
  · rintro ⟨front, lexeme, back, same, here, before⟩
    exact ⟨lexeme, ⟨front, back, same, before⟩, here⟩
  · rintro ⟨lexeme, ⟨front, back, same, before⟩, here⟩
    exact ⟨front, lexeme, back, same, here, before⟩

/-- Every failure is of one of the three kinds. -/
theorem decode_eq_error_iff {fault : Error} : decode text = .error fault ↔ Failure text fault := by
  constructor
  · intro failed
    by_cases written : ∃ document : Document, document.Writes text
    · obtain ⟨document, writes⟩ := written
      obtain ⟨lexeme, stops, here⟩ := (decode_eq_error_of_writes writes).mp failed
      cases lexeme with
      | mark => cases here
      | string raw =>
        obtain ⟨pieces, rfl⟩ := stringPattern_whole_iff.mp (document.known _ stops.mem)
        obtain ⟨unpaired, rfl⟩ := fault?_string.mp here
        exact .halved writes stops unpaired
      | number raw =>
        obtain ⟨unread, rfl⟩ := fault?_number.mp here
        exact .outOfRange writes stops unread
    · obtain ⟨position, message, rejects⟩ := parseAll_of_not_writes written
      rw [decode, rejects] at failed
      cases failed
      exact .rejected written rejects
  · intro failure
    cases failure with
    | rejected none rejects =>
      rw [decode, rejects]
      rfl
    | halved writes stops unpaired =>
      exact (decode_eq_error_of_writes writes).mpr ⟨_, stops, fault?_string.mpr ⟨unpaired, rfl⟩⟩
    | outOfRange writes stops unread =>
      exact (decode_eq_error_of_writes writes).mpr ⟨_, stops, fault?_number.mpr ⟨unread, rfl⟩⟩

/-- Decoding reports a defect of the compiler exactly if the text is that of a document whose first
token that stands for nothing is a string with half of a pair of surrogates. The other failures are
texts of no document, which are rejected, and numbers that are not supported. -/
theorem decode_internal_iff (text : Text) :
    ((∃ fault, decode text = .error fault ∧ fault.isInternal = true) ↔
      ∃ document : Document, document.Writes text ∧ ∃ pieces,
        StopsAt document.lexemes (.string (quoted pieces)) ∧ ¬ Paired pieces) ∧
    ∀ fault, decode text = .error fault ↔ Failure text fault := by
  refine ⟨⟨?_, ?_⟩, fun fault => decode_eq_error_iff⟩
  · rintro ⟨fault, failed, internal⟩
    cases decode_eq_error_iff.mp failed with
    | rejected => cases internal
    | halved writes stops unpaired => exact ⟨_, writes, _, stops, unpaired⟩
    | outOfRange => cases internal
  · rintro ⟨document, writes, pieces, stops, unpaired⟩
    exact ⟨_, decode_eq_error_iff.mpr (.halved writes stops unpaired), rfl⟩

/-- Half of a pair of surrogates surfaces as a defect of the compiler. -/
theorem decode_lone_surrogate :
    decode "\"\\ud800\"".toList = .error (.illegible "JSON" "jsonString") ∧
      (Error.illegible "JSON" "jsonString").isInternal = true := by
  have whole : stringPattern.Whole "\"\\ud800\"".toList :=
    stringPattern_whole_iff.mpr ⟨[.unit 'd' '8' '0' '0' rfl], rfl⟩
  have writes : (Document.string ⟨_, whole⟩).Writes "\"\\ud800\"".toList :=
    Document.writes_flatten _
  have unread : stringOf "\"\\ud800\"".toList = .error (.illegible "JSON" "jsonString") := by
    decide +kernel
  refine ⟨?_, rfl⟩
  rw [decode_of_writes writes, Document.read, unread]
  rfl

end Decoding

end Packrat.Json
