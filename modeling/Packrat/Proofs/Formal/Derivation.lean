import Packrat.Lexicon.Rule
import Packrat.Rule.Basic

/-! # Parsing expressions

Parsing expressions have the seven forms of the formal definition; the others that are in use are
written with these. `Derives` is their meaning: on a text an expression succeeds and leaves the
rest of it, or fails, or has no derivation at all. It knows texts only: no places, no trees and no
record of earlier results.
-/

namespace Packrat.Formal

/-- A parsing expression over characters. -/
inductive Expression where
  | empty
  /-- One character of a class. -/
  | char (accepts : Char → Bool)
  /-- What the expression of a name stands for. -/
  | name (name : String)
  | sequence (first second : Expression)
  /-- The second expression, where the first fails. -/
  | choice (preferred other : Expression)
  /-- The expression as often as it succeeds. -/
  | star (body : Expression)
  /-- Nothing, where the expression fails. -/
  | absent (body : Expression)

namespace Expression

/-- Any one character. -/
def any : Expression := .char fun _ => true

/-- The expression that always fails. -/
def fail : Expression := .absent .empty

/-- The characters of a text one after the other, each perhaps in another case. -/
def literal (caseless : Bool) : Text → Expression
  | [] => .empty
  | c :: text =>
      .sequence (.char fun d => if caseless then LexRule.alike c d else c = d)
        (literal caseless text)

end Expression

/-- An expression succeeds on a text, and leaves the given rest, or it fails there. The meaning
gives the expressions that names stand for. -/
inductive Derives (meaning : String → Option Expression) :
    Expression → Text → Option Text → Prop where
  | empty {text} : Derives meaning .empty text (some text)
  | char {accepts : Char → Bool} {c rest} (accepted : accepts c = true) :
      Derives meaning (.char accepts) (c :: rest) (some rest)
  | other {accepts : Char → Bool} {c rest} (refused : accepts c = false) :
      Derives meaning (.char accepts) (c :: rest) none
  | ended {accepts} : Derives meaning (.char accepts) [] none
  | name {name body text result} (defined : meaning name = some body)
      (applied : Derives meaning body text result) : Derives meaning (.name name) text result
  | sequence {first second text middle result} (front : Derives meaning first text (some middle))
      (back : Derives meaning second middle result) :
      Derives meaning (.sequence first second) text result
  | broken {first second text} (front : Derives meaning first text none) :
      Derives meaning (.sequence first second) text none
  | preferred {preferred other text rest} (here : Derives meaning preferred text (some rest)) :
      Derives meaning (.choice preferred other) text (some rest)
  | otherwise {preferred other text result} (fails : Derives meaning preferred text none)
      (here : Derives meaning other text result) :
      Derives meaning (.choice preferred other) text result
  | more {body text middle result} (here : Derives meaning body text (some middle))
      (further : Derives meaning (.star body) middle result) :
      Derives meaning (.star body) text result
  | stop {body text} (fails : Derives meaning body text none) :
      Derives meaning (.star body) text (some text)
  | present {body text rest} (here : Derives meaning body text (some rest)) :
      Derives meaning (.absent body) text none
  | absent {body text} (fails : Derives meaning body text none) :
      Derives meaning (.absent body) text (some text)

namespace Derives

variable {meaning : String → Option Expression} {expression body : Expression} {text : Text}
  {result : Option Text}

/-- An expression has one result on a text. -/
theorem unique (derives : Derives meaning expression text result) {result' : Option Text}
    (derives' : Derives meaning expression text result') : result = result' := by
  induction derives generalizing result' with
  | empty =>
    cases derives'
    rfl
  | char accepted =>
    cases derives' with
    | char => rfl
    | other refused => exact absurd accepted (Bool.eq_false_iff.mp refused)
  | other refused =>
    cases derives' with
    | char accepted => exact absurd accepted (Bool.eq_false_iff.mp refused)
    | other => rfl
  | ended =>
    cases derives'
    rfl
  | name defined _ ih =>
    cases derives' with
    | name defined' applied' =>
      obtain rfl := Option.some.inj (defined.symm.trans defined')
      exact ih applied'
  | sequence _ _ ih ih' =>
    cases derives' with
    | sequence front' back' =>
      obtain rfl := Option.some.inj (ih front')
      exact ih' back'
    | broken front' => cases ih front'
  | broken _ ih =>
    cases derives' with
    | sequence front' _ => cases ih front'
    | broken => rfl
  | preferred _ ih =>
    cases derives' with
    | preferred here' => exact ih here'
    | otherwise fails' _ => cases ih fails'
  | otherwise _ _ ih ih' =>
    cases derives' with
    | preferred here' => cases ih here'
    | otherwise _ here' => exact ih' here'
  | more _ _ ih ih' =>
    cases derives' with
    | more here' further' =>
      obtain rfl := Option.some.inj (ih here')
      exact ih' further'
    | stop fails' => cases ih fails'
  | stop _ ih =>
    cases derives' with
    | more here' _ => cases ih here'
    | stop => rfl
  | present _ ih =>
    cases derives' with
    | present => rfl
    | absent fails' => cases ih fails'
  | absent _ ih =>
    cases derives' with
    | present here' => cases ih here'
    | absent => rfl

/-- What an expression leaves is the end of the text. -/
theorem suffix (derives : Derives meaning expression text result) {rest : Text}
    (leaves : result = some rest) : rest <:+ text := by
  induction derives generalizing rest with
  | empty | stop | absent => exact Option.some.inj leaves ▸ List.suffix_refl _
  | char => exact Option.some.inj leaves ▸ List.suffix_cons _ _
  | other | ended | broken | present => cases leaves
  | name _ _ ih => exact ih leaves
  | sequence _ _ ih ih' => exact (ih' leaves).trans (ih rfl)
  | preferred _ ih => exact ih leaves
  | otherwise _ _ _ ih' => exact ih' leaves
  | more _ _ ih ih' => exact (ih' leaves).trans (ih rfl)

/-- An expression that succeeds without taking a character is not repeated to an end. -/
theorem not_star_of_still (still : Derives meaning body text (some text)) :
    ¬ Derives meaning (.star body) text result := by
  intro derives
  generalize same : Expression.star body = expression at derives
  induction derives with
  | more here _ _ ih' =>
    cases same
    obtain rfl := Option.some.inj (still.unique here)
    exact ih' still rfl
  | stop fails =>
    cases same
    cases still.unique fails
  | _ => cases same

/-- Every round of a repetition that comes to an end takes a character. -/
theorem length_lt_of_star {middle : Text} (here : Derives meaning body text (some middle))
    (further : Derives meaning (.star body) middle result) : middle.length < text.length := by
  have suffix := here.suffix rfl
  refine Nat.lt_of_le_of_ne suffix.length_le fun long => ?_
  obtain rfl := suffix.eq_of_length long
  exact not_star_of_still here further

/-- A repetition does not fail. -/
theorem exists_rest_of_star (derives : Derives meaning (.star body) text result) :
    ∃ rest, result = some rest := by
  generalize same : Expression.star body = expression at derives
  induction derives with
  | more _ _ _ ih' => exact ih' same
  | stop => exact ⟨_, rfl⟩
  | _ => cases same

end Derives

end Packrat.Formal
