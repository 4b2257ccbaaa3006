import Packrat.Json.NumberText
import Packrat.CharClass.Blank
import Mathlib.Logic.Basic

/-! # The standard grammar of JSON

The grammar as predicates on texts, over a class of characters that count as white space. The
characters that stand outside of the strings of a text decide how much of the class it needs:
a text of the grammar is one for any other class that has all the white space among them
(`IsJson.narrow`).
-/

namespace Packrat.Json

section Tokens

/-- What may stand between the quotes of a string. -/
inductive IsBody : Text → Prop where
  | nil : IsBody []
  | unescaped {c rest} (quote : c ≠ '"') (backslash : c ≠ '\\') (past : 0x20 ≤ c.toNat)
      (more : IsBody rest) : IsBody (c :: rest)
  | short {letter rest} (known : letter ∈ ['"', '\\', '/', 'b', 'f', 'n', 'r', 't'])
      (more : IsBody rest) : IsBody ('\\' :: letter :: rest)
  | unit {first second third fourth rest}
      (hex : [first, second, third, fourth].all CharClass.isAsciiHexDigit = true)
      (more : IsBody rest) : IsBody ('\\' :: 'u' :: first :: second :: third :: fourth :: rest)

/-- A string is a body between quotes. -/
inductive IsString : Text → Prop where
  | quoted {body} (inner : IsBody body) : IsString ('"' :: (body ++ ['"']))

/-- The whole part of a number has no leading zero. -/
inductive IsWhole : Text → Prop where
  | zero : IsWhole ['0']
  | leading {c digits} (nonzero : c ≠ '0')
      (each : ∀ d ∈ c :: digits, CharClass.isAsciiDigit d = true) : IsWhole (c :: digits)

/-- The fraction of a number, which may be left out. -/
inductive IsFraction : Text → Prop where
  | none : IsFraction []
  | some {digits} (filled : isDigits digits = true) : IsFraction ('.' :: digits)

/-- The exponent of a number, which may be left out. -/
inductive IsExponent : Text → Prop where
  | none : IsExponent []
  | some {mark sign digits} (marked : mark = 'e' ∨ mark = 'E')
      (signed : sign ∈ [[], ['+'], ['-']]) (filled : isDigits digits = true) :
      IsExponent (mark :: (sign ++ digits))

/-- A number is its whole part after an optional minus, with a fraction and an exponent. -/
inductive IsNumber : Text → Prop where
  | parts {sign whole fraction exponent} (signed : sign ∈ [[], ['-']]) (first : IsWhole whole)
      (second : IsFraction fraction) (third : IsExponent exponent) :
      IsNumber (sign ++ (whole ++ (fraction ++ exponent)))

end Tokens

section Grammar

variable (white : Char → Bool)

/-- A run of white space, which may be empty. -/
abbrev IsGap (text : Text) : Prop := ∀ c ∈ text, white c = true

/-- A mark with white space around it. -/
inductive IsMark (mark : Char) : Text → Prop where
  | between {front back} (before : IsGap white front) (after : IsGap white back) :
      IsMark mark (front ++ (mark :: back))

mutual

/-- The text is a value. -/
inductive IsValue : Text → Prop where
  | object {left members right} (opens : IsMark white '\x7b' left) (inner : IsMembers members)
      (closes : IsMark white '\x7d' right) : IsValue (left ++ (members ++ right))
  | emptyObject {left right} (opens : IsMark white '\x7b' left)
      (closes : IsMark white '\x7d' right) : IsValue (left ++ right)
  | array {left elements right} (opens : IsMark white '[' left) (inner : IsElements elements)
      (closes : IsMark white ']' right) : IsValue (left ++ (elements ++ right))
  | emptyArray {left right} (opens : IsMark white '[' left) (closes : IsMark white ']' right) :
      IsValue (left ++ right)
  | string {raw} (spelled : IsString raw) : IsValue raw
  | number {raw} (spelled : IsNumber raw) : IsValue raw
  | word {name : String} (known : name ∈ ["true", "false", "null"]) : IsValue name.toList

/-- The text is the members of an object with commas between them. -/
inductive IsMembers : Text → Prop where
  | last {key colon value} (name : IsString key) (names : IsMark white ':' colon)
      (holds : IsValue value) : IsMembers (key ++ (colon ++ value))
  | more {key colon value comma rest} (name : IsString key) (names : IsMark white ':' colon)
      (holds : IsValue value) (parts : IsMark white ',' comma) (others : IsMembers rest) :
      IsMembers (key ++ (colon ++ (value ++ (comma ++ rest))))

/-- The text is the elements of an array with commas between them. -/
inductive IsElements : Text → Prop where
  | last {value} (item : IsValue value) : IsElements value
  | more {value comma rest} (item : IsValue value) (parts : IsMark white ',' comma)
      (others : IsElements rest) : IsElements (value ++ (comma ++ rest))

end

/-- The text is one value with white space around it. -/
inductive IsJson : Text → Prop where
  | between {front value back} (before : IsGap white front) (inner : IsValue white value)
      (after : IsGap white back) : IsJson (front ++ (value ++ back))

end Grammar

section Outside

mutual

/-- The characters of a text that stand outside of strings. -/
def outside : Text → Text
  | [] => []
  | c :: rest => if c = '"' then inside rest else c :: outside rest

/-- The characters that stand outside of strings in a text that begins within one. -/
def inside : Text → Text
  | [] => []
  | '\\' :: _ :: rest => inside rest
  | c :: rest => if c = '"' then outside rest else inside rest

end

theorem outside_append {run : Text} (plain : '"' ∉ run) (rest : Text) :
    outside (run ++ rest) = run ++ outside rest := by
  induction run with
  | nil => rfl
  | cons c run ih =>
    obtain ⟨here, others⟩ := not_or.mp (List.mem_cons.not.mp plain)
    rw [List.cons_append, outside, if_neg (Ne.symm here), ih others, List.cons_append]

theorem outside_quote (rest : Text) : outside ('"' :: rest) = inside rest := by
  rw [outside, if_pos rfl]

private theorem inside_quote (rest : Text) : inside ('"' :: rest) = outside rest := by
  rw [inside, if_pos rfl]
  exact fun _ _ same => absurd same (by decide)

private theorem inside_cons {c : Char} (quote : c ≠ '"') (backslash : c ≠ '\\') (rest : Text) :
    inside (c :: rest) = inside rest := by
  rw [inside, if_neg quote]
  exact fun _ _ same => absurd same backslash

/-- The next quote that is not escaped ends the body of a string. -/
theorem inside_append {body : Text} (inner : IsBody body) (rest : Text) :
    inside (body ++ '"' :: rest) = outside rest := by
  induction inner with
  | nil => exact inside_quote rest
  | unescaped quote backslash _ _ ih => rw [List.cons_append, inside_cons quote backslash, ih]
  | short _ _ ih => rw [List.cons_append, List.cons_append, inside, ih]
  | unit hex _ ih =>
    have digit : ∀ {c : Char}, CharClass.isAsciiHexDigit c = true → c ≠ '"' ∧ c ≠ '\\' := by
      rintro c digit
      constructor <;> rintro rfl <;> exact absurd digit (by decide)
    simp only [List.all_cons, List.all_nil, Bool.and_true, Bool.and_eq_true] at hex
    obtain ⟨first, second, third, fourth⟩ := hex
    simp only [List.cons_append, inside, inside_cons (digit first).1 (digit first).2,
      inside_cons (digit second).1 (digit second).2, inside_cons (digit third).1 (digit third).2,
      inside_cons (digit fourth).1 (digit fourth).2, ih]

variable {white : Char → Bool}

/-- The text closes every string that it opens, and the characters that stand outside of strings
are those that count as white space and others that are none at all. -/
structure Closes (white : Char → Bool) (text : Text) : Prop where
  append : ∀ rest, outside (text ++ rest) = outside text ++ outside rest
  counts : ∀ c ∈ outside text, CharClass.isBlank c = true → white c = true

namespace Closes

variable {text text' : Text}

theorem trans (here : Closes white text) (there : Closes white text') :
    Closes white (text ++ text') where
  append rest := by
    rw [List.append_assoc, here.append, there.append, here.append, List.append_assoc]
  counts := by
    rw [here.append]
    exact List.forall_mem_append.mpr ⟨here.counts, there.counts⟩

/-- A text without quotes is outside of strings. -/
private theorem of_plain (plain : '"' ∉ text)
    (counts : ∀ c ∈ text, CharClass.isBlank c = true → white c = true) : Closes white text := by
  have all : outside text = text := by simpa [outside] using outside_append plain []
  exact ⟨fun rest => by rw [outside_append plain, all], all.symm ▸ counts⟩

private theorem of_gap (quote : white '"' = false) (gap : IsGap white text) :
    Closes white text := by
  refine of_plain (fun member => ?_) fun c member _ => gap c member
  exact absurd (gap _ member) (by simp [quote])

private theorem of_string (spelled : IsString text) : Closes white text := by
  cases spelled with
  | @quoted body inner =>
    have none : outside ('"' :: (body ++ ['"'])) = [] := by
      rw [outside_quote, inside_append inner, outside]
    refine ⟨fun rest => ?_, none.symm ▸ nofun⟩
    rw [none, List.cons_append, List.append_assoc, outside_quote]
    exact inside_append inner rest

/-- Whether a character is neither a quote nor white space. -/
private def isSolid (c : Char) : Bool := !CharClass.isBlank c && c != '"'

private theorem of_solid (solid : text.all isSolid = true) : Closes white text := by
  have each (c : Char) (member : c ∈ text) : CharClass.isBlank c = false ∧ c ≠ '"' := by
    simpa [isSolid] using List.all_eq_true.mp solid c member
  refine of_plain (fun member => (each _ member).2 rfl) fun c member blank => ?_
  exact absurd blank (by simp [(each c member).1])

private theorem of_mark {mark : Char} (quote : white '"' = false)
    (solid : isSolid mark = true) (marked : IsMark white mark text) : Closes white text := by
  cases marked with
  | @between front back before after =>
    have here : Closes white [mark] := of_solid (by simp [solid])
    exact (of_gap quote before).trans (here.trans (of_gap quote after))

private theorem solid_of_digit {c : Char} (digit : CharClass.isAsciiDigit c = true) :
    isSolid c = true := by
  simp only [CharClass.isAsciiDigit, Bool.and_eq_true, decide_eq_true_eq, Char.le_def,
    UInt32.le_iff_toNat_le, Char.toNat_val, Char.reduceToNat] at digit
  simp only [isSolid, Bool.and_eq_true, Bool.not_eq_true', bne_iff_ne]
  constructor
  · have ascii : c.toNat < 0x80 := by omega
    have space : c ≠ ' ' := by rintro rfl; simp at digit
    simp only [CharClass.isBlank, if_pos ascii, space, decide_false, Bool.false_or,
      Bool.and_eq_false_iff, decide_eq_false_iff_not]
    omega
  · rintro rfl
    simp at digit

private theorem of_digits (filled : isDigits text = true) : Closes white text :=
  of_solid (List.all_eq_true.mpr fun c member =>
    solid_of_digit (List.all_eq_true.mp (Bool.and_eq_true_iff.mp filled).2 c member))

private theorem of_number (spelled : IsNumber text) : Closes white text := by
  cases spelled with
  | @parts sign whole fraction exponent signed first second third =>
    have front : Closes white sign := of_solid (by
      simp only [List.mem_cons, List.not_mem_nil, or_false] at signed
      rcases signed with rfl | rfl <;> decide)
    have wholes : Closes white whole := by
      cases first with
      | zero => exact of_solid (by decide)
      | leading _ each =>
        exact of_solid (List.all_eq_true.mpr fun c member => solid_of_digit (each c member))
    have fractions : Closes white fraction := by
      cases second with
      | none => exact of_solid rfl
      | some filled => exact (@of_solid white ['.'] (by decide)).trans (of_digits filled)
    have exponents : Closes white exponent := by
      cases third with
      | none => exact of_solid rfl
      | @some mark sign digits marked signed filled =>
        have front : Closes white (mark :: sign) := of_solid (by
          simp only [List.mem_cons, List.not_mem_nil, or_false] at signed
          rcases marked with rfl | rfl <;> rcases signed with rfl | rfl | rfl <;> decide)
        exact front.trans (of_digits filled)
    exact front.trans (wholes.trans (fractions.trans exponents))

end Closes

section Values

variable (quote : white '"' = false)

include quote

mutual

/-- Values close their strings. -/
private theorem IsValue.closes : ∀ {text : Text}, IsValue white text → Closes white text
  | _, .object opens inner closes =>
      (Closes.of_mark quote (by decide) opens).trans
        (inner.closes.trans (Closes.of_mark quote (by decide) closes))
  | _, .emptyObject opens closes | _, .emptyArray opens closes =>
      (Closes.of_mark quote (by decide) opens).trans (Closes.of_mark quote (by decide) closes)
  | _, .array opens inner closes =>
      (Closes.of_mark quote (by decide) opens).trans
        (inner.closes.trans (Closes.of_mark quote (by decide) closes))
  | _, .string spelled => .of_string spelled
  | _, .number spelled => .of_number spelled
  | _, .word known => .of_solid (by
      simp only [List.mem_cons, List.not_mem_nil, or_false] at known
      rcases known with rfl | rfl | rfl <;> decide)

private theorem IsMembers.closes : ∀ {text : Text}, IsMembers white text → Closes white text
  | _, .last name names holds =>
      (Closes.of_string name).trans ((Closes.of_mark quote (by decide) names).trans holds.closes)
  | _, .more name names holds parts others =>
      (Closes.of_string name).trans ((Closes.of_mark quote (by decide) names).trans
        (holds.closes.trans ((Closes.of_mark quote (by decide) parts).trans others.closes)))

private theorem IsElements.closes : ∀ {text : Text}, IsElements white text → Closes white text
  | _, .last item => item.closes
  | _, .more item parts others =>
      item.closes.trans ((Closes.of_mark quote (by decide) parts).trans others.closes)

end

end Values

section Narrowing

variable {white' : Char → Bool}

/-- The white space outside of the strings of a text counts as such for another class too. -/
def Narrows (white white' : Char → Bool) (text : Text) : Prop :=
  ∀ c ∈ outside text, white c = true → white' c = true

private theorem Narrows.split {text text' : Text} (narrows : Narrows white white' (text ++ text'))
    (here : Closes white text) : Narrows white white' text ∧ Narrows white white' text' := by
  rw [Narrows, here.append] at narrows
  exact List.forall_mem_append.mp narrows

variable (quote : white '"' = false)

include quote

private theorem not_mem_of_gap {text : Text} (gap : IsGap white text) : '"' ∉ text :=
  fun member => absurd (gap _ member) (by simp [quote])

private theorem IsGap.narrow {text : Text} (gap : IsGap white text)
    (narrows : Narrows white white' text) : IsGap white' text := by
  have all : outside text = text := by
    simpa [outside] using outside_append (not_mem_of_gap quote gap) []
  exact fun c member => narrows c (all.symm ▸ member) (gap c member)

private theorem IsMark.narrow {mark : Char} {text : Text}
    (solid : Closes.isSolid mark = true) (marked : IsMark white mark text)
    (narrows : Narrows white white' text) : IsMark white' mark text := by
  cases marked with
  | @between front back before after =>
    have here : Closes white [mark] := Closes.of_solid (by simp [solid])
    obtain ⟨narrows, more⟩ := narrows.split (Closes.of_gap quote before)
    obtain ⟨-, narrows'⟩ := @Narrows.split white white' [mark] back more here
    exact .between (before.narrow quote narrows) (after.narrow quote narrows')

mutual

private theorem IsValue.narrow : ∀ {text : Text}, IsValue white text →
    Narrows white white' text → IsValue white' text
  | _, .object opens inner closes, narrows => by
      obtain ⟨left, more⟩ := narrows.split (Closes.of_mark quote (by decide) opens)
      obtain ⟨middle, right⟩ := more.split (inner.closes quote)
      exact .object (opens.narrow quote (by decide) left) (inner.narrow middle)
        (closes.narrow quote (by decide) right)
  | _, .emptyObject opens closes, narrows => by
      obtain ⟨left, right⟩ := narrows.split (Closes.of_mark quote (by decide) opens)
      exact .emptyObject (opens.narrow quote (by decide) left)
        (closes.narrow quote (by decide) right)
  | _, .array opens inner closes, narrows => by
      obtain ⟨left, more⟩ := narrows.split (Closes.of_mark quote (by decide) opens)
      obtain ⟨middle, right⟩ := more.split (inner.closes quote)
      exact .array (opens.narrow quote (by decide) left) (inner.narrow middle)
        (closes.narrow quote (by decide) right)
  | _, .emptyArray opens closes, narrows => by
      obtain ⟨left, right⟩ := narrows.split (Closes.of_mark quote (by decide) opens)
      exact .emptyArray (opens.narrow quote (by decide) left)
        (closes.narrow quote (by decide) right)
  | _, .string spelled, _ => .string spelled
  | _, .number spelled, _ => .number spelled
  | _, .word known, _ => .word known

private theorem IsMembers.narrow : ∀ {text : Text}, IsMembers white text →
    Narrows white white' text → IsMembers white' text
  | _, .last name names holds, narrows => by
      obtain ⟨-, more⟩ := narrows.split (Closes.of_string name)
      obtain ⟨colon, value⟩ := more.split (Closes.of_mark quote (by decide) names)
      exact .last name (names.narrow quote (by decide) colon) (holds.narrow value)
  | _, .more name names holds parts others, narrows => by
      obtain ⟨-, more⟩ := narrows.split (Closes.of_string name)
      obtain ⟨colon, more⟩ := more.split (Closes.of_mark quote (by decide) names)
      obtain ⟨value, more⟩ := more.split (holds.closes quote)
      obtain ⟨comma, rest⟩ := more.split (Closes.of_mark quote (by decide) parts)
      exact .more name (names.narrow quote (by decide) colon) (holds.narrow value)
        (parts.narrow quote (by decide) comma) (others.narrow rest)

private theorem IsElements.narrow : ∀ {text : Text}, IsElements white text →
    Narrows white white' text → IsElements white' text
  | _, .last item, narrows => .last (item.narrow narrows)
  | _, .more item parts others, narrows => by
      obtain ⟨value, more⟩ := narrows.split (item.closes quote)
      obtain ⟨comma, rest⟩ := more.split (Closes.of_mark quote (by decide) parts)
      exact .more (item.narrow value) (parts.narrow quote (by decide) comma) (others.narrow rest)

end

theorem IsJson.closes {text : Text} (json : IsJson white text) : Closes white text := by
  cases json with
  | between before inner after =>
    exact (Closes.of_gap quote before).trans
      ((inner.closes quote).trans (Closes.of_gap quote after))

/-- A text is one of the grammar for another class of white space if that has all the white space
outside of its strings. -/
theorem IsJson.narrow {text : Text} (json : IsJson white text)
    (narrows : Narrows white white' text) : IsJson white' text := by
  cases json with
  | between before inner after =>
    obtain ⟨front, more⟩ := narrows.split (Closes.of_gap quote before)
    obtain ⟨middle, back⟩ := more.split (inner.closes quote)
    exact .between (before.narrow quote front) (inner.narrow quote middle)
      (after.narrow quote back)

end Narrowing

end Outside

end Packrat.Json
