import Packrat.Json.CommandLine
import Packrat.Proofs.Json.Failures
import Packrat.Proofs.Json.Printing

/-! # The normal form

What the command prints for a value without floating-point numbers is the text of a document that
stands for the value, so that running the command on it again prints the same, unless U+007F stands
in a string or in a key. Such a character is printed as it is and then rejected.
-/

namespace Packrat.Json

section Parts

mutual

/-- A value and all the values inside it. -/
def Value.parts : Value → List Value
  | .array items => .array items :: partsOfItems items
  | .object members => .object members :: partsOfMembers members
  | leaf => [leaf]

/-- The parts of items. -/
def partsOfItems : List Value → List Value
  | [] => []
  | item :: more => item.parts ++ partsOfItems more

/-- The parts of the values of members. -/
def partsOfMembers : List (String × Value) → List Value
  | [] => []
  | (_, value) :: more => value.parts ++ partsOfMembers more

end

namespace Value

/-- Whether a value is a floating-point number. -/
def isFloat : Value → Bool
  | .float _ => true
  | _ => false

/-- The strings that a value has itself: its text, or its keys. -/
def texts : Value → List String
  | .string text => [text]
  | .object members => members.map Prod.fst
  | _ => []

/-- Whether a value contains a floating-point number. -/
def hasFloat (value : Value) : Bool := value.parts.any isFloat

/-- Whether U+007F stands in a string of a value or in a key. -/
def hasDelete (value : Value) : Bool :=
  value.parts.any fun part => part.texts.any fun text => text.toList.contains delete

/-- What holds of all parts of decoded values: whole numbers fit into 64 bits, and members stand in
the order of their keys. -/
def Regular : Value → Prop
  | .integer value => Fits value
  | .object members => members.Pairwise fun first second => first.1 < second.1
  | _ => True

theorem mem_parts (value : Value) : value ∈ value.parts := by
  cases value <;> simp [parts]

end Value

theorem mem_partsOfItems {part : Value} {items : List Value} :
    part ∈ partsOfItems items ↔ ∃ item ∈ items, part ∈ item.parts := by
  induction items with
  | nil => simp [partsOfItems]
  | cons item items ih => simp [partsOfItems, ih]

theorem mem_partsOfMembers {part : Value} {members : List (String × Value)} :
    part ∈ partsOfMembers members ↔ ∃ member ∈ members, part ∈ member.2.parts := by
  induction members with
  | nil => simp [partsOfMembers]
  | cons member members ih => simp [partsOfMembers, ih]

theorem sizeOf_item {item : Value} {items : List Value} (member : item ∈ items) :
    sizeOf item < sizeOf (Value.array items) := by
  have smaller := List.sizeOf_lt_of_mem member
  rw [Value.array.sizeOf_spec]
  omega

theorem sizeOf_member {entry : String × Value} {members : List (String × Value)}
    (member : entry ∈ members) : sizeOf entry.2 < sizeOf (Value.object members) := by
  have smaller := List.sizeOf_lt_of_mem member
  obtain ⟨key, value⟩ := entry
  rw [Prod.mk.sizeOf_spec] at smaller
  rw [Value.object.sizeOf_spec]
  dsimp only
  omega

end Parts

section Decoded

/-- Entries in which the last members hold are among the members. -/
private theorem mem_of_lastHolds {members entries : List (String × Value)}
    (last : LastHolds members entries) {entry : String × Value} (member : entry ∈ entries) :
    entry ∈ members := by
  have found : Table.lookupEntry entry.1 entries = some entry.2 :=
    @Table.find?_of_mem _ ⟨entries, last.1⟩ entry.1 entry.2 member
  rw [last.2] at found
  exact List.mem_reverse.mp (Table.lookupEntry_mem found)

private theorem regular_of_numberOf {raw : Text} {value : Value}
    (decodes : numberOf raw = .ok value) : ∀ part ∈ value.parts, part.Regular := by
  rw [numberOf, readNumber?] at decodes
  cases whole : readInteger? raw with
  | some number =>
    rw [whole] at decodes
    cases decodes
    exact List.forall_mem_singleton.mpr (fits_of_readInteger? whole)
  | none =>
    rw [whole] at decodes
    cases float : readFloat? raw with
    | none =>
      rw [float] at decodes
      cases decodes
    | some number =>
      rw [float] at decodes
      cases decodes
      exact List.forall_mem_singleton.mpr trivial

mutual

private theorem regular_of_denotes : ∀ (document : Document) (value : Value),
    document.Denotes value → ∀ part ∈ value.parts, part.Regular
  | .object members, _, .object each last => by
      refine List.forall_mem_cons.mpr ⟨last.1, fun part inside => ?_⟩
      obtain ⟨entry, member, inside⟩ := mem_partsOfMembers.mp inside
      exact regular_of_members members _ each entry (mem_of_lastHolds last member) part inside
  | .emptyObject, _, .emptyObject => List.forall_mem_singleton.mpr .nil
  | .array elements, _, .array each => by
      refine List.forall_mem_cons.mpr ⟨trivial, fun part inside => ?_⟩
      obtain ⟨item, member, inside⟩ := mem_partsOfItems.mp inside
      exact regular_of_elements elements _ each item member part inside
  | .emptyArray, _, .emptyArray => List.forall_mem_singleton.mpr trivial
  | .string _, _, .string _ => List.forall_mem_singleton.mpr trivial
  | .number _, _, .number decodes => regular_of_numberOf decodes
  | .bool _, _, .bool => List.forall_mem_singleton.mpr trivial
  | .null, _, .null => List.forall_mem_singleton.mpr trivial

private theorem regular_of_members : ∀ (members : Members) (values : List (String × Value)),
    members.Denote values → ∀ member ∈ values, ∀ part ∈ member.2.parts, part.Regular
  | .last _ document, _, .last _ denotes =>
      List.forall_mem_singleton.mpr (regular_of_denotes document _ denotes)
  | .more _ document rest, _, .more _ denotes others =>
      List.forall_mem_cons.mpr
        ⟨regular_of_denotes document _ denotes, regular_of_members rest _ others⟩

private theorem regular_of_elements : ∀ (elements : Elements) (items : List Value),
    elements.Denote items → ∀ item ∈ items, ∀ part ∈ item.parts, part.Regular
  | .last document, _, .last denotes =>
      List.forall_mem_singleton.mpr (regular_of_denotes document _ denotes)
  | .more document rest, _, .more denotes others =>
      List.forall_mem_cons.mpr
        ⟨regular_of_denotes document _ denotes, regular_of_elements rest _ others⟩

end

/-- All parts of a decoded value are regular. -/
theorem regular_of_decode {text : Text} {value : Value} (decoded : decode text = .ok value) :
    ∀ part ∈ value.parts, part.Regular := by
  by_cases written : ∃ document : Document, document.Writes text
  · obtain ⟨document, writes⟩ := written
    rw [decode_of_writes writes] at decoded
    exact regular_of_denotes document value (Document.read_eq_ok_iff.mp decoded)
  · obtain ⟨position, message, rejects⟩ := parseAll_of_not_writes written
    rw [decode, rejects] at decoded
    cases decoded

end Decoded

section Printed

/-- The tokens make up the text, with white space between any two. -/
private def Prints (lexemes : List Lexeme) (text : Text) : Prop :=
  ∀ rest, Spaced (fun _ => True) (lexemes.map Lexeme.word) (text ++ rest) rest

namespace Prints

variable {lexemes lexemes' : List Lexeme} {text text' run : Text}

private theorem append (front : Prints lexemes text) (back : Prints lexemes' text') :
    Prints (lexemes ++ lexemes') (text ++ text') := by
  intro rest
  rw [List.map_append, List.append_assoc]
  exact Spaced.append_iff.mpr ⟨_, front (text' ++ rest), back rest⟩

private theorem single (lexeme : Lexeme) : Prints [lexeme] lexeme.word := fun _ =>
  @Spaced.cons _ [] _ _ _ _ nofun trivial .nil

private theorem after (filled : lexemes ≠ []) (blank : ∀ c ∈ run, CharClass.isBlank c = true)
    (prints : Prints lexemes text) : Prints lexemes (run ++ text) := by
  intro rest
  rw [List.append_assoc]
  cases lexemes with
  | nil => exact absurd rfl filled
  | cons lexeme lexemes => exact (prints rest).after blank

end Prints

private theorem blank_newLine (level : Nat) : ∀ c ∈ newLine level, CharClass.isBlank c = true := by
  refine List.forall_mem_cons.mpr ⟨rfl, fun c member => ?_⟩
  rw [List.eq_of_mem_replicate member]
  rfl

/-- A value is printed as a document that stands for it. -/
private def Value.Printed (level : Nat) (value : Value) : Prop :=
  ∃ document : Document, document.Denotes value ∧ Prints document.lexemes (print level value)

private theorem Document.lexemes_ne_nil (document : Document) : document.lexemes ≠ [] := by
  cases document <;> simp [Document.lexemes]

private theorem Elements.lexemes_ne_nil (elements : Elements) : elements.lexemes ≠ [] := by
  cases elements <;> simp [Elements.lexemes, Document.lexemes_ne_nil]

private theorem Members.lexemes_ne_nil (members : Members) : members.lexemes ≠ [] := by
  cases members <;> simp [Members.lexemes]

/-- Items are printed as elements that stand for them. -/
private theorem exists_elements {level : Nat} {item : Value} {more : List Value}
    (each : ∀ other ∈ item :: more, other.Printed (level + 1)) :
    ∃ elements : Elements, elements.Denote (item :: more) ∧
      Prints elements.lexemes (print (level + 1) item ++ printItems level more) := by
  induction more generalizing item with
  | nil =>
    obtain ⟨document, denotes, prints⟩ := each item (List.mem_cons_self ..)
    refine ⟨.last document, .last denotes, ?_⟩
    rwa [printItems, List.append_nil]
  | cons next more ih =>
    obtain ⟨⟨document, denotes, prints⟩, others⟩ := List.forall_mem_cons.mp each
    obtain ⟨elements, denote, prints'⟩ := ih others
    refine ⟨.more document elements, .more denotes denote, ?_⟩
    have later := (Prints.single (.mark ",")).append
      (prints'.after elements.lexemes_ne_nil (blank_newLine (level + 1)))
    have same : printItems level (next :: more) =
        ",".toList ++ (newLine (level + 1) ++ (print (level + 1) next ++ printItems level more)) := by
      simp [printItems]
    rw [same]
    exact prints.append later

private theorem stringOf_printString (text : String) :
    stringOf (printString text) = .ok text := by
  rw [stringOf, readString?_printString]

/-- A key and the value after it are printed as the tokens of a member. -/
private theorem prints_member {name : String} {text : Text} {lexemes : List Lexeme}
    (filled : lexemes ≠ []) (prints : Prints lexemes text) :
    Prints (.string (printString name) :: .mark ":" :: lexemes)
      (printString name ++ [':', ' '] ++ text) := by
  have blank : ∀ c ∈ [' '], CharClass.isBlank c = true := List.forall_mem_singleton.mpr rfl
  have tokens := (Prints.single (.string (printString name))).append
    ((Prints.single (.mark ":")).append (prints.after filled blank))
  have same : printString name ++ [':', ' '] ++ text =
      printString name ++ (":".toList ++ ([' '] ++ text)) := by simp
  rw [same]
  exact tokens

/-- Members are printed as members that stand for them. -/
private theorem exists_members {level : Nat} {name : String} {value : Value}
    {more : List (String × Value)}
    (each : ∀ member ∈ (name, value) :: more,
      delete ∉ member.1.toList ∧ member.2.Printed (level + 1)) :
    ∃ members : Members, members.Denote ((name, value) :: more) ∧
      Prints members.lexemes (printString name ++ [':', ' '] ++ print (level + 1) value ++
        printMembers level more) := by
  induction more generalizing name value with
  | nil =>
    obtain ⟨kept, document, denotes, prints⟩ := each _ (List.mem_cons_self ..)
    refine ⟨.last ⟨_, whole_printString kept⟩ document,
      .last (stringOf_printString name) denotes, ?_⟩
    rw [printMembers, List.append_nil]
    exact prints_member document.lexemes_ne_nil prints
  | cons next more ih =>
    obtain ⟨⟨kept, document, denotes, prints⟩, others⟩ := List.forall_mem_cons.mp each
    obtain ⟨members, denote, prints'⟩ := ih others
    refine ⟨.more ⟨_, whole_printString kept⟩ document members,
      .more (stringOf_printString name) denotes denote, ?_⟩
    have later := (Prints.single (.mark ",")).append
      (prints'.after members.lexemes_ne_nil (blank_newLine (level + 1)))
    have same : printMembers level (next :: more) =
        ",".toList ++ (newLine (level + 1) ++ (printString next.1 ++ [':', ' '] ++
          print (level + 1) next.2 ++ printMembers level more)) := by
      simp [printMembers]
    rw [same]
    exact (prints_member document.lexemes_ne_nil prints).append later

/-- A list between marks is printed on lines of its own. -/
private theorem prints_between {left right : String} {lexemes : List Lexeme} {text : Text}
    (level : Nat) (filled : lexemes ≠ []) (prints : Prints lexemes text) :
    Prints (.mark left :: (lexemes ++ [.mark right]))
      (left.toList ++ (newLine (level + 1) ++ text ++ (newLine level ++ right.toList))) :=
  (Prints.single (.mark left)).append
    ((prints.after filled (blank_newLine _)).append
      ((Prints.single (.mark right)).after (List.cons_ne_nil _ _) (blank_newLine _)))

/-- Sorted entries are their own last members. -/
private theorem lastHolds_self {entries : List (String × Value)}
    (sorted : entries.Pairwise fun first second => first.1 < second.1) :
    LastHolds entries entries := by
  refine ⟨sorted, fun name => ?_⟩
  induction entries with
  | nil => rfl
  | cons entry entries ih =>
    obtain ⟨below, sorted⟩ := List.pairwise_cons.mp sorted
    rw [List.reverse_cons, Table.lookupEntry_append, ← ih sorted]
    simp only [Table.lookupEntry]
    split
    · rename_i same
      cases found : Table.lookupEntry name entries with
      | none => rfl
      | some value =>
        exact absurd same (String.ne_of_lt (below _ (Table.lookupEntry_mem found)))
    · exact Option.or_none.symm

/-- A part that is printed as it will be read. -/
private def Value.Kept (part : Value) : Prop :=
  part.Regular ∧ part.isFloat = false ∧ ∀ text ∈ part.texts, delete ∉ text.toList

/-- Every value of regular parts is printed as a document that stands for it, if none of the parts
is a floating-point number or has U+007F in a string. -/
private theorem exists_document : ∀ (value : Value) (level : Nat),
    (∀ part ∈ value.parts, part.Kept) → value.Printed level
  | .null, level, _ => ⟨.null, .null, Prints.single _⟩
  | .bool true, level, _ => ⟨.bool true, .bool, Prints.single _⟩
  | .bool false, level, _ => ⟨.bool false, .bool, Prints.single _⟩
  | .integer value, level, kept => by
      have fits : Fits value := (kept _ (Value.mem_parts _)).1
      have decodes : numberOf (printInteger value) = .ok (.integer value) := by
        rw [numberOf, readNumber?, readInteger?_printInteger fits]
      exact ⟨.number ⟨_, whole_printInteger value⟩, .number decodes, Prints.single (.number _)⟩
  | .float value, level, kept => by cases (kept _ (Value.mem_parts _)).2.1
  | .string text, level, kept => by
      have plain := (kept _ (Value.mem_parts _)).2.2 text (List.mem_singleton_self _)
      exact ⟨.string ⟨_, whole_printString plain⟩, .string (stringOf_printString text),
        Prints.single (.string _)⟩
  | .array [], level, _ =>
      ⟨.emptyArray, .emptyArray, (Prints.single (.mark "[")).append (Prints.single (.mark "]"))⟩
  | .array (item :: more), level, kept => by
      have each : ∀ other ∈ item :: more, other.Printed (level + 1) := fun other member =>
        exists_document other (level + 1) fun part inside =>
          kept part (List.mem_cons_of_mem _ (mem_partsOfItems.mpr ⟨other, member, inside⟩))
      obtain ⟨elements, denote, prints⟩ := exists_elements each
      refine ⟨.array elements, .array denote, ?_⟩
      have lines := @prints_between "[" "]" _ _ level elements.lexemes_ne_nil prints
      simpa [print, Document.lexemes] using lines
  | .object [], level, _ =>
      ⟨.emptyObject, .emptyObject,
        (Prints.single (.mark "\x7b")).append (Prints.single (.mark "\x7d"))⟩
  | .object ((name, value) :: more), level, kept => by
      obtain ⟨sorted, -, plain⟩ := kept _ (Value.mem_parts _)
      have each : ∀ member ∈ (name, value) :: more,
          delete ∉ member.1.toList ∧ member.2.Printed (level + 1) := fun member among =>
        ⟨plain _ (List.mem_map_of_mem among), exists_document member.2 (level + 1)
          fun part inside =>
            kept part (List.mem_cons_of_mem _ (mem_partsOfMembers.mpr ⟨member, among, inside⟩))⟩
      obtain ⟨members, denote, prints⟩ := exists_members each
      refine ⟨.object members, .object denote (lastHolds_self sorted), ?_⟩
      have lines := @prints_between "\x7b" "\x7d" _ _ level members.lexemes_ne_nil prints
      simpa [print, Document.lexemes] using lines
termination_by value => sizeOf value
decreasing_by
  · exact sizeOf_item member
  · exact sizeOf_member among

/-- The written form of a value is decoded into the value, with white space after it or not. -/
theorem decode_pretty {value : Value} (regular : ∀ part ∈ value.parts, part.Regular)
    (whole : value.hasFloat = false) (kept : value.hasDelete = false) {rest : Text}
    (blank : ∀ c ∈ rest, CharClass.isBlank c = true) :
    decode (value.pretty ++ rest) = .ok value := by
  have each : ∀ part ∈ value.parts, part.Kept := by
    intro part inside
    refine ⟨regular part inside, ?_, fun text among member => ?_⟩
    · exact Bool.eq_false_iff.mpr (List.any_eq_false.mp whole part inside)
    · have none := List.any_eq_false.mp kept part inside
      exact none (List.any_eq_true.mpr ⟨text, among, List.contains_iff_mem.mpr member⟩)
  obtain ⟨document, denotes, prints⟩ := exists_document value 0 each
  have writes : document.Writes (value.pretty ++ rest) := ⟨rest, prints rest, blank⟩
  rw [decode_of_writes writes]
  exact Document.read_eq_ok_iff.mpr denotes

end Printed

section Deletes

private theorem mem_printItems {c : Char} {level : Nat} {item : Value} {items : List Value}
    (member : item ∈ items) (inside : c ∈ print (level + 1) item) :
    c ∈ printItems level items := by
  induction items with
  | nil => cases member
  | cons other items ih =>
    rw [printItems]
    rcases List.mem_cons.mp member with rfl | member
    · simp [inside]
    · simp [ih member]

private theorem mem_printMembers {c : Char} {level : Nat} {entry : String × Value}
    {members : List (String × Value)} (member : entry ∈ members)
    (inside : c ∈ printString entry.1 ∨ c ∈ print (level + 1) entry.2) :
    c ∈ printMembers level members := by
  induction members with
  | nil => cases member
  | cons other members ih =>
    rw [printMembers]
    rcases List.mem_cons.mp member with rfl | member
    · rcases inside with inside | inside <;> simp [inside]
    · simp [ih member]

private theorem mem_print_array {c : Char} {level : Nat} {item : Value} {items : List Value}
    (member : item ∈ items) (inside : c ∈ print (level + 1) item) :
    c ∈ print level (.array items) := by
  cases items with
  | nil => cases member
  | cons first items =>
    rw [print]
    rcases List.mem_cons.mp member with rfl | member
    · simp [inside]
    · simp [mem_printItems member inside]

private theorem mem_print_object {c : Char} {level : Nat} {entry : String × Value}
    {members : List (String × Value)} (member : entry ∈ members)
    (inside : c ∈ printString entry.1 ∨ c ∈ print (level + 1) entry.2) :
    c ∈ print level (.object members) := by
  cases members with
  | nil => cases member
  | cons first members =>
    rw [print]
    rcases List.mem_cons.mp member with rfl | member
    · rcases inside with inside | inside <;> simp [inside]
    · simp [mem_printMembers member inside]

/-- What stands in a string of a value and is not escaped stands in what is printed. -/
private theorem delete_mem_print : ∀ (value : Value) (level : Nat), ∀ part ∈ value.parts,
    ∀ text ∈ part.texts, delete ∈ text.toList → delete ∈ print level value
  | .array items, level, part, inside, text, among, member => by
      rcases List.mem_cons.mp inside with rfl | inside
      · cases among
      · obtain ⟨item, listed, inside⟩ := mem_partsOfItems.mp inside
        exact mem_print_array listed
          (delete_mem_print item (level + 1) part inside text among member)
  | .object members, level, part, inside, text, among, member => by
      rcases List.mem_cons.mp inside with rfl | inside
      · obtain ⟨entry, listed, rfl⟩ := List.mem_map.mp among
        exact mem_print_object listed (.inl (mem_printString member))
      · obtain ⟨entry, listed, inside⟩ := mem_partsOfMembers.mp inside
        exact mem_print_object listed
          (.inr (delete_mem_print entry.2 (level + 1) part inside text among member))
  | .string other, level, part, inside, text, among, member => by
      cases List.mem_singleton.mp inside
      cases List.mem_singleton.mp among
      exact mem_printString member
  | .null, _, part, inside, _, among, _ => by
      cases List.mem_singleton.mp inside
      cases among
  | .bool _, _, part, inside, _, among, _ => by
      cases List.mem_singleton.mp inside
      cases among
  | .integer _, _, part, inside, _, among, _ => by
      cases List.mem_singleton.mp inside
      cases among
  | .float _, _, part, inside, _, among, _ => by
      cases List.mem_singleton.mp inside
      cases among
termination_by value => sizeOf value
decreasing_by
  · exact sizeOf_item listed
  · exact sizeOf_member listed

theorem delete_mem_pretty {value : Value} (held : value.hasDelete = true) :
    delete ∈ value.pretty := by
  obtain ⟨part, inside, some⟩ := List.any_eq_true.mp held
  obtain ⟨text, among, member⟩ := List.any_eq_true.mp some
  exact delete_mem_print value 0 part inside text among (List.contains_iff_mem.mp member)

/-- No token has U+007F. -/
private theorem delete_not_mem_word {lexeme : Lexeme} (known : lexeme.Known) :
    delete ∉ lexeme.word := by
  cases lexeme with
  | mark text =>
    have each : ∀ text ∈ (["\x7b", "\x7d", "[", "]", ":", ",", "true", "false", "null"] :
        List String), delete ∉ text.toList := by decide
    exact each text known
  | string raw => exact delete_not_mem_string known
  | number raw => exact delete_not_mem_number known

/-- What is no blank and in no word is not in a text of words either. -/
private theorem not_mem_of_spaced {c : Char} {joins : Text → Prop} {words : List Text}
    {text rest : Text} (spaced : Spaced joins words text rest) (solid : CharClass.isBlank c = false)
    (each : ∀ word ∈ words, c ∉ word) (last : c ∉ rest) : c ∉ text := by
  induction spaced with
  | nil => exact last
  | cons blank _ _ ih =>
    obtain ⟨here, others⟩ := List.forall_mem_cons.mp each
    refine List.not_mem_append (fun member => ?_) (List.not_mem_append here (ih others last))
    rw [blank c member] at solid
    cases solid

/-- No document has a text with U+007F. -/
theorem not_writes_of_delete {text : Text} (member : delete ∈ text) :
    ¬ ∃ document : Document, document.Writes text := by
  rintro ⟨document, rest, spaced, blank⟩
  have solid : CharClass.isBlank delete = false := by decide
  refine not_mem_of_spaced spaced solid (fun word among => ?_) (fun last => ?_) member
  · obtain ⟨lexeme, listed, rfl⟩ := List.mem_map.mp among
    exact delete_not_mem_word (document.known lexeme listed)
  · rw [blank _ last] at solid
    cases solid

end Deletes

section Runs

variable {arguments : List String}

private theorem normalize_false (text : Text) :
    normalize false text = (decode text).map Value.pretty := by
  rw [normalize, decode]
  cases parser.parseAll "value" text <;> rfl

private theorem fromUTF8?_toUTF8 (text : String) : String.fromUTF8? text.toUTF8 = some text := by
  simp [String.fromUTF8?, String.fromUTF8, text.isValidUTF8]

section Report

variable (plain : arguments.contains "--tree" = false)

include plain

/-- Without `--tree`, a value is printed in normal form. -/
theorem command_of_decode {input : ByteArray} {text : String}
    (read : String.fromUTF8? input = some text) {value : Value}
    (decoded : decode text.toList = .ok value) :
    command arguments input = .success value.pretty := by
  simp only [command, read, plain, normalize_false, decoded, Except.map]

/-- A run that ends well has read a value. -/
theorem decode_of_command {input : ByteArray} (done : (command arguments input).exitCode = 0) :
    ∃ text value, String.fromUTF8? input = some text ∧ decode text.toList = .ok value := by
  cases read : String.fromUTF8? input with
  | none =>
    simp only [command, read] at done
    cases done
  | some text =>
    cases decoded : decode text.toList with
    | ok value => exact ⟨text, value, rfl, decoded⟩
    | error fault =>
      simp only [command, read, plain, normalize_false, decoded, Except.map] at done
      cases done

/-- A text with U+007F is no text of a value. -/
theorem command_of_delete {text : Text} (member : delete ∈ text) :
    (command arguments (String.ofList text).toUTF8).exitCode = 1 := by
  obtain ⟨position, message, rejects⟩ := parseAll_of_not_writes (not_writes_of_delete member)
  have failed : decode text = .error (.rejected "value" position message) := by
    rw [decode, rejects]
    rfl
  simp only [command, fromUTF8?_toUTF8, plain, normalize_false, String.toList_ofList, failed,
    Except.map]
  rfl

/-- What was printed for a value is printed again. -/
theorem command_of_pretty {value : Value} (regular : ∀ part ∈ value.parts, part.Regular)
    (whole : value.hasFloat = false) (kept : value.hasDelete = false) :
    command arguments (Report.success value.pretty).output.toUTF8 = .success value.pretty := by
  have decoded : decode (String.ofList (value.pretty ++ ['\n'])).toList = .ok value := by
    rw [String.toList_ofList]
    exact decode_pretty regular whole kept (List.forall_mem_singleton.mpr rfl)
  exact command_of_decode plain (fromUTF8?_toUTF8 _) decoded

end Report

/-- A run without `--tree` that ends well has read a value and has printed it. On what it printed
the command ends well again and prints the same if no floating-point number is in the value, unless
U+007F stands in a string or in a key. Then it fails. -/
theorem command_settles (plain : arguments.contains "--tree" = false) {input : ByteArray}
    (done : (command arguments input).exitCode = 0) :
    ∃ text value, String.fromUTF8? input = some text ∧ decode text.toList = .ok value ∧
      (value.hasFloat = false → value.hasDelete = false →
        command arguments (command arguments input).output.toUTF8 = command arguments input) ∧
      (value.hasDelete = true →
        (command arguments (command arguments input).output.toUTF8).exitCode = 1) := by
  obtain ⟨text, value, read, decoded⟩ := decode_of_command plain done
  have printed := command_of_decode plain read decoded
  -- that the value was decoded is what makes its numbers fit and its keys sorted
  refine ⟨text, value, read, decoded, fun whole kept => ?_, fun held => ?_⟩
  · rw [printed]
    exact command_of_pretty plain (regular_of_decode decoded) whole kept
  · rw [printed]
    exact command_of_delete plain (List.mem_append_left _ (delete_mem_pretty held))

theorem command_settles_repeated_key :
    let input := "\x7b\"b\":0,\"b\":[-5,\"\\u0041\"],\"a\":null\x7d".toUTF8
    (command [] input).exitCode = 0 ∧
      command [] (command [] input).output.toUTF8 = command [] input := by
  intro input
  have key : stringPattern.Whole "\"b\"".toList := @whole_printString "b" (by decide)
  have other : stringPattern.Whole "\"a\"".toList := @whole_printString "a" (by decide)
  have letter : stringPattern.Whole "\"\\u0041\"".toList :=
    stringPattern_whole_iff.mpr ⟨[.unit '0' '0' '4' '1' rfl], rfl⟩
  let items : Elements :=
    .more (.number ⟨_, whole_printInteger (-5)⟩) (.last (.string ⟨_, letter⟩))
  let document : Document := .object (.more ⟨_, key⟩ (.number ⟨_, whole_printInteger 0⟩)
    (.more ⟨_, key⟩ (.array items) (.last ⟨_, other⟩ .null)))
  let array : Value := .array [.integer (-5), .string "A"]
  have denotes : document.Denotes (.object [("a", .null), ("b", array)]) := by
    have zero : numberOf (printInteger 0) = .ok (.integer 0) := rfl
    have five : numberOf (printInteger (-5)) = .ok (.integer (-5)) := rfl
    have text : stringOf "\"\\u0041\"".toList = .ok "A" := by decide +kernel
    refine .object (.more (stringOf_printString "b") (.number zero)
      (.more (stringOf_printString "b") (.array (.more (.number five) (.last (.string text))))
        (.last (stringOf_printString "a") .null))) ⟨?_, fun name => ?_⟩
    · exact List.pairwise_pair.mpr (by decide)
    · by_cases first : "a" = name <;> by_cases second : "b" = name <;>
        simp [Table.lookupEntry, first, second, array]
  have decoded : decode "\x7b\"b\":0,\"b\":[-5,\"\\u0041\"],\"a\":null\x7d".toList =
      .ok (.object [("a", .null), ("b", array)]) :=
    (decode_of_writes document.writes_flatten).trans (Document.read_eq_ok_iff.mpr denotes)
  have done : (command [] input).exitCode = 0 := by
    rw [command_of_decode rfl (fromUTF8?_toUTF8 _) decoded]
    rfl
  obtain ⟨text, value, read, decoded', again, -⟩ := command_settles rfl done
  cases (fromUTF8?_toUTF8 _).symm.trans read
  cases decoded.symm.trans decoded'
  exact ⟨done, again rfl (by decide)⟩

/-- U+007F from an escape is printed as it is, and what was printed is rejected. -/
theorem command_escaped_delete :
    decode "\"\\u007f\"".toList = .ok (.string "\x7f") ∧
      (Value.string "\x7f").hasFloat = false ∧
      command [] "\"\\u007f\"".toUTF8 = ⟨0, "\"\x7f\"\n", ""⟩ ∧
      (command [] "\"\x7f\"\n".toUTF8).exitCode = 1 := by
  have whole : stringPattern.Whole "\"\\u007f\"".toList :=
    stringPattern_whole_iff.mpr ⟨[.unit '0' '0' '7' 'f' rfl], rfl⟩
  have text : stringOf "\"\\u007f\"".toList = .ok "\x7f" := by decide +kernel
  have denotes : (Document.string ⟨_, whole⟩).Denotes (.string "\x7f") := .string text
  have decoded : decode "\"\\u007f\"".toList = .ok (.string "\x7f") :=
    (decode_of_writes (Document.writes_flatten (.string ⟨_, whole⟩))).trans
      (Document.read_eq_ok_iff.mpr denotes)
  have printed : Report.success (Value.string "\x7f").pretty = ⟨0, "\"\x7f\"\n", ""⟩ := by
    decide +kernel
  have rejected : (command [] (String.ofList ['"', '\x7f', '"', '\n']).toUTF8).exitCode = 1 :=
    command_of_delete rfl (by decide)
  exact ⟨decoded, rfl, (command_of_decode rfl (fromUTF8?_toUTF8 _) decoded).trans printed, rejected⟩

end Runs

end Packrat.Json
