import Packrat.Proofs.Bytes.Machine
import Packrat.Proofs.Evaluation

/-! # Every slice can be cut

Between two cursors of one text a slice can be cut, whatever it is cut for. If the engine finds
boundaries only, then what is ignored ends at a cursor of the text, and a terminal gives a match or
a reject at one, as `Cursor.skip` and `Terminal.eval` do with the engine of the patterns.
-/

namespace Packrat

namespace Miscut

variable {α β : Type}

/-- Where a slice can be cut the evaluation goes on. -/
@[simp] theorem ok_bind (value : α) (next : α → Except Miscut β) :
    (Except.ok value >>= next) = next value := rfl

@[simp] theorem ok_map (value : α) (form : α → β) :
    (Except.ok value : Except Miscut α).map form = .ok (form value) := rfl

end Miscut

/-- A token lies in a text if its characters are those between its ends, which are boundaries. -/
def Token.LiesIn (text : Text) (token : Token) : Prop :=
  text.between? token.start token.stop = some token.text

mutual

/-- The tokens below a tree, sentinels among them. -/
def Tree.leaves : Tree → List Token
  | .token leaf => [leaf]
  | .named _ node => node.leaves
  | .array nodes => Tree.leavesAll nodes

/-- The tokens below several trees. -/
def Tree.leavesAll : List Tree → List Token
  | [] => []
  | node :: more => node.leaves ++ Tree.leavesAll more

end

/-- The number of bytes before a cursor in its text. -/
def Cursor.bytes (ignore : List LexRule) (cursor : Cursor) : ByteCursor :=
  ⟨cursor.text, cursor.offset, ignore⟩

@[simp] theorem Cursor.bytes_buffer (ignore : List LexRule) (cursor : Cursor) :
    (cursor.bytes ignore).buffer = cursor.text := rfl

@[simp] theorem Cursor.bytes_offset (ignore : List LexRule) (cursor : Cursor) :
    (cursor.bytes ignore).offset = cursor.offset := rfl

@[simp] theorem Cursor.bytes_ignore (ignore : List LexRule) (cursor : Cursor) :
    (cursor.bytes ignore).ignore = ignore := rfl

/-- A match with the number of bytes before its cursor. -/
def Match.bytes (ignore : List LexRule) (found : Match) : ByteMatch :=
  ⟨found.cursor.bytes ignore, found.node⟩

/-- A reject with the number of bytes before its cursor. -/
def Reject.bytes (ignore : List LexRule) (reject : Reject) : ByteReject :=
  ⟨reject.cursor.bytes ignore, reject.reason, reject.kind⟩

namespace Outcome

/-- An outcome with the number of bytes before its cursor. -/
def bytes (ignore : List LexRule) : Outcome → ByteOutcome
  | .ok found => .ok (found.bytes ignore)
  | .error reject => .error (reject.bytes ignore)

/-- The outcome is a match or a reject at a place that the cursor leads to, and the tokens of a
match lie in the text. -/
def Proper (cursor : Cursor) : Outcome → Prop
  | .ok found => cursor.LeadsTo found.cursor ∧ ∀ leaf ∈ found.node.leaves, leaf.LiesIn cursor.text
  | .error reject => cursor.LeadsTo reject.cursor

end Outcome

/-- A text without bytes is one without characters. -/
theorem Text.byteLength_pos (text : Text) : 0 < text.byteLength ↔ 0 < text.length := by
  cases text with
  | nil => simp
  | cons c rest => simp [Nat.add_pos_left c.utf8Size_pos]

theorem Text.isBoundary_byteLength_take (text : Text) (count : Nat) :
    text.IsBoundary (byteLength (text.take count)) :=
  (isBoundary_iff _ _).mpr ⟨count, rfl⟩

/-- No boundary is past the end. -/
theorem Text.IsBoundary.le_byteLength {text : Text} {bytes : Nat}
    (boundary : text.IsBoundary bytes) : bytes ≤ text.byteLength := by
  obtain ⟨count, rfl⟩ := (isBoundary_iff _ _).mp boundary
  calc
    byteLength (text.take count) ≤ byteLength (text.take count) + byteLength (text.drop count) :=
      Nat.le_add_right ..
    _ = text.byteLength := by rw [← byteLength_append, List.take_append_drop]

namespace Engine

/-- The engine that runs the program of the pattern finds boundaries only. -/
theorem embedded_sound : embedded.Sound := by
  intro pattern text stop found
  obtain ⟨count, -, rfl⟩ := Option.map_eq_some_iff.mp found
  exact text.isBoundary_byteLength_take count

end Engine

namespace LexRule

variable {engine : Engine} {rule : LexRule} {caseless : Bool} {text : Text}

/-- What is alike takes as many bytes as its characters have in the text, not in the literal. -/
theorem alikeLength?_eq (expected text : Text) :
    alikeLength? expected text =
      if beginsAlike expected text then some (Text.byteLength (text.take expected.length))
      else none := by
  induction expected generalizing text with
  | nil => rfl
  | cons expected others ih =>
    cases text with
    | nil => rfl
    | cons actual text =>
      simp only [alikeLength?, beginsAlike, ih, Bool.and_eq_true]
      by_cases first : alike expected actual = true
      · by_cases more : beginsAlike others text = true <;> simp [first, more]
      · simp [first]

/-- What a literal takes with regard to case is as long in the text. -/
theorem byteLength_begin {expected text : Text} (begins : expected.isPrefixOf text = true) :
    expected.byteLength = Text.byteLength (text.take expected.length) := by
  obtain ⟨rest, rfl⟩ := List.isPrefixOf_iff_prefix.mp begins
  rw [List.take_left' rfl]

/-- A rule takes whole characters. -/
theorem lengthBy?_eq_some (sound : engine.Sound) {length : Nat}
    (taken : rule.lengthBy? engine caseless text = some length) :
    ∃ count, length = Text.byteLength (text.take count) := by
  cases rule with
  | pattern tried =>
    obtain ⟨count, same⟩ := (Text.isBoundary_iff _ _).mp (sound tried text length taken)
    exact ⟨count, same.symm⟩
  | literal expected =>
    refine ⟨expected.length, ?_⟩
    simp only [lengthBy?, alikeLength?_eq] at taken
    split at taken
    · split at taken
      · exact (Option.some.inj taken).symm
      · cases taken
    · split at taken
      · rename_i begins
        exact (Option.some.inj taken).symm.trans (byteLength_begin begins)
      · cases taken

/-- With the engine of the patterns a rule takes the bytes of the characters that it takes. -/
theorem lengthBy?_embedded (rule : LexRule) (caseless : Bool) (text : Text) :
    rule.lengthBy? .embedded caseless text = rule.matchLength? caseless text := by
  cases rule with
  | pattern tried => rfl
  | literal expected =>
    simp only [lengthBy?, alikeLength?_eq, matchLength?, matchCount?]
    cases caseless with
    | true =>
      simp only [if_true]
      cases beginsAlike expected text <;> rfl
    | false =>
      simp only [Bool.false_eq_true, if_false]
      cases begins : expected.isPrefixOf text with
      | true => exact congrArg some (byteLength_begin begins)
      | false => rfl

end LexRule

namespace Cursor

variable {cursor later : Cursor}

theorem charsWithin_offset (cursor : Cursor) :
    cursor.text.charsWithin cursor.offset = cursor.before.length := by
  have front : cursor.text.take cursor.before.length = cursor.before.reverse := by simp [text]
  have counted := Text.charsWithin_byteLength_take cursor.text cursor.before.length
  rw [front, Text.byteLength_reverse, ← cursor.offset_eq] at counted
  rw [counted, text, List.length_append, List.length_reverse]
  omega

/-- Between two cursors the text is what the first has to read up to the second. -/
theorem between?_forward (cursor : Cursor) (count : Nat) :
    cursor.text.between? cursor.offset (cursor.forward count).offset =
      some (cursor.rest.take count) := by
  have boundary : cursor.text.IsBoundary (cursor.forward count).offset :=
    text_forward cursor count ▸ (cursor.forward count).isBoundary_offset
  have stop := charsWithin_offset (cursor.forward count)
  rw [text_forward] at stop
  have read : (cursor.forward count).before.length - cursor.before.length =
      (cursor.rest.take count).length := by simp [forward]
  have front : cursor.text.drop cursor.before.length = cursor.rest :=
    List.drop_left' (List.length_reverse ..)
  rw [Text.between?, if_pos ⟨(LeadsTo.forward ..).offset_le, cursor.isBoundary_offset, boundary⟩,
    stop, charsWithin_offset, List.drop_take, front, read, List.length_take, List.take_eq_take_min,
    Nat.min_assoc, Nat.min_self, ← List.take_eq_take_min]

/-- The number of bytes determines what is read next. -/
theorem forward_congr (cursor : Cursor) {count count' : Nat}
    (long : Text.byteLength (cursor.rest.take count) =
      Text.byteLength (cursor.rest.take count')) :
    cursor.forward count = cursor.forward count' ∧
      cursor.rest.take count = cursor.rest.take count' := by
  have there : cursor.forward count = cursor.forward count' :=
    eq_of_offset (by simp) (congrArg (cursor.offset + ·) long)
  have read := cursor.between?_forward count
  rw [there, between?_forward] at read
  exact ⟨there, (Option.some.inj read).symm⟩

/-- The token of what is read next lies in the text. -/
theorem liesIn_forward (cursor : Cursor) (kind : TokenKind) (count : Nat) :
    Token.LiesIn cursor.text ⟨kind, cursor.rest.take count, cursor.offset⟩ :=
  cursor.between?_forward count

end Cursor

namespace ByteCursor

variable {cursor later : Cursor}

theorem slice_eq_ok {whole : ByteCursor} {start stop : Nat} {text : Text}
    (cut : whole.buffer.between? start stop = some text) :
    whole.slice start stop = .ok ⟨whole.buffer, start, stop, text, cut⟩ := by
  unfold slice Slice.of?
  split <;> rename_i found <;> split at found <;> rename_i cut' <;>
    cases cut'.symm.trans cut <;> cases found
  rfl

/-- The token of what lies between two cursors can be cut. -/
theorem token_bytes (ignore : List LexRule) (cursor : Cursor) (kind : TokenKind) (count : Nat) :
    (cursor.bytes ignore).token kind cursor.offset (cursor.forward count).offset =
      .ok ⟨kind, cursor.rest.take count, cursor.offset⟩ := by
  rw [token, slice_eq_ok (cursor.between?_forward count), Miscut.ok_map]

theorem sentinel_bytes (ignore : List LexRule) (cursor : Cursor) (kind : TokenKind) :
    (cursor.bytes ignore).token kind cursor.offset cursor.offset =
      .ok ⟨kind, [], cursor.offset⟩ := by
  have none := token_bytes ignore cursor kind 0
  rwa [Cursor.forward_zero, List.take_zero] at none

/-- What is left at a cursor can be cut. -/
theorem textFrom_bytes (ignore : List LexRule) (same : later.text = cursor.text) :
    (cursor.bytes ignore).textFrom later.offset = .ok later.rest := by
  have ended : (later.forward later.rest.length).offset = cursor.text.byteLength := by
    simp [← same, Cursor.byteLength_text, Cursor.forward]
  have cut := later.between?_forward later.rest.length
  rw [ended, List.take_length, same] at cut
  rw [textFrom, Cursor.bytes_buffer, slice_eq_ok cut, Miscut.ok_map]

theorem moveTo_bytes (ignore : List LexRule) (same : later.text = cursor.text) :
    (cursor.bytes ignore).moveTo later.offset = later.bytes ignore := by
  have boundary : cursor.text.floorBoundary later.offset = later.offset :=
    same ▸ later.isBoundary_offset
  simp only [moveTo, Cursor.bytes, boundary, same]

theorem advance_bytes (ignore : List LexRule) (cursor : Cursor) (count : Nat) :
    (cursor.bytes ignore).advance (Text.byteLength (cursor.rest.take count)) =
      (cursor.forward count).bytes ignore :=
  moveTo_bytes ignore (Cursor.text_forward cursor count)

theorem start_moveTo (text : Text) (ignore : List LexRule) (offset : Nat) :
    (start text ignore).moveTo offset = ((Cursor.start text).seek offset).bytes ignore := by
  simp only [moveTo, start, Cursor.bytes, Cursor.text_seek, Cursor.offset_seek, Cursor.text_start]

theorem atEnd_bytes (ignore : List LexRule) (cursor : Cursor) :
    (cursor.bytes ignore).atEnd = cursor.atEnd := by
  have long := cursor.byteLength_text
  cases left : cursor.rest with
  | nil =>
    rw [left] at long
    simp [atEnd, Cursor.atEnd, Cursor.bytes, left, long]
  | cons c rest =>
    have := c.utf8Size_pos
    rw [left, Text.byteLength_cons] at long
    exact (decide_eq_false (show ¬ cursor.text.byteLength ≤ cursor.offset by omega)).trans
      (by rw [Cursor.atEnd, left, List.isEmpty_cons])

/-- The first rule to ignore anything takes whole characters. -/
theorem ignored_eq_some {engine : Engine} (sound : engine.Sound) {ignore : List LexRule}
    {text : Text} {length : Nat}
    (taken : (ignore.findSome? fun rule =>
      (rule.lengthBy? engine false text).filter (0 < ·)) = some length) :
    0 < length ∧ ∃ count, length = Text.byteLength (text.take count) := by
  obtain ⟨rule, -, taken⟩ := List.exists_of_findSome?_eq_some taken
  obtain ⟨taken, positive⟩ := Option.filter_eq_some_iff.mp taken
  exact ⟨by simpa using positive, LexRule.lengthBy?_eq_some sound taken⟩

/-- With the engine of the patterns it takes the bytes of the characters that are ignored. -/
theorem ignored_embedded (ignore : List LexRule) {text : Text} (left : text ≠ []) :
    (ignore.findSome? fun rule => (rule.lengthBy? .embedded false text).filter (0 < ·)) =
      (ignoredCount? ignore text).map fun count => Text.byteLength (text.take count) := by
  have positive : ∀ count, 0 < Text.byteLength (text.take count) ↔ 0 < count := by
    intro count
    rw [Text.byteLength_pos, List.length_take, Nat.lt_min]
    exact and_iff_left (List.length_pos_iff.mpr left)
  have alike : (fun length => decide (0 < length)) ∘
      (fun count => Text.byteLength (text.take count)) = fun count => decide (0 < count) :=
    funext fun count => decide_eq_decide.mpr (positive count)
  rw [ignoredCount?, List.map_findSome?]
  congr 1
  funext rule
  rw [LexRule.lengthBy?_embedded, LexRule.matchLength?, Option.filter_map, alike]
  rfl

/-- What is ignored ends at a cursor of the text, wherever in it the search is. -/
theorem skipFrom_bytes {engine : Engine} (sound : engine.Sound) (ignore : List LexRule)
    (cursor : Cursor) {fuel : Nat} {later : Cursor} (same : later.text = cursor.text)
    (enough : later.rest.byteLength ≤ fuel) :
    ∃ here, (cursor.bytes ignore).skipFrom engine fuel later.offset = .ok here.offset ∧
      later.LeadsTo here ∧ (engine = .embedded → here = later.skip ignore) := by
  have stop : ∀ {later : Cursor},
      (later.rest = [] ∨ (engine = .embedded → ignoredCount? ignore later.rest = none)) →
      later.LeadsTo later ∧ (engine = .embedded → later = later.skip ignore) := by
    intro later clear
    refine ⟨.refl later, fun same => (Cursor.skip_of_none ?_).symm⟩
    exact clear.imp_right (· same)
  induction fuel generalizing later with
  | zero =>
    have none : later.rest = [] := by
      have := later.rest.length_le_byteLength
      exact List.length_eq_zero_iff.mp (by omega)
    exact ⟨later, rfl, stop (.inl none)⟩
  | succ fuel ih =>
    have bounds := later.byteLength_text
    rw [same] at bounds
    rw [skipFrom]
    split
    · rename_i left
      rw [textFrom_bytes ignore same]
      have more : later.rest ≠ [] := by
        intro ended
        rw [ended] at bounds
        exact absurd left (by simp [Cursor.bytes, bounds])
      cases ignored : ignore.findSome? fun rule =>
          (rule.lengthBy? engine false later.rest).filter (0 < ·) with
      | none =>
        refine ⟨later, ?_, stop (.inr fun same => ?_)⟩
        · simp only [Miscut.ok_bind, Cursor.bytes_ignore, ignored]
          rfl
        · rw [same, ignored_embedded ignore more] at ignored
          exact Option.map_eq_none_iff.mp ignored
      | some length =>
        obtain ⟨positive, count, rfl⟩ := ignored_eq_some sound ignored
        have bounds' := (later.forward count).byteLength_text
        rw [Cursor.text_forward, same] at bounds'
        change _ = later.offset + _ + _ at bounds'
        obtain ⟨here, ran, leads, agrees⟩ :=
          ih ((Cursor.text_forward later count).trans same) (by omega)
        refine ⟨here, ?_, (Cursor.LeadsTo.forward later count).trans leads, fun same => ?_⟩
        · simp only [Miscut.ok_bind, Cursor.bytes_ignore, ignored]
          exact ran
        · rw [same, ignored_embedded ignore more] at ignored
          obtain ⟨count', ignored, long⟩ := Option.map_eq_some_iff.mp ignored
          rw [agrees same, (later.forward_congr long.symm).1, Cursor.skip_forward more ignored]
    · rename_i ended
      refine ⟨later, rfl, stop (.inl ?_)⟩
      have := later.rest.length_le_byteLength
      simp only [Cursor.bytes] at ended
      exact List.length_eq_zero_iff.mp (by omega)

/-- What is ignored ends at a cursor of the text. -/
theorem skip_bytes {engine : Engine} (sound : engine.Sound) (ignore : List LexRule)
    (cursor : Cursor) :
    ∃ here, (cursor.bytes ignore).skip engine = .ok (here.bytes ignore) ∧
      cursor.LeadsTo here ∧ (engine = .embedded → here = cursor.skip ignore) := by
  have enough : cursor.rest.byteLength ≤ cursor.text.byteLength - cursor.offset := by
    have := cursor.byteLength_text
    omega
  obtain ⟨here, ran, leads, agrees⟩ := skipFrom_bytes sound ignore cursor rfl enough
  refine ⟨here, ?_, leads, agrees⟩
  simp only [skip, Cursor.bytes_buffer, Cursor.bytes_offset, ran, Miscut.ok_map,
    moveTo_bytes ignore leads.text_eq]

/-- A rule is tried without a fault, and the token that comes of it lies in the text. -/
theorem scan_bytes {engine : Engine} (sound : engine.Sound) (ignore : List LexRule)
    (cursor : Cursor) (name : String) (rule : LexRule) (caseless : Bool) :
    ∃ token next, (cursor.bytes ignore).scan engine name rule caseless =
        .ok (token, next.bytes ignore) ∧
      cursor.LeadsTo next ∧ token.LiesIn cursor.text ∧
      (engine = .embedded → (token, next) = cursor.scan ignore name rule caseless) := by
  obtain ⟨here, skipped, leads, agrees⟩ := skip_bytes sound ignore cursor
  have left := textFrom_bytes ignore (rfl : here.text = here.text)
  have sentinel := sentinel_bytes ignore here
  have within : ∀ kind, Token.LiesIn cursor.text ⟨kind, [], here.offset⟩ := fun kind =>
    leads.text_eq ▸ here.liesIn_forward kind 0
  simp only [scan, skipped, Miscut.ok_bind, atEnd_bytes, Cursor.bytes_offset, sentinel, left]
  cases ended : here.atEnd with
  | true =>
    refine ⟨_, here, rfl, leads, within .eof, fun same => ?_⟩
    simp only [Cursor.scan, ← agrees same, ended, if_true, Token.eof]
  | false =>
    simp only [Bool.false_eq_true, if_false]
    cases tried : rule.lengthBy? engine caseless here.rest with
    | none =>
      refine ⟨_, here, rfl, leads, within .empty, fun same => ?_⟩
      rw [same, LexRule.lengthBy?_embedded, LexRule.matchLength?, Option.map_eq_none_iff] at tried
      simp only [Cursor.scan, ← agrees same, ended, tried, Bool.false_eq_true, if_false,
        Token.empty]
    | some length =>
      obtain ⟨count, rfl⟩ := LexRule.lengthBy?_eq_some sound tried
      refine ⟨⟨.rule name, here.rest.take count, here.offset⟩, here.forward count, ?_,
        leads.trans (.forward here count), leads.text_eq ▸ here.liesIn_forward _ count,
        fun same => ?_⟩
      · have cut := token_bytes ignore here (.rule name) count
        change (here.bytes ignore).token _ _ (here.offset + _) = _ at cut
        simp only [cut, Miscut.ok_bind, advance_bytes]
        rfl
      · rw [same, LexRule.lengthBy?_embedded] at tried
        obtain ⟨count', tried, long⟩ := Option.map_eq_some_iff.mp tried
        obtain ⟨there, read⟩ := here.forward_congr long.symm
        simp only [Cursor.scan, ← agrees same, ended, tried, Bool.false_eq_true, if_false, there,
          read]

end ByteCursor

namespace Terminal

/-- A terminal is applied without a fault, to a match or a reject as those of the text are. -/
theorem evalBytes_bytes {engine : Engine} (sound : engine.Sound) (lexicon : Lexicon)
    (ignore : List LexRule) (leaf : Terminal) (cursor : Cursor) :
    ∃ outcome : Outcome,
      leaf.evalBytes engine lexicon (cursor.bytes ignore) = .ok (outcome.bytes ignore) ∧
        outcome.Proper cursor ∧
        (engine = .embedded → outcome = leaf.eval lexicon ignore cursor) := by
  have tried : ∀ name rule caseless, ∃ outcome : Outcome,
      leaf.tryBytes engine name rule caseless (cursor.bytes ignore) =
          .ok (outcome.bytes ignore) ∧
        outcome.Proper cursor ∧
        (engine = .embedded → outcome = leaf.tryRule ignore name rule caseless cursor) := by
    intro name rule caseless
    obtain ⟨token, next, scanned, leads, within, agrees⟩ :=
      ByteCursor.scan_bytes sound ignore cursor name rule caseless
    have rest := ByteCursor.textFrom_bytes ignore (rfl : next.text = next.text)
    simp only [tryBytes, scanned, Miscut.ok_bind, Cursor.bytes_offset, rest, tryRule]
    cases found : token.kind with
    | rule named =>
      refine ⟨.ok ⟨next, .token token⟩, rfl, ⟨leads, ?_⟩, fun same => ?_⟩
      · simpa [Tree.leaves] using within
      · simp only [← agrees same, found]
    | eof | empty =>
      refine ⟨.error (.mismatch cursor (.tokenMissing leaf _ token.start next.rest)), rfl,
        .refl cursor, fun same => ?_⟩
      simp only [← agrees same, found]
  cases leaf with
  | inline name rule caseless => exact tried name rule caseless
  | listed name =>
    simp only [evalBytes, eval]
    cases lexicon.find? name with
    | none =>
      exact ⟨.error (.mismatch cursor (.unknownToken name)), rfl, .refl cursor, fun _ => rfl⟩
    | some rule => exact tried name rule false

end Terminal

end Packrat
