import Packrat.Proofs.Bytes.Simulation
import Packrat.Proofs.Memoization

/-! # No slice is cut inside a character

If the engine finds boundaries only, no evaluation on byte offsets ends with a slice that cannot
be cut, in whatever order rules are evaluated with one table, and every offset that comes of it is
a boundary of the text. With the engine of the patterns it is the evaluation at cursors.

Applications that nest deeper than allowed give no result. This hides no fault, since all depths
are looked at and an evaluation that comes to a fault has nested only so deep until then.
-/

namespace Packrat

namespace ByteRun

variable {α β : Type} {action : ByteRun α} {next : α → ByteRun β} {memo memo' : ByteMemo}
  {value : α}

theorem on_bind_of_ok (ran : action.on memo = some (.ok (value, memo'))) :
    (action >>= next).on memo = (next value).on memo' := by
  change Option.bind (action.on memo) _ = _
  rw [ran]
  rfl

theorem on_bind_of_none (ran : action.on memo = none) : (action >>= next).on memo = none := by
  change Option.bind (action.on memo) _ = _
  rw [ran]
  rfl

end ByteRun

/-- Every outcome in the table is that of a place of the text, for each place it is kept for. -/
def ByteMemo.Proper (ignore : List LexRule) (text : Text) (memo : ByteMemo) : Prop :=
  ∀ name cursor found, cursor.text = text → memo (name, cursor.offset) = some found →
    ∃ outcome : Outcome, found = outcome.bytes ignore ∧ outcome.Proper cursor

/-- Whatever is run with a proper table cuts every slice and leaves the table proper. This says
nothing of the other side. -/
def Simulation.safety (ignore : List LexRule) (text : Text) : Simulation Id where
  related form post first _ := ∀ memo : ByteMemo, memo.Proper ignore text → ∀ result,
    first.on memo = some result →
      ∃ value memo', result = .ok (form value, memo') ∧ post value ∧ memo'.Proper ignore text
  ofPure form result holds memo proper result' ran := by
    cases ran
    exact ⟨result, memo, rfl, holds, proper⟩
  ofBind {α β γ δ form post last done first second next next'} related after memo proper result
      ran := by
    cases began : first.on memo with
    | none =>
      rw [ByteRun.on_bind_of_none began] at ran
      cases ran
    | some middle =>
      obtain ⟨value, between, rfl, holds, proper⟩ := related memo proper middle began
      rw [ByteRun.on_bind_of_ok began] at ran
      exact after value holds between proper result ran

/-- The table of an environment with the number of bytes before every cursor. -/
def Memo.bytes (ignore : List LexRule) (memo : Memo) : ByteMemo :=
  fun key => (memo.outcomes[key]?).map (Outcome.bytes ignore)

/-- Every outcome in the table of an environment is one of each place that it is kept for. -/
def Memo.Proper (text : Text) (memo : Memo) : Prop :=
  ∀ name cursor outcome, cursor.text = text → memo.outcome? name cursor.offset = some outcome →
    outcome.Proper cursor

/-- Both sides end alike with tables that are alike, and leave them so. -/
def Simulation.agreement (ignore : List LexRule) (text : Text) : Simulation Memoized where
  related form post first second := ∀ memo : Memo, memo.Proper text →
    first.on (memo.bytes ignore) =
      (second.run memo).map (fun (value, memo') => .ok (form value, memo'.bytes ignore)) ∧
    ∀ value memo', second.run memo = some (value, memo') → post value ∧ memo'.Proper text
  ofPure form result holds memo proper := by
    refine ⟨rfl, fun value memo' ran => ?_⟩
    cases ran
    exact ⟨holds, proper⟩
  ofBind {α β γ δ form post last done first second next next'} related after memo proper := by
    obtain ⟨alike, ends⟩ := related memo proper
    rw [StateT.run_bind]
    cases began : second.run memo with
    | none =>
      rw [began] at alike
      refine ⟨ByteRun.on_bind_of_none alike, fun value memo' ran => ?_⟩
      cases ran
    | some middle =>
      obtain ⟨value, between⟩ := middle
      rw [began] at alike
      obtain ⟨holds, proper⟩ := ends value between began
      rw [ByteRun.on_bind_of_ok alike]
      exact after value holds between proper

namespace ByteMemo

variable {ignore : List LexRule} {text : Text}

theorem store_apply (memo : ByteMemo) (name : String) (offset : Nat) (outcome : ByteOutcome)
    (key : String × Nat) :
    memo.store name offset outcome key = if key = (name, offset) then some outcome else memo key :=
  Function.update_apply ..

theorem Proper.empty (ignore : List LexRule) (text : Text) : empty.Proper ignore text := by
  intro name cursor found here stored
  cases stored

theorem Proper.store {memo : ByteMemo} (proper : memo.Proper ignore text) {name : String}
    {cursor : Cursor} {outcome : Outcome} (here : cursor.text = text)
    (found : outcome.Proper cursor) :
    (memo.store name cursor.offset (outcome.bytes ignore)).Proper ignore text := by
  intro other place raw there stored
  rw [store_apply] at stored
  split at stored
  · rename_i same
    cases stored
    have place := Cursor.eq_of_offset (here.trans there.symm) (Prod.mk.inj same).2.symm
    exact ⟨outcome, rfl, place ▸ found⟩
  · exact proper other place raw there stored

end ByteMemo

namespace Memo

variable {text : Text} {memo : Memo}

theorem Proper.empty (text : Text) : Memo.empty.Proper text := by
  intro name cursor outcome _ found
  simp [outcome?, Memo.empty] at found

theorem Proper.store (proper : memo.Proper text) {name : String} {cursor : Cursor}
    {outcome : Outcome} (here : cursor.text = text) (found : outcome.Proper cursor) :
    (memo.store name cursor.offset outcome).Proper text := by
  intro other place found' there stored
  rw [outcome?_store] at stored
  split at stored
  · rename_i same
    obtain ⟨rfl, offset⟩ := Prod.mk.inj same
    cases stored
    exact Cursor.eq_of_offset (here.trans there.symm) offset ▸ found
  · exact proper other place found' there stored

@[simp] theorem bytes_empty (ignore : List LexRule) : Memo.empty.bytes ignore = .empty := by
  funext key
  simp [bytes, Memo.empty, ByteMemo.empty]

theorem bytes_store (ignore : List LexRule) (memo : Memo) (name : String) (offset : Nat)
    (outcome : Outcome) :
    (memo.store name offset outcome).bytes ignore =
      (memo.bytes ignore).store name offset (outcome.bytes ignore) := by
  funext key
  rw [ByteMemo.store_apply]
  simp only [bytes, Memo.store, Std.HashMap.getElem?_insert, beq_iff_eq]
  by_cases same : (name, offset) = key
  · rw [if_pos same, if_pos same.symm]
    rfl
  · rw [if_neg same, if_neg (Ne.symm same)]

end Memo

namespace Grammar

variable {grammar : Grammar} {engine : Engine} {depth : Nat} {name : String}
  {cursor : ByteCursor} {rule : Rule} {memo : ByteMemo}

/-- The run of an application whose outcome the table has. -/
theorem applyBytes_hit {outcome : ByteOutcome}
    (defined : grammar.productions.find? name = some rule)
    (stored : memo (name, cursor.offset) = some outcome) :
    (grammar.applyBytes engine (depth + 1) name cursor).on memo =
      some (.ok (some outcome, memo)) := by
  simp only [applyBytes, defined]
  refine (ByteRun.on_bind_of_ok rfl).trans ?_
  simp only [stored]
  rfl

/-- The run of an application whose outcome the table does not have. -/
theorem applyBytes_miss (defined : grammar.productions.find? name = some rule)
    (absent : memo (name, cursor.offset) = none) :
    (grammar.applyBytes engine (depth + 1) name cursor).on memo =
      ((grammar.evalBytes engine depth rule cursor).on memo).map
        (Except.map fun (outcome, memo') =>
          (some outcome, memo'.store name cursor.offset outcome)) := by
  simp only [applyBytes, defined]
  refine (ByteRun.on_bind_of_ok rfl).trans ?_
  simp only [absent]
  change Option.bind ((grammar.evalBytes engine depth rule cursor).on memo) _ = _
  rcases (grammar.evalBytes engine depth rule cursor).on memo with _ | fault | pair <;> rfl

end Grammar

namespace Grammar

variable {engine : Engine} {ignore : List LexRule} {text : Text}

/-- Where applications cut every slice, so do the rules that refer to them. -/
theorem evalBytes_safe_of (sound : engine.Sound) {grammar : Grammar} {depth : Nat}
    (applied : ∀ name cursor, cursor.text = text →
      (Simulation.safety ignore text).related (Option.map (Outcome.bytes ignore))
        (fun result => ∀ outcome ∈ result, Outcome.Proper cursor outcome)
        (grammar.applyBytes engine depth name (cursor.bytes ignore)) none)
    (rule : Rule) (cursor : Cursor) (here : cursor.text = text) {memo : ByteMemo}
    (proper : memo.Proper ignore text) {result : Except Miscut (ByteOutcome × ByteMemo)}
    (ran : (grammar.evalBytes engine depth rule (cursor.bytes ignore)).on memo = some result) :
    ∃ (outcome : Outcome) (memo' : ByteMemo), result = .ok (outcome.bytes ignore, memo') ∧
      outcome.Proper cursor ∧ memo'.Proper ignore text := by
  refine Rule.evalBytes_simulated (Simulation.safety ignore text) grammar.lexicon ?_ applied rule
    cursor here memo proper result ran
  intro leaf cursor here memo proper result ran
  obtain ⟨outcome, same, holds, -⟩ :=
    leaf.evalBytes_bytes sound grammar.lexicon ignore cursor
  rw [same] at ran
  cases ran
  exact ⟨outcome, memo, rfl, holds, proper⟩

/-- Applications with a proper table cut every slice. -/
theorem applyBytes_safe (sound : engine.Sound) (grammar : Grammar) (depth : Nat) (name : String)
    (cursor : Cursor) (here : cursor.text = text) :
    (Simulation.safety ignore text).related (Option.map (Outcome.bytes ignore))
      (fun result => ∀ outcome ∈ result, Outcome.Proper cursor outcome)
      (grammar.applyBytes engine depth name (cursor.bytes ignore)) none := by
  induction depth generalizing name cursor with
  | zero =>
    intro memo proper result ran
    cases ran
  | succ depth ih =>
    intro memo proper result ran
    cases defined : grammar.productions.find? name with
    | none =>
      rw [applyBytes, defined] at ran
      cases ran
      exact ⟨none, memo, rfl, Outcome.proper_of_none, proper⟩
    | some rule =>
      cases stored : memo (name, cursor.offset) with
      | some found =>
        rw [applyBytes_hit defined stored] at ran
        cases ran
        obtain ⟨outcome, rfl, holds⟩ := proper name cursor found here stored
        exact ⟨some outcome, memo, rfl, holds.of_some, proper⟩
      | none =>
        rw [applyBytes_miss defined stored] at ran
        obtain ⟨result, evaluated, rfl⟩ := Option.map_eq_some_iff.mp ran
        obtain ⟨outcome, memo', rfl, holds, proper⟩ :=
          evalBytes_safe_of sound ih rule cursor here proper evaluated
        exact ⟨some outcome, memo'.store name cursor.offset (outcome.bytes ignore), rfl,
          holds.of_some, proper.store here holds⟩

/-- With the engine of the patterns evaluation on byte offsets agrees with evaluation at cursors,
where applications do. -/
theorem evalBytes_agrees_of {grammar : Grammar} {depth : Nat}
    (applied : ∀ name cursor, cursor.text = text →
      (Simulation.agreement grammar.ignore text).related
        (Option.map (Outcome.bytes grammar.ignore))
        (fun result => ∀ outcome ∈ result, Outcome.Proper cursor outcome)
        (grammar.applyBytes .embedded depth name (cursor.bytes grammar.ignore))
        (grammar.applyMemoized depth name cursor))
    (rule : Rule) (cursor : Cursor) (here : cursor.text = text) :
    (Simulation.agreement grammar.ignore text).related (Outcome.bytes grammar.ignore)
      (Outcome.Proper cursor)
      (grammar.evalBytes .embedded depth rule (cursor.bytes grammar.ignore))
      (rule.eval ⟨grammar.lexicon, grammar.ignore, grammar.applyMemoized depth⟩ cursor) := by
  refine Rule.evalBytes_simulated (Simulation.agreement grammar.ignore text) grammar.lexicon ?_
    applied rule cursor here
  intro leaf cursor here
  obtain ⟨outcome, same, holds, agrees⟩ :=
    leaf.evalBytes_bytes Engine.embedded_sound grammar.lexicon grammar.ignore cursor
  obtain rfl := agrees rfl
  rw [same]
  exact (Simulation.agreement grammar.ignore text).ofPure _ _ holds

/-- With the engine of the patterns applications on byte offsets agree with those at cursors. -/
theorem applyBytes_agrees (grammar : Grammar) (depth : Nat) (name : String) (cursor : Cursor)
    (here : cursor.text = text) :
    (Simulation.agreement grammar.ignore text).related (Option.map (Outcome.bytes grammar.ignore))
      (fun result => ∀ outcome ∈ result, Outcome.Proper cursor outcome)
      (grammar.applyBytes .embedded depth name (cursor.bytes grammar.ignore))
      (grammar.applyMemoized depth name cursor) := by
  induction depth generalizing name cursor with
  | zero =>
    refine fun memo proper => ⟨rfl, fun value memo' ran => ?_⟩
    cases ran
  | succ depth ih =>
    intro memo proper
    cases defined : grammar.productions.find? name with
    | none =>
      rw [applyBytes, applyMemoized, defined]
      exact (Simulation.agreement grammar.ignore text).ofPure
        (Option.map (Outcome.bytes grammar.ignore)) none Outcome.proper_of_none memo proper
    | some rule =>
      cases stored : memo.outcome? name cursor.offset with
      | some outcome =>
        have stored' : memo.bytes grammar.ignore (name, (cursor.bytes grammar.ignore).offset) =
            some (outcome.bytes grammar.ignore) :=
          congrArg (Option.map (Outcome.bytes grammar.ignore)) stored
        rw [applyBytes_hit defined stored', applyMemoized_hit defined stored]
        refine ⟨rfl, fun value memo' ran => ?_⟩
        cases ran
        exact ⟨(proper name cursor outcome here stored).of_some, proper⟩
      | none =>
        have stored' : memo.bytes grammar.ignore (name, (cursor.bytes grammar.ignore).offset) =
            none :=
          congrArg (Option.map (Outcome.bytes grammar.ignore)) stored
        rw [applyBytes_miss defined stored', applyMemoized_miss defined stored]
        obtain ⟨alike, ends⟩ := evalBytes_agrees_of ih rule cursor here memo.miss proper
        constructor
        · change Option.map _ (ByteRun.on _ (memo.miss.bytes grammar.ignore)) = _
          rw [alike, Option.map_map, Option.map_map]
          congr 1
          funext ended
          obtain ⟨outcome, memo'⟩ := ended
          simp only [Function.comp_apply, Except.map, Memo.bytes_store, Cursor.bytes_offset]
          rfl
        · intro value memo' ran
          obtain ⟨⟨outcome, between⟩, evaluated, same⟩ := Option.map_eq_some_iff.mp ran
          cases same
          obtain ⟨holds, proper⟩ := ends outcome between evaluated
          exact ⟨holds.of_some, proper.store here holds⟩

end Grammar

/-- A token is cut at boundaries of the text in order, and has the characters between them. -/
structure Token.Cut (text : Text) (token : Token) : Prop where
  ordered : token.start ≤ token.stop
  le_length : token.stop ≤ text.byteLength
  start_boundary : text.IsBoundary token.start
  stop_boundary : text.IsBoundary token.stop
  characters : text.between? token.start token.stop = some token.text

/-- The second cursor is over the same text with the same rules for what is ignored, at a boundary
that is not before the first cursor. -/
structure ByteCursor.Leads (start cursor : ByteCursor) : Prop where
  buffer : cursor.buffer = start.buffer
  ignore : cursor.ignore = start.ignore
  start_le : start.offset ≤ cursor.offset
  le_length : cursor.offset ≤ start.buffer.byteLength
  boundary : start.buffer.IsBoundary cursor.offset

/-- The outcome is a match or a reject at a boundary, and the tokens of a match are cut at
boundaries. -/
def ByteOutcome.Safe (start : ByteCursor) : ByteOutcome → Prop
  | .ok found => start.Leads found.cursor ∧ ∀ leaf ∈ found.node.leaves, leaf.Cut start.buffer
  | .error reject => start.Leads reject.cursor

namespace Error

/-- The position that an error carries. -/
def position? : Error → Option Position
  | .rejected _ position _ | .ambiguous _ position _ => some position
  | _ => none

/-- The position that the error carries, if it does, is at a boundary of the text. -/
def At (text : Text) (fault : Error) : Prop :=
  ∀ position ∈ fault.position?,
    position.offset ≤ text.byteLength ∧ text.IsBoundary position.offset

end Error

/-- The tables that calls at places of a text lead to, one after the other, all of which end. -/
inductive ByteMemo.Reached (engine : Engine) (grammar : Grammar) (text : Text)
    (ignore : List LexRule) : ByteMemo → Prop
  | empty : Reached engine grammar text ignore .empty
  | call {memo memo' : ByteMemo} {depth offset : Nat} {rule : Rule} {outcome : ByteOutcome}
      (earlier : Reached engine grammar text ignore memo)
      (ended : (grammar.evalBytes engine depth rule
        ((ByteCursor.start text ignore).moveTo offset)).on memo = some (.ok (outcome, memo'))) :
      Reached engine grammar text ignore memo'

theorem Token.LiesIn.cut {text : Text} {token : Token} (lies : token.LiesIn text) :
    token.Cut text := by
  by_cases bounds : token.start ≤ token.stop ∧ text.IsBoundary token.start ∧
      text.IsBoundary token.stop
  · exact ⟨bounds.1, bounds.2.2.le_byteLength, bounds.2.1, bounds.2.2, lies⟩
  · rw [LiesIn, Text.between?, if_neg bounds] at lies
    cases lies

theorem Cursor.LeadsTo.bytes {cursor later : Cursor} (leads : cursor.LeadsTo later)
    (ignore : List LexRule) : (cursor.bytes ignore).Leads (later.bytes ignore) := by
  have boundary : cursor.text.IsBoundary later.offset := leads.text_eq ▸ later.isBoundary_offset
  exact ⟨leads.text_eq, rfl, leads.offset_le, boundary.le_byteLength, boundary⟩

theorem Outcome.Proper.safe {cursor : Cursor} {outcome : Outcome} (proper : outcome.Proper cursor)
    (ignore : List LexRule) : (outcome.bytes ignore).Safe (cursor.bytes ignore) := by
  cases outcome with
  | ok found => exact ⟨proper.1.bytes ignore, fun leaf found => (proper.2 leaf found).cut⟩
  | error reject => exact Cursor.LeadsTo.bytes proper ignore

namespace ByteMemo

variable {engine : Engine} {grammar : Grammar} {text : Text} {ignore : List LexRule}

/-- Rules at places of the text cut every slice, and leave the table proper. -/
theorem evalBytes_safe (sound : engine.Sound) (grammar : Grammar) (depth : Nat) (rule : Rule)
    (offset : Nat) {memo : ByteMemo} (proper : memo.Proper ignore text)
    {result : Except Miscut (ByteOutcome × ByteMemo)}
    (ran : (grammar.evalBytes engine depth rule
      ((ByteCursor.start text ignore).moveTo offset)).on memo = some result) :
    ∃ outcome memo', result = .ok (outcome, memo') ∧
      outcome.Safe ((ByteCursor.start text ignore).moveTo offset) ∧ memo'.Proper ignore text := by
  rw [ByteCursor.start_moveTo] at ran ⊢
  obtain ⟨outcome, memo', rfl, holds, proper⟩ := Grammar.evalBytes_safe_of sound
    (Grammar.applyBytes_safe sound grammar depth) rule _ (Cursor.text_seek ..) proper ran
  exact ⟨_, memo', rfl, holds.safe ignore, proper⟩

theorem Reached.proper (sound : engine.Sound) {memo : ByteMemo}
    (reached : Reached engine grammar text ignore memo) : memo.Proper ignore text := by
  induction reached with
  | empty => exact .empty ignore text
  | call earlier ended proper =>
    obtain ⟨_, _, same, -, proper⟩ := evalBytes_safe sound grammar _ _ _ proper ended
    cases same
    exact proper

end ByteMemo

namespace Environment

variable {environment last : Environment} {text : Text}

/-- Calls at places of a text leave the table proper. -/
theorem Reaches.proper {calls : List Call} (reached : environment.Reaches calls last)
    (texts : ∀ call ∈ calls, call.cursor.text = text) (proper : environment.memo.Proper text) :
    last.memo.Proper text := by
  induction reached with
  | nil => exact proper
  | @cons environment next last call calls result made rest ih =>
    obtain ⟨here, texts⟩ := List.forall_mem_cons.mp texts
    refine ih texts ?_
    cases call with
    | apply name cursor =>
      obtain ⟨⟨result, memo⟩, ran, same⟩ := Option.map_eq_some_iff.mp made
      cases same
      exact ((environment.grammar.applyBytes_agrees _ name cursor here environment.memo proper).2
        result memo ran).2
    | parse rule cursor =>
      obtain ⟨⟨outcome, next⟩, made, same⟩ := Option.map_eq_some_iff.mp made
      cases same
      obtain ⟨⟨result, memo⟩, ran, same⟩ := Option.map_eq_some_iff.mp made
      cases same
      exact ((Grammar.evalBytes_agrees_of (environment.grammar.applyBytes_agrees _) rule cursor
        here environment.memo proper).2 _ memo ran).2

/-- With the engine of the patterns a rule has the outcome that it has in an environment with the
same table, and leaves the same table. -/
theorem evalBytes_agrees (environment : Environment) (proper : environment.memo.Proper text)
    (rule : Rule) (offset : Nat) :
    (environment.grammar.evalBytes .embedded (environment.grammar.depthLimit text.length) rule
        ((ByteCursor.start text environment.grammar.ignore).moveTo offset)).on
          (environment.memo.bytes environment.grammar.ignore) =
      (environment.evalAt? rule ((Cursor.start text).seek offset)).map fun (outcome, next) =>
        .ok (outcome.bytes environment.grammar.ignore,
          next.memo.bytes environment.grammar.ignore) := by
  have here : ((Cursor.start text).seek offset).text = text := Cursor.text_seek ..
  rw [ByteCursor.start_moveTo, evalAt?, here, run, Option.map_map]
  exact (Grammar.evalBytes_agrees_of (environment.grammar.applyBytes_agrees _) rule _ here
    environment.memo proper).1

end Environment

namespace Parser

variable {engine : Engine} {text : Text}

/-- The position of a cursor in the text is at a boundary. -/
theorem locate_within {cursor : Cursor} (here : cursor.text = text) :
    (Position.locate text cursor.offset).offset ≤ text.byteLength ∧
      text.IsBoundary (Position.locate text cursor.offset).offset := by
  have boundary : text.IsBoundary cursor.offset := here ▸ cursor.isBoundary_offset
  rw [Position.locate_offset, Nat.min_eq_left boundary.le_byteLength]
  exact ⟨boundary.le_byteLength, boundary⟩

/-- What a parser makes of an outcome in the text takes no slice that cannot be cut. Its errors are
at boundaries, and with the engine of the patterns it is what the parser for the text gives. -/
theorem answerBytes_bytes (sound : engine.Sound) (parser : Parser) (production : String)
    (whole : Bool) {applied : Option Outcome}
    (proper : ∀ outcome ∈ applied, Outcome.Proper (.start text) outcome) :
    ∃ answer, answerBytes engine production text whole
        (applied.map (Outcome.bytes parser.grammar.ignore)) = .ok answer ∧
      (∀ fault, answer = .error fault → fault.At text) ∧
      (engine = .embedded → ∀ after,
        (Environment.start parser.grammar).applyAt? production (.start text) =
          some (applied, after) →
        (if whole then parser.parseAll production text else parser.parse production text) =
          answer) := by
  rcases applied with _ | reject | found
  · refine ⟨_, rfl, ?_, fun _ after ran => ?_⟩
    · rintro fault ⟨⟩ position ⟨⟩
    · cases whole <;> simp only [parse, parseAll, run, ran] <;> rfl
  · have here : reject.cursor.text = text := (proper _ rfl).text_eq
    obtain ⟨cursor, reason, kind⟩ := reject
    cases kind with
    | mismatch =>
      refine ⟨_, rfl, ?_, fun _ after ran => ?_⟩
      · rintro fault ⟨⟩ position ⟨⟩
        exact locate_within here
      · cases whole <;> simp only [parse, parseAll, run, ran] <;> rfl
    | ambiguous =>
      refine ⟨_, rfl, ?_, fun _ after ran => ?_⟩
      · rintro fault ⟨⟩ position ⟨⟩
        exact locate_within here
      · cases whole <;> simp only [parse, parseAll, run, ran] <;> rfl
  · have leads : (Cursor.start text).LeadsTo found.cursor := (proper (.ok found) rfl).1
    cases whole with
    | false =>
      refine ⟨.ok found.node, rfl, fun fault failed => ?_, fun _ after ran => ?_⟩
      · cases failed
      · simp only [parse, run, ran]
        rfl
    | true =>
      obtain ⟨rest, skipped, onwards, agrees⟩ :=
        ByteCursor.skip_bytes sound parser.grammar.ignore found.cursor
      simp only [Option.map_some, Outcome.bytes, answerBytes, Match.bytes, skipped, Miscut.ok_bind,
        ByteCursor.atEnd_bytes, if_true]
      cases ended : rest.atEnd with
      | true =>
        refine ⟨.ok found.node, rfl, fun fault failed => ?_, fun same after ran => ?_⟩
        · cases failed
        · rw [agrees same] at ended
          simp only [parseAll, run, ran]
          exact if_pos ended
      | false =>
        refine ⟨_, rfl, ?_, fun same after ran => ?_⟩
        · rintro fault ⟨⟩ position ⟨⟩
          exact locate_within (leads.trans onwards).text_eq
        · obtain rfl := agrees same
          simp only [parseAll, run, ran]
          exact if_neg (by simp [ended])

/-- A parser cuts every slice of a text, and the position of its error is at a boundary. -/
theorem runBytes_safe (sound : engine.Sound) (parser : Parser) (depth : Nat) (production : String)
    (text : Text) (whole : Bool) {result : Except Miscut (Except Error Tree × ByteMemo)}
    (ran : (parser.runBytes engine depth production text whole).on .empty = some result) :
    ∃ answer memo, result = .ok (answer, memo) ∧
      ∀ fault, answer = .error fault → fault.At text := by
  cases began : (parser.grammar.applyBytes engine depth production
      (.start text parser.grammar.ignore)).on .empty with
  | none =>
    rw [runBytes, ByteRun.on_bind_of_none began] at ran
    cases ran
  | some middle =>
    obtain ⟨applied, memo, rfl, proper, -⟩ := parser.grammar.applyBytes_safe sound depth production
      (.start text) rfl .empty (.empty parser.grammar.ignore text) middle began
    obtain ⟨answer, same, positions, -⟩ :=
      answerBytes_bytes sound parser production whole proper
    rw [runBytes, ByteRun.on_bind_of_ok began, same, ByteRun.check_ok] at ran
    cases ran
    exact ⟨answer, memo, rfl, positions⟩

/-- With the engine of the patterns the run of a parser gives what the parser gives, and does not
end exactly when the parser finds no end. -/
theorem runBytes_agrees (parser : Parser) (production : String) (text : Text) (whole : Bool) :
    ∃ answer : Option (Except Error Tree),
      ((parser.runBytes .embedded (parser.grammar.depthLimit text.length) production text
        whole).on .empty).map (Except.map Prod.fst) = answer.map .ok ∧
      (if whole then parser.parseAll production text else parser.parse production text) =
        answer.getD (.error (.endless production)) := by
  obtain ⟨alike, ends⟩ := parser.grammar.applyBytes_agrees (parser.grammar.depthLimit text.length)
    production (.start text) rfl .empty (.empty text)
  have started : ByteCursor.start text parser.grammar.ignore =
      (Cursor.start text).bytes parser.grammar.ignore := rfl
  have applied_eq : (Environment.start parser.grammar).applyAt? production (.start text) =
      ((parser.grammar.applyMemoized (parser.grammar.depthLimit text.length) production
        (.start text)).run .empty).map fun (result, memo) => (result, ⟨parser.grammar, memo⟩) := rfl
  rw [Memo.bytes_empty, ← started] at alike
  cases ran : (parser.grammar.applyMemoized (parser.grammar.depthLimit text.length) production
      (.start text)).run .empty with
  | none =>
    rw [ran] at alike applied_eq
    refine ⟨none, ?_, ?_⟩
    · rw [runBytes, ByteRun.on_bind_of_none alike]
      rfl
    · cases whole <;> simp only [parse, parseAll, run, applied_eq] <;> rfl
  | some pair =>
    obtain ⟨applied, memo⟩ := pair
    rw [ran] at alike applied_eq
    obtain ⟨answer, same, -, agrees⟩ := answerBytes_bytes Engine.embedded_sound parser production
      whole (ends applied memo ran).1
    refine ⟨some answer, ?_, agrees rfl _ applied_eq⟩
    rw [runBytes, ByteRun.on_bind_of_ok alike, same]
    rfl

end Parser

/-- Let every end that the engine of the patterns finds be a boundary of the text that it searches.
Then from the boundary that any offset is moved back to, with any table that earlier calls in the
text have left, no rule of any grammar is evaluated to a slice that cannot be cut. The cursor of a
match or a reject is over the same text and the same rules for what is ignored, at a boundary not
before the start, and so are the ends of every token of a match. The position of an error of a
parser is at a boundary. With the engine that runs the programs of the patterns these are the
outcomes, the tables and the errors of an environment and of a parser. -/
theorem Engine.Sound.cuts_at_boundaries {engine : Engine} (sound : engine.Sound)
    (grammar : Grammar) (text : Text) (ignore : List LexRule) (offset : Nat) :
    (ByteCursor.start text ignore).Leads ((ByteCursor.start text ignore).moveTo offset) ∧
    (∀ memo, ByteMemo.Reached engine grammar text ignore memo → ∀ depth rule result,
      (grammar.evalBytes engine depth rule
          ((ByteCursor.start text ignore).moveTo offset)).on memo = some result →
        ∃ outcome memo', result = .ok (outcome, memo') ∧
          outcome.Safe ((ByteCursor.start text ignore).moveTo offset)) ∧
    (∀ depth production whole result,
      ((Parser.mk grammar).runBytes engine depth production text whole).on .empty = some result →
        ∃ answer memo, result = .ok (answer, memo) ∧
          ∀ fault, answer = .error fault → fault.At text) ∧
    (∀ history environment, (Environment.start grammar).Reaches history environment →
      (∀ call ∈ history, call.cursor.text = text) → ∀ rule,
        (grammar.evalBytes .embedded (grammar.depthLimit text.length) rule
            ((ByteCursor.start text grammar.ignore).moveTo offset)).on
              (environment.memo.bytes grammar.ignore) =
          (environment.evalAt? rule ((Cursor.start text).seek offset)).map fun (outcome, next) =>
            .ok (outcome.bytes grammar.ignore, next.memo.bytes grammar.ignore)) ∧
    (∀ production whole, ∃ answer : Option (Except Error Tree),
      (((Parser.mk grammar).runBytes .embedded (grammar.depthLimit text.length) production text
        whole).on .empty).map (Except.map Prod.fst) = answer.map .ok ∧
      (if whole then (Parser.mk grammar).parseAll production text
        else (Parser.mk grammar).parse production text) =
          answer.getD (.error (.endless production)) ∧
      ∀ fault, (if whole then (Parser.mk grammar).parseAll production text
        else (Parser.mk grammar).parse production text) = .error fault → fault.At text) := by
  refine ⟨?_, ?_, ?_, ?_, ?_⟩
  · rw [ByteCursor.start_moveTo]
    exact Cursor.LeadsTo.bytes (.forward (.start text) _) ignore
  · intro memo reached depth rule result ran
    obtain ⟨outcome, memo', same, safe, -⟩ :=
      ByteMemo.evalBytes_safe sound grammar depth rule offset (reached.proper sound) ran
    exact ⟨outcome, memo', same, safe⟩
  · intro depth production whole result ran
    exact Parser.runBytes_safe sound _ depth production text whole ran
  · intro history environment reached texts rule
    have same : environment.grammar = grammar := (reached.sound texts (.empty grammar text)).1
    subst same
    exact environment.evalBytes_agrees (reached.proper texts (.empty text)) rule offset
  · intro production whole
    obtain ⟨answer, ran, same⟩ := Parser.runBytes_agrees ⟨grammar⟩ production text whole
    refine ⟨answer, ran, same, fun fault failed => ?_⟩
    rw [same] at failed
    cases answer with
    | none =>
      cases failed
      rintro position ⟨⟩
    | some answer =>
      obtain rfl : answer = .error fault := failed
      obtain ⟨result, ended, mapped⟩ := Option.map_eq_some_iff.mp ran
      obtain ⟨answer, memo, rfl, positions⟩ :=
        Parser.runBytes_safe Engine.embedded_sound ⟨grammar⟩ _ production text whole ended
      exact positions fault (Except.ok.inj mapped)

/-- The Kelvin sign takes three bytes and is alike to a letter of one. In `äK k` the offset inside
it is moved back to its front, and the second call for both letters is answered from the table. -/
theorem Engine.Sound.cuts_at_boundaries_of_wide_letter :
    let letters : Rule := .repetition (.terminal (.inline "k" (.literal ['k']) true)) 2 none
    let grammar : Grammar := ⟨.ofList [("letters", letters)], .empty, [.literal [' ']]⟩
    let start := (ByteCursor.start ['ä', '\u212a', ' ', 'k'] grammar.ignore).moveTo 4
    start.offset = 2 ∧
      ∃ memo, ByteMemo.Reached .embedded grammar start.buffer start.ignore memo ∧
        ∃ outcome memo', (grammar.evalBytes .embedded 2 (.reference "letters") start).on memo =
            some (.ok (outcome, memo')) ∧
          outcome.toOption.map (·.cursor.offset) = some 7 ∧ outcome.Safe start := by
  intro letters grammar start
  let call := grammar.evalBytes .embedded 2 (.reference "letters") start
  have once : (call.on .empty).map (Except.map fun ended =>
      ended.1.toOption.map (·.cursor.offset)) = some (.ok (some 7)) := by decide +kernel
  have twice : ((call >>= fun _ => call).on .empty).map (Except.map fun ended =>
      ended.1.toOption.map (·.cursor.offset)) = some (.ok (some 7)) := by decide +kernel
  obtain ⟨-, safe, -⟩ := Engine.Sound.cuts_at_boundaries embedded_sound grammar start.buffer
    start.ignore 4
  obtain ⟨result, ran, -⟩ := Option.map_eq_some_iff.mp once
  obtain ⟨outcome, memo, rfl, -⟩ := safe .empty .empty 2 (.reference "letters") result ran
  have reached : ByteMemo.Reached .embedded grammar start.buffer start.ignore memo :=
    .call .empty ran
  rw [ByteRun.on_bind_of_ok ran] at twice
  obtain ⟨result, again, ends⟩ := Option.map_eq_some_iff.mp twice
  obtain ⟨outcome', memo', rfl, holds⟩ := safe memo reached 2 (.reference "letters") result again
  exact ⟨by decide +kernel, memo, reached, outcome', memo', again, Except.ok.inj ends, holds⟩

end Packrat
