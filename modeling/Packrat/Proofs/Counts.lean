import Packrat.Proofs.Trace
import Mathlib.Data.List.Perm.Subperm

/-! # The packrat bound

The table of an environment keeps an outcome only when the body has been evaluated, so nothing in
`Grammar.applyMemoized` itself stops a body from being evaluated again inside its own evaluation.
That does not happen because such an evaluation would not end: all that is evaluated inside a body
ends within a smaller bound on nested applications than the body does. `Accrues` says what a part
of a run adds to the trace and the table, and holds of whole runs by `Environment.traced_accrues`.
-/

namespace Packrat

/-- From the first trace and table to the second, the bodies at the `fresh` sites are evaluated,
each for the first time and within `depth` nested applications, the table gets their outcomes, and
the counts are kept. -/
structure Accrues (grammar : Grammar) (text : Text) (depth : Nat) (fresh : List (String × Nat))
    (trace : Trace) (memo : Memo) (trace' : Trace) (memo' : Memo) : Prop where
  evaluated : trace'.evaluated = fresh ++ trace.evaluated
  nodup : fresh.Nodup
  absent : ∀ site ∈ fresh, memo.outcome? site.1 site.2 = none
  ended : ∀ site ∈ fresh, grammar.productions.contains site.1 ∧
    ∃ cursor : Cursor, cursor.text = text ∧ cursor.offset = site.2 ∧
      (grammar.applyWithin? depth site.1 cursor).isSome
  stored : ∀ site : String × Nat, (memo'.outcome? site.1 site.2).isSome ↔
    site ∈ fresh ∨ (memo.outcome? site.1 site.2).isSome
  size : memo'.outcomes.size = memo.outcomes.size + fresh.length
  entries : memo'.entries = memo.entries + fresh.length
  misses : memo'.misses = memo.misses + fresh.length
  lookups : memo'.hits + memo'.misses + trace.applications grammar =
    memo.hits + memo.misses + trace'.applications grammar

namespace Trace

variable {grammar : Grammar} {trace : Trace} {name : String} {offset : Nat}

theorem applications_ask_missing (missing : grammar.productions.find? name = none) :
    (trace.ask name offset).applications grammar = trace.applications grammar := by
  simp [applications, ask, Table.contains, missing]

theorem applications_ask_defined {rule : Rule}
    (defined : grammar.productions.find? name = some rule) :
    (trace.ask name offset).applications grammar = trace.applications grammar + 1 := by
  simp [applications, ask, Table.contains, defined]

@[simp] theorem evaluated_ask : (trace.ask name offset).evaluated = trace.evaluated := rfl

@[simp] theorem applications_evaluate :
    (trace.evaluate name offset).applications grammar = trace.applications grammar := rfl

end Trace

/-- Storing an outcome that is not in the table yet makes it larger by one. -/
theorem Memo.size_store {memo : Memo} {name : String} {offset : Nat} (outcome : Outcome)
    (absent : memo.outcome? name offset = none) :
    (memo.store name offset outcome).outcomes.size = memo.outcomes.size + 1 ∧
      (memo.store name offset outcome).entries = memo.entries + 1 := by
  have free : (name, offset) ∉ memo.outcomes := by
    simpa only [Memo.outcome?, getElem?_eq_none_iff] using absent
  simp [Memo.store, Std.HashMap.size_insert, free]

namespace Accrues

variable {grammar : Grammar} {text : Text} {depth : Nat} {fresh : List (String × Nat)}
  {trace trace' : Trace} {memo memo' : Memo}

theorem refl (trace : Trace) (memo : Memo) :
    Accrues grammar text depth [] trace memo trace memo where
  evaluated := rfl
  nodup := .nil
  absent _ member := absurd member List.not_mem_nil
  ended _ member := absurd member List.not_mem_nil
  stored _ := by simp
  size := rfl
  entries := rfl
  misses := rfl
  lookups := rfl

theorem mono {deeper : Nat} (below : depth ≤ deeper)
    (accrues : Accrues grammar text depth fresh trace memo trace' memo') :
    Accrues grammar text deeper fresh trace memo trace' memo' where
  __ := accrues
  ended site member := by
    obtain ⟨defined, cursor, here, offset, ended⟩ := accrues.ended site member
    obtain ⟨result, ended⟩ := Option.isSome_iff_exists.mp ended
    exact ⟨defined, cursor, here, offset, by rw [Grammar.applyWithin?_mono below ended]; rfl⟩

theorem trans {later : List (String × Nat)} {trace'' : Trace} {memo'' : Memo}
    (before : Accrues grammar text depth fresh trace memo trace' memo')
    (after : Accrues grammar text depth later trace' memo' trace'' memo'') :
    Accrues grammar text depth (later ++ fresh) trace memo trace'' memo'' where
  evaluated := by rw [after.evaluated, before.evaluated, List.append_assoc]
  nodup := by
    refine List.nodup_append.mpr ⟨after.nodup, before.nodup, ?_⟩
    rintro site late _ early rfl
    have found := (before.stored site).mpr (.inl early)
    rw [after.absent site late] at found
    cases found
  absent site member := by
    rcases List.mem_append.mp member with late | early
    · by_contra found
      have kept := (before.stored site).mpr (.inr (Option.isSome_iff_ne_none.mpr found))
      rw [after.absent site late] at kept
      cases kept
    · exact before.absent site early
  ended site member :=
    (List.mem_append.mp member).elim (after.ended site) (before.ended site)
  stored site := by
    rw [after.stored, before.stored, List.mem_append, or_assoc]
  size := by rw [after.size, before.size, List.length_append]; omega
  entries := by rw [after.entries, before.entries, List.length_append]; omega
  misses := by rw [after.misses, before.misses, List.length_append]; omega
  lookups := by
    have first := before.lookups
    have second := after.lookups
    omega

variable {name : String} {cursor : Cursor} {rule : Rule}

/-- An application of a production that the grammar does not have. -/
theorem ask_missing (missing : grammar.productions.find? name = none) :
    Accrues grammar text depth [] trace memo (trace.ask name cursor.offset) memo where
  __ := refl trace memo
  evaluated := rfl
  lookups := by rw [Trace.applications_ask_missing missing]

/-- An application whose outcome the table has. -/
theorem ask_hit (defined : grammar.productions.find? name = some rule) :
    Accrues grammar text depth [] trace memo (trace.ask name cursor.offset) memo.hit where
  __ := refl trace memo
  evaluated := rfl
  lookups := by
    rw [Trace.applications_ask_defined defined]
    simp only [Memo.hit]
    omega

/-- An application that evaluates a body, where the body ends within fewer nested applications
than the application does. -/
theorem ask_miss (defined : grammar.productions.find? name = some rule)
    (here : cursor.text = text) (absent : memo.outcome? name cursor.offset = none)
    (late : grammar.applyWithin? depth name cursor = none)
    (ended : (grammar.applyWithin? (depth + 1) name cursor).isSome) {outcome : Outcome}
    (body : Accrues grammar text depth fresh
      ((trace.ask name cursor.offset).evaluate name cursor.offset) memo.miss trace' memo') :
    Accrues grammar text (depth + 1) (fresh ++ [(name, cursor.offset)]) trace memo trace'
      (memo'.store name cursor.offset outcome) := by
  -- The body does not evaluate itself again at this place, since there it ends later than all
  -- that is evaluated inside it.
  have apart : (name, cursor.offset) ∉ fresh := by
    intro member
    obtain ⟨-, other, there, offset, early⟩ := body.ended _ member
    obtain rfl := Cursor.eq_of_offset (there.trans here.symm) offset
    rw [late] at early
    cases early
  have free : memo'.outcome? name cursor.offset = none := by
    have stored := body.stored (name, cursor.offset)
    simp only [Memo.outcome?_miss, absent, apart, Option.isSome_none, Bool.false_eq_true,
      or_false, iff_false, Option.not_isSome_iff_eq_none] at stored
    exact stored
  obtain ⟨size, entries⟩ := Memo.size_store outcome free
  have deeper := body.mono (Nat.le_succ depth)
  refine ⟨?_, ?_, ?_, ?_, ?_, ?_, ?_, ?_, ?_⟩
  · simp [body.evaluated, Trace.evaluate]
  · exact List.nodup_append.mpr ⟨body.nodup, List.nodup_singleton _,
      fun site member _ last same => apart (List.mem_singleton.mp last ▸ same ▸ member)⟩
  · intro site member
    rcases List.mem_append.mp member with inside | last
    · exact body.absent site inside
    · rw [List.mem_singleton.mp last]
      exact absent
  · intro site member
    rcases List.mem_append.mp member with inside | last
    · exact deeper.ended site inside
    · rw [List.mem_singleton.mp last]
      exact ⟨by rw [Table.contains, defined]; rfl, cursor, here, rfl, ended⟩
  · intro site
    rw [Memo.outcome?_store]
    split
    · rename_i same
      simp [show site = (name, cursor.offset) from same.symm]
    · rename_i differ
      rw [body.stored, Memo.outcome?_miss, List.mem_append, List.mem_singleton]
      simp [Ne.symm differ]
  · rw [size, body.size, List.length_append, List.length_singleton]
    rfl
  · rw [entries, body.entries, List.length_append, List.length_singleton]
    rfl
  · have misses := body.misses
    simp only [Memo.store, Memo.miss, List.length_append, List.length_singleton] at misses ⊢
    omega
  · have lookups := body.lookups
    rw [Trace.applications_evaluate, Trace.applications_ask_defined defined] at lookups
    simp only [Memo.store, Memo.miss] at lookups ⊢
    omega

end Accrues

namespace Comparison

/-- What ends within a bound without a table accrues within that bound. -/
def accruing (grammar : Grammar) (text : Text) (depth : Nat) : Comparison Traced Option where
  related post first second := ∀ memo : Memo, memo.Sound grammar text → ∀ trace : Trace,
    ∀ result other trace' memo', second = some result →
      (first.run trace).run memo = some ((other, trace'), memo') →
        other = result ∧ post result ∧ memo'.Sound grammar text ∧
          ∃ fresh, Accrues grammar text depth fresh trace memo trace' memo'
  ofPure holds memo sound trace result other trace' memo' ended ran := by
    cases ended
    cases ran
    exact ⟨rfl, holds, sound, [], .refl _ _⟩
  ofBind related following memo sound trace result other trace' memo' ended ran := by
    obtain ⟨middle, ended, last⟩ := Option.bind_eq_some_iff.mp ended
    obtain ⟨⟨⟨middle', between⟩, table⟩, ran, ran'⟩ := Option.bind_eq_some_iff.mp ran
    obtain ⟨rfl, holds, sound, fresh, before⟩ :=
      related memo sound trace middle middle' between table ended ran
    obtain ⟨same, holds, sound, later, after⟩ :=
      following middle' holds table sound between result other trace' memo' last ran'
    exact ⟨same, holds, sound, later ++ fresh, before.trans after⟩

end Comparison

namespace Grammar

variable {grammar : Grammar} {text : Text}

/-- An application that ends, and whose trace is written down, ends without a table. -/
theorem applyTraced_direct {depth : Nat} {name : String} {cursor : Cursor}
    (here : cursor.text = text) {memo memo' : Memo} (sound : memo.Sound grammar text)
    {trace trace' : Trace} {result : Option Outcome}
    (ran : ((grammar.applyTraced depth name cursor).run trace).run memo =
      some ((result, trace'), memo')) :
    grammar.applyAt? name cursor = some result ∧ memo'.Sound grammar text := by
  have erased := (applyTraced_erases depth name cursor here memo sound trace).1
  rw [ran] at erased
  obtain ⟨applied, -, sound⟩ :=
    applyMemoized_direct depth name cursor here memo sound result memo' erased.symm
  exact ⟨applied, sound⟩

/-- An application that ends within a bound without a table accrues within that bound, however
deep it may be nested with the table. -/
theorem applyTraced_accrues (bound depth : Nat) (name : String) (cursor : Cursor)
    (here : cursor.text = text) :
    (Comparison.accruing grammar text bound).related
      (fun result => ∀ outcome ∈ result, Outcome.After cursor outcome)
      (grammar.applyTraced depth name cursor) (grammar.applyWithin? bound name cursor) := by
  induction bound generalizing depth name cursor with
  | zero =>
    intro memo sound trace result other trace' memo' ended
    cases ended
  | succ bound ih =>
    intro memo sound trace result other trace' memo' ended ran
    obtain ⟨applied, sound'⟩ := applyTraced_direct here sound ran
    have same := applied.symm.trans (applyAt?_eq_some_iff.mpr ⟨_, ended⟩)
    cases same
    refine ⟨rfl, applyAt?_after applied, sound', ?_⟩
    cases early : grammar.applyWithin? bound name cursor with
    | some result =>
      obtain ⟨-, -, -, fresh, accrues⟩ :=
        ih depth name cursor here memo sound trace _ _ trace' memo' early ran
      exact ⟨fresh, accrues.mono (Nat.le_succ bound)⟩
    | none =>
      cases depth with
      | zero => cases ran
      | succ depth =>
        cases defined : grammar.productions.find? name with
        | none =>
          rw [applyTraced_missing defined] at ran
          cases ran
          exact ⟨[], .ask_missing defined⟩
        | some rule =>
          cases stored : memo.outcome? name cursor.offset with
          | some outcome =>
            rw [applyTraced_hit defined stored] at ran
            cases ran
            exact ⟨[], .ask_hit defined⟩
          | none =>
            rw [applyTraced_miss defined stored] at ran
            obtain ⟨⟨⟨outcome, between⟩, table⟩, body, same⟩ := Option.map_eq_some_iff.mp ran
            cases same
            have wanted := ended
            rw [applyWithin?, defined] at wanted
            obtain ⟨outcome', evaluated, -⟩ := Option.map_eq_some_iff.mp wanted
            obtain ⟨-, -, -, fresh, accrues⟩ := @Rule.eval_related _ _ _ _
              (Comparison.accruing grammar text bound) text grammar.lexicon grammar.ignore _ _
              (ih depth) rule cursor here memo.miss sound.miss _ outcome' outcome _ _
              evaluated body
            exact ⟨_, accrues.ask_miss defined here stored early (by rw [ended]; rfl)⟩

end Grammar

namespace Environment

variable {grammar : Grammar} {text : Text}

/-- Calls that lead from a sound table to another accrue within the limit of nested
applications. -/
theorem traced?_accrues {environment last : Environment} {calls : List Call}
    (texts : ∀ call ∈ calls, call.cursor.text = text)
    (sound : environment.memo.Sound environment.grammar text) {trace trace' : Trace}
    (traced : environment.traced? calls trace = some (trace', last)) :
    ∃ fresh, Accrues environment.grammar text (environment.grammar.depthLimit text.length) fresh
      trace environment.memo trace' last.memo := by
  induction calls generalizing environment trace with
  | nil =>
    cases traced
    exact ⟨[], .refl _ _⟩
  | cons call calls ih =>
    obtain ⟨here, texts⟩ := List.forall_mem_cons.mp texts
    obtain ⟨⟨⟨result, between⟩, memo⟩, made, rest⟩ := Option.bind_eq_some_iff.mp traced
    obtain ⟨erased, holds⟩ := Call.make_related (Comparison.erasing environment.grammar text)
      (Grammar.applyTraced_erases _) call here environment.memo sound trace
    rw [made] at erased
    have ended : call.direct? environment.grammar = some result := (call.direct?_eq _).trans
      (Call.make_related (Comparison.tableToDirect environment.grammar text)
        (Grammar.applyMemoized_direct _) call here environment.memo sound _ _ erased.symm).1
    rw [Call.direct?_eq_within?] at ended
    obtain ⟨-, -, sound', fresh, before⟩ := Call.make_related
      (Comparison.accruing environment.grammar text _) (Grammar.applyTraced_accrues _ _) call here
      environment.memo sound trace _ _ _ _ ended made
    obtain ⟨later, after⟩ := ih texts sound' rest
    exact ⟨later ++ fresh, (here ▸ before).trans after⟩

/-- The places where bodies are evaluated are no more than the pairs of a production and a place
of the text. -/
theorem length_le_sites {fresh : List (String × Nat)} {depth : Nat} {trace trace' : Trace}
    {memo memo' : Memo} (accrues : Accrues grammar text depth fresh trace memo trace' memo') :
    fresh.length ≤ grammar.productions.entries.length * (text.length + 1) := by
  let offsets := (List.range (text.length + 1)).map fun count =>
    ((Cursor.start text).forward count).offset
  have sites : fresh ⊆ grammar.productions.names ×ˢ offsets := by
    intro site member
    obtain ⟨defined, cursor, here, offset, -⟩ := accrues.ended site member
    obtain ⟨rule, found⟩ := Option.isSome_iff_exists.mp defined
    obtain ⟨count, bound, place⟩ := cursor.exists_forward_start
    rw [here] at bound place
    refine List.mem_product.mpr ⟨List.mem_map.mpr ⟨_, Table.mem_of_find? found, rfl⟩,
      List.mem_map.mpr ⟨count, List.mem_range.mpr (by omega), ?_⟩⟩
    rw [place, offset]
  have short := (accrues.nodup.subperm sites).length_le
  simpa [offsets, Table.names, List.length_product] using short

/-- After any calls on an environment that end, at any places of one text and in any order, no
body was evaluated twice at one place. The table has exactly the places of the bodies that were
evaluated, as many as it counts as missed and as entries; what it counts as found or missed are
the applications of productions that the grammar has; and the entries are at most the pairs of a
production and a place of the text. -/
theorem Reaches.counts (grammar : Grammar) (text : Text) (calls : List Call)
    (texts : ∀ call ∈ calls, call.cursor.text = text) (environment : Environment)
    (reached : (start grammar).Reaches calls environment) :
    ∃ trace, (start grammar).traced? calls .empty = some (trace, environment) ∧
      trace.evaluated.Nodup ∧
      (∀ site, site ∈ environment.memo.outcomes ↔ site ∈ trace.evaluated) ∧
      environment.memo.misses = trace.evaluated.length ∧
      environment.memo.misses = environment.memo.entries ∧
      environment.memo.entries = environment.memo.outcomes.size ∧
      environment.memo.hits + environment.memo.misses = trace.applications grammar ∧
      environment.memo.entries ≤ grammar.productions.entries.length * (text.length + 1) := by
  have fresh : (start grammar).memo.Sound grammar text := .empty grammar text
  obtain ⟨trace, traced⟩ := reached.traced texts fresh .empty
  obtain ⟨evaluated, accrues⟩ := traced?_accrues texts fresh traced
  obtain ⟨rfl⟩ : trace.evaluated = evaluated := accrues.evaluated.trans (List.append_nil _)
  have size := accrues.size
  have entries := accrues.entries
  have misses := accrues.misses
  have lookups := accrues.lookups
  simp only [start, Memo.empty, Std.HashMap.size_empty, Nat.zero_add] at size entries misses
  refine ⟨trace, traced, accrues.nodup, fun site => ?_, misses, misses.trans entries.symm,
    entries.trans size.symm, ?_, entries ▸ length_le_sites accrues⟩
  · have stored := accrues.stored site
    simp only [start, Memo.outcome?, Memo.empty, Std.HashMap.getElem?_empty,
      Option.isSome_none, Bool.false_eq_true, or_false, Std.HashMap.isSome_getElem?_iff_mem]
      at stored
    exact stored
  · simpa [start, Memo.empty, Trace.applications, Trace.empty] using lookups

/-- Applying a production to `xx` twice and to its second character afterwards, which the
reference in the body has already applied it to. -/
theorem Reaches.counts_of_repeated :
    let rule : Rule := .ordered [.sequence [.text "x", .reference "run"], .text "x"]
    let grammar : Grammar := ⟨.ofList [("run", rule)], .empty, []⟩
    let whole : Call := .apply "run" (.start ['x', 'x'])
    let last : Call := .apply "run" ((Cursor.start ['x', 'x']).forward 1)
    ∃ environment, (start grammar).Reaches [whole, whole, last] environment ∧
      environment.memo.misses = environment.memo.entries ∧
      environment.memo.entries ≤ 1 * 3 := by
  intro rule grammar whole last
  have texts : ∀ call ∈ [whole, whole, last], call.cursor.text = ['x', 'x'] := by
    simp [whole, last, Call.cursor]
  have ended : ∀ call ∈ [whole, whole, last], (call.direct? grammar).isSome = true := by
    decide +kernel
  have fresh : (start grammar).memo.Sound grammar ['x', 'x'] := .empty grammar ['x', 'x']
  obtain ⟨environment, reached⟩ := exists_reaches fresh texts ended
  obtain ⟨-, -, -, -, -, same, -, -, bound⟩ :=
    Reaches.counts grammar ['x', 'x'] _ texts environment reached
  exact ⟨environment, reached, same, bound⟩

end Environment

end Packrat
