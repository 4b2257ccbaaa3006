import Packrat.Proofs.Pattern.Begins

/-! # Expressions that match in one way

An expression is steady before some characters if the next character always tells which of its
parts goes on. Wherever a word of such an expression stands before one of those characters, or
before the end of the text, the preferred match takes exactly that word (`prefers_of_steady`).
-/

namespace Packrat

namespace Regex

/-- Whether the sets of one list are apart from those of another. -/
def allApart (first second : List CharSet) : Bool :=
  first.all fun set => second.all set.apart

/-- Whether the next character tells how a match goes on, if a character of the given sets comes
after it. -/
def steady : Regex → List CharSet → Bool
  | .empty, _ | .literal _, _ | .chars _, _ => true
  | .look _, _ => false
  | .repetition min max greedy body, follow =>
      greedy && !body.nullable && (max = some min || allApart body.begins follow) &&
        body.steady (body.begins ++ follow)
  | .group _ body, follow => body.steady follow
  | .seq first rest, follow =>
      first.steady (rest.begins ++ if rest.nullable then follow else []) && rest.steady follow
  | .alt preferred other, follow =>
      !preferred.nullable && allApart preferred.begins other.begins &&
        (!other.nullable || allApart preferred.begins follow) &&
        preferred.steady follow && other.steady follow

end Regex

/-- The text ends or begins with a character of one of the sets. -/
def Text.BeginsIn (sets : List CharSet) (text : Text) : Prop :=
  ∀ c ∈ text.head?, ∃ set ∈ sets, set.contains c = true

namespace Text.BeginsIn

variable {sets more : List CharSet} {text : Text}

theorem nil : BeginsIn sets [] := nofun

theorem cons {c : Char} {set : CharSet} (member : set ∈ sets) (belongs : set.contains c = true) :
    BeginsIn sets (c :: text) := by
  intro d first
  obtain rfl : c = d := by simpa using first
  exact ⟨set, member, belongs⟩

theorem single {c : Char} (member : .single c ∈ sets) : BeginsIn sets (c :: text) :=
  .cons member ((CharSet.contains_single c c).mpr rfl)

theorem mono (begins : BeginsIn sets text) (inside : ∀ set ∈ sets, set ∈ more) :
    BeginsIn more text := by
  intro c first
  obtain ⟨set, member, belongs⟩ := begins c first
  exact ⟨set, inside set member, belongs⟩

end Text.BeginsIn

namespace Regex

open Text

theorem not_contains_of_allApart {first second : List CharSet}
    (apart : allApart first second = true) {set set' : CharSet} (member : set ∈ first)
    (member' : set' ∈ second) {c : Char} (belongs : set.contains c = true) :
    ¬ set'.contains c = true := by
  have gaps := List.all_eq_true.mp (List.all_eq_true.mp apart set member) set' member'
  exact CharSet.not_contains_of_apart gaps belongs

/-- An expression that takes characters has no match before characters that it does not begin
with. -/
theorem ends_eq_nil {regex : Regex} {follow : List CharSet} {place : Place}
    (solid : regex.nullable = false) (apart : allApart regex.begins follow = true)
    (follows : BeginsIn follow place.after) : regex.ends place = [] := by
  refine List.eq_nil_iff_forall_not_mem.mpr fun next member => ?_
  obtain ⟨word, after, -, spells⟩ := between_ends member
  cases word with
  | nil =>
    have nullable := nullable_of_spells spells rfl
    rw [solid] at nullable
    cases nullable
  | cons c word =>
    obtain ⟨set, among, belongs⟩ := begins_of_spells spells rfl
    obtain ⟨set', among', belongs'⟩ := follows c (by simp [after])
    exact not_contains_of_allApart apart among among' belongs belongs'

/-- A word before other text begins with a character of the expression or with the text. -/
theorem beginsIn_of_spells {regex : Regex} {word rest : Text} {follow : List CharSet}
    (spells : regex.Spells word) (follows : regex.nullable = true → BeginsIn follow rest) :
    BeginsIn (regex.begins ++ if regex.nullable then follow else []) (word ++ rest) := by
  cases word with
  | nil =>
    have nullable := nullable_of_spells spells rfl
    rw [if_pos nullable]
    exact (follows nullable).mono fun set member => List.mem_append_right _ member
  | cons c word =>
    obtain ⟨set, member, belongs⟩ := begins_of_spells spells rfl
    exact .cons (List.mem_append_left _ member) belongs

private theorem length_le_flatten {words : List Text} (solid : ∀ word ∈ words, word ≠ []) :
    words.length ≤ words.flatten.length := by
  induction words with
  | nil => exact Nat.le_refl _
  | cons word words ih =>
    have here := List.length_pos_of_ne_nil (solid word (List.mem_cons_self ..))
    have rest := ih fun other member => solid other (List.mem_cons_of_mem _ member)
    simp only [List.length_cons, List.flatten_cons, List.length_append]
    omega

/-- A word of an expression that takes characters begins with one of its own. -/
theorem beginsIn_of_solid {regex : Regex} {word : Text} (spells : regex.Spells word)
    (solid : regex.nullable = false) (rest : Text) : BeginsIn regex.begins (word ++ rest) := by
  have begins : BeginsIn (regex.begins ++ if regex.nullable then [] else []) (word ++ rest) :=
    beginsIn_of_spells spells (by simp [solid])
  simpa [solid] using begins

/-- A literal has no match where it does not stand. -/
theorem literalEnds_eq_nil {text : Text} {place : Place} (differs : ¬ text <+: place.after) :
    literalEnds text place = [] := by
  refine List.eq_nil_iff_forall_not_mem.mpr fun next member => ?_
  obtain ⟨word, after, -, rfl⟩ := between_literal member
  exact differs ⟨_, after.symm⟩

/-- The preferred match at a place takes a word and leaves the rest. -/
def Prefers (body : Place → List Place) (place : Place) (word rest : Text) : Prop :=
  ∃ next, (body place).head? = some next ∧ next.after = rest ∧
    next.index = place.index + word.length

namespace Prefers

variable {body body' : Place → List Place} {place : Place} {word word' rest : Text}

theorem single (after : place.after = rest) : Prefers (fun place => [place]) place [] rest :=
  ⟨place, rfl, after, rfl⟩

theorem take {isMember : Char → Bool} {c : Char} (after : place.after = c :: rest)
    (belongs : isMember c = true) :
    Prefers (fun place => (place.take? isMember).toList) place [c] rest := by
  refine ⟨⟨place.index + 1, some c, rest⟩, ?_, rfl, rfl⟩
  simp [Place.take?_cons after, belongs]

/-- A preferred match goes on with the preferred match of what comes next. -/
theorem bind {middle : Text} (front : Prefers body place word middle)
    (back : ∀ next : Place, next.after = middle → Prefers body' next word' rest) :
    Prefers (fun place => (body place).flatMap body') place (word ++ word') rest := by
  obtain ⟨next, first, after, index⟩ := front
  obtain ⟨last, first', after', index'⟩ := back next after
  refine ⟨last, ?_, after', ?_⟩
  · obtain ⟨others, same⟩ := List.head?_eq_some_iff.mp first
    obtain ⟨others', same'⟩ := List.head?_eq_some_iff.mp first'
    simp [same, same']
  · rw [index', index, List.length_append, Nat.add_assoc]

theorem append_left (front : Prefers body place word rest) :
    Prefers (fun place => body place ++ body' place) place word rest := by
  obtain ⟨next, first, after, index⟩ := front
  exact ⟨next, by simp [List.head?_append, first], after, index⟩

theorem append_right (none : body place = []) (back : Prefers body' place word rest) :
    Prefers (fun place => body place ++ body' place) place word rest := by
  obtain ⟨next, first, after, index⟩ := back
  exact ⟨next, by simp [none, first], after, index⟩

theorem literal {text : Text} (after : place.after = text ++ rest) :
    Prefers (literalEnds text) place text rest := by
  induction text generalizing place with
  | nil => exact .single after
  | cons c text ih =>
    exact (take after ((CharSet.contains_single c c).mpr rfl)).bind fun next after => ih after

/-- An option that matches is taken. -/
theorem optional {regex : Regex} (front : Prefers regex.ends place word rest) :
    Prefers (Regex.repetition 0 (some 1) true regex).ends place word rest := by
  obtain ⟨next, first, after, index⟩ := front
  obtain ⟨others, same⟩ := List.head?_eq_some_iff.mp first
  exact ⟨next, by simp [ends, exactly, atMost, prefer, same], after, index⟩

/-- An option that does not match is left out. -/
theorem without {regex : Regex} (none : regex.ends place = []) (after : place.after = rest) :
    Prefers (Regex.repetition 0 (some 1) true regex).ends place [] rest :=
  ⟨place, by simp [ends, exactly, atMost, prefer, none], after, rfl⟩

/-- Lazy rounds of characters stop as soon as what comes after them matches. -/
theorem lazily {set : CharSet} {tail : Regex} {run : Text}
    (each : ∀ c ∈ run, set.contains c = true)
    (late : ∀ c back, c :: back <:+ run → ∀ place : Place,
      place.after = c :: back ++ (word ++ rest) → tail.ends place = [])
    (last : ∀ place : Place, place.after = word ++ rest → Prefers tail.ends place word rest)
    (after : place.after = run ++ (word ++ rest)) :
    Prefers (Regex.seq (.repetition 0 none false (.chars set)) tail).ends place (run ++ word)
      rest := by
  have rounds (place : Place) :
      (Regex.seq (.repetition 0 none false (.chars set)) tail).ends place =
      tail.ends place ++ (place.take? set.contains).toList.flatMap
        (Regex.seq (.repetition 0 none false (.chars set)) tail).ends := by
    have one := @anyNumber_eq false _ (Takes.ofTake set.contains) place
    simp only [ends, exactly, List.flatMap_singleton]
    rw [one, prefer, if_neg (by decide), List.flatMap_append, List.flatMap_singleton,
      List.flatMap_assoc]
  induction run generalizing place with
  | nil =>
    obtain ⟨next, first, ended, index⟩ := last place after
    exact ⟨next, by rw [rounds, List.head?_append, first, Option.some_or], ended, index⟩
  | cons c run ih =>
    obtain ⟨here, others⟩ := List.forall_mem_cons.mp each
    have onward : Prefers (fun place => (place.take? set.contains).toList.flatMap
        (Regex.seq (.repetition 0 none false (.chars set)) tail).ends) place
        ([c] ++ (run ++ word)) rest :=
      (take after here).bind fun next after =>
        ih others (fun d back tail => late d back (tail.trans (List.suffix_cons c run))) after
    obtain ⟨next, first, ended, index⟩ := onward
    have none := late c run (List.suffix_refl _) place after
    exact ⟨next, by rw [rounds, none, List.nil_append, first], ended, index⟩

section Rounds

variable {spelled fits : Text → Prop}
  (each : ∀ word rest, spelled word → fits rest → ∀ place : Place, place.after = word ++ rest →
    Prefers body place word rest)
  (kept : ∀ word rest, spelled word → fits rest → fits (word ++ rest))
  {words : List Text} (rounds : ∀ word ∈ words, spelled word) (last : fits rest)

include kept rounds last

private theorem fits_flatten : fits (words.flatten ++ rest) := by
  induction words with
  | nil => exact last
  | cons word words ih =>
    rw [List.flatten_cons, List.append_assoc]
    obtain ⟨here, others⟩ := List.forall_mem_cons.mp rounds
    exact kept word _ here (ih others)

include each

/-- So many rounds take so many words. -/
theorem exactly (after : place.after = words.flatten ++ rest) :
    Prefers (exactly body words.length) place words.flatten rest := by
  induction words generalizing place with
  | nil => exact .single after
  | cons word words ih =>
    obtain ⟨here, others⟩ := List.forall_mem_cons.mp rounds
    have first : Prefers body place word (words.flatten ++ rest) :=
      each word _ here (fits_flatten kept others last) place (by simpa using after)
    exact first.bind fun next after => ih others after

/-- Greedy rounds take all the words if no further round goes on after them. -/
theorem atMost {count : Nat} (enough : words.length ≤ count)
    (stops : 0 < count → ∀ next : Place, next.after = rest → body next = [])
    (after : place.after = words.flatten ++ rest) :
    Prefers (atMost true body count) place words.flatten rest := by
  induction words generalizing place count with
  | nil =>
    cases count with
    | zero => exact .single after
    | succ count =>
      have none := stops (Nat.succ_pos count) place after
      exact ⟨place, by simp [Regex.atMost, prefer, none], after, rfl⟩
  | cons word words ih =>
    cases count with
    | zero => simp at enough
    | succ count =>
      obtain ⟨here, others⟩ := List.forall_mem_cons.mp rounds
      have first : Prefers body place word (words.flatten ++ rest) :=
        each word _ here (fits_flatten kept others last) place (by simpa using after)
      have onward : Prefers (fun place => (body place).flatMap (Regex.atMost true body count))
          place (word ++ words.flatten) rest :=
        first.bind fun next after =>
          ih others (by simpa using enough) (fun _ => stops (Nat.succ_pos count)) after
      exact onward.append_left

/-- A greedy repetition takes all the words that stand there if no further round goes on after
them. -/
theorem repetition {min : Nat} {max : Option Nat} {regex : Regex} (same : body = regex.ends)
    (solid : ∀ word, spelled word → word ≠ []) (enough : min ≤ words.length)
    (bounded : ∀ most, max = some most → words.length ≤ min + (most - min))
    (stops : max ≠ some min → ∀ next : Place, next.after = rest → body next = [])
    (after : place.after = words.flatten ++ rest) :
    Prefers (Regex.repetition min max true regex).ends place words.flatten rest := by
  subst same
  have split : words.flatten = (words.take min).flatten ++ (words.drop min).flatten := by
    rw [← List.flatten_append, List.take_append_drop]
  have needed (word : Text) (member : word ∈ words.take min) : spelled word :=
    rounds word (List.mem_of_mem_take member)
  have further (word : Text) (member : word ∈ words.drop min) : spelled word :=
    rounds word (List.mem_of_mem_drop member)
  have after' : place.after =
      (words.take min).flatten ++ ((words.drop min).flatten ++ rest) := by
    rw [after, split, List.append_assoc]
  have front := Prefers.exactly each kept needed (fits_flatten kept further last) after'
  rw [List.length_take_of_le enough] at front
  rw [split]
  cases max with
  | some most =>
    have bound := bounded most rfl
    refine front.bind fun next after => Prefers.atMost each kept further last ?_ ?_ after
    · rw [List.length_drop]
      omega
    · intro further
      apply stops
      intro same
      have : most = min := Option.some.inj same
      omega
  | none =>
    have long := length_le_flatten fun word member => solid word (further word member)
    refine front.bind fun next after =>
      Prefers.atMost each kept further last ?_ (fun _ => stops nofun) after
    rw [after, List.length_append]
    omega

end Rounds

end Prefers

/-- The preferred match of a steady expression takes any of its words that stands there. -/
theorem prefers_of_steady {regex : Regex} {follow : List CharSet}
    (steady : regex.steady follow = true) {word rest : Text} (spells : regex.Spells word)
    (follows : BeginsIn follow rest) {place : Place} (after : place.after = word ++ rest) :
    Prefers regex.ends place word rest := by
  induction regex generalizing follow word rest place with
  | empty =>
    cases spells
    exact .single after
  | literal text =>
    cases spells
    exact .literal after
  | chars set =>
    cases spells with
    | chars belongs => exact .take after belongs
  | look condition => cases steady
  | repetition min max greedy body ih =>
    cases spells with
    | @repetition _ _ _ _ words enough bounded rounds =>
      simp only [Regex.steady, Bool.and_eq_true, Bool.or_eq_true, Bool.not_eq_true',
        decide_eq_true_eq] at steady
      obtain ⟨⟨⟨rfl, solid⟩, apart⟩, inner⟩ := steady
      have follows' : BeginsIn (body.begins ++ follow) rest :=
        follows.mono fun set member => List.mem_append_right _ member
      have kept (word rest : Text) (spells : body.Spells word)
          (_ : BeginsIn (body.begins ++ follow) rest) :
          BeginsIn (body.begins ++ follow) (word ++ rest) := by
        exact (beginsIn_of_solid spells solid rest).mono fun set member =>
          List.mem_append_left _ member
      have each (word rest : Text) (spells : body.Spells word)
          (follows : BeginsIn (body.begins ++ follow) rest) (place : Place)
          (after : place.after = word ++ rest) : Prefers body.ends place word rest :=
        ih inner spells follows after
      have solid' (word : Text) (spells : body.Spells word) : word ≠ [] := spells.ne_nil solid
      have stops (loose : max ≠ some min) (next : Place) (after : next.after = rest) :
          body.ends next = [] :=
        ends_eq_nil solid (apart.resolve_left loose) (after ▸ follows)
      exact .repetition each kept rounds follows' rfl solid' enough bounded stops after
  | group index body ih =>
    cases spells with
    | group inner => exact ih steady inner follows after
  | seq first second ih ih' =>
    cases spells with
    | seq front back =>
      simp only [Regex.steady, Bool.and_eq_true] at steady
      have begins := beginsIn_of_spells back fun _ => follows
      rw [List.append_assoc] at after
      exact (ih steady.1 front begins after).bind fun next after => ih' steady.2 back follows after
  | alt preferred other ih ih' =>
    simp only [Regex.steady, Bool.and_eq_true, Bool.or_eq_true, Bool.not_eq_true'] at steady
    obtain ⟨⟨⟨⟨solid, apart⟩, last⟩, inner⟩, inner'⟩ := steady
    cases spells with
    | preferred spells => exact (ih inner spells follows after).append_left
    | other spells =>
      refine Prefers.append_right ?_ (ih' inner' spells follows after)
      have begins := beginsIn_of_spells spells fun _ => follows
      rw [← after] at begins
      refine ends_eq_nil solid ?_ begins
      simp only [allApart, List.all_eq_true, List.all_append, Bool.and_eq_true] at apart last ⊢
      intro set member
      refine ⟨apart set member, ?_⟩
      rcases last with solid' | last
      · simp [solid']
      · split
        · exact last set member
        · exact nofun

end Regex

namespace Pattern

/-- Whether the expression that a pattern tries at the start of a text is steady before the given
characters. -/
def steady (pattern : Pattern) (follow : List CharSet) : Bool :=
  pattern.regex.anchored && pattern.regex.LoopsAdvance &&
    match pattern.regex with
    | .seq (.look .textStart) body => body.steady follow
    | _ => false

theorem steady_of_shape {pattern : Pattern} {body : Regex} {follow : List CharSet}
    (shape : pattern.regex = .seq (.look .textStart) body) (loops : body.LoopsAdvance = true)
    (steady : body.steady follow = true) : pattern.steady follow = true := by
  have advance : (Regex.seq (.look .textStart) body).LoopsAdvance = true := loops
  rw [Pattern.steady, shape, advance]
  exact steady

/-- The whole of a word is a match of the pattern. -/
def Whole (pattern : Pattern) (word : Text) : Prop :=
  ∃ next ∈ pattern.regex.ends (.start word), next.after = []

variable {pattern : Pattern} {follow : List CharSet} {word rest : Text}

theorem spells_of_whole (whole : pattern.Whole word) : pattern.regex.Spells word := by
  obtain ⟨next, member, ended⟩ := whole
  obtain ⟨word', after, -, spells⟩ := Regex.between_ends member
  obtain rfl : word = word' := by simpa [Place.start, ended] using after
  exact spells

/-- What an expression that is tried at the start of a text prefers is what the pattern takes. -/
theorem matchCount?_of_prefers {body : Regex}
    (shape : pattern.regex = .seq (.look .textStart) body) (loops : body.LoopsAdvance = true)
    (prefers : ∀ place : Place, place.after = word ++ rest →
      Regex.Prefers body.ends place word rest) :
    pattern.matchCount? (word ++ rest) = some word.length := by
  have start : Regex.Prefers (Regex.look .textStart).ends (.start (word ++ rest)) []
      (word ++ rest) := ⟨_, rfl, rfl, rfl⟩
  have whole : Regex.Prefers pattern.regex.ends (.start (word ++ rest)) ([] ++ word) rest :=
    shape ▸ start.bind prefers
  obtain ⟨next, first, -, index⟩ := whole
  rw [matchCount?_eq (shape ▸ rfl) (shape ▸ loops), first, Option.map_some, index]
  simp [Place.start]

private theorem prefers_of_steady (steady : pattern.steady follow = true)
    (spells : pattern.regex.Spells word) (follows : Text.BeginsIn follow rest) :
    Regex.Prefers pattern.regex.ends (.start (word ++ rest)) word rest := by
  obtain ⟨-, body⟩ := Bool.and_eq_true_iff.mp steady
  split at body
  · rename_i regex inner shape
    rw [shape] at spells ⊢
    cases spells with
    | @seq _ _ _ word front back =>
      cases front
      have start : Regex.Prefers (Regex.look .textStart).ends (.start (word ++ rest)) []
          (word ++ rest) := ⟨_, rfl, rfl, rfl⟩
      exact start.bind fun next after => Regex.prefers_of_steady body back follows after
  · cases body

/-- A steady pattern takes any of its words that stands at the front of a text. -/
theorem matchCount?_of_spells (steady : pattern.steady follow = true)
    (spells : pattern.regex.Spells word) (follows : Text.BeginsIn follow rest) :
    pattern.matchCount? (word ++ rest) = some word.length := by
  obtain ⟨⟨anchored, loops⟩, -⟩ := by simpa only [Pattern.steady, Bool.and_eq_true] using steady
  obtain ⟨next, first, -, index⟩ := prefers_of_steady steady spells follows
  rw [matchCount?_eq anchored loops, first, Option.map_some, index]
  simp [Place.start]

/-- The words of a steady pattern are those that it matches as a whole. -/
theorem whole_iff_spells (steady : pattern.steady follow = true) :
    pattern.Whole word ↔ pattern.regex.Spells word := by
  refine ⟨spells_of_whole, fun spells => ?_⟩
  have prefers : Regex.Prefers pattern.regex.ends (.start (word ++ [])) word [] :=
    prefers_of_steady steady spells .nil
  obtain ⟨next, first, ended, -⟩ := prefers
  rw [List.append_nil] at first
  exact ⟨next, List.mem_of_head? first, ended⟩

/-- What a steady pattern takes from a text is a word that it matches as a whole. -/
theorem whole_of_matchCount? (steady : pattern.steady follow = true) {text : Text} {count : Nat}
    (found : pattern.matchCount? text = some count) : pattern.Whole (text.take count) := by
  obtain ⟨⟨anchored, loops⟩, -⟩ := by simpa only [Pattern.steady, Bool.and_eq_true] using steady
  obtain ⟨word, rest, rfl, rfl, spells⟩ := spells_of_matchCount? anchored loops found
  rw [List.take_left]
  exact (whole_iff_spells steady).mpr spells

end Pattern

end Packrat
