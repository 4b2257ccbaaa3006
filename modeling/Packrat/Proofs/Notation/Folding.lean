import Packrat.Proofs.Notation.Reading

/-! # What folds can come to

A fold of any tree whatsoever comes to a value or to an error, and `Settles` says what is known of
either. The rules that folds put together keep every property that goes from the parts of a rule to
the rule (`Kept`), and so does each of the constructors that the notations share.
-/

namespace Packrat

/-- The result is a value with a property, or an error with one. -/
def Settles {α : Type} (holds : α → Prop) (fails : Error → Prop) : Except Error α → Prop
  | .ok value => holds value
  | .error fault => fails fault

namespace Settles

variable {α β : Type} {holds : α → Prop} {holds' : β → Prop} {fails : Error → Prop}

theorem bind {result : Except Error α} {next : α → Except Error β}
    (settles : Settles holds fails result)
    (following : ∀ value, holds value → Settles holds' fails (next value)) :
    Settles holds' fails (result >>= next) := by
  cases result with
  | ok value => exact following value settles
  | error fault => exact settles

theorem map {result : Except Error α} {change : α → β} (settles : Settles holds fails result)
    (kept : ∀ value, holds value → holds' (change value)) :
    Settles holds' fails (result.map change) := by
  cases result with
  | ok value => exact kept value settles
  | error fault => exact settles

theorem ok {result : Except Error α} {value : α} (settles : Settles holds fails result)
    (ended : result = .ok value) : holds value := by
  rw [ended] at settles
  exact settles

theorem error {result : Except Error α} {fault : Error} (settles : Settles holds fails result)
    (failed : result = .error fault) : fails fault := by
  rw [failed] at settles
  exact settles

theorem mapM {read : α → Except Error β} {values : List α}
    (each : ∀ value ∈ values, Settles holds' fails (read value)) :
    Settles (fun results => ∀ result ∈ results, holds' result) fails (values.mapM read) := by
  induction values with
  | nil => exact fun _ member => absurd member List.not_mem_nil
  | cons value values ih =>
    obtain ⟨here, others⟩ := List.forall_mem_cons.mp each
    rw [List.mapM_cons]
    exact here.bind fun result first => (ih others).bind fun results rest =>
      List.forall_mem_cons.mpr ⟨first, rest⟩

theorem foldlM {step : β → α → Except Error β} {values : List α}
    (each : ∀ value ∈ values, ∀ state, holds' state → Settles holds' fails (step state value))
    {state : β} (start : holds' state) : Settles holds' fails (values.foldlM step state) := by
  induction values generalizing state with
  | nil => exact start
  | cons value values ih =>
    obtain ⟨here, others⟩ := List.forall_mem_cons.mp each
    rw [List.foldlM_cons]
    exact (here state start).bind fun state kept => ih others kept

end Settles

namespace Notation

/-- The error is no cut inside a character, so it is one that every fold may come to. -/
def Plain (fault : Error) : Prop := ∀ text, fault ≠ .misplacedCut text

/-- The property goes from the parts of a rule to the rule, unordered choice left aside, and the
plain errors are among those that are allowed. -/
structure Kept (holds : Rule → Prop) (fails : Error → Prop) : Prop where
  endOfText : holds .endOfText
  empty : holds .empty
  terminal (leaf : Terminal) : holds (.terminal leaf)
  reference (name : String) : holds (.reference name)
  sequence {rules : List Rule} (each : ∀ rule ∈ rules, holds rule) : holds (.sequence rules)
  ordered {rules : List Rule} (each : ∀ rule ∈ rules, holds rule) : holds (.ordered rules)
  optional {rule : Rule} (inner : holds rule) : holds (.optional rule)
  repetition {rule : Rule} {min : Nat} {max : Option Nat} (inner : holds rule) :
    holds (.repetition rule min max)
  absent {rule : Rule} (inner : holds rule) : holds (.absent rule)
  ahead {rule : Rule} (inner : holds rule) : holds (.ahead rule)
  fault {fault : Error} (plain : Plain fault) : fails fault

/-- Unordered choice keeps the property too. -/
def KeepsChoice (holds : Rule → Prop) : Prop :=
  ∀ {rules : List Rule}, (∀ rule ∈ rules, holds rule) → holds (.choice rules)

/-- Every production of the specification has the property. -/
def Declares (holds : Rule → Prop) (spec : Specification) : Prop :=
  ∀ entry ∈ spec.productions.entries, holds entry.2

/-- Every rule has the property that says nothing. -/
theorem Kept.of_plain {fails : Error → Prop}
    (allowed : ∀ fault, Plain fault → fails fault) : Kept (fun _ => True) fails where
  endOfText := trivial
  empty := trivial
  terminal _ := trivial
  reference _ := trivial
  sequence _ := trivial
  ordered _ := trivial
  optional _ := trivial
  repetition _ := trivial
  absent _ := trivial
  ahead _ := trivial
  fault := allowed _

namespace Kept

variable {holds : Rule → Prop} {fails : Error → Prop} (kept : Kept holds fails) {α : Type}
  {property : α → Prop}

include kept

theorem build (fault : BuildFault) : Settles property fails (Error.build fault) :=
  kept.fault nofun

theorem defect (tree : Tree) (language production : String) :
    Settles property fails (tree.defect language production) :=
  kept.fault nofun

theorem leafText (tree : Tree) (language production : String) :
    Settles (fun _ => True) fails (tree.leafText language production) := by
  unfold Tree.leafText
  split
  · split
    · exact kept.defect _ _ _
    · exact trivial
  · exact kept.defect _ _ _

theorem leafName (tree : Tree) (language production : String) :
    Settles (fun _ => True) fails (tree.leafName language production) :=
  (kept.leafText tree language production).map fun _ _ => trivial

theorem operands (kind : String) {rules : List Rule} (each : ∀ rule ∈ rules, holds rule) :
    Settles (fun rules => ∀ rule ∈ rules, holds rule) fails
      (Rule.operands kind (rules.map .ok)) := by
  have built : Settles (fun rules => ∀ rule ∈ rules, holds rule) fails
      ((rules.map Except.ok).mapM id) := by
    refine Settles.mapM fun result member => ?_
    obtain ⟨rule, among, rfl⟩ := List.mem_map.mp member
    exact each rule among
  refine built.bind fun rules each => ?_
  split
  · exact kept.build _
  · exact each

/-- Alternatives keep the property if they are ordered, and if unordered choice does. -/
theorem alternatives {ordered : Bool} (either : ordered = true ∨ KeepsChoice holds)
    {rules : List Rule} (each : ∀ rule ∈ rules, holds rule) :
    Settles holds fails (Rule.alternatives ordered rules) := by
  unfold Rule.alternatives
  split
  · exact each _ (List.mem_singleton_self _)
  · split
    · exact (kept.operands _ each).map fun _ each => kept.ordered each
    · rename_i unordered
      exact (kept.operands _ each).map fun _ each => (either.resolve_left unordered) each

theorem concatenation {rules : List Rule} (each : ∀ rule ∈ rules, holds rule) :
    Settles holds fails (Rule.concatenation rules) := by
  unfold Rule.concatenation
  split
  · exact each _ (List.mem_singleton_self _)
  · exact (kept.operands _ each).map fun _ each => kept.sequence each

theorem token? (name : String) : Settles holds fails (Rule.token? name) := by
  unfold Rule.token?
  split
  · exact kept.build _
  · exact kept.terminal _

theorem reference? (name : String) : Settles holds fails (Rule.reference? name) := by
  unfold Rule.reference?
  split
  · exact kept.build _
  · exact kept.reference _

theorem literal? (text : Text) (caseless : Bool) :
    Settles holds fails (Rule.literal? text caseless) := by
  unfold Rule.literal?
  split
  · exact kept.build _
  · exact kept.terminal _

theorem textOrEmpty (text : Text) : Settles holds fails (Rule.textOrEmpty text) := by
  unfold Rule.textOrEmpty
  split
  · exact kept.empty
  · exact kept.literal? text false

theorem unescape (language : String) (body : Text) :
    Settles (fun _ => True) fails (Escape.unescape language body) := by
  have reads : Reads language (Escape.unescape language body) := .unescape language body
  cases result : Escape.unescape language body with
  | ok text => exact trivial
  | error fault =>
    cases reads fault result with
    | construction => exact kept.build _
    | prose => exact kept.fault nofun

theorem production {spec : Specification} (name : String) {rule : Except Error Rule}
    (before : Declares holds spec) (inner : Settles holds fails rule) :
    Settles (Declares holds) fails (spec.production name rule) := by
  unfold Specification.production
  split
  · exact kept.build _
  · split
    · exact kept.build _
    · refine inner.map fun rule here entry member => ?_
      rcases Table.mem_insertEntry member with rfl | member
      · exact here
      · exact before entry member

end Kept

end Notation

end Packrat
