import Packrat.Notation.Abnf
import Packrat.Notation.Escape
import Packrat.Proofs.Building

/-! # Folds that read their trees

A fold reads a tree if it gives a result or refuses what the tree says, and never reports a shape
that it does not know. The rules and texts that folds put together are refused only for faults of
construction.
-/

namespace Packrat

namespace Notation

/-- The errors with which a notation refuses a tree that it reads: a fault of construction, or
prose, which only one of the notations has. -/
inductive Refusal : String → Error → Prop where
  | construction {language fault} : Refusal language (.construction fault)
  | prose {text} :
      Refusal Abnf.language (.unsupported Abnf.language ("prose-val " ++ text))

/-- The result is no error but a refusal. -/
def Reads {α : Type} (language : String) (result : Except Error α) : Prop :=
  ∀ fault, result = .error fault → Refusal language fault

namespace Reads

variable {α β : Type} {language : String}

theorem ok (value : α) : Reads language (.ok value) := nofun

theorem build (fault : BuildFault) : Reads language (Error.build fault : Except Error α) := by
  intro fault same
  cases same
  exact .construction

theorem bind {result : Except Error α} {next : α → Except Error β} (reads : Reads language result)
    (following : ∀ value, result = .ok value → Reads language (next value)) :
    Reads language (result >>= next) := by
  intro fault same
  cases result with
  | error first =>
    cases same
    exact reads fault rfl
  | ok value => exact following value rfl fault same

theorem map {result : Except Error α} (reads : Reads language result) (change : α → β) :
    Reads language (result.map change) := by
  intro fault same
  cases result with
  | error first =>
    cases same
    exact reads fault rfl
  | ok value => cases same

theorem mapM {read : α → Except Error β} {values : List α}
    (reads : ∀ value ∈ values, Reads language (read value)) :
    Reads language (values.mapM read) := by
  induction values with
  | nil => exact ok _
  | cons value values ih =>
    obtain ⟨here, others⟩ := List.forall_mem_cons.mp reads
    rw [List.mapM_cons]
    exact here.bind fun _ _ => (ih others).bind fun _ _ => ok _

theorem foldlM {step : β → α → Except Error β} {values : List α}
    (reads : ∀ value ∈ values, ∀ state, Reads language (step state value)) (state : β) :
    Reads language (values.foldlM step state) := by
  induction values generalizing state with
  | nil => exact ok _
  | cons value values ih =>
    obtain ⟨here, others⟩ := List.forall_mem_cons.mp reads
    rw [List.foldlM_cons]
    exact (here state).bind fun state _ => ih others state

theorem operands (kind : String) (rules : List Rule) :
    Reads language (Rule.operands kind (rules.map .ok)) := by
  refine (mapM fun result member => ?_).bind fun rules _ => ?_
  · obtain ⟨rule, -, rfl⟩ := List.mem_map.mp member
    exact ok rule
  · split
    · exact build _
    · exact ok _

theorem alternatives (ordered : Bool) (rules : List Rule) :
    Reads language (Rule.alternatives ordered rules) := by
  unfold Rule.alternatives
  split
  · exact ok _
  · split
    · exact (operands _ rules).map _
    · exact (operands _ rules).map _

theorem concatenation (rules : List Rule) : Reads language (Rule.concatenation rules) := by
  unfold Rule.concatenation
  split
  · exact ok _
  · exact (operands _ _).map _

theorem token? (name : String) : Reads language (Rule.token? name) := by
  unfold Rule.token?
  split
  · exact build _
  · exact ok _

theorem reference? (name : String) : Reads language (Rule.reference? name) := by
  unfold Rule.reference?
  split
  · exact build _
  · exact ok _

theorem literal? (text : Text) (caseless : Bool) :
    Reads language (Rule.literal? text caseless) := by
  unfold Rule.literal?
  split
  · exact build _
  · exact ok _

theorem textOrEmpty (text : Text) : Reads language (Rule.textOrEmpty text) := by
  unfold Rule.textOrEmpty
  split
  · exact ok _
  · exact literal? text false

theorem production (spec : Specification) (name : String) {rule : Except Error Rule}
    (reads : Reads language rule) : Reads language (spec.production name rule) := by
  unfold Specification.production
  split
  · exact build _
  · split
    · exact build _
    · exact reads.map _

theorem unescape (reporting : String) (body : Text) :
    Reads language (Escape.unescape reporting body) := by
  suffices general : ∀ text, Reads language (Escape.resolve reporting body text) from
    general body
  intro text
  fun_induction Escape.resolve reporting body text with
  | case1 => exact ok _
  | case2 => exact build _
  | case3 first second third fourth rest c digits ih => exact ih.map _
  | case4 => exact build _
  | case5 => exact build _
  | case6 letter rest _ _ c known ih => exact ih.map _
  | case7 => exact build _
  | case8 c rest _ _ _ _ ih => exact ih.map _

variable {lexicon : Lexicon} {known : String → Tree → Prop} {tree : Tree}

/-- The token of a terminal has a text. -/
theorem leafText {leaf : Terminal} (builds : (Rule.terminal leaf).Builds lexicon known tree)
    (reporting production : String) : Reads language (tree.leafText reporting production) := by
  obtain ⟨name, rule, caseless, rest, count, start, -, -, rfl⟩ := builds.leaf
  exact ok _

theorem leafName {leaf : Terminal} (builds : (Rule.terminal leaf).Builds lexicon known tree)
    (reporting production : String) : Reads language (tree.leafName reporting production) :=
  (leafText builds reporting production).map _

end Reads

end Notation

end Packrat
