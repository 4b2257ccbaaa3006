import Packrat.Grammar.Basic
import Packrat.Proofs.Evaluation
import Mathlib.Data.Finset.Card
import Mathlib.Data.Fintype.Card
import Mathlib.Data.Fintype.Prod
import Mathlib.Data.Fintype.Fin
import Mathlib.Order.Monotone.Basic

/-! # The depth of applications

`Grammar.applyWithin?` bounds how deep applications of productions are nested. Every depth at
which some application ends for the first time uses up one pair of a production and a place, so
the depths from `Grammar.depthLimit` on make no difference (`applyWithin?_of_limit_le`). At the
limit an application is what its body evaluates to (`applyAt?_eq`), and no depth is left to speak
of.
-/

namespace Packrat

namespace Cursor

/-- Every cursor is some characters after the start of its text. -/
theorem exists_forward_start (cursor : Cursor) :
    ∃ count ≤ cursor.text.length, (start cursor.text).forward count = cursor := by
  refine ⟨cursor.before.length, by simp [text], eq_of_offset (by simp) ?_⟩
  have front : cursor.text.take cursor.before.length = cursor.before.reverse := by
    simp [text]
  simp [forward, start, front, cursor.offset_eq]

end Cursor

namespace Table

variable {α : Type}

theorem lookupEntry_mem {name : String} {value : α} {entries : List (String × α)}
    (found : lookupEntry name entries = some value) : (name, value) ∈ entries := by
  induction entries with
  | nil => simp [lookupEntry] at found
  | cons head more ih =>
    simp only [lookupEntry] at found
    split at found
    · rename_i same
      cases found
      exact same ▸ List.mem_cons_self ..
    · exact List.mem_cons_of_mem _ (ih found)

theorem mem_of_find? {table : Table α} {name : String} {value : α}
    (found : table.find? name = some value) : (name, value) ∈ table.entries :=
  lookupEntry_mem found

private theorem lookupEntry_eq_some {name : String} {value : α} {entries : List (String × α)}
    (sorted : entries.Pairwise fun first second => first.1 < second.1)
    (member : (name, value) ∈ entries) : lookupEntry name entries = some value := by
  induction entries with
  | nil => cases member
  | cons head more ih =>
    obtain ⟨below, sorted⟩ := List.pairwise_cons.mp sorted
    rcases List.mem_cons.mp member with rfl | member
    · exact if_pos rfl
    · have apart : head.1 ≠ name := String.ne_of_lt (below _ member)
      exact (if_neg apart).trans (ih sorted member)

theorem find?_of_mem {table : Table α} {name : String} {value : α}
    (member : (name, value) ∈ table.entries) : table.find? name = some value :=
  lookupEntry_eq_some table.sorted member

/-- No name stands in a table twice. -/
theorem nodup_names (table : Table α) : table.names.Nodup :=
  List.pairwise_map.mpr (table.sorted.imp String.ne_of_lt)

theorem mem_of_mem_insertAll {table : Table α} {entries : List (String × α)}
    {entry : String × α} (member : entry ∈ (table.insertAll entries).entries) :
    entry ∈ table.entries ∨ entry ∈ entries := by
  induction entries generalizing table with
  | nil => exact .inl member
  | cons head more ih =>
    rcases ih member with inserted | later
    · exact (mem_insertEntry inserted).elim (fun same => .inr (same ▸ List.mem_cons_self ..)) .inl
    · exact .inr (List.mem_cons_of_mem _ later)

/-- What a name stands for in the table of a list stands in the list. -/
theorem mem_of_find?_ofList {entries : List (String × α)} {name : String} {value : α}
    (found : (ofList entries).find? name = some value) : (name, value) ∈ entries :=
  (mem_of_mem_insertAll (mem_of_find? found)).resolve_left (List.not_mem_nil)

end Table

namespace Comparison

/-- The second computation gives every result of the first. -/
def extending : Comparison Option Option where
  related post first second :=
    ∀ result, first = some result → second = some result ∧ post result
  ofPure holds result same := by
    cases same
    exact ⟨rfl, holds⟩
  ofBind related next result same := by
    obtain ⟨middle, first, same⟩ := Option.bind_eq_some_iff.mp same
    obtain ⟨second, holds⟩ := related middle first
    obtain ⟨last, holds⟩ := next middle holds result same
    exact ⟨Option.bind_eq_some_iff.mpr ⟨middle, second, last⟩, holds⟩

/-- The computations give the same result, if any. -/
def agreeing : Comparison Option Option where
  related post first second := first = second ∧ ∀ result, first = some result → post result
  ofPure holds := ⟨rfl, fun result same => by cases same; exact holds⟩
  ofBind {_ _ _ _ first second next next'} related following := by
    obtain ⟨rfl, holds⟩ := related
    cases first with
    | none => exact ⟨rfl, fun _ same => by cases same⟩
    | some middle => exact following middle (holds middle rfl)

end Comparison

namespace Grammar

variable {grammar : Grammar} {text : Text} {name : String} {cursor : Cursor}

/-- An application of a deeper bound ends alike, at a place that the cursor leads to. -/
theorem applyWithin?_succ (depth : Nat) (name : String) (cursor : Cursor)
    (result : Option Outcome) (ended : grammar.applyWithin? depth name cursor = some result) :
    grammar.applyWithin? (depth + 1) name cursor = some result ∧
      ∀ outcome ∈ result, Outcome.After cursor outcome := by
  induction depth generalizing name cursor result with
  | zero => simp [applyWithin?] at ended
  | succ depth ih =>
    rw [applyWithin?] at ended ⊢
    split at ended
    · cases ended
      exact ⟨rfl, nofun⟩
    · obtain ⟨outcome, evaluated, rfl⟩ := Option.map_eq_some_iff.mp ended
      have related := Rule.eval_related Comparison.extending
        (fun name cursor _ result => ih name cursor result) _ cursor rfl outcome evaluated
      refine ⟨Option.map_eq_some_iff.mpr ⟨outcome, related.1, rfl⟩, ?_⟩
      simpa using related.2

theorem applyWithin?_mono {depth deeper : Nat} (below : depth ≤ deeper)
    {result : Option Outcome} (ended : grammar.applyWithin? depth name cursor = some result) :
    grammar.applyWithin? deeper name cursor = some result := by
  induction below with
  | refl => exact ended
  | step _ ih => exact (applyWithin?_succ _ _ _ _ ih).1

/-- Bounds that make no difference to the applications in a text make none to the applications of
one bound more. -/
private theorem applyWithin?_succ_congr {depth deeper : Nat}
    (same : ∀ name cursor, cursor.text = text →
      grammar.applyWithin? depth name cursor = grammar.applyWithin? deeper name cursor)
    (name : String) (cursor : Cursor) (here : cursor.text = text) :
    grammar.applyWithin? (depth + 1) name cursor =
      grammar.applyWithin? (deeper + 1) name cursor := by
  rw [applyWithin?, applyWithin?]
  split
  · rfl
  · have related := @Rule.eval_related _ _ _ _ Comparison.agreeing _ grammar.lexicon
      grammar.ignore _ _ fun name cursor here => ⟨same name cursor here,
        fun result ended => (applyWithin?_succ _ name cursor result ended).2⟩
    exact congrArg (Option.map some) (related _ cursor here).1

/-- The pairs of a production and a place in a text, by their numbers. -/
private abbrev Site (grammar : Grammar) (text : Text) :=
  Fin grammar.productions.entries.length × Fin (text.length + 1)

/-- Whether the application at a site ends within a bound. -/
private def endsAt (grammar : Grammar) (text : Text) (depth : Nat) (site : Site grammar text) :
    Bool :=
  (grammar.applyWithin? depth (grammar.productions.entries.get site.1).1
    ((Cursor.start text).forward site.2)).isSome

/-- The sites where applications end within a bound. -/
private def ending (grammar : Grammar) (text : Text) (depth : Nat) :
    Finset (Site grammar text) :=
  Finset.univ.filter fun site => endsAt grammar text depth site

private theorem mem_ending {depth : Nat} {site : Site grammar text} :
    site ∈ ending grammar text depth ↔ endsAt grammar text depth site = true := by
  simp only [ending, Finset.mem_filter, Finset.mem_univ, true_and]

private theorem ending_mono {depth deeper : Nat} (below : depth ≤ deeper) :
    ending grammar text depth ⊆ ending grammar text deeper := by
  intro site member
  rw [mem_ending, endsAt] at member ⊢
  obtain ⟨result, ended⟩ := Option.isSome_iff_exists.mp member
  rw [applyWithin?_mono below ended]
  rfl

/-- Where as many applications end within two bounds, the bounds make no difference. -/
private theorem applyWithin?_of_card {depth deeper : Nat} (below : depth ≤ deeper)
    (card : (ending grammar text (depth + 1)).card = (ending grammar text (deeper + 1)).card)
    (name : String) (cursor : Cursor) (here : cursor.text = text) :
    grammar.applyWithin? (depth + 1) name cursor =
      grammar.applyWithin? (deeper + 1) name cursor := by
  have same : ending grammar text (depth + 1) = ending grammar text (deeper + 1) :=
    Finset.eq_of_subset_of_card_le (ending_mono (by omega)) card.ge
  subst here
  obtain ⟨count, bound, place⟩ := cursor.exists_forward_start
  cases found : grammar.productions.find? name with
  | none => simp only [applyWithin?, found]
  | some rule =>
    obtain ⟨index, short, entry⟩ := List.getElem_of_mem (Table.mem_of_find? found)
    have site : endsAt grammar cursor.text (depth + 1) (⟨index, short⟩, ⟨count, by omega⟩) =
        endsAt grammar cursor.text (deeper + 1) (⟨index, short⟩, ⟨count, by omega⟩) := by
      have member := Finset.ext_iff.mp same (⟨index, short⟩, ⟨count, by omega⟩)
      rwa [mem_ending, mem_ending, ← Bool.eq_iff_iff] at member
    simp only [endsAt, List.get_eq_getElem, entry, place] at site
    cases ended : grammar.applyWithin? (depth + 1) name cursor with
    | some result => exact (applyWithin?_mono (by omega) ended).symm
    | none =>
      rw [ended, Option.isSome_none] at site
      exact (Option.isSome_eq_false_iff.mp site.symm |> Option.isNone_iff_eq_none.mp).symm

/-- Bounds from the limit on make no difference. -/
theorem applyWithin?_of_limit_le {depth : Nat}
    (above : grammar.depthLimit cursor.text.length ≤ depth) :
    grammar.applyWithin? depth name cursor = grammar.applyAt? name cursor := by
  have monotone : Monotone fun depth => (ending grammar cursor.text (depth + 1)).card :=
    fun first second below => Finset.card_le_card (ending_mono (by omega))
  have bounded (depth : Nat) : (ending grammar cursor.text (depth + 1)).card ≤
      grammar.productions.entries.length * (cursor.text.length + 1) := by
    refine (Finset.card_le_univ _).trans (le_of_eq ?_)
    simp
  have stable (depth : Nat)
      (card : (ending grammar cursor.text (depth + 1)).card =
        (ending grammar cursor.text (depth + 1 + 1)).card) :
      (ending grammar cursor.text (depth + 1 + 1)).card =
        (ending grammar cursor.text (depth + 2 + 1)).card := by
    have same := applyWithin?_succ_congr (applyWithin?_of_card (Nat.le_succ depth) card)
    refine congrArg Finset.card (Finset.filter_congr fun site _ => ?_)
    simp only [endsAt, same _ _ (show ((Cursor.start cursor.text).forward site.2).text = _ by simp)]
  obtain ⟨rest, rfl⟩ := Nat.exists_eq_add_of_le above
  have card := Nat.stabilises_of_monotone monotone bounded stable
    (Nat.le_add_right _ rest)
  rw [applyAt?, depthLimit, Nat.add_right_comm]
  exact (applyWithin?_of_card (Nat.le_add_right ..) card.symm name cursor rfl).symm

/-- An application ends exactly when it does within some bound. -/
theorem applyAt?_eq_some_iff {result : Option Outcome} :
    grammar.applyAt? name cursor = some result ↔
      ∃ depth, grammar.applyWithin? depth name cursor = some result := by
  constructor
  · exact fun ended => ⟨_, ended⟩
  · rintro ⟨depth, ended⟩
    rw [← applyWithin?_of_limit_le (Nat.le_max_left _ depth)]
    exact applyWithin?_mono (Nat.le_max_right ..) ended

/-- Rules are evaluated with productions that are applied directly. -/
def direct (grammar : Grammar) : Setting Option :=
  ⟨grammar.lexicon, grammar.ignore, grammar.applyAt?⟩

theorem applyAt?_after {result : Option Outcome}
    (ended : grammar.applyAt? name cursor = some result) :
    ∀ outcome ∈ result, Outcome.After cursor outcome :=
  (applyWithin?_succ _ _ _ _ ended).2

private theorem eval_within (rule : Rule) {depth : Nat}
    (above : grammar.depthLimit cursor.text.length ≤ depth) :
    rule.eval ⟨grammar.lexicon, grammar.ignore, grammar.applyWithin? depth⟩ cursor =
      rule.eval grammar.direct cursor :=
  (Rule.eval_related Comparison.agreeing (fun _ _ here =>
    ⟨applyWithin?_of_limit_le (here ▸ above),
      fun _ ended => (applyWithin?_succ _ _ _ _ ended).2⟩) rule cursor rfl).1

/-- A rule is evaluated with productions that are applied directly. -/
theorem evalAt?_eq (rule : Rule) (cursor : Cursor) :
    grammar.evalAt? rule cursor = rule.eval grammar.direct cursor :=
  eval_within rule (Nat.le_refl _)

/-- The application of a production is the evaluation of its body. -/
theorem applyAt?_eq (name : String) (cursor : Cursor) :
    grammar.applyAt? name cursor =
      match grammar.productions.find? name with
      | none => some none
      | some rule => (rule.eval grammar.direct cursor).map some := by
  rw [← applyWithin?_of_limit_le (Nat.le_succ _), applyWithin?]
  cases grammar.productions.find? name with
  | none => rfl
  | some rule => exact congrArg (Option.map some) (eval_within rule (Nat.le_refl _))

/-- A rule matches and rejects at places that the cursor leads to. -/
theorem eval_after {rule : Rule} {outcome : Outcome}
    (ended : rule.eval grammar.direct cursor = some outcome) : Outcome.After cursor outcome :=
  (Rule.eval_related Comparison.agreeing (fun _ _ _ => ⟨rfl, fun _ => applyAt?_after⟩) rule
    cursor rfl).2 outcome ended

end Grammar

end Packrat
