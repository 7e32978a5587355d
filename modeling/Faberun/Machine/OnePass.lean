import Mathlib.Data.List.Induction
import Mathlib.Data.List.Basic

/-! # One pass over elements that wait for each other

A walk through a list holds an element back when it waits for one that is stopped or was held back before. The walk finds
exactly the elements a chain of waiting leads to in the order of the list, and so what is left waits for nothing stopped or
held exactly when every chain can be replaced by one in order.
-/

namespace Faberun.OnePass

variable {α : Type*} [DecidableEq α] (waits : α → List α) (stopped : α → Prop) [DecidablePred stopped]

/-- The walk at one element, after it held some back. -/
def hold (held : List α) (element : α) : List α :=
  if ∃ other ∈ waits element, stopped other ∨ other ∈ held then element :: held else held

/-- The elements a walk holds back. -/
def walk (order : List α) : List α := order.foldl (hold waits stopped) []

/-- A chain of elements before the last one: the first waits for a stopped element, each other one for the one before. -/
inductive Leads : List α → α → Prop
  | first {element other : α} (waiting : other ∈ waits element) (stop : stopped other) : Leads [] element
  | next {chain : List α} {element other : α} (before : Leads chain other) (waiting : other ∈ waits element) :
    Leads (chain ++ [other]) element

variable {waits stopped} {order : List α} {element other : α}

theorem walk_append (order : List α) (last : α) :
    walk waits stopped (order ++ [last]) = hold waits stopped (walk waits stopped order) last := by
  rw [walk, List.foldl_append, List.foldl_cons, List.foldl_nil, ← walk]

theorem mem_hold {held : List α} {last : α} : element ∈ hold waits stopped held last ↔
    element ∈ held ∨ element = last ∧ ∃ other ∈ waits last, stopped other ∨ other ∈ held := by
  rw [hold]
  split
  · rename_i waiting
    rw [List.mem_cons, and_iff_left waiting]
    exact or_comm
  · rename_i free
    exact ⟨.inl, fun member => member.resolve_right fun last => free last.2⟩

omit [DecidableEq α] [DecidablePred stopped] in
private theorem concat_sublist {chain : List α} {last : α} :
    (chain ++ [element]).Sublist (order ++ [last]) ↔
      (chain ++ [element]).Sublist order ∨ element = last ∧ chain.Sublist order := by
  rw [← List.reverse_sublist, ← @List.reverse_sublist α _ order, ← @List.reverse_sublist α chain]
  simp only [List.reverse_append, List.reverse_singleton, List.singleton_append]
  exact List.cons_sublist_cons'

/-- The walk holds back exactly what a chain in the order of the list leads to. -/
theorem mem_walk_iff : element ∈ walk waits stopped order ↔
    ∃ chain, Leads waits stopped chain element ∧ (chain ++ [element]).Sublist order := by
  induction order using List.reverseRecOn generalizing element with
  | nil => simp [walk]
  | append_singleton order last ih =>
    rw [walk_append, mem_hold, ih]
    simp only [concat_sublist]
    constructor
    · rintro (⟨chain, leads, within⟩ | ⟨rfl, other, waiting, stop | held⟩)
      · exact ⟨chain, leads, .inl within⟩
      · exact ⟨[], .first waiting stop, .inr ⟨rfl, List.nil_sublist _⟩⟩
      · obtain ⟨chain, leads, within⟩ := ih.mp held
        exact ⟨chain ++ [other], .next leads waiting, .inr ⟨rfl, within⟩⟩
    · rintro ⟨chain, leads, within | ⟨rfl, within⟩⟩
      · exact .inl ⟨chain, leads, within⟩
      · refine .inr ⟨rfl, ?_⟩
        cases leads with
        | first waiting stop => exact ⟨_, waiting, .inl stop⟩
        | next before waiting => exact ⟨_, waiting, .inr (ih.mpr ⟨_, before, within⟩)⟩

/-- What the walk leaves waits for nothing stopped or held exactly when every chain can be replaced by one in order. -/
theorem closed_iff :
    (∀ element, element ∉ walk waits stopped order → ∀ other ∈ waits element, ¬ stopped other ∧ other ∉ walk waits stopped order) ↔
      ∀ chain element, Leads waits stopped chain element →
        ∃ inOrder, Leads waits stopped inOrder element ∧ (inOrder ++ [element]).Sublist order := by
  simp only [← mem_walk_iff]
  constructor
  · intro closed chain element leads
    induction leads with
    | first waiting stop =>
      by_contra left
      exact (closed _ left _ waiting).1 stop
    | next _ waiting held =>
      by_contra left
      exact (closed _ left _ waiting).2 held
  · intro held element left other waiting
    constructor
    · exact fun stop => left (held _ element (.first waiting stop))
    · intro there
      obtain ⟨chain, leads, -⟩ := mem_walk_iff.mp there
      exact left (held _ element (.next leads waiting))

end Faberun.OnePass
