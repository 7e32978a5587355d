import Mathlib.Data.List.TakeDrop
import Mathlib.Data.List.TakeWhile

/-! # Tails that begin at a boundary

A tail of at most so many elements that begins at a boundary: the elements that go on with what the cut fell into are dropped with it.
Where no run of such elements is as long as the tail, cutting after every chunk gives what one cut of the whole gives.
-/

namespace Faberun

universe u

variable {α : Type u} (inner : α → Bool) (limit : Nat)

/-- The latest elements, from the first boundary on. -/
def cutTail (elements : List α) : List α :=
  if elements.length ≤ limit then elements else (elements.drop (elements.length - limit)).dropWhile inner

/-- The tail after some chunks, cut after each. -/
def accumulate (tail : List α) (chunks : List (List α)) : List α := chunks.foldl (fun tail chunk => cutTail inner limit (tail ++ chunk)) tail

/-- No run of elements inside something is as long as the limit. -/
def ShortRuns (elements : List α) : Prop := ∀ start, ((elements.drop start).takeWhile inner).length < limit

variable {inner limit}

theorem length_cutTail_le (elements : List α) : (cutTail inner limit elements).length ≤ limit := by
  rw [cutTail]
  split_ifs with short
  · exact short
  · have dropped := (List.dropWhile_suffix inner (l := elements.drop (elements.length - limit))).length_le
    rw [List.length_drop] at dropped
    omega

theorem ShortRuns.of_prefix {first whole : List α} (short : ShortRuns inner limit whole) (begins : first <+: whole) :
    ShortRuns inner limit first := by
  obtain ⟨rest, rfl⟩ := begins
  intro start
  refine Nat.lt_of_le_of_lt ?_ (short start)
  rw [List.drop_append, List.takeWhile_append]
  split_ifs with whole
  · rw [List.length_append, whole]
    exact Nat.le_add_right ..
  · exact Nat.le_refl _

/-- A tail that was cut goes on as the whole does. -/
theorem cutTail_append {elements : List α} (short : ShortRuns inner limit elements) (chunk : List α) :
    cutTail inner limit (cutTail inner limit elements ++ chunk) = cutTail inner limit (elements ++ chunk) := by
  by_cases fits : elements.length ≤ limit
  · have same : cutTail inner limit elements = elements := if_pos fits
    rw [same]
  have cut : cutTail inner limit elements = (elements.drop (elements.length - limit)).dropWhile inner := if_neg fits
  have fewer := short (elements.length - limit)
  have splits := List.takeWhile_append_dropWhile (p := inner) (l := elements.drop (elements.length - limit))
  have inside : ∀ a ∈ (elements.drop (elements.length - limit)).takeWhile inner, inner a = true := fun a => List.mem_takeWhile_imp
  have begins := List.head?_dropWhile_not inner (elements.drop (elements.length - limit))
  have whole := List.take_append_drop (elements.length - limit) elements
  have front := List.length_take_of_le (Nat.sub_le elements.length limit)
  rw [cut]
  generalize (elements.drop (elements.length - limit)).takeWhile inner = run at *
  generalize (elements.drop (elements.length - limit)).dropWhile inner = rest at *
  generalize elements.take (elements.length - limit) = before at *
  rw [← splits] at whole
  have size : elements.length = before.length + run.length + rest.length := by
    rw [← whole, List.length_append, List.length_append, Nat.add_assoc]
  obtain ⟨a, rest, rfl⟩ := List.exists_cons_of_length_pos (show 0 < rest.length by omega)
  have boundary : (a :: rest ++ chunk).dropWhile inner = a :: rest ++ chunk := by
    rw [List.cons_append, List.dropWhile_cons_of_neg]
    simpa using begins
  have long : ¬ (elements ++ chunk).length ≤ limit := by
    rw [List.length_append]
    omega
  have apart : elements ++ chunk = (before ++ run) ++ (a :: rest ++ chunk) := by
    rw [← whole, List.append_assoc, List.append_assoc, List.append_assoc]
  have sum : (before ++ run).length = before.length + run.length := List.length_append
  have total : (elements ++ chunk).length = elements.length + chunk.length := List.length_append
  have tail : (a :: rest ++ chunk).length = (a :: rest).length + chunk.length := List.length_append
  generalize a :: rest ++ chunk = later at *
  have pieces : (elements ++ chunk).drop ((elements ++ chunk).length - limit) =
      (before ++ run).drop ((elements ++ chunk).length - limit) ++
        later.drop ((elements ++ chunk).length - limit - (before ++ run).length) := by
    rw [← List.drop_append, ← apart]
  rw [cutTail, cutTail, if_neg long, pieces]
  split_ifs with fitting
  · -- The cut falls into the run that was dropped.
    have early : (elements ++ chunk).length - limit - (before ++ run).length = 0 := by omega
    have past : before.length ≤ (elements ++ chunk).length - limit := by omega
    rw [early, List.drop_zero, List.drop_append, List.drop_eq_nil_of_le past, List.nil_append,
      List.dropWhile_append_of_pos fun b member => inside b (List.mem_of_mem_drop member), boundary]
  · have past : (before ++ run).length ≤ (elements ++ chunk).length - limit := by omega
    have same : (elements ++ chunk).length - limit - (before ++ run).length = later.length - limit := by omega
    rw [List.drop_eq_nil_of_le past, List.nil_append, same]

/-- Cut after every chunk or once at the end, the tail is the same. -/
theorem accumulate_eq_cutTail {chunks : List (List α)} (short : ShortRuns inner limit chunks.flatten) :
    accumulate inner limit [] chunks = cutTail inner limit chunks.flatten := by
  have along (before rest : List (List α)) (all : before ++ rest = chunks) :
      accumulate inner limit (cutTail inner limit before.flatten) rest = cutTail inner limit chunks.flatten := by
    induction rest generalizing before with
    | nil => rw [← all, List.append_nil]; rfl
    | cons chunk rest ih =>
      have shorter : ShortRuns inner limit before.flatten := short.of_prefix ⟨(chunk :: rest).flatten, by rw [← all, List.flatten_append]⟩
      have next := ih (before ++ [chunk]) (by rw [List.append_assoc, List.singleton_append, all])
      rw [List.flatten_append, List.flatten_singleton, ← cutTail_append shorter] at next
      exact next
  exact along [] chunks rfl

end Faberun
