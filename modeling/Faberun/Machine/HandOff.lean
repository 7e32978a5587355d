import Mathlib.Data.List.Nodup

/-! # Hand-off locks

A lock that passes straight to its longest waiter, and is vacated only when nobody waits, is a queue
without repetition: its head holds the lock and its tail waits. Mutual exclusion, first-come grants
and the absence of a vacant lock with waiters are then facts about one list.
-/

universe u

/-- Everyone at the lock, in arrival order. The head holds it. -/
structure HandOff (α : Type u) where
  queue : List α
  nodup : queue.Nodup

namespace HandOff

variable {α : Type u}

/-- Nobody holds the lock. -/
def vacant : HandOff α := ⟨[], List.nodup_nil⟩

def holder (lock : HandOff α) : Option α := lock.queue.head?

def waiters (lock : HandOff α) : List α := lock.queue.tail

/-- Join the queue; the lock is granted at once exactly when the queue was empty. -/
def acquire (lock : HandOff α) (a : α) (fresh : a ∉ lock.queue) : HandOff α :=
  ⟨lock.queue ++ [a], by simpa only [List.concat_eq_append] using lock.nodup.concat fresh⟩

/-- Hand the lock to the longest waiter, if there is one. -/
def release (lock : HandOff α) : HandOff α := ⟨lock.queue.tail, lock.nodup.tail⟩

@[simp] theorem queue_acquire (lock : HandOff α) (a : α) (fresh : a ∉ lock.queue) :
    (lock.acquire a fresh).queue = lock.queue ++ [a] := rfl

@[simp] theorem queue_release (lock : HandOff α) : lock.release.queue = lock.waiters := rfl

theorem holder_eq_none_iff {lock : HandOff α} : lock.holder = none ↔ lock.queue = [] :=
  List.head?_eq_none_iff

/-- A lock nobody holds has no waiters. -/
theorem waiters_of_vacant {lock : HandOff α} (idle : lock.holder = none) : lock.waiters = [] := by
  rw [waiters, holder_eq_none_iff.mp idle, List.tail_nil]

theorem queue_of_holder {lock : HandOff α} {a : α} (holds : lock.holder = some a) :
    lock.queue = a :: lock.waiters :=
  List.eq_cons_of_mem_head? (Option.mem_def.mpr holds)

theorem mem_queue_iff {lock : HandOff α} {a : α} :
    a ∈ lock.queue ↔ lock.holder = some a ∨ a ∈ lock.waiters := by
  rcases shape : lock.queue with _ | ⟨first, rest⟩
  · simp [holder, waiters, shape]
  · simp [holder, waiters, shape, eq_comm]

/-- The holder is not also waiting. -/
theorem holder_not_mem_waiters {lock : HandOff α} {a : α} (holds : lock.holder = some a) :
    a ∉ lock.waiters := by
  have nodup := lock.nodup
  rw [queue_of_holder holds] at nodup
  exact (List.nodup_cons.mp nodup).1

theorem waiters_nodup (lock : HandOff α) : lock.waiters.Nodup := lock.nodup.tail

/-- On a free lock an arrival becomes the holder. -/
theorem acquire_of_vacant {lock : HandOff α} {a : α} (fresh : a ∉ lock.queue)
    (idle : lock.holder = none) :
    (lock.acquire a fresh).holder = some a ∧ (lock.acquire a fresh).waiters = [] := by
  simp [holder, waiters, holder_eq_none_iff.mp idle]

/-- On a held lock an arrival waits behind everyone else. -/
theorem acquire_of_held {lock : HandOff α} {a b : α} (fresh : a ∉ lock.queue)
    (holds : lock.holder = some b) :
    (lock.acquire a fresh).holder = some b ∧ (lock.acquire a fresh).waiters = lock.waiters ++ [a] := by
  have shape := queue_of_holder holds
  rw [holder, waiters, queue_acquire, shape]
  exact ⟨rfl, rfl⟩

/-- A release promotes the first waiter. -/
theorem holder_release (lock : HandOff α) : lock.release.holder = lock.waiters.head? := rfl

theorem waiters_release (lock : HandOff α) : lock.release.waiters = lock.waiters.tail := rfl

end HandOff
