import Faberun.Machine.HandOff
import Faberun.Model.Engine.SettlementOverlap

/-! # The settlement overlap is a hand-off mutex

`Section.Implements` connects the flag and the waiter array of the code to the abstract hand-off
lock, and `Overlap.Serialized` does the same for the program points of the settlements in flight.
`Overlap.Registered` is the bookkeeping of `pending` and `settling`, `Overlap.Recorded` the promise
queue between a rejection and `failure`. Each is preserved by every synchronous stretch.
-/

namespace Faberun

namespace Section

variable {ν : Type}

/-- The flag and the waiter array are the queue of a hand-off lock. -/
structure Implements (slot : Section ν) (lock : HandOff ν) : Prop where
  busy : slot.sectionBusy = lock.holder.isSome
  waiters : slot.sectionWaiters = lock.waiters

theorem implements_vacant : Implements (⟨false, []⟩ : Section ν) HandOff.vacant := ⟨rfl, rfl⟩

/-- `acquireSection` joins the queue, satisfied at once exactly when the lock was vacant. -/
theorem Implements.acquireSection {slot : Section ν} {lock : HandOff ν} (same : slot.Implements lock)
    {node : ν} (fresh : node ∉ lock.queue) :
    (slot.acquireSection node).1.Implements (lock.acquire node fresh) ∧
      (slot.acquireSection node).2 = lock.holder.isNone := by
  cases holder : lock.holder with
  | none =>
    obtain ⟨granted, alone⟩ := HandOff.acquire_of_vacant fresh holder
    have busy : slot.sectionBusy = false := by rw [same.busy, holder]; rfl
    have waiters : slot.sectionWaiters = [] := by
      rw [same.waiters, HandOff.waiters_of_vacant holder]
    simp only [Section.acquireSection, busy, Bool.false_eq_true, ↓reduceIte]
    exact ⟨⟨by rw [granted]; rfl, by rw [alone, waiters]⟩, rfl⟩
  | some other =>
    obtain ⟨kept, behind⟩ := HandOff.acquire_of_held fresh holder
    have busy : slot.sectionBusy = true := by rw [same.busy, holder]; rfl
    simp only [Section.acquireSection, busy, ↓reduceIte]
    exact ⟨⟨by rw [kept]; rfl, by rw [behind, same.waiters]⟩, rfl⟩

/-- `releaseSection` passes the lock on, satisfying exactly the next holder. -/
theorem Implements.releaseSection {slot : Section ν} {lock : HandOff ν}
    (same : slot.Implements lock) {node : ν} (holds : lock.holder = some node) :
    slot.releaseSection.1.Implements lock.release ∧ slot.releaseSection.2 = lock.release.holder := by
  have busy : slot.sectionBusy = true := by rw [same.busy, holds]; rfl
  cases waiting : lock.waiters with
  | nil =>
    simp only [Section.releaseSection, same.waiters, waiting]
    refine ⟨⟨?_, ?_⟩, ?_⟩ <;> simp [HandOff.holder_release, HandOff.waiters_release, waiting]
  | cons next rest =>
    simp only [Section.releaseSection, same.waiters, waiting]
    refine ⟨⟨?_, ?_⟩, ?_⟩ <;> simp [HandOff.holder_release, HandOff.waiters_release, waiting, busy]

/-- Everybody stands at the abstract lock as `owns` and `asks` say. -/
structure Placed (slot : Section ν) (lock : HandOff ν) (owns asks : ν → Bool) : Prop where
  implements : slot.Implements lock
  owns : ∀ node, owns node = true ↔ lock.holder = some node
  asks : ∀ node, asks node = true ↔ node ∈ lock.waiters

section Placement

variable {slot : Section ν} {lock : HandOff ν} {owns asks : ν → Bool} {node : ν}

theorem Placed.fresh (placed : slot.Placed lock owns asks) (idle : owns node = false)
    (apart : asks node = false) : node ∉ lock.queue := by
  rw [HandOff.mem_queue_iff, ← placed.owns, ← placed.asks, idle, apart]
  decide

/-- A step that changes nobody's standing. -/
theorem Placed.congr (placed : slot.Placed lock owns asks) {owns' asks' : ν → Bool}
    (same : ∀ node, owns' node = owns node ∧ asks' node = asks node) : slot.Placed lock owns' asks' :=
  ⟨placed.implements, fun node => by rw [(same node).1, placed.owns],
    fun node => by rw [(same node).2, placed.asks]⟩

/-- One more party asks for the section. -/
theorem Placed.acquire (placed : slot.Placed lock owns asks) (fresh : node ∉ lock.queue)
    {owns' asks' : ν → Bool}
    (granted : owns' node = (slot.acquireSection node).2)
    (queued : asks' node = !(slot.acquireSection node).2)
    (frame : ∀ other, other ≠ node → owns' other = owns other ∧ asks' other = asks other) :
    (slot.acquireSection node).1.Placed (lock.acquire node fresh) owns' asks' := by
  obtain ⟨implements, satisfied⟩ := placed.implements.acquireSection fresh
  rw [satisfied] at granted queued
  cases holder : lock.holder with
  | none =>
    obtain ⟨taken, alone⟩ := HandOff.acquire_of_vacant fresh holder
    rw [holder] at granted queued
    refine ⟨implements, fun other => ?_, fun other => ?_⟩
    · rw [taken, Option.some_inj]
      by_cases same : other = node
      · simp [same, granted]
      · have idle := (placed.owns other).not.mpr (by simp [holder])
        simp [(frame other same).1, idle, Ne.symm same]
    · rw [alone]
      by_cases same : other = node
      · simp [same, queued]
      · have idle := (placed.asks other).not.mpr (by simp [HandOff.waiters_of_vacant holder])
        simp [(frame other same).2, idle]
  | some current =>
    obtain ⟨kept, behind⟩ := HandOff.acquire_of_held fresh holder
    rw [holder] at granted queued
    have differs : current ≠ node := by
      rintro rfl
      exact fresh (HandOff.mem_queue_iff.mpr (.inl holder))
    refine ⟨implements, fun other => ?_, fun other => ?_⟩
    · rw [kept]
      by_cases same : other = node
      · simp [same, granted, differs]
      · rw [(frame other same).1, placed.owns, holder]
    · rw [behind, List.mem_append, List.mem_singleton, ← placed.asks]
      by_cases same : other = node
      · simp [same, queued]
      · simp [(frame other same).2, same]

/-- The owner hands the section on. -/
theorem Placed.release (placed : slot.Placed lock owns asks) (holds : owns node = true)
    (owns' asks' : ν → Bool)
    (gone : owns' node = false ∧ asks' node = false)
    (next : ∀ other, slot.releaseSection.2 = some other → owns' other = true ∧ asks' other = false)
    (frame : ∀ other, other ≠ node → slot.releaseSection.2 ≠ some other →
      owns' other = owns other ∧ asks' other = asks other) :
    slot.releaseSection.1.Placed lock.release owns' asks' := by
  have holder := (placed.owns node).mp holds
  obtain ⟨implements, satisfied⟩ := placed.implements.releaseSection holder
  rw [HandOff.holder_release] at satisfied
  have outside := HandOff.holder_not_mem_waiters holder
  have distinct := lock.waiters_nodup
  refine ⟨implements, fun other => ?_, fun other => ?_⟩
  · rw [HandOff.holder_release, ← satisfied]
    by_cases promoted : slot.releaseSection.2 = some other
    · simp [(next other promoted).1, promoted]
    · by_cases same : other = node
      · simp [same ▸ gone.1, promoted]
      · have idle := (placed.owns other).not.mpr (by rw [holder, Option.some_inj]; exact Ne.symm same)
        simp [(frame other same promoted).1, idle, promoted]
  · rw [HandOff.waiters_release]
    by_cases promoted : slot.releaseSection.2 = some other
    · rw [(next other promoted).2]
      rw [satisfied] at promoted
      obtain ⟨rest, shape⟩ := List.head?_eq_some_iff.mp promoted
      rw [shape] at distinct ⊢
      simpa using (List.nodup_cons.mp distinct).1
    · by_cases same : other = node
      · rw [same, gone.2]
        simpa using fun later => outside (List.mem_of_mem_tail later)
      · rw [(frame other same promoted).2, placed.asks]
        rw [satisfied] at promoted
        cases shape : lock.waiters with
        | nil => simp
        | cons first rest =>
          rw [shape] at promoted
          simp only [List.tail_cons, List.mem_cons, or_iff_right_iff_imp]
          rintro rfl
          exact absurd rfl promoted

end Placement

end Section

namespace Overlap

variable {ν ρ ε : Type} [DecidableEq ν]

/-! ## The section -/

/-- The settlements in flight stand at the abstract lock as their program points say. -/
structure Serialized (s : Overlap ν ρ ε) (lock : HandOff ν) : Prop where
  placed : s.slot.Placed lock (fun node => (s.points node).holds) (fun node => (s.points node).waits)
  fifo : s.acquires = s.grants ++ lock.waiters

/-- A settlement away from the section asks for it. -/
theorem Serialized.acquire {s : Overlap ν ρ ε} {lock : HandOff ν} (serial : s.Serialized lock)
    {node : ν} (idle : (s.points node).holds = false) (apart : (s.points node).waits = false)
    (raised : Outcome ε) : ∃ next, (s.acquire node raised).Serialized next := by
  have fresh := serial.placed.fresh idle apart
  obtain ⟨-, satisfied⟩ := serial.placed.implements.acquireSection fresh
  refine ⟨lock.acquire node fresh, serial.placed.acquire fresh ?_ ?_ fun other differs => ?_, ?_⟩
  · cases flag : (s.slot.acquireSection node).2 <;> simp [Overlap.acquire, flag]
  · cases flag : (s.slot.acquireSection node).2 <;> simp [Overlap.acquire, flag]
  · simp [Overlap.acquire, differs]
  · cases holder : lock.holder with
    | none =>
      have alone := (HandOff.acquire_of_vacant fresh holder).2
      simp [Overlap.acquire, satisfied, holder, alone, serial.fifo, HandOff.waiters_of_vacant holder]
    | some current =>
      have behind := (HandOff.acquire_of_held fresh holder).2
      simp [Overlap.acquire, satisfied, holder, behind, serial.fifo]

/-- The holder steps out of the section and hands it to the next waiter. -/
theorem Serialized.vacate {s t : Overlap ν ρ ε} {lock : HandOff ν} (serial : s.Serialized lock) (node : ν)
    (holds : (s.points node).holds = true) (point : Point ε) (outside : point.holds = false)
    (apart : point.waits = false) (slot : t.slot = s.slot)
    (points : t.points = Function.update s.points node point) (acquires : t.acquires = s.acquires)
    (grants : t.grants = s.grants) : t.release.Serialized lock.release := by
  have holder := (serial.placed.owns node).mp holds
  obtain ⟨-, satisfied⟩ := serial.placed.implements.releaseSection holder
  rw [HandOff.holder_release] at satisfied
  rcases released : s.slot.releaseSection with ⟨next, _ | waiter⟩
  · rw [released] at satisfied
    have shape : t.release = { t with slot := next } := by simp only [Overlap.release, slot, released]
    rw [shape]
    refine ⟨?_, ?_⟩
    · have handed := serial.placed.release holds
        (fun node => (t.points node).holds) (fun node => (t.points node).waits)
      rw [released] at handed
      refine handed ?_ nofun fun other differs _ => ?_
      · simp [points, outside, apart]
      · simp [points, differs]
    · have empty : lock.waiters = [] := List.head?_eq_none_iff.mp satisfied.symm
      simp [acquires, grants, serial.fifo, HandOff.waiters_release, empty]
  · rw [released] at satisfied
    obtain ⟨rest, waiting⟩ := List.head?_eq_some_iff.mp satisfied.symm
    have queued : (s.points waiter).waits = true :=
      (serial.placed.asks waiter).mpr (waiting ▸ List.mem_cons_self)
    have differs : waiter ≠ node := by
      rintro rfl
      exact HandOff.holder_not_mem_waiters holder (waiting ▸ List.mem_cons_self)
    have shape : t.release = { t with
        slot := next
        points := Function.update t.points waiter (t.points waiter).satisfy
        grants := t.grants ++ [waiter] } := by simp only [Overlap.release, slot, released]
    rw [shape]
    refine ⟨?_, ?_⟩
    · have handed := serial.placed.release holds
        (fun node => (Function.update t.points waiter (t.points waiter).satisfy node).holds)
        (fun node => (Function.update t.points waiter (t.points waiter).satisfy node).waits)
      rw [released] at handed
      refine handed ?_ (fun other promoted => ?_) fun other apart' passed => ?_
      · simp [points, differs.symm, outside, apart]
      · obtain rfl := Option.some.inj promoted
        simpa [points, differs] using Point.satisfy_of_waits queued
      · have here : other ≠ waiter := fun equal => passed (congrArg some equal.symm)
        simp [points, here, apart']
    · simp [acquires, grants, serial.fifo, HandOff.waiters_release, waiting]

/-! ## The bookkeeping of `pending` and `settling` -/

section Fields

variable (s : Overlap ν ρ ε) (node other : ν) (raised : Outcome ε)

@[simp] theorem acquire_pending : (s.acquire node raised).pending = s.pending := rfl
@[simp] theorem acquire_settling : (s.acquire node raised).settling = s.settling := rfl
@[simp] theorem acquire_microtasks : (s.acquire node raised).microtasks = s.microtasks := rfl
@[simp] theorem acquire_failure : (s.acquire node raised).failure = s.failure := rfl
@[simp] theorem acquire_rejections : (s.acquire node raised).rejections = s.rejections := rfl

theorem acquire_points : (s.acquire node raised).points = Function.update s.points node
    (if (s.slot.acquireSection node).2 then .granted raised else .queued raised) := rfl

@[simp] theorem acquire_points_absent :
    (s.acquire node raised).points other = .absent ↔ other ≠ node ∧ s.points other = .absent := by
  rw [acquire_points]
  by_cases same : other = node
  · subst other
    simp only [Function.update_self]
    split_ifs <;> simp
  · simp [same]

@[simp] theorem acquire_points_retiring :
    (s.acquire node raised).points other = .retiring ↔ other ≠ node ∧ s.points other = .retiring := by
  rw [acquire_points]
  by_cases same : other = node
  · subst other
    simp only [Function.update_self]
    split_ifs <;> simp
  · simp [same]

/-- A release changes nothing but the slot, the point of the waiter it satisfies, and the grants. -/
theorem release_eq : ∃ slot points grants, s.release = { s with slot, points, grants } ∧
    ∀ other, points other = s.points other ∨ points other = (s.points other).satisfy := by
  rcases released : s.slot.releaseSection with ⟨slot, _ | next⟩
  · exact ⟨slot, s.points, s.grants, by simp only [release, released], fun _ => .inl rfl⟩
  · refine ⟨slot, Function.update s.points next (s.points next).satisfy, s.grants ++ [next],
      by simp only [release, released], fun other => ?_⟩
    by_cases same : other = next
    · exact .inr (by rw [same, Function.update_self])
    · exact .inl (Function.update_of_ne same _ _)

@[simp] theorem release_pending : s.release.pending = s.pending := by
  obtain ⟨_, _, _, shape, _⟩ := s.release_eq
  rw [shape]

@[simp] theorem release_settling : s.release.settling = s.settling := by
  obtain ⟨_, _, _, shape, _⟩ := s.release_eq
  rw [shape]

@[simp] theorem release_microtasks : s.release.microtasks = s.microtasks := by
  obtain ⟨_, _, _, shape, _⟩ := s.release_eq
  rw [shape]

@[simp] theorem release_failure : s.release.failure = s.failure := by
  obtain ⟨_, _, _, shape, _⟩ := s.release_eq
  rw [shape]

@[simp] theorem release_rejections : s.release.rejections = s.rejections := by
  obtain ⟨_, _, _, shape, _⟩ := s.release_eq
  rw [shape]

/-- A release at most satisfies one waiter's promise. -/
theorem release_points_cases :
    s.release.points other = s.points other ∨ s.release.points other = (s.points other).satisfy := by
  obtain ⟨_, _, _, shape, moved⟩ := s.release_eq
  rw [shape]
  exact moved other

@[simp] theorem release_points_absent : s.release.points other = .absent ↔ s.points other = .absent := by
  rcases s.release_points_cases other with same | satisfied
  · rw [same]
  · rw [satisfied, Point.satisfy_eq_absent_iff]

@[simp] theorem release_points_retiring :
    s.release.points other = .retiring ↔ s.points other = .retiring := by
  rcases s.release_points_cases other with same | satisfied
  · rw [same]
  · rw [satisfied, Point.satisfy_eq_retiring_iff]

end Fields

/-- The nodes whose `finally` callback is queued. -/
def retirees (microtasks : List (Microtask ν ε)) : List ν :=
  microtasks.filterMap fun
    | .retire node _ => some node
    | .record _ => none

/-- Both maps hold exactly the nodes in flight, and each finished one has one callback queued. -/
structure Registered (s : Overlap ν ρ ε) : Prop where
  pending : ∀ node, node ∈ s.pending ↔ s.points node ≠ .absent
  settling : ∀ node, node ∈ s.settling ↔ s.points node ≠ .absent
  retiring : ∀ node, node ∈ retirees s.microtasks ↔ s.points node = .retiring
  once : (retirees s.microtasks).Nodup

theorem microtask_cases {s t : Overlap ν ρ ε} (taken : s.microtask = some t) :
    ∃ task rest, s.microtasks = task :: rest ∧ t = { s with microtasks := rest }.callback task := by
  simp only [microtask] at taken
  split at taken <;> cases taken
  rename_i task rest queue
  exact ⟨task, rest, queue, rfl⟩

omit [DecidableEq ν] in
@[simp] theorem retirees_append_records (microtasks : List (Microtask ν ε)) (outcome : Outcome ε) :
    retirees (microtasks ++ outcome.toList.map .record) = retirees microtasks := by
  cases outcome <;> simp [retirees]

omit [DecidableEq ν] in
@[simp] theorem retirees_append_retire (microtasks : List (Microtask ν ε)) (node : ν)
    (outcome : Outcome ε) : retirees (microtasks ++ [.retire node outcome]) = retirees microtasks ++ [node] := by
  simp [retirees]

omit [DecidableEq ν] in
@[simp] theorem retirees_retire_cons (rest : List (Microtask ν ε)) (node : ν) (outcome : Outcome ε) :
    retirees (.retire node outcome :: rest) = node :: retirees rest := rfl

omit [DecidableEq ν] in
@[simp] theorem retirees_record_cons (rest : List (Microtask ν ε)) (rejection : Rejection ε) :
    retirees (.record rejection :: rest) = retirees rest := rfl

theorem Registered.step {s t : Overlap ν ρ ε} {label : Label ν ρ ε} (registered : s.Registered)
    (taken : s.step label = some t) : t.Registered := by
  obtain ⟨pending, settling, retiring, once⟩ := registered
  cases label with
  | enqueue node job =>
    simp only [Overlap.step] at taken
    split_ifs at taken with busy
    cases taken
    have absent : s.points node = .absent := by
      by_contra present
      exact busy ((pending node).mpr present)
    refine ⟨fun other => ?_, fun other => ?_, fun other => ?_, once⟩
    · simp only [enqueue, Finset.mem_insert, pending, Ne, acquire_points_absent]
      tauto
    · simp only [enqueue, acquire_settling, AList.mem_insert, settling, Ne, acquire_points_absent]
      tauto
    · simp only [enqueue, acquire_microtasks, acquire_points_retiring, retiring]
      refine ⟨fun here => ⟨?_, here⟩, And.right⟩
      rintro rfl
      rw [absent] at here
      cases here
  | resume node =>
    simp only [Overlap.step] at taken
    split at taken <;> cases taken
    rename_i raised point
    have moved (other : ν) : (Function.update s.points node (.inside raised) other = .absent ↔
        s.points other = .absent) ∧ (Function.update s.points node (.inside raised) other = .retiring ↔
        s.points other = .retiring) := by
      by_cases same : other = node
      · simp [same, point]
      · simp [same]
    exact ⟨fun other => (pending other).trans (not_congr (moved other).1.symm),
      fun other => (settling other).trans (not_congr (moved other).1.symm),
      fun other => (retiring other).trans (moved other).2.symm, once⟩
  | park node =>
    simp only [Overlap.step] at taken
    split at taken <;> cases taken
    rename_i raised point
    have moved (other : ν) : (Function.update s.points node .proving other = .absent ↔
        s.points other = .absent) ∧ (Function.update s.points node .proving other = .retiring ↔
        s.points other = .retiring) := by
      by_cases same : other = node
      · simp [same, point]
      · simp [same]
    refine ⟨fun other => ?_, fun other => ?_, fun other => ?_, by simpa [park] using once⟩
    · simp only [park, release_pending, pending, Ne, release_points_absent, (moved other).1]
    · simp only [park, release_settling, settling, Ne, release_points_absent, (moved other).1]
    · simp only [park, release_microtasks, retiring, release_points_retiring, (moved other).2]
  | settleProof node outcome =>
    simp only [Overlap.step] at taken
    split at taken <;> cases taken
    rename_i point
    have moved (other : ν) : ((s.acquire node outcome).points other = .absent ↔
        s.points other = .absent) ∧ ((s.acquire node outcome).points other = .retiring ↔
        s.points other = .retiring) := by
      rw [acquire_points_absent, acquire_points_retiring]
      by_cases same : other = node
      · simp [same, point]
      · simp [same]
    exact ⟨fun other => (pending other).trans (not_congr (moved other).1.symm),
      fun other => (settling other).trans (not_congr (moved other).1.symm),
      fun other => (retiring other).trans (moved other).2.symm, once⟩
  | leave node outcome =>
    simp only [Overlap.step] at taken
    split at taken <;> cases taken
    rename_i raised point
    have outside : node ∉ retirees s.microtasks := by
      rw [retiring, point]
      simp
    refine ⟨fun other => ?_, fun other => ?_, fun other => ?_, ?_⟩
    · simp only [leave, release_pending, pending, Ne, release_points_absent]
      by_cases same : other = node
      · simp [same, point]
      · simp [same]
    · simp only [leave, release_settling, settling, Ne, release_points_absent]
      by_cases same : other = node
      · simp [same, point]
      · simp [same]
    · simp only [leave, release_microtasks, retirees_append_retire, release_points_retiring]
      by_cases same : other = node
      · simp [same]
      · simp [same, retiring]
    · simp only [leave, release_microtasks, retirees_append_retire]
      exact List.nodup_append.mpr ⟨once, List.nodup_singleton _, fun _ here _ last same =>
        outside (List.mem_singleton.mp last ▸ same ▸ here)⟩
  | microtask =>
    obtain ⟨task, rest, queue, rfl⟩ := microtask_cases taken
    rw [queue] at retiring once
    cases task with
    | record rejection => exact ⟨pending, settling, retiring, once⟩
    | retire node outcome =>
      rw [retirees_retire_cons] at retiring once
      obtain ⟨gone, once⟩ := List.nodup_cons.mp once
      refine ⟨fun other => ?_, fun other => ?_, fun other => ?_, by
        simpa only [callback, retirees_append_records] using once⟩
      · by_cases same : other = node
        · simp [callback, same]
        · simp [callback, same, pending]
      · by_cases same : other = node
        · simp [callback, same, AList.mem_erase]
        · simp [callback, same, AList.mem_erase, settling]
      · simp only [callback, retirees_append_records]
        by_cases same : other = node
        · simp [same, gone]
        · simpa [same] using retiring other

/-- Every stretch acts on the abstract lock as an acquire, a release, or not at all. -/
theorem Serialized.step {s t : Overlap ν ρ ε} {lock : HandOff ν} {label : Label ν ρ ε}
    (serial : s.Serialized lock) (registered : s.Registered) (taken : s.step label = some t) :
    ∃ next, t.Serialized next := by
  cases label with
  | enqueue node job =>
    simp only [Overlap.step] at taken
    split_ifs at taken with busy
    cases taken
    have absent : s.points node = .absent := by
      by_contra present
      exact busy ((registered.pending node).mpr present)
    have reserved : { s with settling := s.settling.insert node job }.Serialized lock :=
      ⟨serial.placed, serial.fifo⟩
    obtain ⟨next, placed, fifo⟩ := reserved.acquire (show (s.points node).holds = false by rw [absent]; rfl)
      (show (s.points node).waits = false by rw [absent]; rfl) none
    exact ⟨next, placed, fifo⟩
  | resume node =>
    simp only [Overlap.step] at taken
    split at taken <;> cases taken
    rename_i raised point
    refine ⟨lock, serial.placed.congr fun other => ?_, serial.fifo⟩
    by_cases same : other = node
    · simp [same, point]
    · simp [same]
  | park node =>
    simp only [Overlap.step] at taken
    split at taken <;> cases taken
    rename_i raised point
    exact ⟨_, serial.vacate node (by rw [point]; rfl) .proving rfl rfl rfl rfl rfl rfl⟩
  | settleProof node outcome =>
    simp only [Overlap.step] at taken
    split at taken <;> cases taken
    rename_i point
    exact serial.acquire (by rw [point]; rfl) (by rw [point]; rfl) outcome
  | leave node outcome =>
    simp only [Overlap.step] at taken
    split at taken <;> cases taken
    rename_i raised point
    exact ⟨_, serial.vacate node (by rw [point]; rfl) .retiring rfl rfl rfl rfl rfl rfl⟩
  | microtask =>
    obtain ⟨task, rest, queue, rfl⟩ := microtask_cases taken
    cases task with
    | record rejection => exact ⟨lock, serial.placed, serial.fifo⟩
    | retire node outcome =>
      have retiring : s.points node = .retiring :=
        (registered.retiring node).mp (by rw [queue]; exact List.mem_cons_self)
      refine ⟨lock, serial.placed.congr fun other => ?_, serial.fifo⟩
      by_cases same : other = node
      · simp [callback, same, retiring]
      · simp [callback, same]

/-! ## The first failure -/

/-- The rejections whose `catch` callback is queued. -/
def queuedRecords (microtasks : List (Microtask ν ε)) : List (Rejection ε) :=
  microtasks.filterMap fun
    | .retire _ _ => none
    | .record rejection => some rejection

/-- The rejections of settlements whose `finally` callback is queued. -/
def queuedRejections (microtasks : List (Microtask ν ε)) : List (Rejection ε) :=
  microtasks.filterMap fun
    | .retire _ outcome => outcome
    | .record _ => none

/-- Rejections travel through the job queue in order: those recorded come before those whose `catch`
is queued, and these before those whose `finally` is. -/
structure Recorded (s : Overlap ν ρ ε) (recorded : List (Rejection ε)) : Prop where
  order : s.rejections = recorded ++ queuedRecords s.microtasks ++ queuedRejections s.microtasks
  failure : s.failure = firstFailure recorded

theorem Recorded.step {s t : Overlap ν ρ ε} {recorded : List (Rejection ε)} {label : Label ν ρ ε}
    (record : s.Recorded recorded) (taken : s.step label = some t) : ∃ now, t.Recorded now := by
  obtain ⟨order, failure⟩ := record
  cases label with
  | enqueue node job =>
    simp only [Overlap.step] at taken
    split_ifs at taken
    cases taken
    exact ⟨recorded, order, failure⟩
  | resume node =>
    simp only [Overlap.step] at taken
    split at taken <;> cases taken
    exact ⟨recorded, order, failure⟩
  | park node =>
    simp only [Overlap.step] at taken
    split at taken <;> cases taken
    exact ⟨recorded, by simpa only [park, release_rejections, release_microtasks] using order,
      by simpa only [park, release_failure] using failure⟩
  | settleProof node outcome =>
    simp only [Overlap.step] at taken
    split at taken <;> cases taken
    exact ⟨recorded, order, failure⟩
  | leave node outcome =>
    simp only [Overlap.step] at taken
    split at taken <;> cases taken
    refine ⟨recorded, ?_, by simpa only [leave, release_failure] using failure⟩
    cases outcome <;> simp [leave, order, queuedRecords, queuedRejections]
  | microtask =>
    obtain ⟨task, rest, queue, rfl⟩ := microtask_cases taken
    rw [queue] at order
    cases task with
    | retire node outcome =>
      refine ⟨recorded, ?_, failure⟩
      cases outcome <;> simpa [callback, queuedRecords, queuedRejections] using order
    | record rejection =>
      refine ⟨recorded ++ [rejection], ?_, ?_⟩
      · simpa [callback, queuedRecords, queuedRejections] using order
      · simp [callback, failure, firstFailure, List.findSome?_append, Option.orElse_eq_or]

/-! ## Runs -/

section Drain

variable {s : Overlap ν ρ ε} {node : ν} {count : Nat}

private theorem runMicrotasks_registered (registered : s.Registered) :
    (runMicrotasks count s).Registered := by
  induction count generalizing s with
  | zero => exact registered
  | succ count ih =>
    cases taken : s.microtask with
    | none => simpa only [runMicrotasks, taken, Option.map_none, Option.getD_none] using registered
    | some t =>
      simp only [runMicrotasks, taken, Option.map_some, Option.getD_some]
      exact ih (registered.step (show s.step .microtask = some t from taken))

private theorem runMicrotasks_absent (absent : s.points node = .absent) :
    (runMicrotasks count s).points node = .absent := by
  induction count generalizing s with
  | zero => exact absent
  | succ count ih =>
    cases taken : s.microtask with
    | none => simpa only [runMicrotasks, taken, Option.map_none, Option.getD_none] using absent
    | some t =>
      obtain ⟨task, rest, _, rfl⟩ := microtask_cases taken
      simp only [runMicrotasks, taken, Option.map_some, Option.getD_some]
      apply ih
      cases task with
      | record rejection => exact absent
      | retire other outcome =>
        by_cases same : node = other
        · simp [callback, same]
        · simpa [callback, same] using absent

/-- A queued `finally` callback has run once as many callbacks have run as were queued up to it. -/
private theorem runMicrotasks_retired (queued : node ∈ retirees (s.microtasks.take count)) :
    (runMicrotasks count s).points node = .absent := by
  induction count generalizing s with
  | zero => simp [retirees] at queued
  | succ count ih =>
    cases shape : s.microtasks with
    | nil => simp [shape, retirees] at queued
    | cons task rest =>
      have taken : s.microtask = some ({ s with microtasks := rest }.callback task) := by
        simp only [microtask, shape]
      simp only [runMicrotasks, taken, Option.map_some, Option.getD_some]
      rw [shape, List.take_succ_cons] at queued
      cases task with
      | record rejection => exact ih queued
      | retire other outcome =>
        rw [retirees_retire_cons, List.mem_cons] at queued
        rcases queued with rfl | later
        · exact runMicrotasks_absent (by simp [callback])
        · refine ih ?_
          have grows : (rest.take count).Sublist ((rest ++ outcome.toList.map Microtask.record).take count) := by
            rw [List.take_append]
            exact List.sublist_append_left _ _
          exact (grows.filterMap _).subset later

end Drain

/-- What a correct hand-off mutex is, in the state of one controller. -/
structure HandOffMutex (s : Overlap ν ρ ε) : Prop where
  /-- At most one settlement owns the section, whether it runs there or was just granted it. -/
  exclusive : ∀ a b, (s.points a).holds = true → (s.points b).holds = true → a = b
  /-- The waiters are the settlements that asked for the section and wait. -/
  waiters : ∀ node, node ∈ s.slot.sectionWaiters ↔ (s.points node).waits = true
  /-- Sections are granted in the order they were asked for. -/
  fifo : s.acquires = s.grants ++ s.slot.sectionWaiters
  /-- With nobody in a section and nobody waiting, the slot is free. -/
  vacant : (∀ node, (s.points node).holds = false ∧ (s.points node).waits = false) →
    s.slot.sectionBusy = false
  /-- Otherwise there is exactly one holder. -/
  held : (∃ node, (s.points node).holds = true ∨ (s.points node).waits = true) →
    s.slot.sectionBusy = true ∧ ∃! node, (s.points node).holds = true
  /-- Both maps hold exactly the nodes whose settlement is in flight. -/
  inFlight : ∀ node, (node ∈ s.pending ↔ s.points node ≠ .absent) ∧
    (node ∈ s.settling ↔ s.points node ≠ .absent)
  /-- A settlement that left its last section is out of both maps once the job queue is drained. -/
  retires : ∀ node, s.points node = .retiring →
    node ∉ (runMicrotasks s.microtasks.length s).pending ∧
      node ∉ (runMicrotasks s.microtasks.length s).settling
  /-- `failure` is the first failure among the rejections recorded, an initial stretch of all of
  them, and of all of them once the job queue is empty. -/
  failure : ∃ recorded later, s.rejections = recorded ++ later ∧
    s.failure = firstFailure recorded ∧ (s.microtasks = [] → later = [])

theorem HandOffMutex.of_invariants {s : Overlap ν ρ ε} {lock : HandOff ν}
    {recorded : List (Rejection ε)} (serial : s.Serialized lock) (registered : s.Registered)
    (record : s.Recorded recorded) : s.HandOffMutex where
  exclusive a b first second := by
    have same := ((serial.placed.owns a).mp first).symm.trans ((serial.placed.owns b).mp second)
    exact Option.some.inj same
  waiters node := by rw [serial.placed.implements.waiters, serial.placed.asks]
  fifo := by rw [serial.placed.implements.waiters]; exact serial.fifo
  vacant idle := by
    rw [serial.placed.implements.busy]
    cases holder : lock.holder with
    | none => rfl
    | some node =>
      have holds := (serial.placed.owns node).mpr holder
      rw [(idle node).1] at holds
      cases holds
  held := by
    rintro ⟨node, present⟩
    have queued : node ∈ lock.queue := by
      rwa [HandOff.mem_queue_iff, ← serial.placed.owns, ← serial.placed.asks]
    cases holder : lock.holder with
    | none =>
      rw [HandOff.holder_eq_none_iff.mp holder] at queued
      cases queued
    | some current =>
      refine ⟨by rw [serial.placed.implements.busy, holder]; rfl, current, (serial.placed.owns current).mpr holder, ?_⟩
      intro other holds
      have same := holder.symm.trans ((serial.placed.owns other).mp holds)
      exact (Option.some.inj same).symm
  inFlight node := ⟨registered.pending node, registered.settling node⟩
  retires node retiring := by
    have drained : (runMicrotasks s.microtasks.length s).Registered := runMicrotasks_registered registered
    have absent : (runMicrotasks s.microtasks.length s).points node = .absent :=
      runMicrotasks_retired (by rwa [List.take_length, registered.retiring])
    rw [drained.pending, drained.settling, absent]
    simp
  failure := by
    refine ⟨recorded, queuedRecords s.microtasks ++ queuedRejections s.microtasks,
      by rw [record.order, List.append_assoc], record.failure, fun empty => ?_⟩
    rw [empty]
    rfl

theorem invariants_of_reach {s : Overlap ν ρ ε} (reach : machine.Reach Machine.free (· = create) s) :
    (∃ lock, s.Serialized lock) ∧ s.Registered ∧ ∃ recorded, s.Recorded recorded := by
  refine reach.invariant
    (fun s => (∃ lock, s.Serialized lock) ∧ s.Registered ∧ ∃ recorded, s.Recorded recorded) ?_ ?_
  · rintro _ rfl
    refine ⟨⟨HandOff.vacant, ⟨Section.implements_vacant, ?_, ?_⟩, rfl⟩, ⟨?_, ?_, ?_, List.nodup_nil⟩, [], rfl, rfl⟩
    · exact fun node => by simp [create, HandOff.vacant, HandOff.holder]
    · exact fun node => by simp [create, HandOff.vacant, HandOff.waiters]
    · exact fun node => by simp [create]
    · exact fun node => by simp [create]
    · exact fun node => by simp [create, retirees]
  · rintro s label t ⟨⟨lock, serial⟩, registered, recorded, record⟩ _ taken
    exact ⟨serial.step registered taken, registered.step taken, record.step taken⟩

/-- Under every interleaving of sections, parked proofs, successes and failures, the overlap is a
correct hand-off mutex. -/
theorem settlementOverlap_handOffMutex {s : Overlap ν ρ ε}
    (reach : machine.Reach Machine.free (· = create) s) : s.HandOffMutex := by
  obtain ⟨⟨lock, serial⟩, registered, recorded, record⟩ := invariants_of_reach reach
  exact .of_invariants serial registered record

/-- Two settlements: the first parks a proof that throws while the second waits, and both fail. -/
theorem settlementOverlap_handOffMutex_two :
    ∃ s : Overlap Bool String String,
      machine.replay? Machine.free create
        [.enqueue false "a", .enqueue true "b", .resume false, .park false, .resume true,
          .settleProof false (some (.error "proof")), .leave true (some .lockLost), .resume false,
          .leave false (some (.error "proof")), .microtask, .microtask, .microtask, .microtask] = some s ∧
        s.HandOffMutex :=
  Machine.exists_replay (fun s => s.failure = some "proof")
    (fun _ ran _ => settlementOverlap_handOffMutex (.of_replay rfl _ ran)) (by decide)

end Overlap

end Faberun
