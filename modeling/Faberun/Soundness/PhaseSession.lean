import Mathlib.Data.List.Nodup
import Faberun.Model.Engine.PhaseSession

/-! # One provider session, one live turn

What a choice of a session gives is settled first (`phaseInvocationPlan_session`): a session of the role that no live
turn of a readable node is driving. `Inv` then follows the ledgers. A record joins them in a session nobody drives, or
changes to a session nobody has had, so no two live turns share one; and the sessions of workers and of judges stay
apart whatever else happens.
-/

namespace Faberun.PhaseSession

variable {contract : Contract} {s t : State} {node : ContractNode} {role : Role} {runtime : RuntimeSnapshot}
  {policy : Option Bool} {unread : List String} {session id : String} {invocation : Invocation} {now : Rat}

/-! ## The choice of a session -/

theorem mem_candidates (member : invocation ∈ phaseSessionCandidates contract s node role unread) :
    invocation ∈ s.ledger ∧ invocation.role = role ∧
      ∀ session, invocation.continuationId = some session → session ∉ claimedContinuations contract s node unread := by
  simp only [phaseSessionCandidates, List.mem_insertionSort, List.mem_flatMap, List.mem_filter, State.ledgerOf] at member
  obtain ⟨candidate, -, ⟨here, -⟩, chosen⟩ := member
  simp only [isCandidate, Bool.and_eq_true, decide_eq_true_eq] at chosen
  refine ⟨here, chosen.1.1, fun session carried => ?_⟩
  simpa [carried] using chosen.2

theorem phaseInvocationPlan_session
    (chosen : (phaseInvocationPlan contract s node role runtime policy unread).continuationId = some session) :
    ∃ source ∈ s.ledger, source.role = role ∧ source.continuationId = some session ∧
      session ∉ claimedContinuations contract s node unread := by
  unfold phaseInvocationPlan at chosen
  split at chosen
  · exact nomatch chosen
  · split at chosen
    · exact nomatch chosen
    · rename_i source last
      split at chosen
      · obtain ⟨here, same, free⟩ := mem_candidates (List.mem_of_getLast? last)
        exact ⟨source, here, same, chosen, free session chosen⟩
      · exact nomatch chosen

/-- A live turn of a readable node claims its session. -/
theorem mem_claimed {candidate : ContractNode} (member : candidate ∈ contract.nodes)
    (readable : candidate.id = node.id ∨ candidate.id ∉ unread) (here : invocation ∈ s.ledger)
    (home : invocation.nodeId = candidate.id) (live : invocation.live = some session) :
    session ∈ claimedContinuations contract s node unread := by
  simp only [claimedContinuations, State.readable, State.ledgerOf, List.mem_flatMap, List.mem_filter, List.mem_filterMap,
    decide_eq_true_eq]
  exact ⟨candidate, ⟨member, readable⟩, invocation, ⟨here, home⟩, live⟩

/-! ## What a step keeps -/

structure Inv (contract : Contract) (s : State) : Prop where
  live : s.ledger.Pairwise Apart
  ids : s.ledger.Pairwise fun left right => left.id ≠ right.id
  home : ∀ invocation ∈ s.ledger, ∃ node ∈ contract.nodes, invocation.nodeId = node.id
  used : ∀ invocation ∈ s.ledger, ∀ session, invocation.continuationId = some session → (invocation.role, session) ∈ s.used
  split : ∀ session, (.worker, session) ∈ s.used → (.judge, session) ∉ s.used

theorem Inv.exclusive (inv : Inv contract s) : Exclusive s where
  live := inv.live
  roles invocation member session judge carried working :=
    inv.split session working (judge ▸ inv.used invocation member session carried)

theorem Initial.inv (initial : Initial s) : Inv contract s := by
  obtain ⟨ledger, used⟩ := initial
  refine ⟨?_, ?_, ?_, ?_, ?_⟩
  · rw [ledger]
    exact .nil
  · rw [ledger]
    exact .nil
  · rw [ledger]
    exact fun _ member => absurd member List.not_mem_nil
  · rw [ledger]
    exact fun _ member => absurd member List.not_mem_nil
  · rw [used]
    exact fun _ member => absurd member List.not_mem_nil

private theorem Inv.snapshots (inv : Inv contract s) (snapshots : String → NodeSnapshot) :
    Inv contract { s with snapshots := snapshots } :=
  ⟨inv.live, inv.ids, inv.home, inv.used, inv.split⟩

theorem find?_none (absent : s.find? id = none) : ∀ invocation ∈ s.ledger, invocation.id ≠ id := by
  intro invocation member same
  have differs := List.find?_eq_none.mp absent invocation member
  exact differs (decide_eq_true same)

theorem find?_some (found : s.find? id = some invocation) : invocation ∈ s.ledger ∧ invocation.id = id :=
  ⟨List.mem_of_find?_eq_some found, by simpa using List.find?_some found⟩

/-- A record joins in a session of its role that no live turn is driving. -/
private theorem Inv.persist (inv : Inv contract s) (home : ∃ node ∈ contract.nodes, invocation.nodeId = node.id)
    (absent : s.find? invocation.id = none)
    (own : ∀ session, invocation.continuationId = some session → (invocation.role, session) ∈ s.used)
    (free : ∀ session, invocation.continuationId = some session → ∀ other ∈ s.ledger, other.live ≠ some session) :
    Inv contract (s.persist invocation) := by
  refine ⟨?_, ?_, ?_, ?_, inv.split⟩
  · refine List.pairwise_append.mpr ⟨inv.live, List.pairwise_singleton _ _, fun other member new is => ?_⟩
    obtain rfl := List.mem_singleton.mp is
    intro session drives live
    unfold Invocation.live at live
    split_ifs at live
    exact free session live other member drives
  · refine List.pairwise_append.mpr ⟨inv.ids, List.pairwise_singleton _ _, fun other member new is => ?_⟩
    obtain rfl := List.mem_singleton.mp is
    exact find?_none absent other member
  · intro other member
    rcases List.mem_append.mp member with member | is
    · exact inv.home other member
    · exact List.mem_singleton.mp is ▸ home
  · intro other member
    rcases List.mem_append.mp member with member | is
    · exact inv.used other member
    · exact List.mem_singleton.mp is ▸ own

/-- A record joins, where the snapshots change too. -/
private theorem Inv.joins (inv : Inv contract s) {after : State}
    (home : ∃ node ∈ contract.nodes, invocation.nodeId = node.id) (absent : s.find? invocation.id = none)
    (ledger : after.ledger = s.ledger) (used : after.used = s.used)
    (own : ∀ session, invocation.continuationId = some session → (invocation.role, session) ∈ s.used)
    (free : ∀ session, invocation.continuationId = some session → ∀ other ∈ s.ledger, other.live ≠ some session) :
    Inv contract (after.persist invocation) := by
  have persisted := (inv.persist home absent own free).snapshots after.snapshots
  have same : after.persist invocation = { s.persist invocation with snapshots := after.snapshots } := by
    simp only [State.persist, ledger, used]
  exact same ▸ persisted

/-- A record changes: it keeps its session where it is live, or goes on to one nobody has had. -/
private theorem Inv.update (inv : Inv contract s) {change : Invocation → Invocation} {used : List (Role × String)}
    (same : ∀ item, (change item).id = item.id ∧ (change item).nodeId = item.nodeId ∧ (change item).role = item.role)
    (more : ∀ entry ∈ s.used, entry ∈ used)
    (split : ∀ session, (.worker, session) ∈ used → (.judge, session) ∉ used)
    (own : ∀ item ∈ s.ledger, item.id = id →
      ∀ session, (change item).continuationId = some session → (item.role, session) ∈ used)
    (live : ∀ item ∈ s.ledger, item.id = id →
      ∀ session, (change item).live = some session →
        item.live = some session ∨ ∀ other ∈ s.ledger, other.live ≠ some session) :
    Inv contract { s.update id change with used := used } := by
  have ids (item : Invocation) : (if item.id = id then change item else item).id = item.id := by
    split_ifs
    · exact (same item).1
    · rfl
  -- A changed record drives what it drove, or what nobody does.
  have drives (item) (member : item ∈ s.ledger) (session)
      (now : (if item.id = id then change item else item).live = some session) :
      item.live = some session ∨ item.id = id ∧ ∀ other ∈ s.ledger, other.live ≠ some session := by
    split_ifs at now with is
    · exact (live item member is session now).imp_right fun free => ⟨is, free⟩
    · exact .inl now
  refine ⟨?_, ?_, ?_, ?_, split⟩
  · refine List.pairwise_map.mpr ((inv.live.and inv.ids).imp_of_mem fun {left right} here there apart => ?_)
    obtain ⟨apart, differ⟩ := apart
    intro session first second
    rcases drives left here session first with first | ⟨first, free⟩
    · rcases drives right there session second with second | ⟨-, free⟩
      · exact apart session first second
      · exact free left here first
    · rcases drives right there session second with second | ⟨second, -⟩
      · exact free right there second
      · exact differ (first.trans second.symm)
  · refine List.pairwise_map.mpr (inv.ids.imp fun {left right} differ => ?_)
    rw [ids left, ids right]
    exact differ
  · intro item member
    obtain ⟨old, here, rfl⟩ := List.mem_map.mp member
    split_ifs
    · exact (same old).2.1 ▸ inv.home old here
    · exact inv.home old here
  · intro item member session carried
    obtain ⟨old, here, rfl⟩ := List.mem_map.mp member
    split_ifs at carried ⊢ with is
    · exact (same old).2.2 ▸ own old here is session carried
    · exact more _ (inv.used old here session carried)

theorem live_some (live : invocation.live = some session) :
    invocation.status = .active ∧ invocation.continuationId = some session := by
  unfold Invocation.live at live
  split_ifs at live with active
  exact ⟨active, live⟩

theorem not_used_of_new (new : s.isNew session = true) (role : Role) : (role, session) ∉ s.used := by
  intro member
  have differs := List.all_eq_true.mp new _ member
  exact of_decide_eq_true differs rfl

private theorem Inv.unique (inv : Inv contract s) {other : Invocation} (here : invocation ∈ s.ledger) (there : other ∈ s.ledger)
    (same : other.id = invocation.id) : other = invocation := by
  have nodup : (s.ledger.map Invocation.id).Nodup := List.pairwise_map.mpr inv.ids
  exact List.inj_on_of_nodup_map nodup there here same

/-- A record goes on to the session its envelope names. -/
private theorem Inv.carry (inv : Inv contract s) (here : invocation ∈ s.ledger) {envelope : Option String}
    (names : s.names invocation envelope = true) {change : Invocation → Invocation}
    (same : ∀ item, (change item).id = item.id ∧ (change item).nodeId = item.nodeId ∧ (change item).role = item.role)
    (keeps : ∀ item, (change item).continuationId = item.continuationId ∧
      ((change item).status = .active → item.status = .active)) :
    Inv contract (s.carry invocation envelope change) := by
  have named (session) (is : envelope = some session) :
      invocation.continuationId = some session ∨ s.isNew session = true := by
    simpa [State.names, is] using names
  refine inv.update (fun item => same { item with continuationId := envelope.or item.continuationId })
    (fun entry member => List.mem_append_right _ member) ?_ ?_ ?_
  · intro session working judging
    rcases List.mem_append.mp working with fresh | working
    · obtain ⟨found, is, entry⟩ := List.mem_map.mp fresh
      obtain ⟨worker, rfl⟩ := Prod.mk.inj entry
      rcases List.mem_append.mp judging with other | judging
      · obtain ⟨_, _, entry'⟩ := List.mem_map.mp other
        exact nomatch worker.symm.trans (Prod.mk.inj entry').1
      · rcases named found (Option.mem_toList.mp is) with own | new
        · exact inv.split found (worker ▸ inv.used invocation here found own) judging
        · exact not_used_of_new new _ judging
    · rcases List.mem_append.mp judging with fresh | judging
      · obtain ⟨found, is, entry⟩ := List.mem_map.mp fresh
        obtain ⟨judge, rfl⟩ := Prod.mk.inj entry
        rcases named found (Option.mem_toList.mp is) with own | new
        · exact inv.split found working (judge ▸ inv.used invocation here found own)
        · exact not_used_of_new new _ working
      · exact inv.split session working judging
  · intro item member is session carried
    obtain rfl := inv.unique here member is
    rw [(keeps _).1] at carried
    cases envelope with
    | none => exact List.mem_append_right _ (inv.used item here session carried)
    | some found =>
      obtain rfl := Option.some.inj carried
      exact List.mem_append_left _ (List.mem_map.mpr ⟨found, by simp, rfl⟩)
  · intro item member is session live
    obtain rfl := inv.unique here member is
    obtain ⟨active, carried⟩ := live_some live
    rw [(keeps _).1] at carried
    have active := (keeps _).2 active
    cases envelope with
    | none => exact .inl ((if_pos active).trans carried)
    | some found =>
      obtain rfl := Option.some.inj carried
      rcases named found rfl with own | new
      · exact .inl ((if_pos active).trans own)
      · refine .inr fun other there drives => ?_
        exact not_used_of_new new _ (inv.used other there found (live_some drives).2)

theorem Inv.step {label : Label} (inv : Inv contract s) (claims : Claims s label)
    (steps : (machine contract).step s label = some t) : Inv contract t := by
  cases label with
  | dispatch role node runtime explicit unread id now =>
    simp only [machine, State.step] at steps
    split at steps
    · rename_i able
      obtain rfl := Option.some.inj steps
      refine inv.joins ⟨node, able.1, rfl⟩ able.2 ?_ ?_ ?_ ?_
      · split_ifs <;> rfl
      · split_ifs <;> rfl
      · intro session chosen
        obtain ⟨source, here, same, carried, -⟩ := phaseInvocationPlan_session chosen
        exact same ▸ inv.used source here session carried
      · intro session chosen other there drives
        obtain ⟨-, -, -, -, free⟩ := phaseInvocationPlan_session chosen
        obtain ⟨candidate, member, home⟩ := inv.home other there
        refine free (mem_claimed member ?_ there home drives)
        by_contra unreadable
        obtain ⟨foreign, unread⟩ := not_or.mp unreadable
        rw [← home] at foreign unread
        exact nomatch drives.symm.trans (claims other there (not_not.mp unread) foreign)
    · exact nomatch steps
  | refuse node => exact Option.some.inj steps ▸ inv.snapshots _
  | materialize node source runtime id now =>
    simp only [machine, State.step] at steps
    split_ifs at steps with able
    obtain ⟨member, here, own, worker, -, -, -, absent⟩ := able
    refine Option.some.inj steps ▸ inv.persist ⟨node, member, rfl⟩ absent ?_ ?_
    · intro session carried
      exact worker ▸ inv.used source here session carried
    · intro session carried other there drives
      refine claims other there (by rw [drives]; exact nofun) (drives.trans carried.symm)
  | observe id session now =>
    obtain ⟨invocation, found, steps⟩ := Option.bind_eq_some_iff.mp steps
    split_ifs at steps with able
    obtain ⟨-, -, new⟩ := able
    refine Option.some.inj steps ▸ inv.carry (find?_some found).1 ?_ (fun _ => ⟨rfl, rfl, rfl⟩) (fun _ => ⟨rfl, fun active => active⟩)
    simp [State.names, new]
  | close id envelope now =>
    obtain ⟨invocation, found, steps⟩ := Option.bind_eq_some_iff.mp steps
    split_ifs at steps with names
    exact Option.some.inj steps ▸ inv.carry (find?_some found).1 names (fun _ => ⟨rfl, rfl, rfl⟩) (fun _ => ⟨rfl, nofun⟩)
  | terminate id now =>
    refine Option.some.inj steps ▸ inv.update (fun _ => ⟨rfl, rfl, rfl⟩) (fun _ member => member) inv.split ?_ ?_
    · exact fun item here _ session carried => inv.used item here session carried
    · exact fun item _ _ session live => nomatch live
  | settle id envelope =>
    obtain ⟨invocation, found, steps⟩ := Option.bind_eq_some_iff.mp steps
    split_ifs at steps with able
    exact Option.some.inj steps ▸
      inv.carry (find?_some found).1 able.2 (fun _ => ⟨rfl, rfl, rfl⟩) (fun _ => ⟨rfl, fun active => active⟩)
  | reject node forceFresh => exact Option.some.inj steps ▸ inv.snapshots _
  | attempt node attempt worktree => exact Option.some.inj steps ▸ inv.snapshots _

/-- In every run in which a continuation is claimed before it is driven, no two live turns share a session, and no judge
has one of a worker. -/
theorem phaseSession_exclusive (reach : (machine contract).Reach Claims Initial s) : Exclusive s :=
  (reach.invariant (Inv contract) (fun _ initial => initial.inv) fun _ _ _ inv claims steps =>
    inv.step claims steps).exclusive

/-! ## Two nodes of a phase -/

def codex : RuntimeSnapshot := ⟨"codex", "codex", "f", "m", none, none, true⟩

/-- Two nodes of a phase whose contract lets them share a session. -/
def twoNodes : Contract where
  nodes := [⟨"a", "build"⟩, ⟨"b", "build"⟩]
  campaignId := "c"
  runId := "r"
  cwd := "/w"
  phaseSessionReuse := true
  notAfter left right := decide (left ≤ right)

def ready : State := ⟨fun node => ⟨1, some (if node = "a" then "/a" else "/b"), none⟩, [], []⟩

/-- The first node's worker has ended without a result. -/
def ended : List Label :=
  [.dispatch .worker ⟨"a", "build"⟩ codex none [] "1" 0, .observe "1" "k" 1, .close "1" none 2]

/-- Its record, as it is closed. -/
def first : Invocation :=
  ⟨"1", "a", 1, "/a", "r", "c", "build", .worker, codex, some "k", .fresh, .closed, 0, 2⟩

/-- The result is materialized, and only then the second node goes on in the session. -/
theorem phaseSession_exclusive_handOff :
    ∃ s, (machine twoNodes).replay? Claims ready
        (ended ++ [.settle "1" none, .materialize ⟨"a", "build"⟩ first codex "2" 3, .close "2" none 4,
          .dispatch .worker ⟨"b", "build"⟩ codex none [] "3" 5, .dispatch .judge ⟨"a", "build"⟩ codex none [] "4" 6,
          .observe "4" "j" 7]) = some s ∧
      s.ledger.filterMap Invocation.live = ["k", "j"] ∧ Exclusive s :=
  Machine.exists_replay (fun s => s.ledger.filterMap Invocation.live = ["k", "j"])
    (fun _ ran check => ⟨check, phaseSession_exclusive (.of_replay ⟨rfl, rfl⟩ _ ran)⟩) (by decide)

/-- The second node is dispatched between the close and the settlement of the first: both drive its session. -/
theorem phaseSession_shared :
    ∃ s, (machine twoNodes).Reach Machine.free Initial s ∧ ¬ Exclusive s := by
  have ran : ∃ s, (machine twoNodes).replay? Machine.free ready
      (ended ++ [.dispatch .worker ⟨"b", "build"⟩ codex none [] "3" 3, .settle "1" none,
        .materialize ⟨"a", "build"⟩ first codex "2" 4]) = some s ∧ (s.ledger.map Invocation.live).drop 1 = [some "k", some "k"] :=
    Machine.exists_replay _ (fun _ _ held => held) (by decide)
  obtain ⟨s, ran, shared⟩ := ran
  refine ⟨s, .of_replay ⟨rfl, rfl⟩ _ ran, fun exclusive => ?_⟩
  have apart := (List.pairwise_map (f := Invocation.live) (R := fun left right => ∀ session, left = some session → right ≠ some session)).mpr
    exclusive.live
  have later := apart.drop (i := 1)
  rw [shared] at later
  exact (List.pairwise_cons.mp later).1 _ (List.mem_singleton_self _) "k" rfl rfl

end Faberun.PhaseSession
