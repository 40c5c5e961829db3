import Residiuum.Atomics.Staging

/-!
# The lifecycle of an Atomic

The transition system of `lifecycle.rs`: prepare, members, decision and publication of one Atomic,
with the member counts that a publication must name.

* **`Gates.apply`**: every event keeps the gates.
* **`lifecycle_gates`**: the gates along every accepted run, for all counts.
-/

namespace Residiuum.Atomics

/-- Events of an atomic. -/
inductive LifecycleEvent where
  | prepare
  | stageMembers (memberCount : UInt32)
  | stabilizeMembers (memberCount : UInt32)
  | decideCommitted (memberCount : UInt32)
  | decideNotCommitted
  | discoverConflict
  | publish
  deriving DecidableEq

/-- Why an event is refused. -/
inductive LifecycleError where
  | illegal
  | terminalDecision
  deriving DecidableEq

/-- The state and the counts it rests on. -/
structure LifecycleTrace where
  state : AtomicLifecycle
  durableMembers : UInt32
  namedMembers : UInt32
  publishedMembers : UInt32
  deriving DecidableEq

def AtomicLifecycle.ordinaryVisible (s : AtomicLifecycle) : Bool :=
  s.publication = .published && s.decision = .committed

namespace LifecycleTrace

def empty : LifecycleTrace := ⟨⟨.none, .absent, .none, .unpublished⟩, 0, 0, 0⟩

/-- A second valid decision that contradicts the first. -/
def conflict (t : LifecycleTrace) : LifecycleTrace :=
  { t with state := { t.state with decision := .conflicting, publication := .unpublished } }

def apply (t : LifecycleTrace) : LifecycleEvent → Except LifecycleError LifecycleTrace
  | .prepare =>
    if t.state.prepare ≠ .none ∨ t.state.decision ≠ .none ∨ t.state.publication ≠ .unpublished then
      .error .illegal
    else .ok { t with state := { t.state with prepare := .prepared } }
  | .stageMembers memberCount =>
    if t.state.prepare ≠ .prepared ∨ t.state.members ≠ .absent ∨ t.state.decision ≠ .none then
      .error .illegal
    else .ok { t with state := { t.state with members := .staged }, durableMembers := memberCount }
  | .stabilizeMembers memberCount =>
    if t.state.members ≠ .staged ∨ t.state.decision ≠ .none then .error .illegal
    else if memberCount ≠ t.durableMembers then .error .illegal
    else .ok { t with state := { t.state with members := .durableInvisible } }
  | .decideCommitted memberCount =>
    match t.state.decision with
    | .none =>
      if t.state.prepare ≠ .prepared then .error .illegal
      else
        let membersReady : Bool := match t.state.members with
          | .durableInvisible => memberCount = t.durableMembers
          | .absent => memberCount = 0 && t.durableMembers = 0
          | .staged => false
        if membersReady then
          .ok { t with
            state := { t.state with decision := .committed }
            namedMembers := memberCount }
        else .error .illegal
    | .committed | .conflicting => .error .terminalDecision
    | .notCommitted => .ok t.conflict
  | .decideNotCommitted =>
    match t.state.decision with
    | .none =>
      if t.state.prepare ≠ .prepared then .error .illegal
      else .ok { t with state := { t.state with decision := .notCommitted } }
    | .notCommitted | .conflicting => .error .terminalDecision
    | .committed => .ok t.conflict
  | .discoverConflict =>
    if t.state.decision = .committed ∨ t.state.decision = .notCommitted then .ok t.conflict
    else .error .illegal
  | .publish =>
    if t.state.decision ≠ .committed ∨ t.state.publication ≠ .unpublished then .error .illegal
    else if ¬ (t.state.members = .durableInvisible ∨
        t.state.members = .absent ∧ t.namedMembers = 0) then .error .illegal
    else if t.namedMembers ≠ t.durableMembers then .error .illegal
    else .ok { t with
      state := { t.state with publication := .published }, publishedMembers := t.durableMembers }

def run (t : LifecycleTrace) (events : List LifecycleEvent) :
    Except LifecycleError LifecycleTrace :=
  events.foldlM apply t

/-- A published Atomic is committed with all its members, and staged members are invisible. -/
structure Gates (t : LifecycleTrace) : Prop where
  committed : t.state.publication = .published → t.state.decision = .committed
  counts : t.state.publication = .published →
    t.publishedMembers = t.namedMembers ∧ t.namedMembers = t.durableMembers
  staged : t.state.members = .staged → t.state.ordinaryVisible = false

def Refused (t : LifecycleTrace) : Prop :=
  t.state.decision = .notCommitted ∨ t.state.decision = .conflicting

variable {t t' : LifecycleTrace} {e : LifecycleEvent} {events : List LifecycleEvent}

theorem gates_of_unpublished (h : t.state.publication = .unpublished) : t.Gates := by
  constructor <;> simp [h, AtomicLifecycle.ordinaryVisible]

theorem Gates.unpublished (h : t.Gates) (hd : t.state.decision ≠ .committed) :
    t.state.publication = .unpublished := by
  cases hp : t.state.publication with
  | unpublished => rfl
  | published => exact absurd (h.committed hp) hd

theorem Gates.apply (h : t.Gates) (ht : t.apply e = .ok t') : t'.Gates := by
  -- Every event but a publication leaves the Atomic unpublished.
  have hnone : t.state.decision = .none → t.state.publication = .unpublished := fun hd =>
    h.unpublished (by simp [hd])
  cases e <;> simp only [LifecycleTrace.apply] at ht
  case publish =>
    split_ifs at ht with h₁ h₂ h₃
    cases ht
    refine ⟨fun _ => by_contra fun hd => h₁ (.inl hd), fun _ => ⟨?_, by_contra h₃⟩, fun hs => ?_⟩
    · exact (by_contra h₃ : t.namedMembers = t.durableMembers).symm
    · simp [show t.state.members = .staged from hs] at h₂
  all_goals
    refine gates_of_unpublished ?_
    (repeat' split at ht) <;> cases ht <;> first | rfl | exact hnone ‹_› | simp_all

theorem Refused.apply (h : t.Refused) (ht : t.apply e = .ok t') : t'.Refused := by
  unfold Refused at h ⊢
  cases e <;> simp only [LifecycleTrace.apply] at ht <;> (repeat' split at ht) <;> cases ht <;>
    simp_all [conflict]

theorem apply_of_conflicting (h : t.state.decision = .conflicting) :
    ∃ err, t.apply e = .error err := by
  cases e <;> simp [LifecycleTrace.apply, h]

theorem run_keeps {I : LifecycleTrace → Prop} (hI : ∀ {t e t'}, I t → apply t e = .ok t' → I t')
    (h : I t) (hrun : t.run events = .ok t') : I t' := by
  induction events generalizing t with
  | nil =>
    cases hrun
    exact h
  | cons e events ih =>
    rw [run, List.foldlM_cons] at hrun
    cases ht : t.apply e with
    | error err =>
      rw [ht] at hrun
      cases hrun
    | ok u =>
      rw [ht] at hrun
      exact ih (hI h ht) hrun

/-- **The lifecycle gates hold along every accepted run**, for all member counts. -/
theorem lifecycle_gates (h : empty.run events = .ok t) :
    (t.state.publication = .published → t.state.decision = .committed ∧
      t.publishedMembers = t.namedMembers ∧ t.namedMembers = t.durableMembers) ∧
    (t.Refused → ∀ later t', t.run later = .ok t' → t'.state.publication ≠ .published) ∧
    (t.state.decision = .conflicting → ∀ e, ∃ err, t.apply e = .error err) ∧
    (t.state.members = .staged → t.state.ordinaryVisible = false) := by
  have hgates := run_keeps Gates.apply (gates_of_unpublished rfl) h
  refine ⟨fun hp => ⟨hgates.committed hp, hgates.counts hp⟩, fun hr later t' hrun hp => ?_,
    fun hc _ => apply_of_conflicting hc, hgates.staged⟩
  have hcommitted := (run_keeps Gates.apply hgates hrun).committed hp
  rcases run_keeps Refused.apply hr hrun with hd | hd <;> cases hcommitted.symm.trans hd

/-- Two members are staged, made durable, committed and published. -/
theorem lifecycle_gates_two : ∃ events t, empty.run events = .ok t ∧
    t.state.publication = .published ∧ t.publishedMembers = 2 ∧ t.state.decision = .committed := by
  have hrun : empty.run [.prepare, .stageMembers 2, .stabilizeMembers 2, .decideCommitted 2,
      .publish] = .ok ⟨⟨.prepared, .durableInvisible, .committed, .published⟩, 2, 2, 2⟩ := by decide
  exact ⟨_, _, hrun, rfl, rfl, ((lifecycle_gates hrun).1 rfl).1⟩

end LifecycleTrace

end Residiuum.Atomics
