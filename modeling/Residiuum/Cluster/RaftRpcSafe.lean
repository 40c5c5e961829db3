import Residiuum.Cluster.RaftGroup
import Residiuum.Cluster.RaftRpcSim

/-!
# Safety over a network

A follower reports its last index, whatever an append reached. When the append stops before the end
of the follower's log, what follows it was never compared, and the leader counts it as matched.

* **`rpc_run_safe`**: so it is in every run in which appends cover what the follower keeps.
* **`rpc_run_durable`**: in these runs, what was committed stays so.
-/

namespace Residiuum.Cluster

open RaftLib (State)
open PartitionRaft

variable {w : RpcNetwork} {A : State NodeId LogEntry} {u v : NodeId}
  {p q : RaftPeer} {events : List RpcEvent}

/-! ## Safety -/

/-- What a leader takes for committed is stored by a quorum of the voters, and two nodes have the
same entry at an index that both take for committed. -/
structure RpcSafe (w : RpcNetwork) : Prop where
  stored : ∀ v p, w.group.peers v = some p → p.role = .leader → ∀ i ≤ p.commitIndex,
    ∀ e, p.entryAt i = some e →
      w.group.quorum ≤ (w.group.voters.filter fun u => Stores w.group u i e).length
  agree : ∀ v u p q, w.group.peers v = some p → w.group.peers u = some q →
    ∀ i, i ≤ p.commitIndex → i ≤ q.commitIndex → p.entryAt i = q.entryAt i

theorem RpcSim.safe (h : RpcSim w A) : RpcSafe w where
  stored _ _ hp _ _ hi _ he := h.sim.quorum_stores (h.sim.settled hp hi he)
  agree _ _ _ _ hp hq _ hi hi' := h.sim.commit_agree hp hq hi hi'

/-! ## Runs -/

/-- The append that an event hands to a follower covers what the follower keeps. -/
def CoveredStep (w : RpcNetwork) : RpcEvent → Prop
  | .deliver node =>
    match w.task node with
    | some (.replicate _ req follower _ _) => w.task follower = none → Covers w.group follower req
    | _ => True
  | .deliverLate i =>
    match w.sent[i]? with
    | some (.appendEntries dst req) => w.task dst = none → Covers w.group dst req
    | _ => True
  | _ => True

def CoveredRun (w : RpcNetwork) : List RpcEvent → Prop
  | [] => True
  | e :: events => CoveredStep w e ∧ CoveredRun (w.step e) events

theorem CoveredRun.initial {es : List RpcEvent} (h : CoveredRun w events)
    (hes : es <+: events) : CoveredRun w es := by
  induction es generalizing w events with
  | nil => trivial
  | cons e es ih =>
    obtain ⟨rest, rfl⟩ := hes
    exact ⟨h.1, ih h.2 (List.prefix_append _ _)⟩

namespace RpcSim

section

variable (h : RpcSim w A) {task : RpcTask}

include h

theorem resume (htask : w.task v = some task) (hcover : CoveredStep w (.deliver v))
    : Reaches A (w.resume v task) := by
  dsimp only [CoveredStep] at hcover
  rw [htask] at hcover
  cases task with
  | campaign req asked rest votes =>
    dsimp [RpcNetwork.resume]
    cases hfree : w.task asked with
    | some t => exact ⟨A, .refl A, h⟩
    | none =>
      obtain ⟨A', ho, hs, hballot⟩ :=
        h.handleVote htask hfree (Prod.mk.eta (p := w.group.handleRequestVote asked req)).symm
      refine Reaches.trans ho (hs.onVote htask fun r hr hgrant => hballot ?_)
      rw [Option.some.inj hr]
      exact hgrant
  | replicate proposal req f attempts rest =>
    dsimp [RpcNetwork.resume]
    cases hfree : w.task f with
    | some t => exact ⟨A, .refl A, h⟩
    | none =>
      obtain ⟨-, -, -, -, -, -, hsend, -⟩ := h.task v _ htask
      obtain ⟨A', hcalm, hs, hconf, hacked⟩ := h.handleAppend hfree hsend (hcover hfree)
        (Prod.mk.eta (p := w.group.handleAppendEntries f req)).symm
      refine Reaches.trans hcalm.onward (hs.onAppend htask fun r hr => ?_)
      cases hr
      exact ⟨hconf, hacked⟩

theorem giveUp (htask : w.task v = some task) : Reaches A (w.giveUp v task) := by
  cases task with
  | campaign req asked rest votes =>
    show Reaches A (w.onVote v req rest votes none)
    refine h.onVote htask fun r hr => ?_
    cases hr
  | replicate proposal req f attempts rest =>
    show Reaches A (w.onAppend v proposal req f attempts rest none)
    refine h.onAppend htask fun r hr => ?_
    cases hr

theorem handleLate {i : ℕ} {req : RaftRpcRequest} (hreq : w.sent[i]? = some req)
    (hcover : CoveredStep w (.deliverLate i)) : Reaches A (w.handleLate req) := by
  have hsound := h.sent req (List.mem_of_getElem? hreq)
  dsimp only [CoveredStep] at hcover
  rw [hreq] at hcover
  cases req with
  | requestVote dst req =>
    dsimp [RpcNetwork.handleLate]
    cases hfree : w.task dst with
    | some t => exact ⟨A, .refl A, h⟩
    | none =>
      obtain ⟨A', hcalm, hs⟩ := h.sim.lateVote req.term req.lastLogIndex req.lastLogTerm hsound
      obtain ⟨hvoters, hpeers⟩ := requestVote_others w.group dst req.candidateId req.term
        req.lastLogIndex req.lastLogTerm
      exact ⟨A', hcalm.onward, h.setFree hfree hcalm.onward hs hvoters hpeers⟩
  | appendEntries dst req =>
    dsimp [RpcNetwork.handleLate]
    cases hfree : w.task dst with
    | some t => exact ⟨A, .refl A, h⟩
    | none =>
      obtain ⟨A', hcalm, hs, -⟩ := h.handleAppend hfree hsound (hcover hfree)
        (Prod.mk.eta (p := w.group.handleAppendEntries dst req)).symm
      exact ⟨A', hcalm.onward, hs⟩

/-- **Every event is a sequence of protocol steps**, provided that appends cover what the follower
keeps. -/
theorem step {e : RpcEvent} (hcover : CoveredStep w e) : Reaches A (w.step e) := by
  cases e <;> dsimp [RpcNetwork.step] <;> split
  all_goals try exact ⟨A, .refl A, h⟩
  · exact h.campaign (by assumption) _
  · exact h.propose (by assumption) _ _
  · exact h.resume (by assumption) hcover
  · exact h.giveUp (by assumption)
  · exact h.handleLate (by assumption) hcover

theorem run (hcover : CoveredRun w events) : Reaches A (w.run events) := by
  induction events generalizing w A with
  | nil => exact ⟨A, .refl A, h⟩
  | cons e events ih =>
    obtain ⟨A', ho, hs⟩ := h.step hcover.1
    exact Reaches.trans ho (ih hs hcover.2)

end

theorem new (config : NodeId → RaftRpcConfig) (voters : List NodeId) (epoch : ℕ)
    (flushes : List Bool) : RpcSim (.new config voters epoch flushes) (State.init voters) where
  sim := .new voters epoch flushes
  sent := nofun
  task := nofun

end RpcSim

/-- **Safety over a network**: in a run in which every append that a follower accepts covers what
the follower keeps, what a leader takes for committed is stored by a quorum, and nodes agree on it,
in every state that is reached. -/
theorem rpc_run_safe (config : NodeId → RaftRpcConfig) (voters : List NodeId) (epoch : ℕ)
    (flushes : List Bool) (events : List RpcEvent)
    (hcover : CoveredRun (.new config voters epoch flushes) events) (es : List RpcEvent)
    (hes : es <+: events) : RpcSafe ((RpcNetwork.new config voters epoch flushes).run es) := by
  obtain ⟨A, -, hs⟩ := (RpcSim.new config voters epoch flushes).run (hcover.initial hes)
  exact hs.safe

/-! ## Runs of three nodes -/

/-- Three nodes that send one entry at a time. -/
def threeNodes : RpcNetwork := .new (fun _ => ⟨1, 32⟩) [0, 1, 2] 1 []

/-- Node 0 commits an entry with node 1 and appends two more that nobody gets. Node 1 is elected,
appends an entry that nobody gets, and is elected again. -/
def divergingLogs : List RpcEvent :=
  [.campaign 0 [0, 1], .deliver 0, .propose 0 (.put "x" []) [0, 1], .deliver 0, .deliver 0,
    .propose 0 (.put "y" []) [0], .propose 0 (.put "z" []) [0], .campaign 1 [1, 2], .deliver 1,
    .propose 1 (.put "a" []) [1], .campaign 1 [1, 2], .deliver 1]

/-- Node 1 proposes another entry to node 0, which refuses once and then accepts the first entry of
the log, and reports the length of its own log. -/
def shortAppend : List RpcEvent := [.propose 1 (.put "b" []) [0, 1], .deliver 1, .deliver 1]

/-- The entry that node 1 has proposed last. -/
def shortAppendEntry : LogEntry := ⟨3, 3, .put "b" []⟩

/-- **Node 1 leads and has committed the entry, and no other node has it.** -/
theorem rpc_run_unsafe : ¬ RpcSafe (threeNodes.run (divergingLogs ++ shortAppend)) := by
  intro h
  have hstored := h.stored 1 _ rfl rfl 3 (by decide) shortAppendEntry rfl
  exact absurd hstored (by decide)

/-- A run with a lost vote, a lost answer and an append that arrives late. -/
def lossyRun : List RpcEvent :=
  [.campaign 0 [0, 1, 2], .lose 0, .deliver 0, .propose 0 (.put "x" []) [0, 1, 2], .lose 0,
    .deliver 0, .deliverLate 2, .lose 0, .deliver 0]

/-- In it the leader has committed the entry, which every node has. -/
theorem rpc_run_safe_lossy : RpcSafe (threeNodes.run lossyRun) ∧
    ∃ p, (threeNodes.run lossyRun).group.peers 0 = some p ∧ p.role = .leader ∧
      p.commitIndex = 1 := by
  refine ⟨rpc_run_safe _ _ _ _ lossyRun ?_ lossyRun (List.prefix_refl _), _, rfl, rfl, rfl⟩
  exact ⟨trivial, trivial, trivial, trivial, trivial, fun _ => by decide, fun _ => by decide,
    trivial,
    fun _ => by decide, trivial⟩

/-- **What was committed stays so over a network**, if appends cover what followers keep. -/
theorem rpc_run_durable (config : NodeId → RaftRpcConfig) (voters : List NodeId) (epoch : ℕ)
    (flushes : List Bool) (es later : List RpcEvent)
    (hcover : CoveredRun (.new config voters epoch flushes) es) :
    let w := (RpcNetwork.new config voters epoch flushes).run es
    CoveredRun w later → ∀ v p, w.group.peers v = some p → Durable p (w.run later).group := by
  intro w hlater v p hp
  obtain ⟨A, -, hs⟩ := (RpcSim.new config voters epoch flushes).run hcover
  obtain ⟨A', ho, hs'⟩ := hs.run hlater
  exact hs.sim.durable hs'.sim (ho.steps.grows hs.sim.inv) hp

theorem rpc_run_durable_voted :
    let w := threeNodes.run (divergingLogs.take 5)
    ∃ p, w.group.peers 0 = some p ∧ p.commitIndex = 1 ∧
      Durable p (w.run [.campaign 1 [1, 2], .deliver 1]).group := by
  refine ⟨_, rfl, rfl, rpc_run_durable _ _ _ _ (divergingLogs.take 5) _ ?_ ?_ 0 _ rfl⟩
  · exact ⟨trivial, trivial, trivial, fun _ => by decide, fun _ => by decide, trivial⟩
  · exact ⟨trivial, trivial, trivial⟩

end Residiuum.Cluster
