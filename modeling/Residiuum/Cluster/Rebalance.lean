import Residiuum.Cluster.Raft

/-!
# Moving a partition to other nodes

A rebalance gives the new replicas a peer, copies the leader's log to them, lets the old and the new
replicas vote together, and then only the new ones. Elections and proposals go on between the steps.
-/

namespace Residiuum.Cluster

open DistinctLib

/-! ## The group -/

namespace PartitionRaft

variable (g : PartitionRaft)

def ensurePeer (node : NodeId) : PartitionRaft :=
  match g.peers node with
  | some _ => g
  | none => g.setPeer node (.new node)

/-- Leaders that do not vote step down. -/
def stepDownOutside : PartitionRaft :=
  { g with peers := fun v => (g.peers v).map fun p =>
      if p.role = .leader ∧ v ∉ g.voters then { p with role := .follower } else p }

def setVoters (voters : List NodeId) (placementEpoch : ℕ) : PartitionRaft :=
  let g := voters.foldl ensurePeer g
  stepDownOutside
    { g with
      voters := voters
      placementEpoch := placementEpoch
      joint := false
      outgoing := []
      incoming := [] }

/-- The old voters, and the new ones that are not among them. -/
def unionVoters (old new : List NodeId) : List NodeId :=
  sortBy compare (new.foldl (fun union n => if n ∈ union then union else union ++ [n]) old)

def setJointVoters (old new : List NodeId) (placementEpoch : ℕ) : PartitionRaft :=
  let union := unionVoters old new
  let g := union.foldl ensurePeer g
  stepDownOutside
    { g with
      voters := union
      placementEpoch := placementEpoch
      joint := true
      outgoing := old
      incoming := new }

/-- What a destination takes over from the source of a stream. -/
def takeLog (source : RaftPeer) (p : RaftPeer) : RaftPeer :=
  { p with
    log := source.log
    currentTerm := source.currentTerm
    commitIndex := source.commitIndex
    role := .follower
    votedFor := none
    lastApplied := 0 }

def streamLogTo (leader dest : NodeId) : ℕ × PartitionRaft :=
  let g := g.ensurePeer dest
  match g.peers leader with
  | none => (0, g)
  | some source =>
    let g := g.modifyPeer dest (takeLog source)
    let g := if source.role = .leader then
        g.modifyPeer leader fun lp =>
          if lp.role = .leader then setMatch dest source.lastLogIndex lp else lp
      else g
    (source.log.length, g)

end PartitionRaft

/-! ## Phases -/

/-- Phases of a move. -/
inductive RebalancePhase where
  | planCommitted
  | learnersAdded
  | segmentsCopied
  | logCaughtUp
  | membershipChanged
  | epochActivated
  | safetyWindow
  | reclaimed
  deriving DecidableEq, Repr

/-- A move in progress. -/
structure RebalanceJob where
  oldReplicas : List NodeId
  newReplicas : List NodeId
  destinations : List NodeId
  phase : RebalancePhase
  planEpoch : ℕ
  activatedEpoch : Option ℕ
  logEntriesStreamed : ℕ
  joint : Bool
  deriving DecidableEq, Repr

def RebalanceJob.plan (oldReplicas newReplicas : List NodeId) (planEpoch : ℕ) : RebalanceJob where
  oldReplicas := oldReplicas
  newReplicas := newReplicas
  destinations := sortBy compare (newReplicas.filter fun n => n ∉ oldReplicas)
  phase := .planCommitted
  planEpoch := planEpoch
  activatedEpoch := none
  logEntriesStreamed := 0
  joint := false

/-- A partition with its replicas in the directory and the rebalance in progress. -/
structure RebalanceState where
  group : PartitionRaft
  replicas : List NodeId
  placementEpoch : ℕ
  job : Option RebalanceJob

variable (s : RebalanceState)

namespace RebalanceState

def new (replicas : List NodeId) (placementEpoch : ℕ) (flushes : List Bool) : RebalanceState :=
  ⟨.new replicas placementEpoch flushes, replicas, placementEpoch, none⟩

def beginRebalance (newReplicas : List NodeId) : RebalanceState :=
  if newReplicas = [] then s
  else
    match s.job with
    | some _ => s
    | none => { s with job := some (.plan s.replicas newReplicas s.placementEpoch) }

/-- The loop of `rb_log_caught_up` over the destinations. -/
def streamAll (leader : NodeId) : List NodeId → ℕ → PartitionRaft → ℕ × PartitionRaft
  | [], streamed, g => (streamed, g)
  | dest :: dests, streamed, g =>
    let (n, g) := g.streamLogTo leader dest
    streamAll leader dests (streamed + n) g

/-- `rb_log_caught_up`: the leader, or the first old replica that has a peer. -/
def streamSource (g : PartitionRaft) (job : RebalanceJob) : Option NodeId :=
  match g.currentLeader with
  | some (leader, _) => some leader
  | none => job.oldReplicas.find? fun n => (g.peers n).isSome

/-- `advance_rebalance`, with the nodes that are online and the leader that the directory prefers;
it returns the election that ends the activation of the new voters. Copying subjects and reclaiming
do not concern the group. -/
def advanceRebalance (online : List NodeId) (preferred : Option NodeId) :
    Option RaftReturn × RebalanceState :=
  match s.job with
  | none => (none, s)
  | some job =>
    match job.phase with
    | .planCommitted =>
      (none, { s with
        group := job.destinations.foldl PartitionRaft.ensurePeer s.group
        job := some { job with phase := .learnersAdded } })
    | .learnersAdded => (none, { s with job := some { job with phase := .segmentsCopied } })
    | .segmentsCopied =>
      match streamSource s.group job with
      | none => (none, s)
      | some leader =>
        let (streamed, g) := streamAll leader job.destinations job.logEntriesStreamed s.group
        (none, { s with
          group := g
          job := some { job with logEntriesStreamed := streamed, phase := .logCaughtUp } })
    | .logCaughtUp =>
      (none, { s with
        group := s.group.setJointVoters job.oldReplicas job.newReplicas job.planEpoch
        job := some { job with joint := true, phase := .membershipChanged } })
    | .membershipChanged =>
      let newEpoch := job.planEpoch + 1
      let (res, g) := (s.group.setVoters job.newReplicas newEpoch).ensureLeaderPreferring online
        preferred
      (some (.elected res),
        { group := g
          replicas := job.newReplicas
          placementEpoch := newEpoch
          job := some { job with
            activatedEpoch := some newEpoch
            joint := false
            phase := .epochActivated } })
    | .epochActivated => (none, { s with job := some { job with phase := .safetyWindow } })
    | .safetyWindow => (none, { s with job := none })
    | .reclaimed => (none, s)

end RebalanceState

/-- What can happen to a partition. -/
inductive RebalanceCall where
  | raft (call : RaftCall)
  | beginRebalance (newReplicas : List NodeId)
  | advanceRebalance (online : List NodeId) (preferred : Option NodeId)
  deriving DecidableEq, Repr

namespace RebalanceState

def step : RebalanceCall → Option RaftReturn × RebalanceState
  | .raft call =>
    let (ret, g) := s.group.call call
    (some ret, { s with group := g })
  | .beginRebalance newReplicas => (none, s.beginRebalance newReplicas)
  | .advanceRebalance online preferred => s.advanceRebalance online preferred

/-- A sequence of calls, with what the group returned. -/
def run (s : RebalanceState) : List RebalanceCall → List RaftReturn × RebalanceState
  | [] => ([], s)
  | c :: calls =>
    let (ret, s) := s.step c
    let (rets, s) := run s calls
    (ret.toList ++ rets, s)

def nextVoters : RebalanceCall → Option (List NodeId)
  | .advanceRebalance _ _ =>
    match s.job with
    | none => none
    | some job =>
      match job.phase with
      | .logCaughtUp => some (PartitionRaft.unionVoters job.oldReplicas job.newReplicas)
      | .membershipChanged => some job.newReplicas
      | _ => none
  | _ => none

end RebalanceState

end Residiuum.Cluster
