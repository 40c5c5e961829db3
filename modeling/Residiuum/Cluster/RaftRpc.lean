import Residiuum.Cluster.Raft

/-!
# Consensus over a network

Nodes that own only their local peer and send each other vote requests and appends. A node is locked
while it campaigns or proposes, so it waits for one reply at a time and handles no request then.
Any request or reply may be lost, and a request that was given up may still arrive.

* `RpcNetwork`: the local peers, what each node is waiting for, and the requests sent.
-/

namespace Residiuum.Cluster

open PartitionRaft

/-! ## Messages -/

/-- Batch size and attempts. -/
structure RaftRpcConfig where
  maxAppendBatch : ℕ
  replicateAttempts : ℕ
  deriving DecidableEq, Repr

/-- Asks for a vote. -/
structure RequestVoteRequest where
  term : ℕ
  candidateId : NodeId
  lastLogIndex : ℕ
  lastLogTerm : ℕ
  deriving DecidableEq, Repr

/-- Sends a part of a log. -/
structure AppendEntriesRequest where
  term : ℕ
  leaderId : NodeId
  prevLogIndex : ℕ
  prevLogTerm : ℕ
  entries : List LogEntry
  leaderCommit : ℕ
  deriving DecidableEq, Repr

/-- Answers an append. -/
structure AppendEntriesResponse where
  term : ℕ
  success : Bool
  conflictIndex : Option ℕ
  matchIndex : Option ℕ
  deriving DecidableEq, Repr

/-- What nodes send. -/
inductive RaftRpcRequest where
  | requestVote (dst : NodeId) (req : RequestVoteRequest)
  | appendEntries (dst : NodeId) (req : AppendEntriesRequest)
  deriving DecidableEq, Repr

namespace PartitionRaft

def handleRequestVote (g : PartitionRaft) (dst : NodeId) (req : RequestVoteRequest) :
    VoteResult × PartitionRaft :=
  g.requestVote dst req.candidateId req.term req.lastLogIndex req.lastLogTerm

/-- `handle_append_entries`: a follower that accepts reports its last index. -/
def handleAppendEntries (g : PartitionRaft) (dst : NodeId) (req : AppendEntriesRequest) :
    AppendEntriesResponse × PartitionRaft :=
  let (res, g) := g.appendEntries dst req.leaderId req.term req.prevLogIndex req.prevLogTerm
    req.entries req.leaderCommit
  let matchIndex := if res.success then (g.peers dst).map RaftPeer.lastLogIndex else none
  (⟨res.term, res.success, res.conflictIndex, matchIndex⟩, g)

end PartitionRaft

/-! ## Nodes -/

/-- A proposal in progress: the index of its entry, the followers that are online, and whether the
entry is committed and its commit index is being pushed. -/
structure RpcProposal where
  newIndex : ℕ
  followers : List NodeId
  pushing : Bool
  deriving DecidableEq, Repr

/-- What a locked node is waiting for. -/
inductive RpcTask where
  /-- The vote of `asked`, with `rest` still to be asked. -/
  | campaign (req : RequestVoteRequest) (asked : NodeId) (rest : List NodeId) (votes : ℕ)
  /-- The answer of `follower`, with more attempts left and `rest` still to be sent to. -/
  | replicate (proposal : RpcProposal) (req : AppendEntriesRequest) (follower : NodeId)
      (attempts : ℕ) (rest : List NodeId)
  deriving DecidableEq, Repr

/-- The `NetworkRaftNode`s of one group. The peer of a node in `group` is the local peer of that
node; every node has the same voters. -/
structure RpcNetwork where
  config : NodeId → RaftRpcConfig
  group : PartitionRaft
  task : NodeId → Option RpcTask
  sent : List RaftRpcRequest

namespace RpcNetwork

def new (config : NodeId → RaftRpcConfig) (voters : List NodeId) (placementEpoch : ℕ)
    (flushes : List Bool) : RpcNetwork :=
  ⟨config, .new voters placementEpoch flushes, fun _ => none, []⟩

/-- Change the local peers. -/
def setGroup (w : RpcNetwork) (g : PartitionRaft) : RpcNetwork := { w with group := g }

def finish (w : RpcNetwork) (node : NodeId) : RpcNetwork :=
  { w with task := Function.update w.task node none }

/-- A node sends a request and waits for the answer. -/
def await (w : RpcNetwork) (node : NodeId) (task : RpcTask) (req : RaftRpcRequest) : RpcNetwork :=
  { w with task := Function.update w.task node (some task), sent := w.sent ++ [req] }

/-- A node has seen a higher term. -/
def stepDown (term : ℕ) (p : RaftPeer) : RaftPeer :=
  { p with currentTerm := term, role := .follower, votedFor := none }

def closeCampaign (g : PartitionRaft) (node : NodeId) (newTerm votes : ℕ) : PartitionRaft :=
  if votes ≥ g.quorum then
    (g.modifyPeer node fun p => { p with currentTerm := newTerm }.becomeLeader g.voters).flushPeer.2
  else (g.modifyPeer node fun p => { p with role := .follower }).flushPeer.2

/-- The loop of `campaign` over the voters: ask the next one. -/
def askNext (w : RpcNetwork) (node : NodeId) (req : RequestVoteRequest) (voters : List NodeId)
    (votes : ℕ) : RpcNetwork :=
  match voters with
  | [] => (w.setGroup (closeCampaign w.group node req.term votes)).finish node
  | voter :: rest => w.await node (.campaign req voter rest votes) (.requestVote voter req)

/-- `campaign`, up to the first request. -/
def campaign (w : RpcNetwork) (node : NodeId) (online : List NodeId) : RpcNetwork :=
  if node ∉ w.group.voters then w
  else if node ∉ online then w
  else
    match w.group.peers node with
    | none => w
    | some peer =>
      let peer := peer.becomeCandidate node
      let (flushed, g) := (w.group.setPeer node peer).flushPeer
      if flushed = false then
        w.setGroup (g.modifyPeer node fun p => { p with role := .follower })
      else
        (w.setGroup g).askNext node
          ⟨peer.currentTerm, node, peer.lastLogIndex, peer.lastLogTerm⟩
          (g.voters.filter fun v => v ≠ node ∧ v ∈ online) 1

/-- `campaign` after the answer of a voter, or without one. -/
def onVote (w : RpcNetwork) (node : NodeId) (req : RequestVoteRequest) (rest : List NodeId)
    (votes : ℕ) : Option VoteResult → RpcNetwork
  | none => w.askNext node req rest votes
  | some res =>
    if res.term > req.term then
      (w.setGroup (w.group.modifyPeer node (stepDown res.term)).flushPeer.2).finish node
    else w.askNext node req rest (if res.voteGranted then votes + 1 else votes)

/-! ## Proposals -/

/-- What the leader sends a follower in one attempt. -/
def appendRequest (config : RaftRpcConfig) (node follower : NodeId) (p : RaftPeer) :
    AppendEntriesRequest :=
  let next := (p.nextIndex follower).getD 1
  let prevIdx := next - 1
  { term := p.currentTerm
    leaderId := node
    prevLogIndex := prevIdx
    prevLogTerm := (p.termAt prevIdx).getD 0
    entries := (p.log.filter fun e => e.index ≥ next).take config.maxAppendBatch
    leaderCommit := p.commitIndex }

/-- `replicate_to`, up to the next request; nothing when it returns without one. -/
def replicateTo (w : RpcNetwork) (node : NodeId) (proposal : RpcProposal) (follower : NodeId)
    (rest : List NodeId) : ℕ → Option RpcNetwork
  | 0 => none
  | attempts + 1 =>
    match w.group.peers node with
    | none => none
    | some p =>
      if p.role ≠ .leader then none
      else
        let req := appendRequest (w.config node) node follower p
        some (w.await node (.replicate proposal req follower attempts rest)
          (.appendEntries follower req))

/-- The loop of `propose` that pushes the commit index. -/
def pushCommits (w : RpcNetwork) (node : NodeId) (proposal : RpcProposal) :
    List NodeId → RpcNetwork
  | [] => w.finish node
  | follower :: rest =>
    (w.replicateTo node proposal follower rest (w.config node).replicateAttempts).getD
      (w.pushCommits node proposal rest)

/-- `propose` once every follower was sent to. -/
def closeProposal (w : RpcNetwork) (node : NodeId) (proposal : RpcProposal) : RpcNetwork :=
  let g := w.group.advanceCommit node
  if ((g.peers node).map RaftPeer.commitIndex).getD 0 ≥ proposal.newIndex then
    (w.setGroup g).pushCommits node { proposal with pushing := true } proposal.followers
  else (w.setGroup g).finish node

/-- The loop of `propose` over the followers. -/
def sendEntries (w : RpcNetwork) (node : NodeId) (proposal : RpcProposal) :
    List NodeId → RpcNetwork
  | [] => w.closeProposal node proposal
  | follower :: rest =>
    (w.replicateTo node proposal follower rest (w.config node).replicateAttempts).getD
      (w.sendEntries node proposal rest)

def nextFollower (w : RpcNetwork) (node : NodeId) (proposal : RpcProposal)
    (followers : List NodeId) : RpcNetwork :=
  if proposal.pushing then w.pushCommits node proposal followers
  else w.sendEntries node proposal followers

/-- `propose`, up to the first request. -/
def propose (w : RpcNetwork) (node : NodeId) (command : LogCommand) (online : List NodeId) :
    RpcNetwork :=
  match w.group.peers node with
  | none => w
  | some peer =>
    if peer.role ≠ .leader then w
    else
      let newIndex := peer.lastLogIndex + 1
      let entry : LogEntry := ⟨peer.currentTerm, newIndex, command⟩
      let (flushed, g) := (w.group.setPeer node (pushEntry node entry peer)).flushPeer
      if flushed = false then w.setGroup (g.modifyPeer node (popEntry node newIndex))
      else
        let followers := g.voters.filter fun v => v ≠ node ∧ v ∈ online
        (w.setGroup g).sendEntries node ⟨newIndex, followers, false⟩ followers

/-- `replicate_to`: the next index after a refused append. -/
def backOff (follower : NodeId) (conflict : Option ℕ) (p : RaftPeer) : RaftPeer :=
  let next := (p.nextIndex follower).getD 1
  let next := max (conflict.getD (next - 1)) 1
  setNext follower (if next > 1 then max (next - 1) 1 else next) p

/-- `propose` after the answer of a follower, or without one. -/
def onAppend (w : RpcNetwork) (node : NodeId) (proposal : RpcProposal) (req : AppendEntriesRequest)
    (follower : NodeId) (attempts : ℕ) (rest : List NodeId) :
    Option AppendEntriesResponse → RpcNetwork
  | none => w.nextFollower node proposal rest
  | some res =>
    if res.term > req.term then
      let w := w.setGroup (w.group.modifyPeer node (stepDown res.term)).flushPeer.2
      if proposal.pushing then w.pushCommits node proposal rest else w.finish node
    else if res.success then
      let matchIdx := res.matchIndex.getD
        ((req.entries.getLast?.map LogEntry.index).getD req.prevLogIndex)
      (w.setGroup (w.group.modifyPeer node (setMatch follower matchIdx))).nextFollower node proposal
        rest
    else
      let w := w.setGroup (w.group.modifyPeer node (backOff follower res.conflictIndex))
      (w.replicateTo node proposal follower rest attempts).getD (w.nextFollower node proposal rest)

end RpcNetwork

/-! ## Runs -/

/-- What can happen. -/
inductive RpcEvent where
  | campaign (node : NodeId) (online : List NodeId)
  | propose (node : NodeId) (command : LogCommand) (online : List NodeId)
  /-- The request that `node` is waiting for is handled, and the answer arrives. -/
  | deliver (node : NodeId)
  /-- The request that `node` is waiting for, or its answer, is given up. -/
  | lose (node : NodeId)
  /-- A request that was sent at some time is handled, and the answer goes nowhere. -/
  | deliverLate (request : ℕ)
  deriving DecidableEq, Repr

namespace RpcNetwork

/-- The answer to the request a node is waiting for, or its loss. -/
def resume (w : RpcNetwork) (node : NodeId) : RpcTask → RpcNetwork
  | .campaign req asked rest votes =>
    match w.task asked with
    | some _ => w
    | none =>
      let (res, g) := w.group.handleRequestVote asked req
      (w.setGroup g).onVote node req rest votes (some res)
  | .replicate proposal req follower attempts rest =>
    match w.task follower with
    | some _ => w
    | none =>
      let (res, g) := w.group.handleAppendEntries follower req
      (w.setGroup g).onAppend node proposal req follower attempts rest (some res)

/-- The request a node is waiting for is given up. -/
def giveUp (w : RpcNetwork) (node : NodeId) : RpcTask → RpcNetwork
  | .campaign req _ rest votes => w.onVote node req rest votes none
  | .replicate proposal req follower attempts rest =>
    w.onAppend node proposal req follower attempts rest none

/-- A request is handled, and the answer goes nowhere. -/
def handleLate (w : RpcNetwork) : RaftRpcRequest → RpcNetwork
  | .requestVote dst req =>
    match w.task dst with
    | some _ => w
    | none => w.setGroup (w.group.handleRequestVote dst req).2
  | .appendEntries dst req =>
    match w.task dst with
    | some _ => w
    | none => w.setGroup (w.group.handleAppendEntries dst req).2

/-- One event; a locked node starts nothing and handles no request. -/
def step (w : RpcNetwork) : RpcEvent → RpcNetwork
  | .campaign node online =>
    match w.task node with
    | some _ => w
    | none => w.campaign node online
  | .propose node command online =>
    match w.task node with
    | some _ => w
    | none => w.propose node command online
  | .deliver node =>
    match w.task node with
    | none => w
    | some task => w.resume node task
  | .lose node =>
    match w.task node with
    | none => w
    | some task => w.giveUp node task
  | .deliverLate i =>
    match w.sent[i]? with
    | none => w
    | some req => w.handleLate req

def run (w : RpcNetwork) (events : List RpcEvent) : RpcNetwork := events.foldl step w

end RpcNetwork

end Residiuum.Cluster
