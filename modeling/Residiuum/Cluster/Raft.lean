import Residiuum.Lib.Distinct
import Residiuum.Lib.Raft.Protocol

/-!
# The in-process consensus group of a partition

The peers of a group, elections, replication and the entries handed out for application. Calls
between peers are direct. A call changes the group and returns a result; the outcomes of the disk
flushes to come are part of the group, so that any of them may fail.
-/

namespace Residiuum.Cluster

open DistinctLib

/-! ## Peers -/

abbrev NodeId : Type := UInt32

/-- What an entry does. -/
inductive LogCommand where
  | put (subject : String) (value : List UInt8)
  | delete (subject : String)
  deriving DecidableEq, Repr

def LogCommand.subject : LogCommand → String
  | .put subject _ | .delete subject => subject

/-- An entry of a log. -/
structure LogEntry where
  term : ℕ
  index : ℕ
  command : LogCommand
  deriving DecidableEq, Repr

abbrev RaftRole : Type := RaftLib.Role

/-- The subject of the entry that stands for a compacted prefix. -/
def SNAPSHOT_BASE : String := "__residiuum_snapshot_base__"

def lastIndex (log : List LogEntry) : ℕ := (log.getLast?.map LogEntry.index).getD 0

/-- The entry a log has at the position of a 1-based index. -/
def entryAtPos (log : List LogEntry) (index : ℕ) : Option LogEntry :=
  if index = 0 then none else log[index - 1]?

/-- The state of a peer. -/
structure RaftPeer where
  nodeId : NodeId
  currentTerm : ℕ
  votedFor : Option NodeId
  role : RaftRole
  log : List LogEntry
  commitIndex : ℕ
  lastApplied : ℕ
  nextIndex : NodeId → Option ℕ
  matchIndex : NodeId → Option ℕ

namespace RaftPeer

def new (nodeId : NodeId) : RaftPeer :=
  ⟨nodeId, 0, none, .follower, [], 0, 0, fun _ => none, fun _ => none⟩

variable (p : RaftPeer)

def lastLogIndex : ℕ := lastIndex p.log

def lastLogTerm : ℕ := RaftLib.lastTerm LogEntry.term p.log

def termAt (index : ℕ) : Option ℕ :=
  if index = 0 then some 0 else p.log[index - 1]?.map LogEntry.term

def entryAt (index : ℕ) : Option LogEntry := entryAtPos p.log index

/-- `log_at_least_as_up_to_date`: whether the candidate's log is. -/
def logAtLeastAsUpToDate (candLastTerm : ℕ) (candLastIndex : ℕ) : Bool :=
  if candLastTerm ≠ p.lastLogTerm then candLastTerm ≥ p.lastLogTerm
  else candLastIndex ≥ p.lastLogIndex

def becomeFollower (term : ℕ) : RaftPeer :=
  { p with
    currentTerm := term
    role := .follower
    votedFor := none
    nextIndex := fun _ => none
    matchIndex := fun _ => none }

/-- `elect`: a new term, with a vote for itself. -/
def becomeCandidate (candidate : NodeId) : RaftPeer :=
  { p with
    currentTerm := p.currentTerm + 1
    role := .candidate
    votedFor := some candidate }

def becomeLeader (voters : List NodeId) : RaftPeer :=
  let next := p.lastLogIndex + 1
  { p with
    role := .leader
    nextIndex := Function.update
      (voters.foldl (fun m v => Function.update m v (some next)) fun _ => none)
      p.nodeId (some (p.lastLogIndex + 1))
    matchIndex := Function.update
      (voters.foldl (fun m v => Function.update m v (some 0)) fun _ => none)
      p.nodeId (some p.lastLogIndex) }

end RaftPeer

/-! ## The group -/

/-- The peers of a partition. -/
structure PartitionRaft where
  voters : List NodeId
  placementEpoch : ℕ
  joint : Bool
  outgoing : List NodeId
  incoming : List NodeId
  peers : NodeId → Option RaftPeer
  /-- Whether the next flushes succeed; once the list is used up, they do. -/
  flushes : List Bool

/-- Why nobody is elected. -/
inductive ElectError where
  | notAVoter
  | candidateOffline
  | noOnlineVoters
  | noQuorum (votes need : ℕ)
  | higherTerm (term : ℕ)
  | persistFailed
  deriving DecidableEq, Repr

/-- Why a proposal fails. -/
inductive ProposeError where
  | notLeader
  | steppedDown (term : ℕ)
  | persistFailed
  deriving DecidableEq, Repr

/-- The answer to a vote request. -/
structure VoteResult where
  term : ℕ
  voteGranted : Bool
  deriving DecidableEq, Repr

/-- The answer to an append. -/
structure AppendResult where
  term : ℕ
  success : Bool
  conflictIndex : Option ℕ
  deriving DecidableEq, Repr

/-- A proposed entry. -/
structure ProposeResult where
  entry : LogEntry
  term : ℕ
  position : ℕ
  replicaAcks : ℕ
  ackedBy : List NodeId
  committed : Bool
  commitIndex : ℕ
  deriving DecidableEq, Repr

variable (g : PartitionRaft)

namespace PartitionRaft

def new (voters : List NodeId) (placementEpoch : ℕ) (flushes : List Bool) : PartitionRaft where
  voters := voters
  placementEpoch := placementEpoch
  joint := false
  outgoing := []
  incoming := []
  peers := voters.foldl (fun m v => Function.update m v (some (.new v))) fun _ => none
  flushes := flushes

def setPeer (node : NodeId) (p : RaftPeer) : PartitionRaft :=
  { g with peers := Function.update g.peers node (some p) }

/-- Change the state of a peer, if there is one. -/
def modifyPeer (node : NodeId) (f : RaftPeer → RaftPeer) : PartitionRaft :=
  match g.peers node with
  | some p => g.setPeer node (f p)
  | none => g

def flushPeer : Bool × PartitionRaft :=
  (g.flushes.headD true, { g with flushes := g.flushes.tail })

/-- The source counts in 32 bits; a group has fewer voters. -/
def quorum : ℕ := g.voters.length / 2 + 1

def leaderAmong (g : PartitionRaft) : List NodeId → Option (NodeId × ℕ) →
    Option (NodeId × ℕ)
  | [], best => best
  | v :: vs, best =>
    match g.peers v with
    | none => none
    | some p =>
      if p.role = .leader then
        match best with
        | none => g.leaderAmong vs (some (v, p.currentTerm))
        | some (b, t) =>
          if p.currentTerm > t then g.leaderAmong vs (some (v, p.currentTerm))
          else g.leaderAmong vs (some (b, t))
      else g.leaderAmong vs best

def currentLeader : Option (NodeId × ℕ) := g.leaderAmong g.voters none

/-! ## Elections -/

def requestVote (voter candidate : NodeId) (candidateTerm : ℕ)
    (lastLogIndex : ℕ) (lastLogTerm : ℕ) : VoteResult × PartitionRaft :=
  match g.peers voter with
  | none => (⟨0, false⟩, g)
  | some peer =>
    if candidateTerm < peer.currentTerm then (⟨peer.currentTerm, false⟩, g)
    else
      let peer := if candidateTerm > peer.currentTerm then peer.becomeFollower candidateTerm
        else peer
      if (peer.votedFor = none ∨ peer.votedFor = some candidate) ∧
          peer.logAtLeastAsUpToDate lastLogTerm lastLogIndex = true then
        let (flushed, g) := (g.setPeer voter
          { peer with votedFor := some candidate, currentTerm := candidateTerm }).flushPeer
        if flushed then (⟨candidateTerm, true⟩, g)
        else (⟨candidateTerm, false⟩, g.setPeer voter peer)
      else (⟨peer.currentTerm, false⟩, (g.setPeer voter peer).flushPeer.2)

/-- The loop of `elect` over the voters: the votes, or a higher term that was seen. -/
def solicitVotes (candidate : NodeId) (newTerm : ℕ) (lastIndex : ℕ) (lastTerm : ℕ)
    (online : List NodeId) : List NodeId → ℕ → PartitionRaft → Except ℕ ℕ × PartitionRaft
  | [], votes, g => (.ok votes, g)
  | voter :: voters, votes, g =>
    if voter = candidate ∨ voter ∉ online then
      solicitVotes candidate newTerm lastIndex lastTerm online voters votes g
    else
      let (res, g) := g.requestVote voter candidate newTerm lastIndex lastTerm
      if res.term > newTerm then (.error res.term, g)
      else
        solicitVotes candidate newTerm lastIndex lastTerm online voters
          (if res.voteGranted then votes + 1 else votes) g

/-- A leader or candidate of a term up to `newTerm` follows. -/
def demote (newTerm : ℕ) (p : RaftPeer) : RaftPeer :=
  if (p.role = .leader ∨ p.role = .candidate) ∧ p.currentTerm ≤ newTerm then
    { p with role := .follower }
  else p

/-- The loop of `elect` that steps the other leaders down. -/
def stepDownOthers (candidate : NodeId) (newTerm : ℕ) :
    List NodeId → PartitionRaft → PartitionRaft
  | [], g => g
  | v :: vs, g =>
    if v = candidate then stepDownOthers candidate newTerm vs g
    else stepDownOthers candidate newTerm vs (g.modifyPeer v (demote newTerm))

/-- `elect` once the votes are in. -/
def countVotes (candidate : NodeId) (newTerm votes : ℕ) :
    Except ElectError (NodeId × ℕ) × PartitionRaft :=
  if votes ≥ g.quorum then
    let g := stepDownOthers candidate newTerm g.voters g
    let g := g.modifyPeer candidate fun p =>
      { p with currentTerm := newTerm }.becomeLeader g.voters
    (.ok (candidate, newTerm), g.flushPeer.2)
  else
    let g := g.modifyPeer candidate fun p => { p with role := .follower }
    (.error (.noQuorum votes g.quorum), g.flushPeer.2)

def elect (candidate : NodeId) (online : List NodeId) :
    Except ElectError (NodeId × ℕ) × PartitionRaft :=
  if candidate ∉ g.voters then (.error .notAVoter, g)
  else if candidate ∉ online then (.error .candidateOffline, g)
  else
    match g.peers candidate with
    | none => (.error .notAVoter, g)
    | some peer =>
      let peer := peer.becomeCandidate candidate
      let (flushed, g) := (g.setPeer candidate peer).flushPeer
      if flushed = false then
        (.error .persistFailed, g.modifyPeer candidate fun p => { p with role := .follower })
      else
        match solicitVotes candidate peer.currentTerm peer.lastLogIndex peer.lastLogTerm online
            g.voters 1 g with
        | (.error higher, g) =>
          (.error (.higherTerm higher), g.modifyPeer candidate fun p => p.becomeFollower higher)
        | (.ok votes, g) => g.countVotes candidate peer.currentTerm votes

/-- The order in which candidates are tried: by the last term and the last index of their logs,
highest first, then the preferred node, then by index. -/
def compareCandidates (preferred : Option NodeId) (a b : NodeId) : Ordering :=
  match g.peers a, g.peers b with
  | some pa, some pb =>
    (compare pb.lastLogTerm pa.lastLogTerm).then <|
      (compare pb.lastLogIndex pa.lastLogIndex).then <|
        match preferred with
        | some p =>
          if a = p ∧ b ≠ p then .lt
          else if b = p ∧ a ≠ p then .gt
          else compare a b
        | none => compare a b
  | _, _ => .eq

/-- The loop of `ensure_leader_preferring` over the candidates. -/
def electFirst (online : List NodeId) : List NodeId → ElectError → PartitionRaft →
    Except ElectError (NodeId × ℕ) × PartitionRaft
  | [], lastErr, g => (.error lastErr, g)
  | cand :: cands, _, g =>
    match g.elect cand online with
    | (.ok lt, g) => (.ok lt, g)
    | (.error e, g) => electFirst online cands e g

/-- `ensure_leader_preferring` when no leader is online. -/
def electAmong (online : List NodeId) (preferred : Option NodeId) :
    Except ElectError (NodeId × ℕ) × PartitionRaft :=
  let candidates := online.filter fun n => n ∈ g.voters
  if candidates = [] then (.error .noOnlineVoters, g)
  else electFirst online (sortBy (g.compareCandidates preferred) candidates)
    (.noQuorum 0 g.quorum) g

def ensureLeaderPreferring (online : List NodeId) (preferred : Option NodeId) :
    Except ElectError (NodeId × ℕ) × PartitionRaft :=
  match g.currentLeader with
  | some (leader, term) =>
    if leader ∈ online then (.ok (leader, term), g)
    else (g.modifyPeer leader fun p => { p with role := .follower }).electAmong online preferred
  | none => g.electAmong online preferred

/-! ## Replication -/

/-- `append_entries`: a valid leader is followed. -/
def followLeader (p : RaftPeer) (leaderId : NodeId) (leaderTerm : ℕ) : RaftPeer :=
  if (leaderTerm > p.currentTerm ∨ p.role ≠ .follower ∨ p.votedFor ≠ some leaderId) ∧
      leaderTerm ≥ p.currentTerm then
    { p with currentTerm := leaderTerm, role := .follower, votedFor := some leaderId }
  else p

/-- `append_entries`: the hint given when the log does not match at `prevLogIndex`. -/
def prevConflict (p : RaftPeer) (prevLogIndex : ℕ) (prevLogTerm : ℕ) : Option ℕ :=
  if prevLogIndex > 0 then
    match p.termAt prevLogIndex with
    | some t => if t = prevLogTerm then none else some prevLogIndex
    | none => some (max (p.lastLogIndex + 1) 1)
  else none

/-- `append_entries`: the loop over the entries, with the hint when it stops at a gap. -/
def appendLoop : List LogEntry → List LogEntry → List LogEntry × Option ℕ
  | log, [] => (log, none)
  | log, e :: entries =>
    match entryAtPos log e.index with
    | some existing =>
      if existing.term ≠ e.term then appendLoop (log.take (e.index - 1) ++ [e]) entries
      else appendLoop log entries
    | none =>
      if e.index ≠ lastIndex log + 1 then (log, some (lastIndex log + 1))
      else appendLoop (log ++ [e]) entries

/-- `append_entries`: the commit index follows the leader's. -/
def followCommit (p : RaftPeer) (leaderCommit : ℕ) : RaftPeer :=
  if leaderCommit > p.commitIndex then { p with commitIndex := min leaderCommit p.lastLogIndex }
  else p

def appendEntries (follower leaderId : NodeId) (leaderTerm : ℕ)
    (prevLogIndex : ℕ) (prevLogTerm : ℕ) (entries : List LogEntry) (leaderCommit : ℕ) :
    AppendResult × PartitionRaft :=
  match g.peers follower with
  | none => (⟨0, false, none⟩, g)
  | some peer =>
    if leaderTerm < peer.currentTerm then (⟨peer.currentTerm, false, none⟩, g)
    else
      let peer := followLeader peer leaderId leaderTerm
      match prevConflict peer prevLogIndex prevLogTerm with
      | some conflict => (⟨peer.currentTerm, false, some conflict⟩, g.setPeer follower peer)
      | none =>
        match appendLoop peer.log entries with
        | (log, some conflict) =>
          (⟨peer.currentTerm, false, some conflict⟩,
            g.setPeer follower { peer with log := log })
        | (log, none) =>
          let (flushed, g) := (g.setPeer follower
            (followCommit { peer with log := log } leaderCommit)).flushPeer
          (⟨peer.currentTerm, flushed, none⟩, g)

/-- `replicate_to`: the next index after a rejected append, and whether no progress can be made. -/
def backOff (next : ℕ) (conflict : Option ℕ) (entries : List LogEntry) (prevIdx : ℕ) : ℕ × Bool :=
  let next := min (max (conflict.getD (next - 1)) 1) next
  if next > 1 then (next - 1, false)
  else if entries = [] ∧ prevIdx = 0 then (next, true)
  else (1, false)

def setNext (follower : NodeId) (next : ℕ) (p : RaftPeer) : RaftPeer :=
  { p with nextIndex := Function.update p.nextIndex follower (some next) }

/-- The log of a follower is known to match up to an index. -/
def setMatch (follower : NodeId) (matchIdx : ℕ) (p : RaftPeer) : RaftPeer :=
  { p with
    matchIndex := Function.update p.matchIndex follower (some matchIdx)
    nextIndex := Function.update p.nextIndex follower (some (matchIdx + 1)) }

/-- `replicate_to`, for a number of attempts. -/
def replicateLoop (leader follower : NodeId) : ℕ → PartitionRaft →
    Except ProposeError Unit × PartitionRaft
  | 0, g => (.ok (), g)
  | attempts + 1, g =>
    match g.peers leader with
    | none => (.error .notLeader, g)
    | some peer =>
      if peer.role ≠ .leader then (.error .notLeader, g)
      else
        let next := (peer.nextIndex follower).getD 1
        let prevIdx := next - 1
        let prevTerm := (peer.termAt prevIdx).getD 0
        let entries := peer.log.filter fun e => e.index ≥ next
        let (res, g) := g.appendEntries follower leader peer.currentTerm prevIdx prevTerm entries
          peer.commitIndex
        if res.term > peer.currentTerm then
          (.error (.steppedDown res.term), g.modifyPeer leader fun p => p.becomeFollower res.term)
        else if res.success then
          let matchIdx := (entries.getLast?.map LogEntry.index).getD prevIdx
          (.ok (), g.modifyPeer leader (setMatch follower matchIdx))
        else
          match backOff next res.conflictIndex entries prevIdx with
          | (next, true) => (.ok (), g.modifyPeer leader (setNext follower next))
          | (next, false) =>
            replicateLoop leader follower attempts (g.modifyPeer leader (setNext follower next))

def replicateTo (leader follower : NodeId) : Except ProposeError Unit × PartitionRaft :=
  replicateLoop leader follower 64 g

/-- The number of voters whose logs are known to match up to `n`. -/
def matchCount (voters : List NodeId) (p : RaftPeer) (n : ℕ) : ℕ :=
  (voters.filter fun v => (p.matchIndex v).getD 0 ≥ n).length

/-- `advance_commit`: the highest index that can be committed. -/
def newCommit (p : RaftPeer) : Option ℕ :=
  (List.range' (p.commitIndex + 1) (p.lastLogIndex - p.commitIndex)).reverse.find? fun n =>
    p.termAt n = some p.currentTerm ∧ matchCount g.voters p n ≥ g.quorum

def advanceCommit (leader : NodeId) : PartitionRaft :=
  match g.peers leader with
  | none => g
  | some peer =>
    if peer.role ≠ .leader then g
    else
      match g.newCommit peer with
      | none => g
      | some n => (g.modifyPeer leader fun p => { p with commitIndex := n }).flushPeer.2

/-- The loop of `propose` over the followers: who acknowledged the new index. -/
def replicateAll (leader : NodeId) (newIndex : ℕ) : List NodeId → List NodeId → PartitionRaft →
    Except ProposeError (List NodeId) × PartitionRaft
  | [], acked, g => (.ok acked, g)
  | follower :: followers, acked, g =>
    match g.replicateTo leader follower with
    | (.error e, g) => (.error e, g)
    | (.ok (), g) =>
      let matchIdx := ((g.peers leader).bind fun p => p.matchIndex follower).getD 0
      replicateAll leader newIndex followers
        (if matchIdx ≥ newIndex then acked ++ [follower] else acked) g

/-- The loop of `propose` that pushes the commit index. -/
def pushCommit (leader : NodeId) : List NodeId → PartitionRaft → PartitionRaft
  | [], g => g
  | follower :: followers, g => pushCommit leader followers (g.replicateTo leader follower).2

/-- `propose`: the leader appends an entry to its own log. -/
def pushEntry (leader : NodeId) (entry : LogEntry) (p : RaftPeer) : RaftPeer :=
  { p with
    log := p.log ++ [entry]
    matchIndex := Function.update p.matchIndex leader (some entry.index)
    nextIndex := Function.update p.nextIndex leader (some (entry.index + 1)) }

/-- `propose`: the leader takes back an entry that was not persisted. -/
def popEntry (leader : NodeId) (newIndex : ℕ) (p : RaftPeer) : RaftPeer :=
  let log := if p.lastLogIndex = newIndex then p.log.dropLast else p.log
  { p with
    log := log
    matchIndex := Function.update p.matchIndex leader (some (lastIndex log))
    nextIndex := Function.update p.nextIndex leader (some (lastIndex log + 1)) }

def propose (leader : NodeId) (command : LogCommand) (online : List NodeId) :
    Except ProposeError ProposeResult × PartitionRaft :=
  match g.peers leader with
  | none => (.error .notLeader, g)
  | some peer =>
    if peer.role ≠ .leader then (.error .notLeader, g)
    else
      let newIndex := peer.lastLogIndex + 1
      let entry : LogEntry := ⟨peer.currentTerm, newIndex, command⟩
      let (flushed, g) := (g.setPeer leader (pushEntry leader entry peer)).flushPeer
      if flushed = false then
        (.error .persistFailed, g.modifyPeer leader (popEntry leader newIndex))
      else
        match replicateAll leader newIndex
            (g.voters.filter fun v => v ≠ leader ∧ v ∈ online) [leader] g with
        | (.error e, g) => (.error e, g)
        | (.ok acked, g) =>
          let g := g.advanceCommit leader
          let commitIndex := ((g.peers leader).map RaftPeer.commitIndex).getD 0
          let committed : Bool := commitIndex ≥ newIndex
          let g := if committed then
              pushCommit leader (g.voters.filter fun v => v ≠ leader ∧ v ∈ online) g
            else g
          (.ok ⟨entry, peer.currentTerm, newIndex, acked.length, acked, committed, commitIndex⟩, g)

/-- The loop of `take_apply_batch`: the entries after `lastApplied` and how far they go. -/
def applyLoop (log : List LogEntry) : ℕ → ℕ → List LogEntry × ℕ
  | 0, lastApplied => ([], lastApplied)
  | steps + 1, lastApplied =>
    match entryAtPos log (lastApplied + 1) with
    | none => ([], lastApplied)
    | some e =>
      let (out, last) := applyLoop log steps (lastApplied + 1)
      (if e.command.subject ≠ SNAPSHOT_BASE then e :: out else out, last)

def takeApplyBatch (node : NodeId) : List LogEntry × PartitionRaft :=
  match g.peers node with
  | none => ([], g)
  | some peer =>
    let (out, last) := applyLoop peer.log (peer.commitIndex - peer.lastApplied) peer.lastApplied
    (out, (g.setPeer node { peer with lastApplied := last }).flushPeer.2)

end PartitionRaft

/-- The calls of a group. -/
inductive RaftCall where
  | elect (candidate : NodeId) (online : List NodeId)
  | ensureLeaderPreferring (online : List NodeId) (preferred : Option NodeId)
  | propose (leader : NodeId) (command : LogCommand) (online : List NodeId)
  | takeApplyBatch (node : NodeId)
  deriving DecidableEq, Repr

/-- What a call returns. -/
inductive RaftReturn where
  | elected (result : Except ElectError (NodeId × ℕ))
  | proposed (result : Except ProposeError ProposeResult)
  | applied (node : NodeId) (batch : List LogEntry)

namespace PartitionRaft

def call : RaftCall → RaftReturn × PartitionRaft
  | .elect candidate online => (g.elect candidate online).map .elected id
  | .ensureLeaderPreferring online preferred =>
    (g.ensureLeaderPreferring online preferred).map .elected id
  | .propose leader command online => (g.propose leader command online).map .proposed id
  | .takeApplyBatch node => (g.takeApplyBatch node).map (.applied node) id

/-- A sequence of calls, with what they return. -/
def run (g : PartitionRaft) : List RaftCall → List RaftReturn × PartitionRaft
  | [] => ([], g)
  | c :: calls =>
    let (ret, g) := g.call c
    let (rets, g) := run g calls
    (ret :: rets, g)

end PartitionRaft

end Residiuum.Cluster
