import Residiuum.Cluster.Raft
import Residiuum.Lib.Digest

/-!
# Snapshots over the network

A node that receives a snapshot checks its fence, term and checksum, and replaces the prefix of its
log that the snapshot covers. A log is looked up by position, but compaction leaves its entries at
the front of the log, whatever their indexes are.

* **`snapshot_all_or_nothing_iff`**: when a success leaves the last included entry in place and a
  failure leaves log, commit index and applied index alone.
-/

namespace Residiuum.Cluster

open ByteLib Function List Nat Option PartitionRaft RaftPeer

/-- Sends a snapshot. -/
structure InstallSnapshotRequest where
  clusterId : String
  partition : UInt32
  placementEpoch : ℕ
  term : ℕ
  leaderId : NodeId
  lastIncludedIndex : ℕ
  lastIncludedTerm : ℕ
  blobChecksum : String
  blob : Bytes

/-- Why a snapshot is refused. -/
inductive SnapshotError where
  | staleLeaderTerm
  | checksumMismatch
  | unknownPeer
  | indexNotInLog
  | persistFailed
  deriving DecidableEq

/-- Answers a snapshot. -/
structure InstallSnapshotResponse where
  term : ℕ
  success : Bool
  error : Option SnapshotError
  deriving DecidableEq

/-- `RaftRpcError::Fenced`, with what was sent and what is expected. -/
inductive Fenced where
  | clusterId (got want : String)
  | partition (got want : UInt32)
  | placementEpoch (got want : ℕ)
  deriving DecidableEq

def hex32 (bytes : Bytes) : String :=
  String.ofList (bytes.flatMap fun b => [(b.toNat / 16).digitChar, (b.toNat % 16).digitChar])

/-- The entry that stands for the compacted prefix. -/
def baseEntry (term index : ℕ) : LogEntry := ⟨term, index, .delete SNAPSHOT_BASE⟩

namespace RaftPeer

variable (p : RaftPeer)

/-- `handle_install_snapshot`: a valid leader is followed. -/
def followSnapshot (req : InstallSnapshotRequest) : RaftPeer :=
  if req.term > p.currentTerm ∨ p.role ≠ .follower then
    { p with currentTerm := req.term, role := .follower, votedFor := some req.leaderId }
  else p

/-- `install_local_snapshot`: the entries up to the index give way to the base. -/
def compact (term index : ℕ) : RaftPeer :=
  let remaining := p.log.filter fun e => index < e.index
  { p with
    log := if remaining = [] ∧ 0 < index then [baseEntry term index] else remaining
    commitIndex := max p.commitIndex index
    lastApplied := max p.lastApplied index }

/-- `force_install_snapshot`: the log is dropped for the base. -/
def rebase (term index : ℕ) : RaftPeer :=
  { p with
    log := if 0 < index then [baseEntry term index] else []
    commitIndex := max p.commitIndex index
    lastApplied := max p.lastApplied index }

end RaftPeer

/-- The snapshot is stored, then the peer. -/
def PartitionRaft.saveSnapshot (g : PartitionRaft) : Bool × PartitionRaft :=
  let (installed, g) := g.flushPeer
  if installed then g.flushPeer else (false, g)

def PartitionRaft.installLocalSnapshot (g : PartitionRaft) (node : NodeId) (index : ℕ) :
    Except SnapshotError Unit × PartitionRaft :=
  match g.peers node with
  | none => (.error .unknownPeer, g)
  | some peer =>
    match peer.termAt index with
    | none => (.error .indexNotInLog, g)
    | some term =>
      let (saved, g) := (g.setPeer node (peer.compact term index)).saveSnapshot
      (if saved then .ok () else .error .persistFailed, g)

/-- A node of the network, with the group that holds its own peer. -/
structure NetworkRaftNode where
  clusterHex : String
  partition : UInt32
  localId : NodeId
  group : PartitionRaft

namespace NetworkRaftNode

variable (n : NetworkRaftNode)

def peer : Option RaftPeer := n.group.peers n.localId

def term : ℕ := (n.peer.map RaftPeer.currentTerm).getD 0

def setGroup (g : PartitionRaft) : NetworkRaftNode := { n with group := g }

def checkFence (clusterId : String) (partition : UInt32)
    (placementEpoch : ℕ) : Except Fenced Unit :=
  if clusterId ≠ n.clusterHex then .error (.clusterId clusterId n.clusterHex)
  else if partition ≠ n.partition then .error (.partition partition n.partition)
  else if placementEpoch ≠ n.group.placementEpoch then
    .error (.placementEpoch placementEpoch n.group.placementEpoch)
  else .ok ()

def forceInstallSnapshot (index term : ℕ) : Except SnapshotError Unit × PartitionRaft :=
  match n.peer with
  | none => (.error .unknownPeer, n.group)
  | some peer =>
    (n.group.setPeer n.localId (peer.rebase term index)).installLocalSnapshot n.localId index

/-- The part of `handle_install_snapshot` behind the checks. -/
def install (req : InstallSnapshotRequest) : Except SnapshotError Unit × PartitionRaft :=
  if (n.peer.bind fun p => p.termAt req.lastIncludedIndex).isSome then
    n.group.installLocalSnapshot n.localId req.lastIncludedIndex
  else n.forceInstallSnapshot req.lastIncludedIndex req.lastIncludedTerm

/-- The checksum, when one is sent, is not that of the blob. -/
def mismatched (blake3 : Bytes → Arr 32) (req : InstallSnapshotRequest) : Bool :=
  req.blobChecksum ≠ "" && hex32 (blake3 req.blob).1 ≠ req.blobChecksum

/-- The term is followed before the checksum is looked at. -/
def handleInstallSnapshot (blake3 : Bytes → Arr 32) (req : InstallSnapshotRequest) :
    Except Fenced InstallSnapshotResponse × NetworkRaftNode :=
  match n.checkFence req.clusterId req.partition req.placementEpoch with
  | .error e => (.error e, n)
  | .ok () =>
    if req.term < n.term then (.ok ⟨n.term, false, some .staleLeaderTerm⟩, n)
    else
      let n := n.setGroup (n.group.modifyPeer n.localId fun p => p.followSnapshot req)
      if mismatched blake3 req then (.ok ⟨n.term, false, some .checksumMismatch⟩, n)
      else
        let (result, g) := n.install req
        let n := n.setGroup g
        match result with
        | .ok () => (.ok ⟨n.term, true, none⟩, n)
        | .error e => (.ok ⟨n.term, false, some e⟩, n)

end NetworkRaftNode

open NetworkRaftNode

/-! ## What a request leaves behind -/

def Included (p : RaftPeer) (index term : ℕ) : Prop :=
  index ≤ p.lastLogIndex ∧ p.termAt index = some term ∧ index ≤ p.commitIndex

def Untouched (p p' : RaftPeer) : Prop :=
  p'.log = p.log ∧ p'.commitIndex = p.commitIndex ∧ p'.lastApplied = p.lastApplied

/-- A success leaves the last included entry in the log and committed, a failure leaves the log and
both indexes as they were. -/
def AllOrNothing (req : InstallSnapshotRequest) (p : RaftPeer) (success : Bool) (p' : RaftPeer) :
    Prop :=
  if success then Included p' req.lastIncludedIndex req.lastIncludedTerm else Untouched p p'

/-- The entry at the last included position of what is kept has the last included term; without
such an entry the index is one and the base has that term. -/
def BaseInPlace (log : List LogEntry) (index term : ℕ) : Prop :=
  let kept := log.filter fun e => index < e.index
  if index = 0 then term = 0
  else kept[index - 1]?.map LogEntry.term = some term ∨
    index = 1 ∧ kept = [] ∧ ∀ e ∈ log.head?, e.term = term

/-- The log is the one that the request leaves, and both indexes are past the snapshot. -/
def NothingToDo (p : RaftPeer) (index term : ℕ) : Prop :=
  (if index ≤ p.log.length then
    (∀ e ∈ p.log, index < e.index) ∨ 0 < index ∧ ∃ t, p.log = [baseEntry t index]
  else p.log = [baseEntry term index]) ∧ index ≤ p.commitIndex ∧ index ≤ p.lastApplied

/-- With both files saved or not, the request is carried out and puts the base in place, or it fails
with nothing to do. -/
def Installs (p : RaftPeer) (req : InstallSnapshotRequest) (saved : Bool) : Prop :=
  if (req.lastIncludedIndex ≤ p.log.length ∨ req.lastIncludedIndex = 1) ∧ saved = true then
    BaseInPlace p.log req.lastIncludedIndex req.lastIncludedTerm
  else NothingToDo p req.lastIncludedIndex req.lastIncludedTerm

variable {g : PartitionRaft} {n : NetworkRaftNode} {req : InstallSnapshotRequest} {p : RaftPeer}
  {node : NodeId} {index term t : ℕ} {saved : Bool}

theorem isSome_termAt : (p.termAt index).isSome = true ↔ index ≤ p.log.length := by
  unfold termAt
  split
  · simp_all
  · rw [isSome_map, isSome_getElem?]
    omega

theorem untouched_follow (p : RaftPeer) (req : InstallSnapshotRequest) :
    Untouched p (p.followSnapshot req) := by
  unfold followSnapshot
  split <;> exact ⟨rfl, rfl, rfl⟩

theorem saveSnapshot_peers (g : PartitionRaft) : g.saveSnapshot.2.peers = g.peers := by
  unfold saveSnapshot flushPeer
  dsimp only
  split <;> rfl

theorem saveSnapshot_fst (g : PartitionRaft) : g.saveSnapshot.1 = (g.flushes.take 2).and := by
  unfold saveSnapshot flushPeer
  rcases g.flushes with - | ⟨(_ | _), (- | ⟨(_ | _), l⟩)⟩ <;> rfl

/-- An index of the log is compacted, whether or not this can be saved. -/
theorem installLocalSnapshot_present (hp : g.peers node = some p) (ht : p.termAt index = some t) :
    (g.installLocalSnapshot node index).1.isOk = (g.flushes.take 2).and ∧
      (g.installLocalSnapshot node index).2.peers node = some (p.compact t index) := by
  unfold installLocalSnapshot
  rw [hp]
  dsimp only
  rw [ht]
  dsimp only
  rw [saveSnapshot_peers, saveSnapshot_fst]
  refine ⟨?_, update_self node _ _⟩
  change _ = ((g.setPeer node (p.compact t index)).flushes.take 2).and
  cases ((g.setPeer node (p.compact t index)).flushes.take 2).and <;> rfl

theorem included_compact (ht : p.termAt index = some t) :
    Included (p.compact t index) index term ↔ BaseInPlace p.log index term := by
  have hcommit : index ≤ (p.compact t index).commitIndex := le_max_right _ _
  unfold Included BaseInPlace lastLogIndex termAt
  rcases Nat.eq_zero_or_pos index with rfl | hpos
  · simp [eq_comm]
  · rw [if_neg hpos.ne', if_neg hpos.ne']
    by_cases hkept : p.log.filter (fun e => index < e.index) = []
    · have hlog : (p.compact t index).log = [baseEntry t index] := if_pos ⟨hkept, hpos⟩
      rw [hlog, hkept]
      unfold termAt at ht
      rw [if_neg hpos.ne'] at ht
      rcases Nat.lt_or_eq_of_le hpos with hlt | rfl
      · have hnone : [baseEntry t index][index - 1]? = none := by
          rw [getElem?_eq_none]
          exact le_sub_one_of_lt hlt
        simp [hnone, hlt.ne']
      · obtain ⟨e, he, rfl⟩ := map_eq_some_iff.mp ht
        simp_all [lastIndex, baseEntry, head?_eq_getElem?]
    · have hlog : (p.compact t index).log = p.log.filter fun e => index < e.index :=
        if_neg fun h => hkept h.1
      have hlast : index ≤ lastIndex (p.log.filter fun e => index < e.index) := by
        have hmem := getLast_mem hkept
        unfold lastIndex
        rw [getLast?_eq_some_getLast hkept]
        exact (of_decide_eq_true (mem_filter.mp hmem).2).le
      rw [hlog]
      simp [hkept, hlast, hcommit]

theorem untouched_compact (hlen : index ≤ p.log.length) (ht : p.termAt index = some t) :
    Untouched p (p.compact t index) ↔ NothingToDo p index term := by
  unfold NothingToDo
  rw [if_pos hlen]
  refine and_congr ?_ (and_congr max_eq_left_iff max_eq_left_iff)
  unfold compact
  dsimp only
  constructor
  · intro h
    split at h
    · next hempty => exact .inr ⟨hempty.2, t, h.symm⟩
    · exact .inl fun e he => of_decide_eq_true (filter_eq_self.mp h e he)
  · rintro (hall | ⟨hpos, t', hlog⟩)
    · have hkept : p.log.filter (fun e => index < e.index) = p.log :=
        filter_eq_self.mpr fun e he => decide_eq_true (hall e he)
      rw [hkept, if_neg]
      rintro ⟨hempty, hpos⟩
      rw [hempty] at hlen
      exact absurd hpos (not_lt.mpr hlen)
    · unfold termAt at ht
      rw [hlog] at hlen ht ⊢
      obtain rfl : index = 1 := le_antisymm hlen hpos
      obtain rfl : t' = t := some.inj ht
      rfl

theorem untouched_rebase (hlen : p.log.length < index) :
    Untouched p (p.rebase term index) ↔ NothingToDo p index term := by
  have hlog : (p.rebase term index).log = [baseEntry term index] :=
    if_pos (zero_lt_of_lt hlen)
  unfold Untouched NothingToDo
  rw [hlog, if_neg (not_le.mpr hlen), eq_comm]
  exact and_congr_right fun _ => and_congr max_eq_left_iff max_eq_left_iff

/-- A log that does not reach the index is dropped; only an index of one is then found. -/
theorem forceInstall_iff (hp : n.peer = some p) (hsaved : (n.group.flushes.take 2).and = saved)
    (hlen : p.log.length < req.lastIncludedIndex) :
    let res := n.forceInstallSnapshot req.lastIncludedIndex req.lastIncludedTerm
    ∃ p', res.2.peers n.localId = some p' ∧
      (AllOrNothing req p res.1.isOk p' ↔ Installs p req saved) := by
  unfold forceInstallSnapshot Installs
  rw [hp]
  dsimp only
  set r := p.rebase req.lastIncludedTerm req.lastIncludedIndex
  have hbase : r.log = [baseEntry req.lastIncludedTerm req.lastIncludedIndex] :=
    if_pos (zero_lt_of_lt hlen)
  have hset : (n.group.setPeer n.localId r).peers n.localId = some r :=
    update_self n.localId _ _
  by_cases hone : req.lastIncludedIndex = 1
  · have ht : r.termAt req.lastIncludedIndex = some req.lastIncludedTerm := by
      unfold termAt
      rw [hbase, hone]
      rfl
    obtain ⟨hok, hpeer⟩ := installLocalSnapshot_present hset ht
    have hempty : p.log = [] := length_eq_zero_iff.mp (by omega)
    rw [hok.trans hsaved]
    refine ⟨_, hpeer, ?_⟩
    cases saved
    · refine iff_of_false (fun h => ?_) fun h => ?_
      · have hlog := h.1
        simp [compact, hbase, hempty, baseEntry, hone] at hlog
      · simp [NothingToDo, hempty, hone] at h
    · refine iff_of_true ((included_compact ht).mpr ?_) ?_
      · simp [BaseInPlace, hbase, hone, baseEntry]
      · simp [BaseInPlace, hempty, hone]
  · have ht : r.termAt req.lastIncludedIndex = none := by
      rw [← not_isSome_iff_eq_none, isSome_termAt, hbase, length_singleton]
      omega
    have hinstall : (n.group.setPeer n.localId r).installLocalSnapshot n.localId
        req.lastIncludedIndex = (.error .indexNotInLog, n.group.setPeer n.localId r) := by
      unfold installLocalSnapshot
      rw [hset]
      dsimp only
      rw [ht]
    rw [hinstall, if_neg (by omega)]
    exact ⟨r, hset, untouched_rebase hlen⟩

/-- What the request does to the log behind the checks. -/
theorem install_iff (req : InstallSnapshotRequest) (hp : n.peer = some p)
    (hsaved : (n.group.flushes.take 2).and = saved) :
    ∃ p', (n.install req).2.peers n.localId = some p' ∧
      (AllOrNothing req p (n.install req).1.isOk p' ↔ Installs p req saved) := by
  unfold install
  rw [hp, bind_some]
  by_cases hlen : req.lastIncludedIndex ≤ p.log.length
  · have hsome := isSome_termAt.mpr hlen
    obtain ⟨t, ht⟩ := isSome_iff_exists.mp hsome
    obtain ⟨hok, hpeer⟩ := installLocalSnapshot_present hp ht
    rw [if_pos hsome, hok.trans hsaved]
    refine ⟨_, hpeer, ?_⟩
    unfold AllOrNothing Installs
    simp only [hlen, true_or, true_and]
    cases saved
    · exact untouched_compact hlen ht
    · exact included_compact ht
  · rw [if_neg fun h => hlen (isSome_termAt.mp h)]
    exact forceInstall_iff hp hsaved (Nat.lt_of_not_le hlen)

/-- A request behind the fence is all or nothing exactly if it is refused for its term or checksum
or installs without trace. -/
theorem snapshot_all_or_nothing_iff (blake3 : Bytes → Arr 32) (n : NetworkRaftNode)
    (p : RaftPeer) (req : InstallSnapshotRequest) (hp : n.peer = some p)
    (hfence : n.checkFence req.clusterId req.partition req.placementEpoch = .ok ()) :
    ∃ response p', (n.handleInstallSnapshot blake3 req).1 = .ok response ∧
      (n.handleInstallSnapshot blake3 req).2.peer = some p' ∧
      (AllOrNothing req p response.success p' ↔
        req.term < p.currentTerm ∨ mismatched blake3 req = true ∨
          Installs p req (n.group.flushes.take 2).and) := by
  have hterm : n.term = p.currentTerm := by
    unfold NetworkRaftNode.term
    rw [hp]
    rfl
  unfold handleInstallSnapshot
  rw [hfence]
  dsimp only
  rw [hterm]
  by_cases hstale : req.term < p.currentTerm
  · rw [if_pos hstale]
    exact ⟨_, p, rfl, hp, iff_of_true ⟨rfl, rfl, rfl⟩ (.inl hstale)⟩
  · rw [if_neg hstale]
    have hgroup : n.group.modifyPeer n.localId (fun p => p.followSnapshot req) =
        n.group.setPeer n.localId (p.followSnapshot req) := by
      unfold modifyPeer
      rw [show n.group.peers n.localId = some p from hp]
    rw [hgroup]
    have hpeer : (n.setGroup (n.group.setPeer n.localId (p.followSnapshot req))).peer =
        some (p.followSnapshot req) := update_self n.localId _ _
    obtain ⟨hlog, hcommit, happlied⟩ := untouched_follow p req
    by_cases hsum : mismatched blake3 req = true
    · rw [if_pos hsum]
      exact ⟨_, _, rfl, hpeer, iff_of_true ⟨hlog, hcommit, happlied⟩ (.inr (.inl hsum))⟩
    · obtain ⟨p', hp', hiff⟩ := install_iff req hpeer rfl
      rw [if_neg hsum, or_iff_right hstale, or_iff_right hsum]
      -- Following the leader changes neither the log nor the two indexes.
      unfold AllOrNothing Installs Untouched NothingToDo at hiff ⊢
      rw [hlog, hcommit, happlied] at hiff
      split
      · next hres =>
        rw [hres] at hiff
        exact ⟨_, p', rfl, hp', hiff⟩
      · next e hres =>
        rw [hres] at hiff
        exact ⟨_, p', rfl, hp', hiff⟩

/-- A peer that has applied its only entry. -/
def onePeer : RaftPeer :=
  { RaftPeer.new 0 with log := [⟨1, 1, .put "a" [7]⟩], commitIndex := 1, lastApplied := 1 }

def oneNode : NetworkRaftNode := ⟨"00", 0, 0, (PartitionRaft.new [0] 1 []).setPeer 0 onePeer⟩

def snapshotAt (index : ℕ) : InstallSnapshotRequest := ⟨"00", 0, 1, 1, 1, index, 1, "", []⟩

/-- A snapshot up to the entry of the log is installed. -/
theorem snapshot_in_place : ∃ response p',
    (oneNode.handleInstallSnapshot DigestLib.blake3 (snapshotAt 1)).1 = .ok response ∧
      (oneNode.handleInstallSnapshot DigestLib.blake3 (snapshotAt 1)).2.peer = some p' ∧
      AllOrNothing (snapshotAt 1) onePeer response.success p' := by
  obtain ⟨response, p', hres, hp', hiff⟩ :=
    snapshot_all_or_nothing_iff DigestLib.blake3 oneNode onePeer (snapshotAt 1) rfl rfl
  refine ⟨response, p', hres, hp', hiff.mpr (.inr (.inr (.inr ⟨rfl, rfl, ?_⟩)))⟩
  rintro e ⟨⟩
  rfl

/-- A snapshot past the log fails once it has dropped the log and raised the indexes. -/
theorem snapshot_drops_log : ∃ response p',
    (oneNode.handleInstallSnapshot DigestLib.blake3 (snapshotAt 3)).1 = .ok response ∧
      (oneNode.handleInstallSnapshot DigestLib.blake3 (snapshotAt 3)).2.peer = some p' ∧
      response.success = false ∧ p'.log = [baseEntry 1 3] ∧ p'.commitIndex = 3 ∧
      ¬ AllOrNothing (snapshotAt 3) onePeer response.success p' := by
  refine ⟨_, _, rfl, rfl, rfl, rfl, rfl, fun h => ?_⟩
  cases h.2.1

end Residiuum.Cluster
