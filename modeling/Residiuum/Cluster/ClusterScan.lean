import Mathlib.Data.Nat.Digits.Defs
import Std.Data.TreeMap
import Residiuum.Cluster.QueryToken

/-!
# Distributed scans

A scan contacts the partitions of its scope one after the other, collects the live subjects of the
node that serves each of them, and merges them in the order of their bytes. It reports what it has
covered, and a paged scan hands out a token for its next page.
-/

namespace Residiuum.Cluster

open ByteLib DistinctLib Std

/-- `ClusterError`, as far as reads and writes of a partition return it. -/
inductive ClusterError where
  | noLeader
  | partitionUnavailable (reason : String)
  | quorumNotReached (got need : ℕ)
  | durabilityUnavailable (reason : String)
  deriving DecidableEq, Repr

/-- `ensure_partition_leader`: how a failed election is reported. -/
def ClusterError.ofElect : ElectError → ClusterError
  | .noQuorum _ _ | .noOnlineVoters | .candidateOffline | .persistFailed =>
    .partitionUnavailable "no leader elected (quorum unavailable)"
  | .notAVoter => .noLeader
  | .higherTerm _ => .partitionUnavailable "election observed higher term"

/-! ## Coverage -/

/-- Who served a partition, and up to where. -/
structure PartitionFrontier where
  partition : PartitionId
  term : ℕ
  position : ℕ
  servedBy : Option NodeId
  deriving DecidableEq, Repr

/-- What a scan has covered. -/
structure Coverage where
  requested : List PartitionId
  completed : List PartitionId
  unavailable : List PartitionId
  frontiers : List PartitionFrontier
  notes : List String
  readMode : Option String
  resourceLimitReached : Bool
  indexesUsed : List String
  tiersSearched : List String
  tiersExcluded : List String
  deriving DecidableEq, Repr

namespace Coverage

def forPartitions (requested : List PartitionId) : Coverage :=
  ⟨sortDedup requested, [], [], [], [], none, false, [], [], []⟩

def markCompleted (c : Coverage) (partition : PartitionId) (term position : ℕ)
    (servedBy : Option NodeId) : Coverage :=
  { c with
    completed := if partition ∈ c.completed then c.completed
      else sortBy compare (c.completed ++ [partition])
    unavailable := c.unavailable.filter (· ≠ partition)
    frontiers := sortBy (compareOn PartitionFrontier.partition)
      (c.frontiers.filter (fun f => f.partition ≠ partition) ++
        [⟨partition, term, position, servedBy⟩]) }

def markUnavailable (c : Coverage) (partition : PartitionId) : Coverage :=
  { c with
    unavailable := if partition ∈ c.unavailable then c.unavailable
      else sortBy compare (c.unavailable ++ [partition])
    completed := c.completed.filter (· ≠ partition)
    frontiers := c.frontiers.filter fun f => f.partition ≠ partition }

def isComplete (c : Coverage) : Bool :=
  !c.resourceLimitReached && c.unavailable.isEmpty && c.tiersExcluded.isEmpty &&
    c.requested.all fun p => p ∈ c.completed

def note (c : Coverage) (msg : String) : Coverage := { c with notes := c.notes ++ [msg] }

def withReadMode (c : Coverage) (mode : ReadMode) : Coverage :=
  { c with readMode := some mode.asStr }

def markResourceLimit (c : Coverage) (detail : String) : Coverage :=
  { c with resourceLimitReached := true, notes := c.notes ++ [detail] }

def useIndex (c : Coverage) (name : String) : Coverage :=
  { c with indexesUsed := if name ∈ c.indexesUsed then c.indexesUsed
      else sortBy compare (c.indexesUsed ++ [name]) }

def searchTier (c : Coverage) (tier : String) : Coverage :=
  { c with tiersSearched := if tier ∈ c.tiersSearched then c.tiersSearched
      else sortBy compare (c.tiersSearched ++ [tier]) }

end Coverage

/-- `PayloadResult`, as far as a read of a whole payload uses it. -/
inductive PayloadResult where
  | complete (body : Bytes)
  | partialChunks
  | unavailable
  | conflicting
  deriving DecidableEq, Repr

/-- The live subjects of a node in the order of the index, with the result of resolving each
payload. -/
structure LiveStore where
  live : List (Bytes × Except StoreError PayloadResult)
  sorted : (live.map Prod.fst).Pairwise (· < ·)

/-- `get_subject_bytes`: what a resolved payload gives. -/
def PayloadResult.read : PayloadResult → Except StoreError (Option Bytes)
  | .complete body => .ok (some body)
  | .partialChunks | .unavailable => .error .payloadPartial
  | .conflicting => .error .payloadConflict

def LiveStore.get (store : LiveStore) (subject : String) : Except StoreError (Option Bytes) :=
  match store.live.lookup (utf8 subject) with
  | none => return none
  | some payload => payload >>= PayloadResult.read

/-! ## What a scan takes and returns -/

/-- What a subject has to satisfy to be part of a scan. -/
structure ScanFilter where
  subjectPrefix : Option String
  afterSubject : Option String

/-- What the contacts of a scan have gathered. -/
structure Gathered where
  entries : List (String × Bytes)
  seen : List String
  docsScanned : ℕ

/-- Who serves a partition: the node, its store, and the term reported. -/
structure ScanServer where
  node : NodeId
  store : LiveStore
  term : ℕ

/-- What a contact gives. -/
inductive ContactOutcome where
  | served (term position : ℕ) (node : NodeId)
  | budgetExhausted (term position : ℕ) (node : NodeId)
  | unavailable

/-- The query of a scan. -/
structure ScanOptions where
  subjectPrefix : Option String
  limit : Option UInt64
  maxDocsScanned : Option UInt64
  partitions : Option (List PartitionId)
  readMode : ReadMode
  pageSize : Option UInt64
  continuation : Option Bytes
  visitOrder : Option (List PartitionId)
  afterSubject : Option String

/-- A page of a scan. -/
structure FindResult where
  entries : List (String × Bytes)
  coverage : Coverage
  queryId : String
  truncated : Bool
  hasMore : Bool
  continuation : Option Bytes

/-- The query of a call: what the options ask for, or what the token continues. -/
structure ScanQuery where
  readMode : ReadMode
  subjectPrefix : Option String
  afterSubject : Option String
  pageSize : Option UInt64
  limit : Option UInt64
  maxDocs : Option UInt64
  requested : List PartitionId
  queryId : String

/-! ## The cluster -/

/-- Consistency of a partition. -/
inductive ConsistencyMode where
  | partitionLinearizable
  | convergentAppend
  deriving DecidableEq, Repr

/-- `PartitionAssignment`, as far as a scan uses it. -/
structure PartitionAssignment where
  replicas : List NodeId
  leader : NodeId
  term : ℕ

/-- A consensus group with the nodes that have a peer in it. -/
structure RaftSlot where
  group : PartitionRaft
  peerIds : List NodeId

def RaftSlot.maxCommitIndex (s : RaftSlot) : ℕ :=
  ((s.peerIds.filterMap s.group.peers).map RaftPeer.commitIndex).foldl max 0

/-- `Cluster`, as far as a scan uses it. The online nodes are the ones with an open store. -/
structure ClusterState where
  clusterId : Arr 16
  keyring : ContinuationKeyring
  virtualPartitions : UInt32
  consistencyMode : ConsistencyMode
  /-- The deployment profile is not the one for development. -/
  replicatedProfile : Bool
  directory : PartitionId → Option PartitionAssignment
  raft : PartitionId → Option RaftSlot
  nodes : TreeMap NodeId LiveStore

namespace ClusterState

variable (D : QueryDigests)

def partitionForSubject (c : ClusterState) (subject : String) : PartitionId :=
  UInt32.ofNat (ofLe ((D.blake3 (utf8 subject)).1.take 8) % c.virtualPartitions.toNat)

def allPartitions (c : ClusterState) : List PartitionId :=
  (List.range c.virtualPartitions.toNat).map UInt32.ofNat

def replicatedDurabilityAvailable (c : ClusterState) : Bool :=
  c.replicatedProfile && 2 ≤ c.nodes.size

def ensurePartitionLeader (c : ClusterState) (partition : PartitionId) :
    Except ClusterError (NodeId × ℕ) × ClusterState :=
  match c.raft partition with
  | none => (.error .noLeader, c)
  | some slot =>
    let preferred := (c.directory partition).map PartitionAssignment.leader
    match slot.group.ensureLeaderPreferring c.nodes.keys preferred with
    | (.error e, group) =>
      (.error (.ofElect e), { c with
        raft := Function.update c.raft partition (some { slot with group }) })
    | (.ok (leader, term), group) =>
      (.ok (leader, term), { c with
        raft := Function.update c.raft partition (some { slot with group })
        directory := Function.update c.directory partition
          ((c.directory partition).map fun a => { a with leader, term }) })

/-- The tests of `collect_partition_entries` on a subject. -/
def selects (c : ClusterState) (f : ScanFilter) (partition : PartitionId) (subject : String) :
    Bool :=
  c.partitionForSubject D subject = partition ∧
    f.subjectPrefix.all (fun p => (utf8 p).isPrefixOf (utf8 subject)) ∧
    f.afterSubject.all fun a => ¬ utf8 subject ≤ utf8 a

/-- `collect_partition_entries`, over the live entries that are left. Returns whether the budget
stopped it. -/
def collect (c : ClusterState) (f : ScanFilter) (partition : PartitionId) (store : LiveStore)
    (maxDocs : Option UInt64) : List (Bytes × Except StoreError PayloadResult) → Gathered →
    Except StoreError (Bool × Gathered)
  | [], g => return (false, g)
  | (bytes, _) :: rest, g =>
    match fromUtf8 bytes with
    | none => collect c f partition store maxDocs rest g
    | some subject =>
      if ¬ c.selects D f partition subject then collect c f partition store maxDocs rest g
      else if subject ∈ g.seen then collect c f partition store maxDocs rest g
      else
        let g := { g with seen := subject :: g.seen, docsScanned := g.docsScanned + 1 }
        if maxDocs.any fun m => m.toNat < g.docsScanned then return (true, g)
        else match store.get subject with
          | .ok (some v) =>
            collect c f partition store maxDocs rest
              { g with entries := g.entries ++ [(subject, v)] }
          | .ok none => collect c f partition store maxDocs rest g
          | .error .payloadPartial => collect c f partition store maxDocs rest g
          | .error e => throw e

def collectPartitionEntries (c : ClusterState) (f : ScanFilter) (partition : PartitionId)
    (store : LiveStore) (maxDocs : Option UInt64) (g : Gathered) :
    Except StoreError (Bool × Gathered) :=
  c.collect D f partition store maxDocs store.live g

/-- The leader that `contact_partition` turns to. -/
def leaderServer (c : ClusterState) (partition : PartitionId) (mode : ReadMode) :
    Option ScanServer × ClusterState :=
  if mode = .linearizable ∧ c.consistencyMode ≠ .convergentAppend then
    match c.ensurePartitionLeader partition with
    | (.ok (leader, term), c) => (c.nodes[leader]?.map fun store => ⟨leader, store, term⟩, c)
    | (.error _, c) => (none, c)
  else (none, c)

def replicaServer (c : ClusterState) (partition : PartitionId) (assignment : PartitionAssignment) :
    Option ScanServer :=
  assignment.replicas.findSome? fun r =>
    c.nodes[r]?.map fun store => ⟨r, store,
      match c.raft partition with
      | some slot => (slot.group.currentLeader.map Prod.snd).getD assignment.term
      | none => assignment.term⟩

/-- The server of a partition: the leader for a linearizable read, else any online replica. -/
def server (c : ClusterState) (partition : PartitionId) (assignment : PartitionAssignment)
    (mode : ReadMode) : Option ScanServer × ClusterState :=
  match c.leaderServer partition mode with
  | (some s, c) => (some s, c)
  | (none, c) => (c.replicaServer partition assignment, c)

def contactPartition (c : ClusterState) (partition : PartitionId) (assignment : PartitionAssignment)
    (mode : ReadMode) (f : ScanFilter) (maxDocs : Option UInt64) (g : Gathered) :
    Except ScanError (ContactOutcome × Gathered) × ClusterState :=
  match c.server partition assignment mode with
  | (none, c) => (.ok (.unavailable, g), c)
  | (some s, c) =>
    let position := ((c.raft partition).map RaftSlot.maxCommitIndex).getD 0
    match c.collectPartitionEntries D f partition s.store maxDocs g with
    | .error e => (.error (.store e), c)
    | .ok (hitBudget, g) =>
      (.ok (if hitBudget then .budgetExhausted s.term position s.node
        else .served s.term position s.node, g), c)

/-! ### The scan -/

/-- Sixteen hexadecimal digits. -/
def hex16 (n : UInt64) : String :=
  String.ofList ((List.range 16).reverse.map fun i => Nat.digitChar (n.toNat / 16 ^ i % 16))

def makeQueryId (scope : List PartitionId) (bound : Option String) (limit : Option UInt64) :
    String :=
  "q-" ++ hex16 (D.defaultHash scope (bound.getD "") (limit.getD 0xFFFF_FFFF_FFFF_FFFF))

def clampPage (n : UInt64) : UInt64 := max 1 (min n MAX_FIND_PAGE_SIZE)

/-- The first part of `scan_with`. -/
def resolve (c : ClusterState) (o : ScanOptions) (cont : Option QueryContinuation) : ScanQuery :=
  let subjectPrefix := (cont.bind QueryContinuation.subjectPrefix).or o.subjectPrefix
  let limit := (cont.bind QueryContinuation.remainingLimit).or o.limit
  let requested := match cont with
    | some q => q.partitions
    | none => match o.partitions with
      | some ps => sortDedup ps
      | none => c.allPartitions
  { readMode := (cont.map QueryContinuation.readMode).getD o.readMode
    subjectPrefix := subjectPrefix
    afterSubject := (cont.map QueryContinuation.afterSubject).or o.afterSubject
    pageSize := ((cont.map QueryContinuation.pageSize).or o.pageSize).map clampPage
    limit := limit
    maxDocs := (cont.bind QueryContinuation.remainingMaxDocs).or o.maxDocsScanned
    requested := requested
    queryId := match cont with
      | some q => q.queryId
      | none => makeQueryId D requested subjectPrefix limit }

def visitPartition (q : ScanQuery) (partition : PartitionId) (coverage : Coverage) (g : Gathered)
    (c : ClusterState) : Except ScanError (Coverage × Gathered × Bool) × ClusterState :=
  match c.directory partition with
  | none => (.ok (coverage.markUnavailable partition, g, false), c)
  | some assignment =>
    match c.contactPartition D partition assignment q.readMode ⟨q.subjectPrefix, q.afterSubject⟩
        q.maxDocs g with
    | (.error e, c) => (.error e, c)
    | (.ok (.served term position node, g), c) =>
      (.ok (coverage.markCompleted partition term position (some node), g, false), c)
    | (.ok (.budgetExhausted term position node, g), c) =>
      (.ok ((coverage.markCompleted partition term position (some node)).markResourceLimit
        ("max_docs_scanned budget reached after " ++ toString g.docsScanned ++ " subjects"), g,
        true), c)
    | (.ok (.unavailable, g), c) => (.ok (coverage.markUnavailable partition, g, false), c)

/-- A partition that is left out once the budget is used up. -/
def skipPartition (partition : PartitionId) (coverage : Coverage) : Coverage :=
  if partition ∉ coverage.completed ∧ partition ∉ coverage.unavailable then
    coverage.note ("partition " ++ toString partition ++ " not examined (resource budget)")
  else coverage

def visitAll (q : ScanQuery) : List PartitionId → Bool → Coverage → Gathered → ClusterState →
    Except ScanError (Coverage × Gathered) × ClusterState
  | [], _, coverage, g, c => (.ok (coverage, g), c)
  | p :: ps, true, coverage, g, c => visitAll q ps true (skipPartition p coverage) g c
  | p :: ps, false, coverage, g, c =>
    match visitPartition D q p coverage g c with
    | (.error e, c) => (.error e, c)
    | (.ok (coverage, g, stopped), c) => visitAll q ps stopped coverage g c

def sortEntries (entries : List (String × Bytes)) : List (String × Bytes) :=
  sortBy (compareOn fun e => utf8 e.1) entries

/-- The continuation behind a page that ends with `last`. -/
def nextPage (q : ScanQuery) (pageSize : UInt64) (last : String) (count docsScanned : ℕ) :
    QueryContinuation where
  queryId := q.queryId
  afterSubject := last
  pageSize := pageSize
  subjectPrefix := q.subjectPrefix
  partitions := q.requested
  readMode := q.readMode
  remainingLimit := q.limit.map fun l => UInt64.ofNat (l.toNat - count)
  remainingMaxDocs := q.maxDocs.map fun m => UInt64.ofNat (m.toNat - docsScanned)

def pageCap (limit : Option UInt64) (pageSize : UInt64) : ℕ :=
  match limit with
  | some l => min l.toNat pageSize.toNat
  | none => pageSize.toNat

/-- A page of the merged entries, and the token behind it. -/
def cutPage (c : ClusterState) (q : ScanQuery) (pageSize : UInt64)
    (entries : List (String × Bytes)) (coverage : Coverage) (docsScanned : ℕ) :
    Except ScanError FindResult :=
  let cap := pageCap q.limit pageSize
  if entries.length > cap then
    let page := entries.take cap
    let coverage := coverage.note
      ("page truncated to " ++ toString cap ++ " (page_size=" ++ toString pageSize ++ ")")
    match page.getLast? with
    | none => return ⟨page, coverage, q.queryId, true, true, none⟩
    | some last =>
      let next := nextPage q pageSize last.1 page.length docsScanned
      if next.remainingLimit = some 0 then
        return ⟨page, coverage, q.queryId, true, false, none⟩
      else do
        let token ← next.encode D c.clusterId c.keyring
        return ⟨page, coverage, q.queryId, true, true, some token⟩
  else return ⟨entries, coverage, q.queryId, false, false, none⟩

/-- The last part of `scan_with`. -/
def finish (c : ClusterState) (q : ScanQuery) (coverage : Coverage) (g : Gathered) :
    Except ScanError FindResult :=
  let entries := sortEntries g.entries
  match q.pageSize with
  | some pageSize => c.cutPage D q pageSize entries coverage g.docsScanned
  | none => match q.limit with
    | some lim =>
      if entries.length > lim.toNat then
        return ⟨entries.take lim.toNat,
          coverage.note ("result truncated to limit " ++ toString lim), q.queryId, true, false,
          none⟩
      else return ⟨entries, coverage, q.queryId, false, false, none⟩
    | none => return ⟨entries, coverage, q.queryId, false, false, none⟩

def startCoverage (c : ClusterState) (q : ScanQuery) (resumed : Bool) : Coverage :=
  let coverage := (((Coverage.forPartitions q.requested).withReadMode q.readMode).useIndex
    "primary-scan").searchTier "hot"
  let coverage := if c.replicatedDurabilityAvailable then coverage
    else coverage.note "development profile: replicated durability unavailable"
  if resumed then
    coverage.note ("resumed via continuation (query_id=" ++ q.queryId ++ ")")
  else coverage

def scanQuery (c : ClusterState) (o : ScanOptions) (q : ScanQuery) (resumed : Bool) :
    Except ScanError FindResult × ClusterState :=
  if o.visitOrder.any fun order => sortDedup order ≠ q.requested then
    (.error (.consistencyViolation "visit_order must be a permutation of the partition scope"), c)
  else
    match visitAll D q (o.visitOrder.getD q.requested) false (c.startCoverage q resumed)
        ⟨[], [], 0⟩ c with
    | (.error e, c) => (.error e, c)
    | (.ok (coverage, g), c) => (c.finish D q coverage g, c)

def scanWith (c : ClusterState) (o : ScanOptions) : Except ScanError FindResult × ClusterState :=
  match o.continuation with
  | none => c.scanQuery D o (c.resolve D o none) false
  | some token =>
    match QueryContinuation.decode D c.clusterId c.keyring token with
    | .error e => (.error e, c)
    | .ok cont => c.scanQuery D o (c.resolve D o (some cont)) true

/-- A paged scan: the first page and then, token by token, the next ones, with a visit order for
each page. Without enough fuel there is no result. -/
def followPages (o : ScanOptions) (order : ℕ → Option (List PartitionId)) :
    ℕ → ℕ → Option Bytes → ClusterState → Option (Except ScanError (List FindResult))
  | 0, _, _, _ => none
  | fuel + 1, i, token, c =>
    match c.scanWith D { o with continuation := token, visitOrder := order i } with
    | (.error e, _) => some (.error e)
    | (.ok page, c) =>
      match page.continuation with
      | none => some (.ok [page])
      | some next => (followPages o order fuel (i + 1) (some next) c).map (Except.map (page :: ·))

end ClusterState

end Residiuum.Cluster
