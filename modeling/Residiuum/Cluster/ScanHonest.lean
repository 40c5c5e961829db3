import Residiuum.Cluster.ScanCollect
import Residiuum.Lib.Digest

/-!
# Complete coverage

A coverage that calls itself complete says that the entries are all there is in scope, and a
linearizable one that they come from leaders. Both can be wrong: a live subject whose payload is
incomplete is left out without a trace, and a partition that elects no leader is served by any
replica.

* **`coverage_honest_iff`**: a complete coverage is honest exactly when no live subject in scope has
  an incomplete payload and, for a linearizable read, every partition has a leader to turn to.
-/

namespace Residiuum.Cluster

open ByteLib DistinctLib List Option Std UInt32

variable {ps : List PartitionId} {mode : ReadMode} {t : String}

namespace ClusterState

variable {D : QueryDigests} {c c' : ClusterState} {o : ScanOptions} {p : PartitionId}
  {r : FindResult} {mode : ReadMode} {s : ScanServer} {e : String × Bytes} {store : LiveStore}
  {q : ScanQuery}

/-! ## The scope -/

/-- The partitions that a first call asks for. -/
def scope (c : ClusterState) (o : ScanOptions) : List PartitionId :=
  match o.partitions with
  | some ps => sortDedup ps
  | none => c.allPartitions

theorem allPartitions_pairwise (c : ClusterState) : c.allPartitions.Pairwise (· < ·) := by
  unfold allPartitions
  rw [pairwise_map]
  have hlt := c.virtualPartitions.toNat_lt
  refine List.Pairwise.imp_of_mem ?_ (pairwise_lt_range (n := c.virtualPartitions.toNat))
  intro i j hi hj hij
  rw [mem_range] at hi hj
  rw [lt_iff_toNat_lt, toNat_ofNat_of_lt' (hi.trans hlt),
    toNat_ofNat_of_lt' (hj.trans hlt)]
  exact hij

theorem scope_pairwise (c : ClusterState) (o : ScanOptions) : (c.scope o).Pairwise (· < ·) := by
  unfold scope
  split
  · exact sortDedup_pairwise _
  · exact allPartitions_pairwise c

theorem nodup_of_pairwise_lt (h : ps.Pairwise (· < ·)) : ps.Nodup :=
  h.imp fun hlt => UInt32.ne_of_lt hlt

theorem perm_of_sortDedup {visit : List PartitionId} (hnodup : visit.Nodup)
    (h : sortDedup visit = ps) : visit.Perm ps := by
  have hsorted : (sortBy compare visit).Nodup := (sortBy_perm compare visit).nodup_iff.mpr hnodup
  rw [← h, sortDedup, destutter_of_isChain _ _ hsorted.isChain]
  exact (sortBy_perm compare visit).symm

/-! ## Servers and their stores -/

theorem leaderServer_store (h : (c.leaderServer p mode).1 = some s) :
    c.nodes[s.node]? = some s.store := by
  have htouch := touches_ensure c p
  unfold leaderServer at h
  split_ifs at h
  rcases hensure : c.ensurePartitionLeader p with ⟨(e | ⟨leader, term⟩), c₁⟩
  · rw [hensure] at h
    cases h
  · rw [hensure] at h htouch
    obtain ⟨raft, directory, hc₁, -⟩ := htouch
    subst hc₁
    obtain ⟨store, hstore, rfl⟩ := map_eq_some_iff.mp h
    exact hstore

theorem replicaServer_store {assignment : PartitionAssignment}
    (h : c.replicaServer p assignment = some s) : c.nodes[s.node]? = some s.store := by
  obtain ⟨_, replica, _, _, hserver, _⟩ := findSome?_eq_some_iff.mp h
  obtain ⟨store, hstore, rfl⟩ := map_eq_some_iff.mp hserver
  exact hstore

theorem servedBy_store (h : c.servedBy mode p = some s) : c.nodes[s.node]? = some s.store := by
  obtain ⟨assignment, -, h⟩ := bind_eq_some_iff.mp h
  have htouch := touches_leaderServer c p mode
  unfold server at h
  rcases hleader : c.leaderServer p mode with ⟨(_ | s'), c₁⟩
  · rw [hleader] at h htouch
    obtain ⟨raft, directory, hc₁, -⟩ := htouch
    dsimp only at h hc₁
    have hstore := replicaServer_store h
    rw [hc₁] at hstore
    exact hstore
  · rw [hleader] at h
    cases h
    exact leaderServer_store (congrArg Prod.fst hleader)

theorem servedBy_of_leader (hdir : c.directory p ≠ none)
    (h : (c.leaderServer p mode).1 = some s) : c.servedBy mode p = some s := by
  obtain ⟨assignment, hdir⟩ := ne_none_iff_exists'.mp hdir
  unfold servedBy
  rw [hdir, bind_some]
  unfold server
  rcases hleader : c.leaderServer p mode with ⟨s', c₁⟩
  rw [hleader] at h
  subst h
  rfl

theorem leaderServer_isSome : (∃ s, (c.leaderServer p .linearizable).1 = some s) ↔
    c.consistencyMode ≠ .convergentAppend ∧ ∃ lt, (c.ensurePartitionLeader p).1 = .ok lt := by
  have htouch := touches_ensure c p
  unfold leaderServer
  split_ifs with hmode
  · rcases hensure : c.ensurePartitionLeader p with ⟨(e | ⟨leader, term⟩), c₁⟩
    · exact iff_of_false (fun ⟨s, hs⟩ => by cases hs) fun ⟨_, lt, hlt⟩ => by cases hlt
    rw [hensure] at htouch
    obtain ⟨raft, directory, hc₁, -⟩ := htouch
    refine iff_of_true ?_ ⟨hmode.2, _, rfl⟩
    have honline : leader ∈ c.nodes.keys := by
      unfold ensurePartitionLeader at hensure
      split at hensure
      · cases hensure
      · dsimp only at hensure
        split at hensure
        · cases hensure
        · rename_i heq
          cases hensure
          exact PartitionRaft.ensureLeaderPreferring_leader (congrArg Prod.fst heq)
    dsimp only at hc₁ ⊢
    rw [hc₁]
    obtain ⟨store, hstore⟩ := isSome_iff_exists.mp
      ((TreeMap.contains_eq_isSome_getElem? (t := c.nodes)).symm.trans
        (TreeMap.contains_iff_mem.mpr (TreeMap.mem_keys.mp honline)))
    exact ⟨⟨leader, store, term⟩, by rw [hstore]; rfl⟩
  · refine iff_of_false (fun ⟨s, hs⟩ => by cases hs) fun h => hmode ⟨rfl, h.1⟩

theorem get_ne_none (h : t ∈ subjects store.live) : store.get t ≠ .ok none := by
  obtain ⟨e, he, hutf8⟩ := mem_filterMap.mp h
  rw [fromUtf8_eq_some] at hutf8
  unfold LiveStore.get
  cases hlookup : store.live.lookup (utf8 t) with
  | none =>
    have hne := lookup_eq_none_iff.mp hlookup e he
    rw [hutf8] at hne
    simp [utf8] at hne
  | some payload =>
    cases payload with
    | error e => intro hget; cases hget
    | ok result => cases result <;> (intro hget; cases hget)

theorem mem_entryOf {ts : List String} :
    e ∈ ts.filterMap store.entryOf ↔ e.1 ∈ ts ∧ store.get e.1 = .ok (some e.2) := by
  obtain ⟨t, v⟩ := e
  rw [mem_filterMap]
  unfold LiveStore.entryOf
  constructor
  · rintro ⟨t', ht', hentry⟩
    split at hentry
    · rename_i v' hget
      cases hentry
      exact ⟨ht', hget⟩
    · cases hentry
  · rintro ⟨ht, hget⟩
    refine ⟨t, ht, ?_⟩
    rw [hget]

theorem map_fst_entryOf (store : LiveStore) (ts : List String) :
    ((ts.filterMap store.entryOf).map Prod.fst).Sublist ts := by
  induction ts with
  | nil => exact List.Sublist.refl _
  | cons t ts ih =>
    rcases store.entryOf_cases t with hentry | ⟨v, hentry⟩
    · rw [filterMap_cons_none hentry]
      exact ih.trans (sublist_cons_self t ts)
    · rw [filterMap_cons_some hentry]
      exact ih.cons_cons t

theorem foundIn_nodup (hnodup : ps.Nodup) : ((ps.flatMap (c.foundIn D q)).map Prod.fst).Nodup := by
  have hpartition : ∀ p, ∀ t ∈ (c.foundIn D q p).map Prod.fst, c.partitionForSubject D t = p := by
    intro p t ht
    obtain ⟨e, he, rfl⟩ := List.mem_map.mp ht
    unfold foundIn at he
    split at he
    · exact partition_of_mem_matching (mem_entryOf.mp he).1
    · cases he
  rw [map_flatMap, nodup_flatMap]
  refine ⟨fun p _ => ?_, hnodup.imp fun {p p'} hne => ?_⟩
  · unfold foundIn
    split
    · rename_i s _
      exact ((subjects_nodup s.store).filter _).sublist (map_fst_entryOf _ _)
    · exact nodup_nil
  · intro t ht ht'
    exact hne ((hpartition p t ht).symm.trans (hpartition p' t ht'))

/-! ## Honesty -/

def optionFilter (o : ScanOptions) : ScanFilter := ⟨o.subjectPrefix, o.afterSubject⟩

/-- The result names the node as the server of the partition, and the node has the store. -/
structure Serves (c : ClusterState) (r : FindResult) (p : PartitionId) (node : NodeId)
    (store : LiveStore) : Prop where
  completed : p ∈ r.coverage.completed
  frontier : serversOf r.coverage p = [some node]
  store : c.nodes[node]? = some store

/-- What a complete coverage promises: the entries are exactly the live subjects in scope of the
serving nodes, each once and with its body, and a linearizable scan was served by the leaders that
its contacts turned to. -/
structure Honest (D : QueryDigests) (c : ClusterState) (o : ScanOptions) (r : FindResult) :
    Prop where
  sound : ∀ e ∈ r.entries, ∃ p node store, Serves c r p node store ∧
    e.1 ∈ c.matching D (optionFilter o) p store.live ∧ store.get e.1 = .ok (some e.2)
  complete : ∀ p node store, Serves c r p node store →
    ∀ t ∈ c.matching D (optionFilter o) p store.live,
      ∃ v, store.get t = .ok (some v) ∧ (t, v) ∈ r.entries
  distinct : (r.entries.map Prod.fst).Nodup
  leaders : r.coverage.readMode = some ReadMode.linearizable.asStr →
    ∀ p ∈ r.coverage.completed, ∃ s, (c.leaderServer p .linearizable).1 = some s ∧
      serversOf r.coverage p = [some s.node]

/-- No live subject in scope has an incomplete payload at the node that serves its partition, and
for a linearizable read every partition has a leader to turn to. -/
structure Whole (D : QueryDigests) (c : ClusterState) (o : ScanOptions) : Prop where
  payloads : ∀ p ∈ c.scope o, ∀ s, c.servedBy o.readMode p = some s →
    ∀ t ∈ c.matching D (optionFilter o) p s.store.live, s.store.get t ≠ .error .payloadPartial
  leaders : o.readMode = .linearizable → ∀ p ∈ c.scope o,
    c.consistencyMode ≠ .convergentAppend ∧ ∃ lt, (c.ensurePartitionLeader p).1 = .ok lt

theorem asStr_eq_linearizable :
    some mode.asStr = some ReadMode.linearizable.asStr ↔ mode = .linearizable := by
  cases mode <;> decide

theorem startCoverage_spec (c : ClusterState) (q : ScanQuery) (resumed : Bool) :
    (c.startCoverage q resumed).completed = [] ∧
      (c.startCoverage q resumed).requested = sortDedup q.requested ∧
      (c.startCoverage q resumed).readMode = some q.readMode.asStr ∧
      (c.startCoverage q resumed).resourceLimitReached = false := by
  unfold startCoverage
  split_ifs <;> exact ⟨rfl, rfl, rfl, rfl⟩

theorem unpaged_spec (hcont : o.continuation = none) (hpage : o.pageSize = none)
    (hlimit : o.limit = none) (hscan : (c.scanWith D o).1 = .ok r) :
    ∃ cov g c' visit, visitAll D (c.resolve D o none) visit false
        (c.startCoverage (c.resolve D o none) false) ⟨[], [], 0⟩ c = (.ok (cov, g), c') ∧
      visit = o.visitOrder.getD (c.scope o) ∧
      (∀ order, o.visitOrder = some order → sortDedup order = c.scope o) ∧
      r.entries = sortEntries g.entries ∧ r.coverage = cov := by
  unfold scanWith at hscan
  rw [hcont] at hscan
  dsimp only [scanQuery] at hscan
  split_ifs at hscan with horder
  have hresolve : (c.resolve D o none).requested = c.scope o := rfl
  rw [hresolve] at hscan horder
  rcases hvisit : visitAll D (c.resolve D o none) (o.visitOrder.getD (c.scope o)) false
      (c.startCoverage (c.resolve D o none) false) ⟨[], [], 0⟩ c with ⟨(e | ⟨cov, g⟩), c'⟩
  · rw [hvisit] at hscan
    cases hscan
  rw [hvisit] at hscan
  dsimp only [finish] at hscan
  have hp : (c.resolve D o none).pageSize = none := by
    unfold resolve
    rw [hpage]
    rfl
  have hl : (c.resolve D o none).limit = none := by
    unfold resolve
    rw [hlimit]
    rfl
  rw [hp, hl] at hscan
  cases hscan
  refine ⟨cov, g, c', _, hvisit, rfl, fun order ho => ?_, rfl, rfl⟩
  rw [ho] at horder
  simpa using horder

/-- What a complete coverage comes from. -/
structure Completed (D : QueryDigests) (c : ClusterState) (o : ScanOptions) (r : FindResult) :
    Prop where
  mode : r.coverage.readMode = some o.readMode.asStr
  scope : ∀ p ∈ r.coverage.completed, p ∈ c.scope o
  served : ∀ p ∈ c.scope o, ∃ s, c.servedBy o.readMode p = some s ∧
    p ∈ r.coverage.completed ∧ serversOf r.coverage p = [some s.node] ∧
    ∀ t ∈ c.matching D (optionFilter o) p s.store.live, s.store.Clean t
  entries : ∀ e, e ∈ r.entries ↔ ∃ p ∈ c.scope o, ∃ s, c.servedBy o.readMode p = some s ∧
    e.1 ∈ c.matching D (optionFilter o) p s.store.live ∧ s.store.get e.1 = .ok (some e.2)
  distinct : (r.entries.map Prod.fst).Nodup

theorem mem_flatMap_foundIn :
    e ∈ ps.flatMap (c.foundIn D q) ↔ ∃ p ∈ ps, ∃ s, c.servedBy q.readMode p = some s ∧
      e.1 ∈ c.matching D (filterOf q) p s.store.live ∧ s.store.get e.1 = .ok (some e.2) := by
  rw [mem_flatMap]
  refine exists_congr fun p => and_congr_right fun _ => ?_
  unfold foundIn
  cases c.servedBy q.readMode p with
  | none => exact iff_of_false (fun he => by cases he) fun ⟨s, hs, _⟩ => by cases hs
  | some s =>
    rw [mem_entryOf]
    constructor
    · exact fun he => ⟨s, rfl, he⟩
    · rintro ⟨s', hs', he⟩
      cases hs'
      exact he

theorem completed_of_isComplete (hcont : o.continuation = none) (hpage : o.pageSize = none)
    (hlimit : o.limit = none) (horder : ∀ order, o.visitOrder = some order → order.Nodup)
    (hscan : (c.scanWith D o).1 = .ok r) (hcomplete : r.coverage.isComplete) :
    Completed D c o r := by
  obtain ⟨cov, g, c', visit, hvisit, rfl, hsorted, hentries, rfl⟩ :=
    unpaged_spec hcont hpage hlimit hscan
  have hperm : (o.visitOrder.getD (c.scope o)).Perm (c.scope o) := by
    cases ho : o.visitOrder with
    | none => exact List.Perm.refl _
    | some order => exact perm_of_sortDedup (horder order ho) (hsorted order ho)
  have hnodup : (o.visitOrder.getD (c.scope o)).Nodup :=
    hperm.nodup_iff.mpr (nodup_of_pairwise_lt (scope_pairwise c o))
  unfold Coverage.isComplete at hcomplete
  simp only [Bool.and_eq_true, Bool.not_eq_true', List.isEmpty_iff] at hcomplete
  obtain ⟨⟨⟨hresource, hunavailable⟩, -⟩, -⟩ := hcomplete
  obtain ⟨hv, -⟩ := visitAll_spec hnodup (fun s hs => by cases hs) hvisit hresource
  obtain ⟨hstart, -, hmode, -⟩ := startCoverage_spec c (c.resolve D o none) false
  have hfound : g.entries = (o.visitOrder.getD (c.scope o)).flatMap
      (c.foundIn D (c.resolve D o none)) := hv.entries
  constructor
  · exact hv.readMode.trans hmode
  · intro p hp
    by_contra hscope
    rw [(hv.others p fun hmem => hscope (hperm.mem_iff.mp hmem)).1, hstart] at hp
    cases hp
  · intro p hp
    have hpv := hperm.mem_iff.mpr hp
    cases hserver : c.servedBy o.readMode p with
    | none =>
      have hmem := hv.unavailable p hpv hserver
      rw [hunavailable] at hmem
      cases hmem
    | some s =>
      obtain ⟨hcompleted, hservers⟩ := hv.served p hpv s hserver
      exact ⟨s, rfl, hcompleted, hservers, hv.clean p hpv s hserver⟩
  · intro e
    rw [hentries, sortEntries, (sortBy_perm _ _).mem_iff, hfound, mem_flatMap_foundIn]
    exact exists_congr fun p => and_congr_left fun _ => hperm.mem_iff
  · have hmap := (sortBy_perm (compareOn fun e : String × Bytes => utf8 e.1) g.entries).map
      Prod.fst
    rw [hentries, sortEntries, hmap.nodup_iff, hfound]
    exact foundIn_nodup hnodup

/-- **When a complete coverage is honest.** -/
theorem coverage_honest_iff (D : QueryDigests) (c : ClusterState) (o : ScanOptions) (r : FindResult)
    (hcont : o.continuation = none) (hpage : o.pageSize = none) (hlimit : o.limit = none)
    (horder : ∀ order, o.visitOrder = some order → order.Nodup)
    (hscan : (c.scanWith D o).1 = .ok r) (hcomplete : r.coverage.isComplete) :
    Honest D c o r ↔ Whole D c o := by
  have hc := completed_of_isComplete hcont hpage hlimit horder hscan hcomplete
  -- the server that the coverage names is the one that was contacted
  have hserves : ∀ p node store, Serves c r p node store →
      p ∈ c.scope o ∧ ∃ s, c.servedBy o.readMode p = some s ∧ s.store = store := by
    intro p node store hs
    have hp := hc.scope p hs.completed
    obtain ⟨s, hserver, -, hservers, -⟩ := hc.served p hp
    refine ⟨hp, s, hserver, ?_⟩
    have hnode : some s.node = some node :=
      (List.cons.inj (hservers.symm.trans hs.frontier)).1
    have hstore := servedBy_store hserver
    rw [some.inj hnode, hs.store] at hstore
    exact (some.inj hstore).symm
  have hserved : ∀ p ∈ c.scope o, ∀ s, c.servedBy o.readMode p = some s →
      Serves c r p s.node s.store := by
    intro p hp s hserver
    obtain ⟨s', hserver', hcompleted, hservers, -⟩ := hc.served p hp
    cases hserver.symm.trans hserver'
    exact ⟨hcompleted, hservers, servedBy_store hserver⟩
  constructor
  · intro hh
    refine ⟨fun p hp s hserver t ht hmissing => ?_, fun hmode p hp => ?_⟩
    · obtain ⟨v, hget, -⟩ := hh.complete p s.node s.store (hserved p hp s hserver) t ht
      rw [hmissing] at hget
      cases hget
    · obtain ⟨s, hserver, hcompleted, -⟩ := hc.served p hp
      obtain ⟨s', hleader, -⟩ := hh.leaders (hc.mode.trans (by rw [hmode])) p hcompleted
      exact leaderServer_isSome.mp ⟨s', hleader⟩
  · intro hw
    refine ⟨fun e he => ?_, fun p node store hs t ht => ?_, hc.distinct, fun hmode p hp => ?_⟩
    · obtain ⟨p, hp, s, hserver, hmatch, hget⟩ := (hc.entries e).mp he
      exact ⟨p, s.node, s.store, hserved p hp s hserver, hmatch, hget⟩
    · obtain ⟨hp, s, hserver, rfl⟩ := hserves p node store hs
      obtain ⟨s', hserver', -, -, hclean⟩ := hc.served p hp
      cases hserver.symm.trans hserver'
      cases hget : s.store.get t with
      | error e =>
        rw [hclean t ht e hget] at hget
        exact absurd hget (hw.payloads p hp s hserver t ht)
      | ok value =>
        cases value with
        | none => exact absurd hget (get_ne_none (mem_of_mem_filter ht))
        | some v => exact ⟨v, rfl, (hc.entries (t, v)).mpr ⟨p, hp, s, hserver, ht, hget⟩⟩
    · rw [hc.mode, asStr_eq_linearizable] at hmode
      have hscope := hc.scope p hp
      obtain ⟨s, hleader⟩ := leaderServer_isSome.mpr (hw.leaders hmode p hscope)
      obtain ⟨s', hserver, -, hservers, -⟩ := hc.served p hscope
      have hdir : c.directory p ≠ none := by
        intro hnone
        rw [servedBy, hnone] at hserver
        cases hserver
      have hsame := servedBy_of_leader hdir (hmode ▸ hleader)
      obtain rfl := some.inj (hserver.symm.trans hsame)
      exact ⟨s', hleader, hservers⟩

end ClusterState

/-! ### Small clusters -/

/-- BLAKE3 with stand-ins for its keyed mode and for the default hasher. -/
def sampleDigests : QueryDigests where
  blake3 := DigestLib.blake3
  keyedHash key data := DigestLib.blake3 (key.1 ++ data)
  defaultHash scope bound limit := UInt64.ofNat (scope.length + (utf8 bound).length + limit.toNat)

/-- A cluster of one consensus group and the given stores, in which every partition has the same
replicas. -/
def sampleCluster (virtualPartitions : UInt32) (group : PartitionRaft)
    (nodes : TreeMap NodeId LiveStore) : ClusterState where
  clusterId := zeros 16
  keyring := ⟨⟨1, zeros 32⟩, none⟩
  virtualPartitions := virtualPartitions
  consistencyMode := .partitionLinearizable
  replicatedProfile := true
  directory _ := some ⟨group.voters, 0, 1⟩
  raft _ := some ⟨group, group.voters⟩
  nodes := nodes

def scanAll (mode : ReadMode) : ScanOptions where
  subjectPrefix := none
  limit := none
  maxDocsScanned := none
  partitions := none
  readMode := mode
  pageSize := none
  continuation := none
  visitOrder := none
  afterSubject := none

def emptyStore : LiveStore := ⟨[], List.Pairwise.nil⟩

/-- Three voters of which only the last is online, with nothing in its store. -/
def orphaned : ClusterState :=
  sampleCluster 1 (.new [0, 1, 2] 1 []) ((∅ : TreeMap NodeId LiveStore).insert 2 emptyStore)

def orphanedReport : Option (Bool × List PartitionId × Option String) :=
  (orphaned.scanWith sampleDigests (scanAll .linearizable)).1.toOption.map fun r =>
    (r.coverage.isComplete, r.coverage.completed, r.coverage.readMode)

theorem orphanedReport_eq : orphanedReport = some (true, [0], some "linearizable") := by
  decide +kernel

theorem orphaned_leader : (orphaned.leaderServer 0 .linearizable).1.isNone := by
  decide +kernel

theorem exists_ok_of_toOption {α β ε : Type} {x : Except ε α} {f : α → β} {v : β}
    (h : x.toOption.map f = some v) : ∃ r, x = .ok r ∧ f r = v := by
  cases x with
  | error e => cases h
  | ok r => exact ⟨r, rfl, some.inj h⟩

/-- A linearizable scan of a node that elects no leader calls its coverage complete. -/
theorem coverage_dishonest : ∃ r,
    (orphaned.scanWith sampleDigests (scanAll .linearizable)).1 = .ok r ∧
      r.coverage.isComplete = true ∧
      ¬ ClusterState.Honest sampleDigests orphaned (scanAll .linearizable) r := by
  obtain ⟨r, hr, hreport⟩ := exists_ok_of_toOption orphanedReport_eq
  obtain ⟨hcomplete, hrest⟩ := Prod.mk.inj hreport
  obtain ⟨hcompleted, hmode⟩ := Prod.mk.inj hrest
  refine ⟨r, hr, hcomplete, fun hh => ?_⟩
  obtain ⟨s, hs, -⟩ := hh.leaders hmode 0 (by rw [hcompleted]; exact List.mem_singleton_self 0)
  have hnone := orphaned_leader
  rw [hs] at hnone
  cases hnone

/-- A node that leads its group alone. -/
def soloGroup : PartitionRaft := ((PartitionRaft.new [0] 1 []).elect 0 [0]).2

/-- The subjects `a`, `b` and `c`. -/
def soloStore : LiveStore :=
  ⟨[(utf8 "a", .ok (.complete [1])), (utf8 "b", .ok (.complete [2])),
    (utf8 "c", .ok (.complete [3]))], by decide⟩

/-- One node with three subjects. -/
def solo : ClusterState :=
  sampleCluster 1 soloGroup ((∅ : TreeMap NodeId LiveStore).insert 0 soloStore)

theorem solo_servedBy {p : PartitionId} {s : ScanServer}
    (h : solo.servedBy mode p = some s) : s.store = soloStore := by
  have hstore := ClusterState.servedBy_store h
  have hnodes : solo.nodes = (∅ : TreeMap NodeId LiveStore).insert 0 soloStore := rfl
  rw [hnodes, TreeMap.getElem?_insert] at hstore
  split_ifs at hstore
  · exact (some.inj hstore).symm
  · rw [TreeMap.getElem?_emptyc] at hstore
    cases hstore

theorem soloStore_get (h : t ∈ subjects soloStore.live) : ∃ v, soloStore.get t = .ok (some v) := by
  have hsubjects : subjects soloStore.live = ["a", "b", "c"] := by decide +kernel
  rw [hsubjects] at h
  simp only [mem_cons, not_mem_nil, or_false] at h
  rcases h with rfl | rfl | rfl
  · exact ⟨[1], rfl⟩
  · exact ⟨[2], rfl⟩
  · exact ⟨[3], rfl⟩

theorem solo_scope (mode : ReadMode) : solo.scope (scanAll mode) = [0] := by
  cases mode <;> decide

theorem solo_whole : ClusterState.Whole sampleDigests solo (scanAll .linearizable) := by
  refine ⟨fun p _ s hs t ht => ?_, fun _ p hp => ?_⟩
  · rw [solo_servedBy hs] at ht ⊢
    obtain ⟨v, hget⟩ := soloStore_get (mem_of_mem_filter ht)
    rw [hget]
    intro hmissing
    cases hmissing
  · rw [solo_scope, mem_singleton] at hp
    subst hp
    refine ⟨by decide, (0, 1), ?_⟩
    decide +kernel

theorem solo_complete :
    ((solo.scanWith sampleDigests (scanAll .linearizable)).1.toOption.map
      fun r => r.coverage.isComplete) = some true := by
  decide +kernel

/-- The scan of a node that leads alone is honest. -/
theorem coverage_honest_solo : ∃ r,
    (solo.scanWith sampleDigests (scanAll .linearizable)).1 = .ok r ∧
      ClusterState.Honest sampleDigests solo (scanAll .linearizable) r := by
  obtain ⟨r, hr, hcomplete⟩ := exists_ok_of_toOption solo_complete
  exact ⟨r, hr, (ClusterState.coverage_honest_iff sampleDigests solo (scanAll .linearizable) r
    rfl rfl rfl (fun order ho => by cases ho) hr hcomplete).mpr solo_whole⟩

end Residiuum.Cluster
