import Residiuum.Cluster.ClusterScan
import Residiuum.Cluster.RaftPeers

/-!
# What a scan collects

The entries of a scan are, partition by partition, the live subjects of the node that serves it.

* **`visitAll_spec`**, **`visitAll_of_clean`**: the loop over the partitions.
-/

namespace Residiuum.Cluster

open ByteLib Coverage DistinctLib Gathered List LiveStore Std

/-! ## One partition -/

/-- The subjects of live entries that are texts. -/
def subjects (l : List (Bytes × Except StoreError PayloadResult)) : List String :=
  l.filterMap fun e => fromUtf8 e.1

def LiveStore.entryOf (store : LiveStore) (s : String) : Option (String × Bytes) :=
  match store.get s with
  | .ok (some v) => some (s, v)
  | _ => none

variable (store : LiveStore) (g : Gathered)

theorem LiveStore.entryOf_cases (s : String) :
    store.entryOf s = none ∨ ∃ v, store.entryOf s = some (s, v) := by
  unfold entryOf
  split
  · exact .inr ⟨_, rfl⟩
  · exact .inl rfl

/-- A read of the subject does not make the scan fail. -/
def LiveStore.Clean (store : LiveStore) (s : String) : Prop :=
  ∀ e, store.get s = .error e → e = .payloadPartial

/-- What a scan has gathered after some new subjects of a store. -/
def Gathered.add (store : LiveStore) (ss : List String) : Gathered where
  entries := g.entries ++ ss.filterMap store.entryOf
  seen := ss.reverse ++ g.seen
  docsScanned := g.docsScanned + ss.length

theorem Gathered.add_nil (store : LiveStore) : g.add store [] = g := by
  simp [add]

theorem Gathered.add_cons (store : LiveStore) (s : String) (ss : List String) :
    g.add store (s :: ss) = (g.add store [s]).add store ss := by
  simp only [add, reverse_cons, append_assoc, reverse_nil, nil_append,
    length_cons, length_nil, mk.injEq]
  refine ⟨?_, trivial, by omega⟩
  cases h : store.entryOf s <;> simp [h]

variable {bytes : Bytes} {seen : List String} {qs : List PartitionId} {position : ℕ}
  {r : PartitionId} {l : List (Bytes × Except StoreError PayloadResult)} {s : String}
  {p : Except StoreError PayloadResult}

theorem subjects_cons_none
    (h : fromUtf8 bytes = none) : subjects ((bytes, p) :: l) = subjects l := filterMap_cons_none h

theorem subjects_cons_some
    (h : fromUtf8 bytes = some s) : subjects ((bytes, p) :: l) = s :: subjects l :=
  filterMap_cons_some h

theorem subjects_pairwise : (subjects store.live).Pairwise fun a b => utf8 a < utf8 b := by
  have hsorted := store.sorted
  rw [pairwise_map] at hsorted
  refine List.Pairwise.filterMap _ ?_ hsorted
  intro a b hab s hs t ht
  rw [fromUtf8_eq_some] at hs ht
  rw [utf8, utf8, ← hs, ← ht]
  exact hab

theorem subjects_nodup : (subjects store.live).Nodup := by
  refine (subjects_pairwise store).imp ?_
  rintro a b hab rfl
  exact List.lt_irrefl _ hab

namespace ClusterState

variable {D : QueryDigests} {c c' : ClusterState} {f : ScanFilter} {p : PartitionId}
  {store : LiveStore} {maxDocs : Option UInt64}
  {l : List (Bytes × Except StoreError PayloadResult)} {g g' : Gathered} {cov : Coverage}
  {payload : Except StoreError PayloadResult} {ps : List PartitionId} {stopped : Bool}
  {q : ScanQuery} {term : ℕ}

/-- The subjects of live entries that a scan of the partition selects. -/
def matching (D : QueryDigests) (c : ClusterState) (f : ScanFilter) (p : PartitionId)
    (l : List (Bytes × Except StoreError PayloadResult)) : List String :=
  (subjects l).filter (c.selects D f p)

/-- The selected subjects that have not been seen. -/
def fresh (D : QueryDigests) (c : ClusterState) (f : ScanFilter) (p : PartitionId)
    (l : List (Bytes × Except StoreError PayloadResult)) (seen : List String) : List String :=
  (c.matching D f p l).filter (· ∉ seen)

theorem fresh_cons_skip (hs : fromUtf8 bytes = some s) (h : ¬ c.selects D f p s ∨ s ∈ seen) :
    c.fresh D f p ((bytes, payload) :: l) seen = c.fresh D f p l seen := by
  rw [fresh, fresh, matching, matching, subjects_cons_some hs, filter_cons]
  split_ifs with hsel
  · rcases h with h | h
    · exact absurd hsel h
    · rw [filter_cons_of_neg (by simpa using h)]
  · rfl

theorem fresh_cons_take (hs : fromUtf8 bytes = some s) (hsel : c.selects D f p s)
    (hseen : s ∉ seen) (hnodup : (subjects ((bytes, payload) :: l)).Nodup) :
    c.fresh D f p ((bytes, payload) :: l) seen = s :: c.fresh D f p l (s :: seen) := by
  rw [subjects_cons_some hs, nodup_cons] at hnodup
  rw [fresh, fresh, matching, matching, subjects_cons_some hs, filter_cons_of_pos hsel,
    filter_cons_of_pos (by simpa using hseen)]
  refine congrArg (s :: ·) (filter_congr fun t ht => ?_)
  have hne : t ≠ s := by
    rintro rfl
    exact hnodup.1 (mem_of_mem_filter ht)
  simp [hne]

theorem collect_spec (hnodup : (subjects l).Nodup)
    (h : c.collect D f p store maxDocs l g = .ok (false, g')) :
    g' = g.add store (c.fresh D f p l g.seen) ∧ ∀ s ∈ c.fresh D f p l g.seen, store.Clean s := by
  induction l generalizing g with
  | nil =>
    obtain ⟨-, rfl⟩ := Prod.mk.inj (Except.ok.inj h)
    exact ⟨(add_nil g store).symm, fun s hs => by cases hs⟩
  | cons e l ih =>
    obtain ⟨bytes, payload⟩ := e
    rw [collect] at h
    cases hs : fromUtf8 bytes with
    | none =>
      rw [hs] at h
      rw [subjects_cons_none hs] at hnodup
      rw [fresh, matching, subjects_cons_none hs]
      exact ih hnodup h
    | some s =>
      rw [hs] at h
      dsimp only at h
      have htail : (subjects l).Nodup := by
        rw [subjects_cons_some hs] at hnodup
        exact (nodup_cons.mp hnodup).2
      split_ifs at h with hsel hseen hbudget
      · rw [fresh_cons_skip hs (.inr hseen)]
        exact ih htail h
      · cases h
      · rw [fresh_cons_take hs hsel hseen hnodup, add_cons]
        -- the state behind the subject, whatever its read returned
        have hstep : ∀ entry, store.entryOf s = entry → store.Clean s →
            c.collect D f p store maxDocs l ⟨g.entries ++ entry.toList, s :: g.seen,
              g.docsScanned + 1⟩ = .ok (false, g') →
            g' = (g.add store [s]).add store (c.fresh D f p l (s :: g.seen)) ∧
              ∀ t ∈ s :: c.fresh D f p l (s :: g.seen), store.Clean t := by
          intro entry hentry hclean hrest
          obtain ⟨hg, hall⟩ := ih htail hrest
          have hadd : g.add store [s] =
              ⟨g.entries ++ entry.toList, s :: g.seen, g.docsScanned + 1⟩ := by
            cases entry <;> simp [add, hentry]
          rw [hadd]
          exact ⟨hg, forall_mem_cons.mpr ⟨hclean, hall⟩⟩
        cases hget : store.get s with
        | ok value =>
          rw [hget] at h
          have hclean : store.Clean s := fun e he => by
            rw [hget] at he
            cases he
          cases value with
          | some v =>
            exact hstep (some (s, v)) (by rw [entryOf, hget]) hclean h
          | none =>
            refine hstep none (by rw [entryOf, hget]) hclean ?_
            rw [Option.toList_none, append_nil]
            exact h
        | error e =>
          rw [hget] at h
          cases e with
          | payloadPartial =>
            refine hstep none (by rw [entryOf, hget]) ?_ ?_
            · intro e he
              rw [hget] at he
              exact (Except.error.inj he).symm
            · rw [Option.toList_none, append_nil]
              exact h
          | payloadConflict => cases h
          | io code => cases h
      · rw [fresh_cons_skip hs (.inl hsel)]
        exact ih htail h

theorem collect_of_clean (hnodup : (subjects l).Nodup)
    (hclean : ∀ s ∈ c.fresh D f p l g.seen, store.Clean s) :
    c.collect D f p store none l g = .ok (false, g.add store (c.fresh D f p l g.seen)) := by
  induction l generalizing g with
  | nil => rw [fresh, matching, subjects, filterMap_nil, filter_nil, filter_nil,
      add_nil]; rfl
  | cons e l ih =>
    obtain ⟨bytes, payload⟩ := e
    rw [collect]
    cases hs : fromUtf8 bytes with
    | none =>
      rw [subjects_cons_none hs] at hnodup
      rw [fresh, matching, subjects_cons_none hs] at hclean ⊢
      exact ih hnodup hclean
    | some s =>
      dsimp only
      have htail : (subjects l).Nodup := by
        rw [subjects_cons_some hs] at hnodup
        exact (nodup_cons.mp hnodup).2
      by_cases hsel : c.selects D f p s
      · by_cases hseen : s ∈ g.seen
        · rw [if_neg (not_not.mpr hsel), if_pos hseen]
          rw [fresh_cons_skip hs (.inr hseen)] at hclean ⊢
          exact ih htail hclean
        rw [if_neg (not_not.mpr hsel), if_neg hseen, Option.any_none, if_neg Bool.false_ne_true]
        rw [fresh_cons_take hs hsel hseen hnodup] at hclean ⊢
        rw [add_cons]
        have hrest := fun t ht => hclean t (mem_cons_of_mem s ht)
        have hadd : g.add store [s] =
            ⟨g.entries ++ (store.entryOf s).toList, s :: g.seen, g.docsScanned + 1⟩ := by
          cases h : store.entryOf s <;> simp [add, h]
        rw [hadd, entryOf]
        rcases hget : store.get s with e | _ | v
        · obtain rfl := hclean s mem_cons_self e hget
          simpa using ih htail hrest
        · simpa using ih htail hrest
        · exact ih htail hrest
      · rw [if_pos hsel]
        rw [fresh_cons_skip hs (.inl hsel)] at hclean ⊢
        exact ih htail hclean

theorem collect_unlimited
    (h : c.collect D f p store none l g = .ok (stopped, g')) : stopped = false := by
  induction l generalizing g with
  | nil => exact (congrArg Prod.fst (Except.ok.inj h)).symm
  | cons e l ih =>
    obtain ⟨bytes, payload⟩ := e
    rw [collect] at h
    split at h
    · exact ih h
    dsimp only at h
    split_ifs at h with hsel hseen hbudget
    · exact ih h
    · cases hbudget
    · split at h <;> first | exact ih h | cases h
    · exact ih h

/-! ## Who serves a partition -/

/-- The states differ in the groups and the directory of some partitions only. -/
def Touches (ps : List PartitionId) (c c' : ClusterState) : Prop :=
  ∃ raft directory, c' = { c with raft := raft, directory := directory } ∧
    ∀ p, p ∉ ps → raft p = c.raft p ∧ directory p = c.directory p

theorem Touches.refl (ps : List PartitionId) (c : ClusterState) : Touches ps c c :=
  ⟨c.raft, c.directory, rfl, fun _ _ => ⟨rfl, rfl⟩⟩

theorem Touches.trans {c'' : ClusterState} (h : Touches ps c c')
    (h' : Touches qs c' c'') : Touches (ps ++ qs) c c'' := by
  obtain ⟨raft, directory, rfl, hoff⟩ := h
  obtain ⟨raft', directory', rfl, hoff'⟩ := h'
  refine ⟨raft', directory', rfl, fun r hr => ?_⟩
  rw [mem_append, not_or] at hr
  obtain ⟨h₁, h₂⟩ := hoff r hr.1
  obtain ⟨h₁', h₂'⟩ := hoff' r hr.2
  exact ⟨h₁'.trans h₁, h₂'.trans h₂⟩

def servedBy (c : ClusterState) (mode : ReadMode) (p : PartitionId) : Option ScanServer :=
  (c.directory p).bind fun assignment => (c.server p assignment mode).1

def afterContact (c : ClusterState) (mode : ReadMode) (p : PartitionId) : ClusterState :=
  match c.directory p with
  | none => c
  | some assignment => (c.server p assignment mode).2

theorem touches_ensure (c : ClusterState) (p : PartitionId) :
    Touches [p] c (c.ensurePartitionLeader p).2 := by
  have hoff {β : Type} (m : PartitionId → β) (x : β) (r : PartitionId) (hr : r ∉ [p]) :
      Function.update m p x r = m r :=
    Function.update_of_ne (fun h => hr (mem_singleton.mpr h)) x m
  unfold ensurePartitionLeader
  split
  · exact .refl [p] c
  · dsimp only
    split
    · exact ⟨_, _, rfl, fun r hr => ⟨hoff _ _ r hr, rfl⟩⟩
    · exact ⟨_, _, rfl, fun r hr => ⟨hoff _ _ r hr, hoff _ _ r hr⟩⟩

theorem touches_leaderServer (c : ClusterState) (p : PartitionId) (mode : ReadMode) :
    Touches [p] c (c.leaderServer p mode).2 := by
  have hensure := touches_ensure c p
  unfold leaderServer
  split_ifs
  · split
    all_goals
      rename_i heq
      rw [heq] at hensure
      exact hensure
  · exact .refl [p] c

theorem touches_afterContact (c : ClusterState) (mode : ReadMode) (p : PartitionId) :
    Touches [p] c (c.afterContact mode p) := by
  unfold afterContact
  split
  · exact .refl [p] c
  have hleader := touches_leaderServer c p mode
  unfold server
  split
  all_goals
    rename_i heq
    rw [heq] at hleader
    exact hleader

theorem leaderServer_congr {raft : PartitionId → Option RaftSlot}
    {directory : PartitionId → Option PartitionAssignment} (mode : ReadMode)
    (hraft : raft p = c.raft p) (hdir : directory p = c.directory p) :
    (leaderServer { c with raft := raft, directory := directory } p mode).1 =
        (c.leaderServer p mode).1 ∧
      (leaderServer { c with raft := raft, directory := directory } p mode).2.raft p =
        (c.leaderServer p mode).2.raft p := by
  unfold leaderServer ensurePartitionLeader
  dsimp only
  rw [hraft, hdir]
  split_ifs
  · cases c.raft p with
    | none => exact ⟨rfl, hraft⟩
    | some slot =>
      dsimp only
      rcases slot.group.ensureLeaderPreferring c.nodes.keys
          ((c.directory p).map PartitionAssignment.leader) with ⟨(e | ⟨leader, term⟩), group⟩
      · exact ⟨rfl, by simp⟩
      · exact ⟨rfl, by simp⟩
  · exact ⟨rfl, hraft⟩

theorem servedBy_of_touches (h : Touches ps c c') (hp : p ∉ ps)
    (mode : ReadMode) : c'.servedBy mode p = c.servedBy mode p := by
  obtain ⟨raft, directory, rfl, hoff⟩ := h
  obtain ⟨hraft, hdir⟩ := hoff p hp
  unfold servedBy
  dsimp only
  rw [hdir]
  congr 1
  funext assignment
  obtain ⟨hleader, hgroup⟩ := leaderServer_congr mode hraft hdir
  have htouch := touches_leaderServer c p mode
  have htouch' := touches_leaderServer { c with raft := raft, directory := directory } p mode
  unfold server
  rcases hl : c.leaderServer p mode with ⟨s, c₁⟩
  rcases hl' : leaderServer { c with raft := raft, directory := directory } p mode with ⟨s', c₁'⟩
  rw [hl, hl'] at hleader hgroup
  rw [hl] at htouch
  rw [hl'] at htouch'
  obtain ⟨raft₁, dir₁, hc₁, -⟩ := htouch
  obtain ⟨raft₁', dir₁', hc₁', -⟩ := htouch'
  dsimp only at hleader hgroup hc₁ hc₁'
  subst hleader
  cases s' with
  | some s => rfl
  | none =>
    dsimp only
    unfold replicaServer
    rw [hgroup, hc₁, hc₁']

/-! ## Coverage -/

theorem mem_markCompleted {node : Option NodeId} :
    r ∈ (cov.markCompleted p term position node).completed ↔ r ∈ cov.completed ∨ r = p := by
  unfold markCompleted
  split_ifs with h
  · exact ⟨Or.inl, fun hr => hr.elim id fun hr => hr ▸ h⟩
  · rw [(sortBy_perm _ _).mem_iff, mem_append, mem_singleton]

theorem mem_markUnavailable :
    r ∈ (cov.markUnavailable p).unavailable ↔ r ∈ cov.unavailable ∨ r = p := by
  unfold markUnavailable
  split_ifs with h
  · exact ⟨Or.inl, fun hr => hr.elim id fun hr => hr ▸ h⟩
  · rw [(sortBy_perm _ _).mem_iff, mem_append, mem_singleton]

def serversOf (cov : Coverage) (r : PartitionId) : List (Option NodeId) :=
  (cov.frontiers.filter fun fr => fr.partition = r).map PartitionFrontier.servedBy

theorem serversOf_markCompleted_self (cov : Coverage) (p : PartitionId) (term position : ℕ)
    (node : Option NodeId) : serversOf (cov.markCompleted p term position node) p = [node] := by
  have hperm := ((sortBy_perm (compareOn PartitionFrontier.partition)
    (cov.frontiers.filter (fun fr => fr.partition ≠ p) ++ [⟨p, term, position, node⟩])).filter
      fun fr => fr.partition = p).map PartitionFrontier.servedBy
  have hold : (cov.frontiers.filter fun fr => fr.partition ≠ p).filter
      (fun fr => fr.partition = p) = [] := by
    rw [filter_filter, filter_eq_nil_iff]
    intro fr _
    simp
  rw [filter_append, hold, nil_append, filter_cons_of_pos (by simp),
    filter_nil, map_singleton] at hperm
  exact perm_singleton.mp hperm

theorem filter_partition_ne (hr : r ≠ p) (l : List PartitionFrontier) :
    (l.filter fun fr => fr.partition ≠ p).filter (fun fr => fr.partition = r) =
      l.filter fun fr => fr.partition = r := by
  rw [filter_filter]
  refine filter_congr fun fr _ => ?_
  by_cases h : fr.partition = r
  · simp [h, hr]
  · simp [h]

theorem serversOf_markCompleted_of_ne {node n : Option NodeId}
    (hr : r ≠ p) (h : serversOf cov r = [n]) :
    serversOf (cov.markCompleted p term position node) r = [n] := by
  have hperm := ((sortBy_perm (compareOn PartitionFrontier.partition)
    (cov.frontiers.filter (fun fr => fr.partition ≠ p) ++ [⟨p, term, position, node⟩])).filter
      fun fr => fr.partition = r).map PartitionFrontier.servedBy
  rw [filter_append, filter_partition_ne hr, filter_cons_of_neg (by simpa using hr.symm),
    filter_nil, append_nil] at hperm
  unfold serversOf at h
  rw [h] at hperm
  exact perm_singleton.mp hperm

theorem serversOf_markUnavailable_of_ne (hr : r ≠ p) :
    serversOf (cov.markUnavailable p) r = serversOf cov r := by
  unfold serversOf markUnavailable
  rw [filter_partition_ne hr]

/-! ## The loop over the partitions -/

def filterOf (q : ScanQuery) : ScanFilter := ⟨q.subjectPrefix, q.afterSubject⟩

theorem visitPartition_none (hserver : c.servedBy q.readMode p = none) :
    visitPartition D q p cov g c =
      (.ok (cov.markUnavailable p, g, false), c.afterContact q.readMode p) := by
  unfold servedBy at hserver
  unfold visitPartition afterContact
  cases hdir : c.directory p with
  | none => rfl
  | some assignment =>
    rw [hdir, Option.bind_some] at hserver
    dsimp only
    unfold contactPartition
    rcases hs : c.server p assignment q.readMode with ⟨s, c₁⟩
    rw [hs] at hserver
    subst hserver
    rfl

theorem visitPartition_some (D : QueryDigests) (g : Gathered) (cov : Coverage) {s : ScanServer}
    (hserver : c.servedBy q.readMode p = some s) :
    (∃ e, collect D (c.afterContact q.readMode p) (filterOf q) p s.store q.maxDocs s.store.live g =
        .error e ∧
      visitPartition D q p cov g c = (.error (.store e), c.afterContact q.readMode p)) ∨
    (∃ g', collect D (c.afterContact q.readMode p) (filterOf q) p s.store q.maxDocs s.store.live g =
        .ok (false, g') ∧ ∃ position,
      visitPartition D q p cov g c = (.ok (cov.markCompleted p s.term position (some s.node), g',
        false), c.afterContact q.readMode p)) ∨
    (∃ g', collect D (c.afterContact q.readMode p) (filterOf q) p s.store q.maxDocs s.store.live g =
        .ok (true, g') ∧ ∃ position detail,
      visitPartition D q p cov g c =
        (.ok ((cov.markCompleted p s.term position (some s.node)).markResourceLimit detail, g',
          true), c.afterContact q.readMode p)) := by
  unfold servedBy at hserver
  unfold visitPartition afterContact
  cases hdir : c.directory p with
  | none =>
    rw [hdir] at hserver
    cases hserver
  | some assignment =>
    rw [hdir, Option.bind_some] at hserver
    dsimp only
    unfold contactPartition
    rcases hs : c.server p assignment q.readMode with ⟨s', c₁⟩
    rw [hs] at hserver
    subst hserver
    dsimp [collectPartitionEntries, filterOf]
    rcases hcol : c₁.collect D ⟨q.subjectPrefix, q.afterSubject⟩ p s.store q.maxDocs s.store.live g
      with e | ⟨hit, g'⟩
    · exact .inl ⟨e, rfl, rfl⟩
    · cases hit with
      | false => exact .inr (.inl ⟨g', rfl, _, rfl⟩)
      | true => exact .inr (.inr ⟨g', rfl, _, _, rfl⟩)

def contacts (c : ClusterState) (mode : ReadMode) (ps : List PartitionId) : ClusterState :=
  ps.foldl (fun c p => c.afterContact mode p) c

theorem touches_contacts (c : ClusterState) (mode : ReadMode) (ps : List PartitionId) :
    Touches ps c (c.contacts mode ps) := by
  induction ps generalizing c with
  | nil => exact .refl [] c
  | cons p ps ih => exact (touches_afterContact c mode p).trans (ih _)

/-- The selected subjects of the partition at its server. -/
def matchesIn (D : QueryDigests) (c : ClusterState) (q : ScanQuery) (p : PartitionId)
    (s : ScanServer) : List String :=
  c.matching D (filterOf q) p s.store.live

def foundIn (D : QueryDigests) (c : ClusterState) (q : ScanQuery) (p : PartitionId) :
    List (String × Bytes) :=
  match c.servedBy q.readMode p with
  | some s => (c.matchesIn D q p s).filterMap s.store.entryOf
  | none => []

/-- What the loop over the partitions has done. -/
structure Visited (D : QueryDigests) (c : ClusterState) (q : ScanQuery) (ps : List PartitionId)
    (cov cov' : Coverage) (g g' : Gathered) : Prop where
  entries : g'.entries = g.entries ++ ps.flatMap (c.foundIn D q)
  clean : ∀ p ∈ ps, ∀ s, c.servedBy q.readMode p = some s →
    ∀ t ∈ c.matchesIn D q p s, s.store.Clean t
  served : ∀ p ∈ ps, ∀ s, c.servedBy q.readMode p = some s →
    p ∈ cov'.completed ∧ serversOf cov' p = [some s.node]
  unavailable : ∀ p ∈ ps, c.servedBy q.readMode p = none → p ∈ cov'.unavailable
  others : ∀ r, r ∉ ps → (r ∈ cov'.completed ↔ r ∈ cov.completed) ∧
    (r ∈ cov.unavailable → r ∈ cov'.unavailable) ∧
    ∀ n, serversOf cov r = [n] → serversOf cov' r = [n]
  requested : cov'.requested = cov.requested
  readMode : cov'.readMode = cov.readMode
  tiersExcluded : cov'.tiersExcluded = cov.tiersExcluded

variable {q : ScanQuery} {ps : List PartitionId} {cov cov' : Coverage} {g₁ : Gathered}

theorem partition_of_mem_matching (h : s ∈ c.matching D f p l) : c.partitionForSubject D s = p := by
  have hsel := (mem_filter.mp h).2
  unfold selects at hsel
  rw [decide_eq_true_eq] at hsel
  exact hsel.1

theorem fresh_eq_matching
    (hseen : ∀ s ∈ seen, c.partitionForSubject D s ≠ p) :
    c.fresh D f p l seen = c.matching D f p l := by
  refine filter_eq_self.mpr fun s hs => ?_
  rw [decide_eq_true_eq]
  exact fun hmem => hseen s hmem (partition_of_mem_matching hs)

theorem matchesIn_of_touches (h : Touches qs c c') (s : ScanServer) :
    c'.matchesIn D q p s = c.matchesIn D q p s := by
  obtain ⟨raft, directory, rfl, -⟩ := h
  rfl

theorem foundIn_of_touches (h : Touches qs c c') (hp : p ∉ qs) :
    c'.foundIn D q p = c.foundIn D q p := by
  unfold foundIn
  rw [servedBy_of_touches h hp]
  cases c.servedBy q.readMode p with
  | none => rfl
  | some s =>
    dsimp only
    rw [matchesIn_of_touches h]

/-- Contacting one partition leaves the servers of the others. -/
theorem servedBy_afterContact {mode : ReadMode} (hp : p ∉ ps) (hr : r ∈ ps) :
    (c.afterContact mode p).servedBy mode r = c.servedBy mode r := by
  refine servedBy_of_touches (touches_afterContact c mode p) (fun hrp => hp ?_) mode
  exact mem_singleton.mp hrp ▸ hr

theorem foundIn_afterContact (hp : p ∉ ps) :
    ps.flatMap ((c.afterContact q.readMode p).foundIn D q) = ps.flatMap (c.foundIn D q) := by
  refine flatMap_congr fun r hr => ?_
  refine foundIn_of_touches (touches_afterContact c q.readMode p) fun hrp => hp ?_
  exact mem_singleton.mp hrp ▸ hr

theorem resourceLimit_visitAll (h : visitAll D q ps stopped cov g c = (.ok (cov', g'), c'))
    (hlimit : cov.resourceLimitReached = true) : cov'.resourceLimitReached = true := by
  induction ps generalizing stopped cov g c with
  | nil =>
    obtain ⟨hok, -⟩ := Prod.mk.inj h
    cases hok
    exact hlimit
  | cons p ps ih =>
    cases stopped with
    | true =>
      refine ih h ?_
      unfold skipPartition
      split_ifs <;> exact hlimit
    | false =>
      rw [visitAll] at h
      cases hserver : c.servedBy q.readMode p with
      | none =>
        rw [visitPartition_none hserver] at h
        exact ih h hlimit
      | some s =>
        rcases visitPartition_some D g cov hserver with ⟨e, -, heq⟩ |
          ⟨g₁, -, position, heq⟩ | ⟨g₁, -, position, detail, heq⟩
        · rw [heq] at h
          cases h
        · rw [heq] at h
          exact ih h hlimit
        · rw [heq] at h
          exact ih h rfl

/-- The loop over a partition and then over the others. -/
theorem Visited.cons {cov₁ : Coverage} (hp : p ∉ ps) (hfirst : Visited D c q [p] cov cov₁ g g₁)
    (h : Visited D (c.afterContact q.readMode p) q ps cov₁ cov' g₁ g') :
    Visited D c q (p :: ps) cov cov' g g' := by
  have htouch := touches_afterContact c q.readMode p
  obtain ⟨hpcompleted, hpunavailable, hpservers⟩ := h.others p hp
  constructor
  · rw [h.entries, hfirst.entries, flatMap_singleton, flatMap_cons, append_assoc,
      foundIn_afterContact hp]
  · intro r hr s hs t ht
    rcases mem_cons.mp hr with rfl | hr
    · exact hfirst.clean r mem_cons_self s hs t ht
    · rw [← matchesIn_of_touches htouch] at ht
      exact h.clean r hr s ((servedBy_afterContact hp hr).trans hs) t ht
  · intro r hr s hs
    rcases mem_cons.mp hr with rfl | hr
    · obtain ⟨hcompleted, hservers⟩ := hfirst.served r mem_cons_self s hs
      exact ⟨hpcompleted.mpr hcompleted, hpservers _ hservers⟩
    · exact h.served r hr s ((servedBy_afterContact hp hr).trans hs)
  · intro r hr hs
    rcases mem_cons.mp hr with rfl | hr
    · exact hpunavailable (hfirst.unavailable r mem_cons_self hs)
    · exact h.unavailable r hr ((servedBy_afterContact hp hr).trans hs)
  · intro r hr
    rw [mem_cons, not_or] at hr
    obtain ⟨hcompleted, hunav, hservers⟩ := h.others r hr.2
    obtain ⟨hcompleted₁, hunav₁, hservers₁⟩ := hfirst.others r (by simpa using hr.1)
    exact ⟨hcompleted.trans hcompleted₁, hunav ∘ hunav₁, fun n hn => hservers n (hservers₁ n hn)⟩
  · exact h.requested.trans hfirst.requested
  · exact h.readMode.trans hfirst.readMode
  · exact h.tiersExcluded.trans hfirst.tiersExcluded

theorem Visited.of_none (hserver : c.servedBy q.readMode p = none) :
    Visited D c q [p] cov (cov.markUnavailable p) g g := by
  constructor
  · simp [foundIn, hserver]
  · simp [hserver]
  · simp [hserver]
  · simp [mem_markUnavailable]
  · intro r hr
    rw [mem_singleton] at hr
    exact ⟨by simp [markUnavailable, hr], fun h => mem_markUnavailable.mpr (.inl h),
      fun n hn => (serversOf_markUnavailable_of_ne hr).trans hn⟩
  · rfl
  · rfl
  · rfl

theorem Visited.of_some {s : ScanServer} (hserver : c.servedBy q.readMode p = some s)
    (hentries : g₁.entries = g.entries ++ c.foundIn D q p)
    (hclean : ∀ t ∈ c.matchesIn D q p s, s.store.Clean t) :
    Visited D c q [p] cov (cov.markCompleted p s.term position (some s.node)) g g₁ := by
  constructor
  · simp [hentries]
  · simpa [hserver] using hclean
  · simp [hserver, mem_markCompleted, serversOf_markCompleted_self]
  · simp [hserver]
  · intro r hr
    rw [mem_singleton] at hr
    exact ⟨by simp [mem_markCompleted, hr], fun h => by simpa [markCompleted, hr] using h,
      fun n hn => serversOf_markCompleted_of_ne hr hn⟩
  · rfl
  · rfl
  · rfl

theorem collected {s : ScanServer} (hserver : c.servedBy q.readMode p = some s)
    (hg₁ : g₁ = g.add s.store (c.matchesIn D q p s)) :
    g₁.entries = g.entries ++ c.foundIn D q p ∧
      ∀ t ∈ g₁.seen, t ∈ g.seen ∨ c.partitionForSubject D t = p := by
  subst hg₁
  refine ⟨?_, fun t ht => ?_⟩
  · rw [foundIn, hserver]
    rfl
  · rcases mem_append.mp ht with ht | ht
    · exact .inr (partition_of_mem_matching (mem_reverse.mp ht))
    · exact .inl ht

theorem partitionForSubject_of_touches (h : Touches qs c c') (s : String) :
    c'.partitionForSubject D s = c.partitionForSubject D s := by
  obtain ⟨raft, directory, rfl, -⟩ := h
  rfl

theorem fresh_eq_matchesIn (s : ScanServer) (hseen : ∀ t ∈ g.seen, c.partitionForSubject D t ≠ p) :
    fresh D (c.afterContact q.readMode p) (filterOf q) p s.store.live g.seen =
      c.matchesIn D q p s := by
  have htouch := touches_afterContact c q.readMode p
  rw [fresh_eq_matching fun t ht => ?_]
  · exact matchesIn_of_touches htouch s
  · rw [partitionForSubject_of_touches htouch]
    exact hseen t ht

theorem seen_of_cons {k : Gathered} (hp : p ∉ ps)
    (hseen : ∀ s ∈ g.seen, c.partitionForSubject D s ∉ p :: ps)
    (hk : ∀ t ∈ k.seen, t ∈ g.seen ∨ c.partitionForSubject D t = p) :
    ∀ s ∈ k.seen, (c.afterContact q.readMode p).partitionForSubject D s ∉ ps := by
  intro t ht
  rw [partitionForSubject_of_touches (touches_afterContact c q.readMode p)]
  rcases hk t ht with ht | ht
  · exact fun hmem => hseen t ht (mem_cons_of_mem p hmem)
  · rw [ht]
    exact hp

theorem visitAll_spec (hnodup : ps.Nodup) (hseen : ∀ s ∈ g.seen, c.partitionForSubject D s ∉ ps)
    (h : visitAll D q ps false cov g c = (.ok (cov', g'), c'))
    (hlimit : cov'.resourceLimitReached = false) :
    Visited D c q ps cov cov' g g' ∧ c' = c.contacts q.readMode ps := by
  induction ps generalizing cov g c with
  | nil =>
    obtain ⟨hok, rfl⟩ := Prod.mk.inj h
    cases hok
    refine ⟨⟨(append_nil _).symm, ?_, ?_, ?_, fun r _ => ⟨Iff.rfl, id, fun _ => id⟩, rfl, rfl,
      rfl⟩, rfl⟩
    all_goals
      intro r hr
      cases hr
  | cons p ps ih =>
    obtain ⟨hp, hnodup⟩ := nodup_cons.mp hnodup
    rw [visitAll] at h
    cases hserver : c.servedBy q.readMode p with
    | none =>
      rw [visitPartition_none hserver] at h
      have hrest := seen_of_cons (q := q) (k := g) hp hseen fun _ ht => .inl ht
      obtain ⟨hvisited, hc'⟩ := ih hnodup hrest h
      exact ⟨.cons hp (.of_none hserver) hvisited, hc'⟩
    | some s =>
      rcases visitPartition_some D g cov hserver with ⟨e, -, heq⟩ |
        ⟨g₁, hcol, position, heq⟩ | ⟨g₁, -, position, detail, heq⟩
      · rw [heq] at h
        cases h
      · rw [heq] at h
        have hfresh := fresh_eq_matchesIn (D := D) (g := g) (q := q) s fun t ht heq =>
          hseen t ht (heq ▸ mem_cons_self)
        obtain ⟨hg₁, hclean⟩ := collect_spec (subjects_nodup s.store) hcol
        rw [hfresh] at hg₁ hclean
        obtain ⟨hentries, hseen₁⟩ := collected hserver hg₁
        obtain ⟨hvisited, hc'⟩ := ih hnodup (seen_of_cons hp hseen hseen₁) h
        exact ⟨.cons hp (.of_some hserver hentries hclean) hvisited, hc'⟩
      · rw [heq] at h
        rw [resourceLimit_visitAll h rfl] at hlimit
        cases hlimit

theorem resourceLimit_unlimited (hdocs : q.maxDocs = none)
    (h : visitAll D q ps false cov g c = (.ok (cov', g'), c')) :
    cov'.resourceLimitReached = cov.resourceLimitReached := by
  induction ps generalizing cov g c with
  | nil =>
    obtain ⟨hok, -⟩ := Prod.mk.inj h
    cases hok
    rfl
  | cons p ps ih =>
    rw [visitAll] at h
    cases hserver : c.servedBy q.readMode p with
    | none =>
      rw [visitPartition_none hserver] at h
      have hrest := ih h
      exact hrest
    | some s =>
      rcases visitPartition_some D g cov hserver with ⟨e, -, heq⟩ |
        ⟨g₁, -, position, heq⟩ | ⟨g₁, hcol, -⟩
      · rw [heq] at h
        cases h
      · rw [heq] at h
        have hrest := ih h
        exact hrest
      · rw [hdocs] at hcol
        cases collect_unlimited hcol

theorem visitAll_of_clean (cov : Coverage) (hdocs : q.maxDocs = none) (hnodup : ps.Nodup)
    (hseen : ∀ s ∈ g.seen, c.partitionForSubject D s ∉ ps)
    (hclean : ∀ p ∈ ps, ∀ s, c.servedBy q.readMode p = some s →
      ∀ t ∈ c.matchesIn D q p s, s.store.Clean t) :
    ∃ cov' g' c', visitAll D q ps false cov g c = (.ok (cov', g'), c') ∧
      cov'.resourceLimitReached = cov.resourceLimitReached := by
  induction ps generalizing cov g c with
  | nil => exact ⟨cov, g, c, rfl, rfl⟩
  | cons p ps ih =>
    obtain ⟨hp, hnodup⟩ := nodup_cons.mp hnodup
    have htouch := touches_afterContact c q.readMode p
    have hrest : ∀ r ∈ ps, ∀ s, (c.afterContact q.readMode p).servedBy q.readMode r = some s →
        ∀ t ∈ (c.afterContact q.readMode p).matchesIn D q r s, s.store.Clean t := by
      intro r hr s hs t ht
      rw [matchesIn_of_touches htouch] at ht
      rw [servedBy_afterContact hp hr] at hs
      exact hclean r (mem_cons_of_mem p hr) s hs t ht
    rw [visitAll]
    cases hserver : c.servedBy q.readMode p with
    | none =>
      rw [visitPartition_none hserver]
      exact ih _ hnodup (seen_of_cons (k := g) hp hseen fun _ ht => .inl ht) hrest
    | some s =>
      have hfresh := fresh_eq_matchesIn (D := D) (g := g) (q := q) s fun t ht heq =>
        hseen t ht (heq ▸ mem_cons_self)
      have hcol := collect_of_clean (D := D) (c := c.afterContact q.readMode p) (f := filterOf q)
        (p := p) (g := g) (subjects_nodup s.store) (by
          rw [hfresh]
          exact hclean p mem_cons_self s hserver)
      rw [hfresh] at hcol
      obtain ⟨-, hseen₁⟩ := collected hserver rfl
      rcases visitPartition_some D g cov hserver with ⟨e, hcol', -⟩ |
        ⟨g₁, hcol', position, heq⟩ | ⟨g₁, hcol', -⟩
      · rw [hdocs, hcol] at hcol'
        cases hcol'
      · rw [hdocs, hcol] at hcol'
        cases hcol'
        rw [heq]
        exact ih _ hnodup (seen_of_cons hp hseen hseen₁) hrest
      · rw [hdocs, hcol] at hcol'
        cases hcol'

end ClusterState

end Residiuum.Cluster
