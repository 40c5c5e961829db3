import Residiuum.Cluster.ScanHonest

/-!
# Paged scans

The pages of a scan of a cluster that does not change are the merged entries cut into pieces: the
token behind a page names its last subject, so the next page starts right behind it.

* **`paged_scan_eq`**: the pages of a scan are, one after the other, the entries of a scan in one
  call.
-/

namespace Residiuum.Cluster

open ByteLib ClusterState DistinctLib List Nat Option QueryContinuation Std TreeMap UInt64

variable {visits : List PartitionId} {node : NodeId} {i docs : ℕ} {a t : String}
  {limit : Option UInt64} {α : Type} {pageSize : UInt64} {entries : List (String × Bytes)}
  {after : Option String} {order : ℕ → Option (List PartitionId)} {e : String × Bytes}

namespace ClusterState

variable {D : QueryDigests} {c c' : ClusterState} {o : ScanOptions} {p : PartitionId}
  {mode : ReadMode} {q q' : ScanQuery} {ps : List PartitionId} {token : Option Bytes}
  {l : List α} {k : QueryContinuation} {n j : ℕ} {cov : Coverage}

/-! ## Clusters that do not change -/

/-- Every partition of the scope is reachable, and whatever partitions of the scope are contacted,
the same node goes on serving it. -/
def Unchanging (c : ClusterState) (mode : ReadMode) (ps : List PartitionId) : Prop :=
  ∀ p ∈ ps, ∃ node, ∀ visits : List PartitionId, (∀ r ∈ visits, r ∈ ps) →
    ((c.contacts mode visits).servedBy mode p).map ScanServer.node = some node

theorem contacts_append (c : ClusterState) (mode : ReadMode) (ps qs : List PartitionId) :
    c.contacts mode (ps ++ qs) = (c.contacts mode ps).contacts mode qs := foldl_append

theorem Unchanging.servedBy (h : c.Unchanging mode ps) (hv : ∀ r ∈ visits, r ∈ ps) (hp : p ∈ ps) :
    ∃ s s', c.servedBy mode p = some s ∧ (c.contacts mode visits).servedBy mode p = some s' ∧
      s'.store = s.store := by
  obtain ⟨node, hnode⟩ := h p hp
  obtain ⟨s, hs, hsnode⟩ := map_eq_some_iff.mp (hnode [] fun r hr => by cases hr)
  obtain ⟨s', hs', hsnode'⟩ := map_eq_some_iff.mp (hnode visits hv)
  refine ⟨s, s', hs, hs', ?_⟩
  obtain ⟨raft, directory, hc', -⟩ := touches_contacts c mode visits
  have hfirst : c.servedBy mode p = some s := hs
  have hstore := servedBy_store hfirst
  have hstore' := servedBy_store hs'
  rw [hc', hsnode', ← hsnode] at hstore'
  exact some.inj (hstore'.symm.trans hstore)

theorem Unchanging.foundIn (h : c.Unchanging q.readMode ps)
    (hv : ∀ r ∈ visits, r ∈ ps) (hp : p ∈ ps) :
    (c.contacts q.readMode visits).foundIn D q p = c.foundIn D q p := by
  obtain ⟨s, s', hs, hs', hstore⟩ := h.servedBy hv hp
  obtain ⟨raft, directory, hc', -⟩ := touches_contacts c q.readMode visits
  unfold ClusterState.foundIn
  rw [hs, hs']
  dsimp [matchesIn]
  rw [hstore, hc']
  rfl

section

variable (h : ¬ (mode = .linearizable ∧ c.consistencyMode ≠ .convergentAppend))

include h

theorem afterContact_of_replica (p : PartitionId) : c.afterContact mode p = c := by
  unfold afterContact
  split
  · rfl
  · unfold server leaderServer
    rw [if_neg h]

theorem contacts_of_replicas (visits : List PartitionId) : c.contacts mode visits = c := by
  induction visits with
  | nil => rfl
  | cons p visits ih =>
    unfold contacts at ih ⊢
    rw [foldl_cons, afterContact_of_replica h, ih]

theorem unchanging_of_replicas (hserved : ∀ p ∈ ps, (c.servedBy mode p).isSome) : c.Unchanging mode
    ps := by
  intro p hp
  obtain ⟨s, hs⟩ := isSome_iff_exists.mp (hserved p hp)
  refine ⟨s.node, fun visits _ => ?_⟩
  rw [contacts_of_replicas h, hs]
  rfl

end

def LedBy (c : ClusterState) (p : PartitionId) (node : NodeId) : Prop :=
  c.consistencyMode ≠ .convergentAppend ∧ (c.directory p).isSome ∧ node ∈ c.nodes ∧
    ∃ slot term, c.raft p = some slot ∧ slot.group.currentLeader = some (node, term)

section

variable (h : c.LedBy p node)

include h

theorem LedBy.ensure : ∃ term, (c.ensurePartitionLeader p).1 = .ok (node, term) ∧
    (c.ensurePartitionLeader p).2.LedBy p node := by
  obtain ⟨hmode, hdir, hnode, slot, term, hslot, hlead⟩ := h
  have honline : node ∈ c.nodes.keys := mem_keys.mpr hnode
  have hensure : slot.group.ensureLeaderPreferring c.nodes.keys
      ((c.directory p).map PartitionAssignment.leader) = (.ok (node, term), slot.group) := by
    unfold PartitionRaft.ensureLeaderPreferring
    rw [hlead]
    exact if_pos honline
  refine ⟨term, ?_, ?_⟩
  · unfold ensurePartitionLeader
    rw [hslot]
    dsimp only
    rw [hensure]
  · unfold ensurePartitionLeader
    rw [hslot]
    dsimp only
    rw [hensure]
    refine ⟨hmode, ?_, hnode, slot, term, ?_, hlead⟩
    · dsimp only
      rw [Function.update_self, isSome_map]
      exact hdir
    · exact Function.update_self p _ _

theorem LedBy.leaderServer : (c.leaderServer p .linearizable).1.map ScanServer.node = some node ∧
    (c.leaderServer p .linearizable).2.LedBy p node := by
  obtain ⟨term, hres, hled⟩ := h.ensure
  unfold ClusterState.leaderServer
  rw [if_pos ⟨rfl, h.1⟩]
  rcases hensure : c.ensurePartitionLeader p with ⟨res, c₁⟩
  rw [hensure] at hres hled
  subst hres
  refine ⟨?_, hled⟩
  dsimp only
  obtain ⟨store, hstore⟩ := isSome_iff_exists.mp
    ((contains_eq_isSome_getElem? (t := c₁.nodes)).symm.trans
      (contains_iff_mem.mpr hled.2.2.1))
  rw [hstore]
  rfl

theorem LedBy.servedBy : (c.servedBy .linearizable p).map ScanServer.node = some node := by
  obtain ⟨assignment, hdir⟩ := isSome_iff_exists.mp h.2.1
  have hserver := h.leaderServer.1
  unfold ClusterState.servedBy server
  rw [hdir, bind_some]
  rcases hl : c.leaderServer p .linearizable with ⟨(_ | s), c₁⟩
  · rw [hl] at hserver
    cases hserver
  · rw [hl] at hserver
    exact hserver

theorem LedBy.afterContact (r : PartitionId) : (c.afterContact .linearizable r).LedBy p node := by
  by_cases hr : r = p
  · subst hr
    obtain ⟨assignment, hdir⟩ := isSome_iff_exists.mp h.2.1
    obtain ⟨hserver, hled⟩ := h.leaderServer
    unfold afterContact server
    rw [hdir]
    rcases hl : c.leaderServer r .linearizable with ⟨(_ | s), c₁⟩
    · rw [hl] at hserver
      cases hserver
    · rw [hl] at hled
      exact hled
  · obtain ⟨raft, directory, hc, hoff⟩ := touches_afterContact c .linearizable r
    obtain ⟨hraft, hdir⟩ := hoff p fun hp => hr (mem_singleton.mp hp).symm
    obtain ⟨hmode, hassigned, hnode, slot, term, hslot, hlead⟩ := h
    rw [hc]
    refine ⟨hmode, ?_, hnode, slot, term, hraft.trans hslot, hlead⟩
    dsimp only
    rw [hdir]
    exact hassigned

theorem LedBy.contacts (visits : List PartitionId) : (c.contacts .linearizable visits).LedBy p node
    := by
  induction visits generalizing c with
  | nil => exact h
  | cons r visits ih => exact ih (h.afterContact r)

end

theorem unchanging_of_leaders (hled : ∀ p ∈ ps, ∃ node, c.LedBy p node) :
    c.Unchanging .linearizable ps := by
  intro p hp
  obtain ⟨node, hnode⟩ := hled p hp
  exact ⟨node, fun visits _ => (hnode.contacts visits).servedBy⟩

/-! ## Merged entries -/

/-- The entries in scope, in the order of their subjects. -/
def merged (D : QueryDigests) (c : ClusterState) (q : ScanQuery) (ps : List PartitionId) :
    List (String × Bytes) :=
  sortEntries (ps.flatMap (c.foundIn D q))

theorem eq_of_compare {l : List (String × Bytes)} (hnodup : (l.map Prod.fst).Nodup) :
    ∀ a ∈ l, ∀ b ∈ l, compareOn (fun e : String × Bytes => utf8 e.1) a b = .eq → a = b := by
  intro a ha b hb hab
  have hutf8 : utf8 a.1 = utf8 b.1 := compare_eq_iff_eq.mp hab
  exact inj_on_of_nodup_map hnodup ha hb (utf8_injective hutf8)

theorem merged_of_perm {visit : List PartitionId} (hperm : visit.Perm ps) (hnodup : ps.Nodup) :
    sortEntries (visit.flatMap (c.foundIn D q)) = c.merged D q ps :=
  sortBy_eq_of_perm (hperm.flatMap_right _)
    (eq_of_compare (foundIn_nodup (hperm.nodup_iff.mpr hnodup)))

theorem merged_pairwise (hnodup : ps.Nodup) :
    (c.merged D q ps).Pairwise fun a b => utf8 a.1 < utf8 b.1 := by
  have hperm := sortBy_perm (compareOn fun e : String × Bytes => utf8 e.1)
    (ps.flatMap (c.foundIn D q))
  have hdistinct : ((c.merged D q ps).map Prod.fst).Nodup :=
    (hperm.map _).nodup_iff.mpr (foundIn_nodup hnodup)
  have hne : (c.merged D q ps).Pairwise fun a b => a.1 ≠ b.1 := pairwise_map.mp hdistinct
  have hle : (c.merged D q ps).Pairwise fun a b =>
      (compareOn (fun e : String × Bytes => utf8 e.1) a b).isLE = true := sortBy_pairwise _
  refine (hle.and hne).imp fun {a b} h => ?_
  obtain ⟨hab, hab'⟩ := h
  rw [← compare_eq_lt_iff]
  cases hcmp : compare (utf8 a.1) (utf8 b.1) with
  | lt => rfl
  | eq => exact absurd (utf8_injective (compare_eq_iff_eq.mp hcmp)) hab'
  | gt =>
    rw [compareOn, hcmp] at hab
    cases hab

theorem filter_gt_eq_drop {W : List (String × Bytes)}
    (hW : W.Pairwise fun a b => utf8 a.1 < utf8 b.1) (he : W[i]? = some e) :
    W.filter (fun x => ¬ utf8 x.1 ≤ utf8 e.1) = W.drop (i + 1) := by
  induction W generalizing i with
  | nil => cases he
  | cons x W ih =>
    obtain ⟨hx, hW⟩ := pairwise_cons.mp hW
    cases i with
    | zero =>
      cases he
      rw [filter_cons_of_neg (by simp), drop_succ_cons, drop_zero]
      refine filter_eq_self.mpr fun y hy => ?_
      rw [decide_eq_true_eq, List.not_le]
      exact hx y hy
    | succ i =>
      rw [getElem?_cons_succ] at he
      have hlt := hx e (mem_of_getElem? he)
      rw [filter_cons_of_neg (by simpa using le_of_lt hlt), drop_succ_cons]
      exact ih hW he

theorem filterMap_entryOf_filter (store : LiveStore) (P : String → Bool) (ts : List String) :
    (ts.filter P).filterMap store.entryOf =
      (ts.filterMap store.entryOf).filter fun e => P e.1 := by
  rw [filterMap_filter, filter_filterMap]
  refine filterMap_congr fun t _ => ?_
  rcases store.entryOf_cases t with h | ⟨v, h⟩
  · simp [h]
  · simp [h, filter_some]

theorem selects_after {f : ScanFilter} (ha : f.afterSubject.all fun b => ¬ utf8 a ≤ utf8 b) :
    c.selects D { f with afterSubject := some a } p t =
      (c.selects D f p t && decide (¬ utf8 t ≤ utf8 a)) := by
  unfold selects
  rw [← Bool.decide_and, decide_eq_decide]
  rw [and_assoc, and_assoc]
  refine and_congr_right fun _ => and_congr_right fun _ => ?_
  rw [all_some, decide_eq_true_eq]
  refine ⟨fun ht => ⟨?_, ht⟩, fun ht => ht.2⟩
  cases hf : f.afterSubject with
  | none => rfl
  | some b =>
    rw [hf, all_some, decide_eq_true_eq, List.not_le] at ha
    rw [all_some, decide_eq_true_eq, List.not_le]
    exact lt_trans ha (not_le.mp ht)

def behind (q : ScanQuery) (a : String) (limit : Option UInt64) : ScanQuery :=
  { q with afterSubject := some a, limit := limit }

theorem matchesIn_behind (s : ScanServer) (ha : q.afterSubject.all fun b => ¬ utf8 a ≤ utf8 b) :
    c.matchesIn D (behind q a limit) p s =
      (c.matchesIn D q p s).filter fun t => ¬ utf8 t ≤ utf8 a := by
  unfold matchesIn matching
  rw [List.filter_filter]
  refine filter_congr fun t _ => ?_
  rw [Bool.and_comm]
  exact selects_after (f := filterOf q) ha

theorem foundIn_behind
    (ha : q.afterSubject.all fun b => ¬ utf8 a ≤ utf8 b) :
    c.foundIn D (behind q a limit) p =
      (c.foundIn D q p).filter fun e => ¬ utf8 e.1 ≤ utf8 a := by
  unfold foundIn
  have hmode : (behind q a limit).readMode = q.readMode := rfl
  rw [hmode]
  cases c.servedBy q.readMode p with
  | none => rfl
  | some s =>
    dsimp only
    rw [matchesIn_behind s ha]
    exact filterMap_entryOf_filter s.store (fun t => ¬ utf8 t ≤ utf8 a) (c.matchesIn D q p s)

theorem mem_merged (he : e ∈ c.merged D q ps) :
    q.afterSubject.all fun b => ¬ utf8 e.1 ≤ utf8 b := by
  obtain ⟨p, -, s, -, hmatch, -⟩ := mem_flatMap_foundIn.mp ((sortBy_perm _ _).mem_iff.mp he)
  have hsel := (mem_filter.mp hmatch).2
  unfold selects at hsel
  rw [decide_eq_true_eq] at hsel
  exact hsel.2.2

theorem merged_behind (hnodup : ps.Nodup)
    (limit : Option UInt64) (he : (c.merged D q ps)[i]? = some e) :
    c.merged D (behind q e.1 limit) ps = (c.merged D q ps).drop (i + 1) := by
  have ha := mem_merged (mem_of_getElem? he)
  rw [← filter_gt_eq_drop (merged_pairwise hnodup) he]
  have hflat : ps.flatMap (c.foundIn D (behind q e.1 limit)) =
      (ps.flatMap (c.foundIn D q)).filter fun x => ¬ utf8 x.1 ≤ utf8 e.1 := by
    rw [filter_flatMap]
    exact flatMap_congr fun p _ => foundIn_behind ha
  unfold merged sortEntries
  rw [hflat]
  exact sortBy_filter _ (eq_of_compare (foundIn_nodup hnodup))

/-! ## One page -/

/-- The entries up to an overall limit. -/
def takeLimit {α : Type} (limit : Option UInt64) (l : List α) : List α :=
  match limit with
  | some n => l.take n.toNat
  | none => l

/-- The limit behind the first `i` entries. -/
def limitAt (limit : Option UInt64) (i : ℕ) : Option UInt64 :=
  limit.map fun l => UInt64.ofNat (l.toNat - i)

theorem toNat_ofNat_sub (l : UInt64) (i : ℕ) : (ofNat (l.toNat - i)).toNat = l.toNat - i :=
  UInt64.toNat_ofNat_of_lt' (Nat.lt_of_le_of_lt (sub_le _ _) l.toNat_lt)

theorem takeLimit_drop (limit : Option UInt64) (l : List α) (i : ℕ) :
    takeLimit (limitAt limit i) (l.drop i) = (takeLimit limit l).drop i := by
  cases limit with
  | none => rfl
  | some n =>
    unfold takeLimit limitAt
    rw [map_some]
    dsimp only
    rw [toNat_ofNat_sub, drop_take]

theorem length_fields (k : QueryContinuation) :
    k.fields.length = 37 + (utf8 k.queryId).length + (utf8 k.afterSubject).length +
      (utf8 (k.subjectPrefix.getD "")).length + 4 * k.partitions.length := by
  unfold fields textField optUsizeLe
  simp only [length_append, length_cons, length_leBytes, length_flatMap_leBytes]
  omega

theorem fits_nextPage {count count' docs' : ℕ}
    (hid : q.queryId = q'.queryId) (hbound : q.subjectPrefix = q'.subjectPrefix)
    (hscope : q.requested = q'.requested) (h : (nextPage q' pageSize a count' docs').Fits) :
    (nextPage q pageSize a count docs).Fits := by
  have hsize := h.size
  rw [length_fields] at hsize
  refine ⟨h.subject, ?_, ?_⟩
  · have hlength := h.scope
    dsimp only [nextPage] at hlength ⊢
    rw [hscope]
    exact hlength
  · rw [length_fields]
    dsimp only [nextPage] at hsize ⊢
    rw [hid, hbound, hscope]
    exact hsize

theorem exists_token (hpos : k.pageSize ≠ 0)
    (hmax : k.pageSize ≤ MAX_FIND_PAGE_SIZE) (hfits : k.Fits) (clusterId : Arr 16)
    (keyring : ContinuationKeyring) :
    ∃ token, k.encode D clusterId keyring = .ok token ∧
      decode D clusterId keyring token = .ok k.normal := by
  have htoken := encode_of_fits D clusterId keyring hpos hmax hfits
  exact ⟨_, htoken, decode_encode hpos hmax hfits htoken⟩

theorem cutPage_more (cov : Coverage) (docs : ℕ) (hpos : pageSize ≠ 0)
    (hmax : pageSize ≤ MAX_FIND_PAGE_SIZE) (hcap : ∀ l, q.limit = some l → pageSize.toNat < l.toNat)
    (hlen : pageSize.toNat < entries.length) (he : entries[pageSize.toNat - 1]? = some e)
    (hfits : (nextPage q pageSize e.1 0 0).Fits) :
    ∃ page token, c.cutPage D q pageSize entries cov docs = .ok page ∧ page.hasMore = true ∧
      page.continuation = some token ∧ page.entries = entries.take pageSize.toNat ∧
      decode D c.clusterId c.keyring token =
        .ok (nextPage q pageSize e.1 pageSize.toNat docs).normal := by
  have hn : pageSize.toNat ≠ 0 := fun h => hpos (UInt64.toNat_inj.mp h)
  have hlast : (entries.take pageSize.toNat).getLast? = some e := by
    rw [getLast?_take, if_neg hn, he]
    rfl
  have hlength : (entries.take pageSize.toNat).length = pageSize.toNat :=
    length_take_of_le hlen.le
  have hmore : (nextPage q pageSize e.1 pageSize.toNat docs).remainingLimit ≠ some 0 := by
    cases hl : q.limit with
    | none => simp [nextPage, hl]
    | some l =>
      have hlt := hcap l hl
      simp only [nextPage, hl, map_some]
      intro hzero
      have htoNat := congrArg toNat (some.inj hzero)
      rw [toNat_ofNat_sub, UInt64.toNat_zero] at htoNat
      omega
  have hcap' : pageCap q.limit pageSize = pageSize.toNat := by
    cases hl : q.limit with
    | none => rfl
    | some l => exact min_eq_right (hcap l hl).le
  obtain ⟨token, htoken, hdecode⟩ := exists_token (D := D)
    (k := nextPage q pageSize e.1 pageSize.toNat docs) hpos hmax (fits_nextPage rfl rfl rfl hfits)
    c.clusterId c.keyring
  unfold cutPage
  rw [hcap']
  dsimp only
  rw [if_pos hlen, hlast]
  dsimp only
  rw [hlength, if_neg hmore, htoken]
  exact ⟨_, token, rfl, rfl, rfl, rfl, hdecode⟩

theorem cutPage_limit {l : UInt64}
    (hl : q.limit = some l) (hpos : l ≠ 0) (hcap : l.toNat ≤ pageSize.toNat)
    (hlen : l.toNat < entries.length) :
    ∃ page, c.cutPage D q pageSize entries cov docs = .ok page ∧ page.hasMore = false ∧
      page.continuation = none ∧ page.entries = entries.take l.toNat := by
  have hn : l.toNat ≠ 0 := fun h => hpos (UInt64.toNat_inj.mp h)
  have hcap' : pageCap q.limit pageSize = l.toNat := by
    rw [hl]
    exact min_eq_left hcap
  obtain ⟨e, he⟩ : ∃ e, (entries.take l.toNat).getLast? = some e := by
    refine ⟨_, getLast?_eq_some_getLast (l := entries.take l.toNat) ?_⟩
    rw [ne_eq, take_eq_nil_iff, not_or]
    exact ⟨hn, ne_nil_of_length_pos (by omega)⟩
  have hzero : (nextPage q pageSize e.1 (entries.take l.toNat).length docs).remainingLimit =
      some 0 := by
    rw [length_take_of_le hlen.le]
    simp [nextPage, hl]
  unfold cutPage
  rw [hcap']
  dsimp only
  rw [if_pos hlen, he]
  dsimp only
  rw [if_pos hzero]
  exact ⟨_, rfl, rfl, rfl, rfl⟩

/-- **What a page holds**: all entries up to the limit, or the first ones and a token that names the
last of them. -/
theorem cutPage_spec (hpos : pageSize ≠ 0) (hmax : pageSize ≤ MAX_FIND_PAGE_SIZE)
    (hlimit : q.limit ≠ some 0)
    (hfits : ∀ e, pageSize.toNat < (takeLimit q.limit entries).length →
      entries[pageSize.toNat - 1]? = some e → (nextPage q pageSize e.1 0 0).Fits) :
    (∃ page, c.cutPage D q pageSize entries cov docs = .ok page ∧ page.hasMore = false ∧
      page.continuation = none ∧ page.entries = takeLimit q.limit entries) ∨
    ∃ page e token, c.cutPage D q pageSize entries cov docs = .ok page ∧ page.hasMore = true ∧
      page.continuation = some token ∧ page.entries = entries.take pageSize.toNat ∧
      pageSize.toNat < (takeLimit q.limit entries).length ∧
      entries[pageSize.toNat - 1]? = some e ∧
      decode D c.clusterId c.keyring token =
        .ok (nextPage q pageSize e.1 pageSize.toNat docs).normal := by
  by_cases hmore : pageSize.toNat < (takeLimit q.limit entries).length
  · have hlen : pageSize.toNat < entries.length ∧
        ∀ l, q.limit = some l → pageSize.toNat < l.toNat := by
      cases hl : q.limit with
      | none =>
        rw [hl] at hmore
        exact ⟨hmore, fun l h => by cases h⟩
      | some l =>
        rw [hl, takeLimit, length_take, lt_min_iff] at hmore
        refine ⟨hmore.2, fun l' h => ?_⟩
        cases h
        exact hmore.1
    obtain ⟨e, he⟩ : ∃ e, entries[pageSize.toNat - 1]? = some e :=
      ⟨_, getElem?_eq_getElem (by omega)⟩
    obtain ⟨page, token, hpage, hhas, hcont, hentries, hdecode⟩ :=
      cutPage_more cov docs hpos hmax hlen.2 hlen.1 he (hfits e hmore he)
    exact .inr ⟨page, e, token, hpage, hhas, hcont, hentries, hmore, he, hdecode⟩
  · left
    -- the page takes everything up to the limit
    have hall : (∀ l, q.limit = some l → entries.length ≤ l.toNat) →
        entries.length ≤ pageSize.toNat →
        ∃ page, c.cutPage D q pageSize entries cov docs = .ok page ∧ page.hasMore = false ∧
          page.continuation = none ∧ page.entries = takeLimit q.limit entries := by
      intro hl hn
      have hcap : ¬ entries.length > pageCap q.limit pageSize := by
        cases h : q.limit with
        | none => exact Nat.not_lt.mpr hn
        | some l => exact Nat.not_lt.mpr (le_min (hl l h) hn)
      have htake : takeLimit q.limit entries = entries := by
        cases h : q.limit with
        | none => rfl
        | some l => exact take_of_length_le (hl l h)
      unfold cutPage
      rw [if_neg hcap, htake]
      exact ⟨_, rfl, rfl, rfl, rfl⟩
    cases hl : q.limit with
    | none =>
      rw [hl] at hmore hall
      exact hall (fun l h => by cases h) (Nat.not_lt.mp hmore)
    | some l =>
      rw [hl] at hmore hall hlimit
      unfold takeLimit at hmore
      rw [length_take, lt_min_iff, not_and_or, Nat.not_lt, Nat.not_lt] at hmore
      by_cases hlen : entries.length ≤ l.toNat
      · refine hall (fun l' h => ?_) ?_
        · cases h
          exact hlen
        · omega
      · refine cutPage_limit hl (fun h => hlimit (by rw [h])) ?_ (Nat.not_le.mp hlen)
        omega

/-! ## Following the tokens -/

theorem toNat_clampPage (n : UInt64) :
    (clampPage n).toNat = max 1 (min n.toNat MAX_FIND_PAGE_SIZE.toNat) := by
  have hmin (a b : UInt64) : (min a b).toNat = min a.toNat b.toNat := by
    change (if a ≤ b then a else b).toNat = _
    split_ifs with h <;> rw [le_iff_toNat_le] at h <;> omega
  have hmax (a b : UInt64) : (max a b).toNat = max a.toNat b.toNat := by
    change (if a ≤ b then b else a).toNat = _
    split_ifs with h <;> rw [le_iff_toNat_le] at h <;> omega
  rw [clampPage, hmax, hmin]
  rfl

theorem clampPage_pos (n : UInt64) : 0 < (clampPage n).toNat := by
  rw [toNat_clampPage]
  omega

theorem clampPage_ne_zero (n : UInt64) : clampPage n ≠ 0 := fun h =>
  (clampPage_pos n).ne' (congrArg toNat h)

theorem clampPage_le (n : UInt64) : clampPage n ≤ MAX_FIND_PAGE_SIZE := by
  have hmax : 1 ≤ MAX_FIND_PAGE_SIZE.toNat := by decide
  rw [le_iff_toNat_le, toNat_clampPage]
  omega

theorem clampPage_idem (n : UInt64) : clampPage (clampPage n) = clampPage n := by
  have hmax : 1 ≤ MAX_FIND_PAGE_SIZE.toNat := by decide
  rw [← UInt64.toNat_inj, toNat_clampPage, toNat_clampPage]
  omega

theorem filter_or_self (bound : Option String) : (bound.filter (· ≠ "")).or bound = bound := by
  cases bound with
  | none => rfl
  | some s =>
    rw [filter_some]
    split_ifs <;> rfl

/-- The query behind the first `i` entries, with its bound on the subjects. -/
def offsetQuery (D : QueryDigests) (c : ClusterState) (o : ScanOptions) (after : Option String)
    (i : ℕ) : ScanQuery :=
  { c.resolve D o none with afterSubject := after, limit := limitAt o.limit i }

theorem limitAt_zero (limit : Option UInt64) : limitAt limit 0 = limit := by
  cases limit with
  | none => rfl
  | some l => exact congrArg some (UInt64.ofNat_toNat)

theorem offsetQuery_zero : offsetQuery D c o o.afterSubject 0 = c.resolve D o none := by
  unfold offsetQuery
  rw [limitAt_zero]
  rfl

theorem limitAt_nextPage (hn : 0 < n) :
    (nextPage (offsetQuery D c o after i) pageSize a n docs).normal.remainingLimit.or o.limit =
      limitAt o.limit (i + n) := by
  unfold nextPage normal offsetQuery limitAt
  cases o.limit with
  | none => rfl
  | some l =>
    dsimp
    rw [toNat_ofNat_sub, Nat.sub_sub, filter_some, if_pos]
    · rfl
    · rw [decide_eq_true_eq]
      intro hmax
      have htoNat := congrArg toNat hmax
      rw [toNat_ofNat_sub] at htoNat
      have hlt := l.toNat_lt
      have hval : (0xFFFF_FFFF_FFFF_FFFF : UInt64).toNat = 2 ^ 64 - 1 := rfl
      omega

theorem resolve_nextPage (after : Option String) (a : String) (i docs : ℕ)
    (hn : 0 < n) (hpage : o.pageSize = some pageSize) (hdocs : o.maxDocsScanned = none) :
    c.resolve D o
        (some (nextPage (offsetQuery D c o after i) (clampPage pageSize) a n docs).normal) =
      offsetQuery D c o (some a) (i + n) := by
  have hbound : (nextPage (offsetQuery D c o after i) (clampPage pageSize) a n
      docs).normal.subjectPrefix.or o.subjectPrefix = o.subjectPrefix := filter_or_self _
  have hparts : (nextPage (offsetQuery D c o after i) (clampPage pageSize) a n
      docs).normal.partitions = c.scope o :=
    sortDedup_of_perm (List.Perm.refl _) (scope_pairwise c o)
  have hmax : (nextPage (offsetQuery D c o after i) (clampPage pageSize) a n
      docs).normal.remainingMaxDocs = none := by
    unfold nextPage normal offsetQuery resolve
    rw [hdocs]
    rfl
  generalize hk : (nextPage (offsetQuery D c o after i) (clampPage pageSize) a n docs).normal = k
    at hbound hparts hmax
  have hlimit : k.remainingLimit.or o.limit = limitAt o.limit (i + n) := by
    rw [← hk]
    exact limitAt_nextPage hn
  have hresolve : c.resolve D o (some k) = ⟨k.readMode, k.subjectPrefix.or o.subjectPrefix,
      some k.afterSubject, some (clampPage k.pageSize), k.remainingLimit.or o.limit,
      k.remainingMaxDocs.or o.maxDocsScanned, k.partitions, k.queryId⟩ := rfl
  rw [hresolve, hbound, hlimit, hmax, hparts, ← hk]
  unfold offsetQuery resolve
  rw [hpage]
  dsimp [nextPage, normal]
  rw [clampPage_idem]
  rfl

/-- No read of a selected subject makes the scan fail. -/
def CleanIn (D : QueryDigests) (c : ClusterState) (q : ScanQuery) (ps : List PartitionId) : Prop :=
  ∀ p ∈ ps, ∀ s, c.servedBy q.readMode p = some s → ∀ t ∈ c.matchesIn D q p s, s.store.Clean t

theorem CleanIn.behind (h : c.CleanIn D q ps) (ha : q.afterSubject.all fun b => ¬ utf8 a ≤ utf8 b) :
    c.CleanIn D (behind q a limit) ps := by
  intro p hp s hs t ht
  rw [matchesIn_behind s ha] at ht
  exact h p hp s hs t (mem_of_mem_filter ht)

theorem CleanIn.contacts (h : c.CleanIn D q ps) (hun : c.Unchanging q.readMode ps)
    (hv : ∀ r ∈ visits, r ∈ ps) : (c.contacts q.readMode visits).CleanIn D q ps := by
  intro p hp s hs t ht
  obtain ⟨s₀, s', hs₀, hs', hstore⟩ := hun.servedBy hv hp
  cases hs.symm.trans hs'
  obtain ⟨raft, directory, hc', -⟩ := touches_contacts c q.readMode visits
  rw [hc'] at ht
  have ht₀ : t ∈ c.matchesIn D q p s₀ := by
    unfold matchesIn at ht ⊢
    rw [← hstore]
    exact ht
  rw [LiveStore.Clean, hstore]
  exact h p hp s₀ hs₀ t ht₀

/-- **A call of the scan** in a state that contacts of the scope have reached: the entries are the
merged ones of the query, and the state stays such a state. -/
theorem scanQuery_spec (hun : c.Unchanging q.readMode (c.scope o)) (hdocs : q.maxDocs = none)
    (hrequested : q.requested = c.scope o) (hclean : c.CleanIn D q (c.scope o))
    (hv : ∀ r ∈ visits, r ∈ c.scope o) (o' : ScanOptions)
    (horder : ∀ visit, o'.visitOrder = some visit → visit.Perm (c.scope o)) (resumed : Bool) :
    ∃ cov g more, (∀ r ∈ more, r ∈ c.scope o) ∧
      sortEntries g.entries = c.merged D q (c.scope o) ∧
      (c.contacts q.readMode visits).scanQuery D o' q resumed =
        ((c.contacts q.readMode more).finish D q cov g, c.contacts q.readMode more) := by
  have hscope := scope_pairwise c o
  have hperm : (o'.visitOrder.getD (c.scope o)).Perm (c.scope o) := by
    cases ho : o'.visitOrder with
    | none => exact List.Perm.refl _
    | some visit => exact horder visit ho
  have hnodup : (o'.visitOrder.getD (c.scope o)).Nodup :=
    hperm.nodup_iff.mpr (nodup_of_pairwise_lt hscope)
  have hcheck : ¬ (o'.visitOrder.any fun order => sortDedup order ≠ q.requested) := by
    rw [hrequested]
    cases ho : o'.visitOrder with
    | none => exact Bool.false_ne_true
    | some visit =>
      rw [any_some, sortDedup_of_perm (horder visit ho) hscope]
      simp
  have hclean' : ∀ p ∈ o'.visitOrder.getD (c.scope o), ∀ s,
      (c.contacts q.readMode visits).servedBy q.readMode p = some s →
      ∀ t ∈ (c.contacts q.readMode visits).matchesIn D q p s, s.store.Clean t :=
    fun p hp => hclean.contacts hun hv p (hperm.mem_iff.mp hp)
  obtain ⟨cov, g, c', hvisit, hresource⟩ := visitAll_of_clean
    ((c.contacts q.readMode visits).startCoverage q resumed) (g := ⟨[], [], 0⟩) hdocs hnodup
    (fun s hs => by cases hs) hclean'
  rw [(startCoverage_spec _ q resumed).2.2.2] at hresource
  obtain ⟨hvisited, rfl⟩ := visitAll_spec hnodup (fun s hs => by cases hs) hvisit hresource
  have hentries : g.entries = (o'.visitOrder.getD (c.scope o)).flatMap (c.foundIn D q) := by
    rw [hvisited.entries, nil_append]
    exact flatMap_congr fun p hp => hun.foundIn hv (hperm.mem_iff.mp hp)
  refine ⟨cov, g, visits ++ o'.visitOrder.getD (c.scope o), ?_, ?_, ?_⟩
  · intro r hr
    exact (mem_append.mp hr).elim (hv r) fun hr => hperm.mem_iff.mp hr
  · rw [hentries]
    exact merged_of_perm hperm (nodup_of_pairwise_lt hscope)
  · unfold scanQuery
    rw [if_neg hcheck, hrequested, hvisit, contacts_append]

/-- The tokens of a scan fit: the last subject of every page that is not the last one leaves room
for the scope and the subject bound of the query. -/
def TokensFit (D : QueryDigests) (c : ClusterState) (o : ScanOptions) (pageSize : UInt64)
    (entries : List (String × Bytes)) : Prop :=
  ∀ k e, (clampPage pageSize).toNat * (k + 1) < entries.length →
    entries[(clampPage pageSize).toNat * (k + 1) - 1]? = some e →
    (nextPage (c.resolve D o none) (clampPage pageSize) e.1 0 0).Fits

theorem getElem?_takeLimit
    (hi : i < (takeLimit limit l).length) : (takeLimit limit l)[i]? = l[i]? := by
  cases limit with
  | none => rfl
  | some n =>
    unfold takeLimit at hi ⊢
    rw [length_take, lt_min_iff] at hi
    exact getElem?_take_of_lt hi.1

theorem length_takeLimit_le {n : UInt64} : (takeLimit (some n) l).length ≤ n.toNat := by
  unfold takeLimit
  rw [length_take]
  exact min_le_left _ _

/-- What following the tokens from the first `i` entries gives. -/
structure Follows (D : QueryDigests) (o : ScanOptions) (order : ℕ → Option (List PartitionId))
    (j : ℕ) (token : Option Bytes) (c : ClusterState)
    (rest : List (String × Bytes)) (pages : List FindResult) : Prop where
  ends : ∃ fuel, followPages D o order fuel j token c = some (.ok pages)
  entries : pages.flatMap FindResult.entries = rest
  hasMore : ∀ page ∈ pages, page.hasMore = page.continuation.isSome

theorem Follows.last
    {page : FindResult} (h : c.scanWith D { o with continuation := token, visitOrder := order j } =
      (.ok page, c')) (hmore : page.hasMore = false) (hcont : page.continuation = none) :
    Follows D o order j token c page.entries [page] := by
  refine ⟨⟨1, ?_⟩, by simp, fun r hr => ?_⟩
  · rw [followPages, h]
    dsimp only
    rw [hcont]
  · rw [mem_singleton.mp hr, hmore, hcont]
    rfl

theorem Follows.cons {page : FindResult} {next : Bytes} {rest : List (String × Bytes)}
    {pages : List FindResult}
    (h : c.scanWith D { o with continuation := token, visitOrder := order j } = (.ok page, c'))
    (hmore : page.hasMore = true) (hcont : page.continuation = some next)
    (hrest : Follows D o order (j + 1) (some next) c' rest pages) :
    Follows D o order j token c (page.entries ++ rest) (page :: pages) := by
  obtain ⟨fuel, hfuel⟩ := hrest.ends
  refine ⟨⟨fuel + 1, ?_⟩, ?_, ?_⟩
  · rw [followPages, h]
    dsimp only
    rw [hcont]
    dsimp only
    rw [hfuel]
    rfl
  · rw [flatMap_cons, hrest.entries]
  · refine forall_mem_cons.mpr ⟨?_, hrest.hasMore⟩
    rw [hmore, hcont]
    rfl

theorem take_takeLimit
    (hn : n ≤ (takeLimit limit l).length) : (takeLimit limit l).take n = l.take n := by
  cases limit with
  | none => rfl
  | some m =>
    unfold takeLimit at hn ⊢
    rw [length_take, Nat.le_min] at hn
    rw [take_take, min_eq_left hn.1]

/-- The scan stands behind its first `k` pages: a call with the token runs the query for the rest,
in a state that contacts of the scope have reached. -/
structure PageStart (D : QueryDigests) (c : ClusterState) (o : ScanOptions) (pageSize : UInt64)
    (k : ℕ) (token : Option Bytes) (c₁ : ClusterState) (after : Option String) : Prop where
  state : ∃ visits, (∀ r ∈ visits, r ∈ c.scope o) ∧ c₁ = c.contacts o.readMode visits
  limit : ∀ l, o.limit = some l → (clampPage pageSize).toNat * k < l.toNat
  merged : c.merged D (offsetQuery D c o after ((clampPage pageSize).toNat * k)) (c.scope o) =
    (c.merged D (c.resolve D o none) (c.scope o)).drop ((clampPage pageSize).toNat * k)
  clean : c.CleanIn D (offsetQuery D c o after ((clampPage pageSize).toNat * k)) (c.scope o)
  call : ∀ visit, c₁.scanWith D { o with continuation := token, visitOrder := visit } =
    c₁.scanQuery D { o with continuation := token, visitOrder := visit }
      (offsetQuery D c o after ((clampPage pageSize).toNat * k)) token.isSome

section

variable {W : List (String × Bytes)} {n k : ℕ}
  (hW : c.merged D (c.resolve D o none) (c.scope o) = W) (hn : (clampPage pageSize).toNat = n)
  (hpage : o.pageSize = some pageSize) (hdocs : o.maxDocsScanned = none)
  (hclean : c.CleanIn D (c.resolve D o none) (c.scope o))

include hW hn hpage hdocs hclean

theorem PageStart.next {more : List PartitionId} {token : Bytes}
    (hmore : ∀ r ∈ more, r ∈ c.scope o) (hlen : n * (k + 1) < (takeLimit o.limit W).length)
    (he : W[n * (k + 1) - 1]? = some e)
    (htoken : decode D (c.contacts o.readMode more).clusterId
        (c.contacts o.readMode more).keyring token =
      .ok (nextPage (offsetQuery D c o after (n * k)) (clampPage pageSize) e.1 n docs).normal) :
    PageStart D c o pageSize (k + 1) (some token) (c.contacts o.readMode more) (some e.1) := by
  subst hW hn
  have hn := clampPage_pos pageSize
  refine ⟨⟨more, hmore, rfl⟩, fun l hl => ?_, ?_, ?_, fun visit => ?_⟩
  · rw [hl] at hlen
    exact Nat.lt_of_lt_of_le hlen length_takeLimit_le
  · have hbehind := merged_behind (nodup_of_pairwise_lt (scope_pairwise c o))
      (limitAt o.limit ((clampPage pageSize).toNat * (k + 1))) he
    rw [Nat.sub_add_cancel (Nat.mul_pos hn (succ_pos k))] at hbehind
    exact hbehind
  · exact hclean.behind (mem_merged (mem_of_getElem? he))
  · unfold scanWith
    dsimp only
    rw [htoken]
    have hresolve := resolve_nextPage (D := D) (c := c) after e.1 ((clampPage pageSize).toNat * k)
      docs hn hpage hdocs
    obtain ⟨raft, directory, hc', -⟩ := touches_contacts c o.readMode more
    rw [mul_succ, ← hresolve, hc']
    rfl

variable (hun : c.Unchanging o.readMode (c.scope o))
  (hfits : TokensFit D c o pageSize (takeLimit o.limit W))

include hun hfits

/-- **One page of the scan**: the rest of the entries, or the next `pageSize` of them and a token
that leads on. -/
theorem PageStart.page {c₁ : ClusterState} {visit : Option (List PartitionId)}
    (h : PageStart D c o pageSize k token c₁ after)
    (hvisit : ∀ ps, visit = some ps → ps.Perm (c.scope o)) :
    ∃ page c₂, c₁.scanWith D { o with continuation := token, visitOrder := visit } =
        (.ok page, c₂) ∧
      ((page.hasMore = false ∧ page.continuation = none ∧
        page.entries = (takeLimit o.limit W).drop (n * k)) ∨
      ∃ next a, page.hasMore = true ∧ page.continuation = some next ∧
        page.entries = ((takeLimit o.limit W).drop (n * k)).take n ∧
        n * (k + 1) < (takeLimit o.limit W).length ∧
        PageStart D c o pageSize (k + 1) (some next) c₂ (some a)) := by
  obtain ⟨visits, hvisits, rfl⟩ := h.state
  have hpos := clampPage_pos pageSize
  have hmerged := h.merged
  have hbelow := h.limit
  have hcleanq := h.clean
  have hquery := h.call visit
  rw [hn] at hpos hmerged hbelow hcleanq hquery
  rw [hW] at hmerged
  set i := n * k with hi
  set q := offsetQuery D c o after i with hq
  have hlimit : q.limit = limitAt o.limit i := rfl
  have hlimit0 : q.limit ≠ some 0 := by
    rw [hlimit, limitAt]
    intro hzero
    obtain ⟨l, hl, hsub⟩ := map_eq_some_iff.mp hzero
    have htoNat := congrArg toNat hsub
    rw [toNat_ofNat_sub, UInt64.toNat_zero] at htoNat
    have hlt := hbelow l hl
    omega
  have hdocsq : q.maxDocs = none := hdocs
  obtain ⟨cov, g, more, hmore, hentries, hscan⟩ := scanQuery_spec (q := q) hun hdocsq rfl hcleanq
    hvisits { o with continuation := token, visitOrder := visit } hvisit token.isSome
  have hpageq : q.pageSize = some (clampPage pageSize) := by
    rw [hq]
    unfold offsetQuery resolve
    rw [hpage]
    rfl
  have hfinish : (c.contacts q.readMode more).finish D q cov g =
      (c.contacts q.readMode more).cutPage D q (clampPage pageSize) (W.drop i) cov
        g.docsScanned := by
    unfold finish
    rw [hpageq, hentries, hmerged]
  have hrest : takeLimit q.limit (W.drop i) = (takeLimit o.limit W).drop i :=
    takeLimit_drop o.limit W i
  have hcall := hquery.trans hscan
  rw [hfinish] at hcall
  have hend : ∀ e, (W.drop i)[n - 1]? = some e → W[n * (k + 1) - 1]? = some e := by
    intro e he
    rw [getElem?_drop] at he
    rw [← he, mul_succ]
    congr 1
    omega
  have hlen : n < (takeLimit q.limit (W.drop i)).length →
      n * (k + 1) < (takeLimit o.limit W).length := by
    intro hlt
    rw [hrest, length_drop] at hlt
    rw [mul_succ]
    omega
  subst hn
  have hfitsq : ∀ e, (clampPage pageSize).toNat < (takeLimit q.limit (W.drop i)).length →
      (W.drop i)[(clampPage pageSize).toNat - 1]? = some e →
      (nextPage q (clampPage pageSize) e.1 0 0).Fits := by
    intro e hlt he
    have hlt' := hlen hlt
    have hfit := hfits k e hlt' (by
      rw [getElem?_takeLimit (by omega)]
      exact hend e he)
    refine fits_nextPage ?_ ?_ ?_ hfit
    all_goals rfl
  rcases cutPage_spec (D := D) (c := c.contacts q.readMode more) (clampPage_ne_zero pageSize)
      (clampPage_le pageSize) hlimit0 hfitsq with
    ⟨page, hcut, hhas, hcont, hpe⟩ | ⟨page, e, next, hcut, hhas, hcont, hpe, hlt, he, hdecode⟩
  · refine ⟨page, _, hcall.trans (by rw [hcut]), .inl ⟨hhas, hcont, ?_⟩⟩
    rw [hpe, hrest]
  · refine ⟨page, _, hcall.trans (by rw [hcut]), .inr ⟨next, e.1, hhas, hcont, ?_, hlen hlt, ?_⟩⟩
    · rw [hpe, ← hrest, take_takeLimit hlt.le]
    · exact .next hW rfl hpage hdocs hclean hmore (hlen hlt) (hend e he) hdecode

/-- **Following the tokens from some page on gives the rest of the entries.** The induction is on
the entries that are left: every page but the last one takes `pageSize` of them. -/
theorem PageStart.exists_follows
    (horder : ∀ i visit, order i = some visit → visit.Perm (c.scope o)) (left : ℕ) :
    ∀ {k : ℕ} {token : Option Bytes} {c₁ : ClusterState} {after : Option String} (j : ℕ),
    PageStart D c o pageSize k token c₁ after → (takeLimit o.limit W).length - n * k ≤ left →
    ∃ pages, Follows D o order j token c₁ ((takeLimit o.limit W).drop (n * k)) pages := by
  have hpos := clampPage_pos pageSize
  rw [hn] at hpos
  induction left using Nat.strong_induction_on with
  | _ left ih =>
    intro k token c₁ after j hstart hleft
    obtain ⟨page, c₂, hscan, ⟨hhas, hcont, hentries⟩ |
        ⟨next, a, hhas, hcont, hentries, hlt, hnext⟩⟩ :=
      hstart.page hW hn hpage hdocs hclean hun hfits (horder j)
    · rw [← hentries]
      exact ⟨[page], .last hscan hhas hcont⟩
    · rw [mul_succ] at hlt
      obtain ⟨pages, hpages⟩ := ih (left - n) (by omega) (j + 1) hnext
        (by rw [mul_succ]; omega)
      refine ⟨page :: pages, ?_⟩
      have hcons := Follows.cons hscan hhas hcont hpages
      rw [hentries, mul_succ, ← drop_drop, take_append_drop] at hcons
      exact hcons

end

theorem unpaged_merged {whole : FindResult} (hcont : o.continuation = none)
    (hpage : o.pageSize = none) (hlimit : o.limit = none) (hdocs : o.maxDocsScanned = none)
    (horder : ∀ visit, o.visitOrder = some visit → visit.Perm (c.scope o))
    (hscan : (c.scanWith D o).1 = .ok whole) :
    whole.entries = c.merged D (c.resolve D o none) (c.scope o) ∧
      c.CleanIn D (c.resolve D o none) (c.scope o) := by
  obtain ⟨cov, g, c', visit, hvisit, rfl, -, hentries, -⟩ := unpaged_spec hcont hpage hlimit hscan
  have hscope := nodup_of_pairwise_lt (scope_pairwise c o)
  have hperm : (o.visitOrder.getD (c.scope o)).Perm (c.scope o) := by
    cases ho : o.visitOrder with
    | none => exact List.Perm.refl _
    | some visit => exact horder visit ho
  have hresource := resourceLimit_unlimited (q := c.resolve D o none) hdocs hvisit
  rw [(startCoverage_spec c (c.resolve D o none) false).2.2.2] at hresource
  obtain ⟨hv, -⟩ := visitAll_spec (hperm.nodup_iff.mpr hscope) (fun s hs => by cases hs) hvisit
    hresource
  refine ⟨?_, fun p hp => hv.clean p (hperm.mem_iff.mpr hp)⟩
  rw [hentries, hv.entries]
  exact merged_of_perm hperm hscope

/-- **A paged scan is the scan in one call, cut into pages.** If the cluster does not
change, the limit is not zero and tokens fit, following the tokens ends, every page but the last
carries one, and the pages hold the entries of one scan up to the limit, for all visit orders. -/
theorem paged_scan_eq (D : QueryDigests) (c : ClusterState) (o : ScanOptions) (pageSize : UInt64)
    (order : ℕ → Option (List PartitionId)) (whole : FindResult)
    (hpage : o.pageSize = some pageSize) (hlimit : o.limit ≠ some 0)
    (hdocs : o.maxDocsScanned = none) (hun : c.Unchanging o.readMode (c.scope o))
    (horder : ∀ i visit, order i = some visit → visit.Perm (c.scope o))
    (hvisit : ∀ visit, o.visitOrder = some visit → visit.Perm (c.scope o))
    (hwhole : (c.scanWith D { o with continuation := none, pageSize := none, limit := none }).1 =
      .ok whole)
    (hfits : TokensFit D c o pageSize (takeLimit o.limit whole.entries)) :
    (whole.entries.Pairwise fun a b => utf8 a.1 < utf8 b.1) ∧
      ∃ fuel pages, followPages D o order fuel 0 none c = some (.ok pages) ∧
        pages.flatMap FindResult.entries = takeLimit o.limit whole.entries ∧
        ∀ page ∈ pages, page.hasMore = page.continuation.isSome := by
  obtain ⟨hentries, hclean⟩ := unpaged_merged
    (o := { o with continuation := none, pageSize := none, limit := none }) rfl rfl rfl hdocs
    hvisit hwhole
  have hmerged : whole.entries = c.merged D (c.resolve D o none) (c.scope o) := hentries
  have hscope := nodup_of_pairwise_lt (scope_pairwise c o)
  rw [hmerged] at hfits ⊢
  refine ⟨merged_pairwise hscope, ?_⟩
  have hstart : PageStart D c o pageSize 0 none c o.afterSubject := by
    refine ⟨⟨[], (fun r hr => by cases hr), rfl⟩, fun l hl => ?_, ?_, ?_, fun visit => ?_⟩
    · rw [Nat.mul_zero]
      exact Nat.pos_of_ne_zero fun h => hlimit (hl.trans (congrArg some (UInt64.toNat_inj.mp h)))
    · rw [Nat.mul_zero, offsetQuery_zero, drop_zero]
    · rw [Nat.mul_zero, offsetQuery_zero]
      exact hclean
    · rw [Nat.mul_zero, offsetQuery_zero]
      rfl
  obtain ⟨pages, hpages⟩ :=
    hstart.exists_follows rfl rfl hpage hdocs hclean hun hfits horder _ 0 le_rfl
  obtain ⟨fuel, hfuel⟩ := hpages.ends
  have hall := hpages.entries
  rw [Nat.mul_zero, drop_zero] at hall
  exact ⟨fuel, pages, hfuel, hall, hpages.hasMore⟩

/-! ## Scopes that are too wide -/

theorem followPages_of_error {fuel : ℕ} {e : ScanError}
    (h : (c.scanWith D { o with continuation := token, visitOrder := order i }).1 = .error e) :
    followPages D o order (fuel + 1) i token c = some (.error e) := by
  rw [followPages, ← Prod.eta (c.scanWith _ _), h]

end ClusterState

/-- The pages of one subject each of a scan of everything. -/
def pagedByOne (mode : ReadMode) : ScanOptions := { scanAll mode with pageSize := some 1 }

/-- One node with three subjects that serves more partitions than a token can name. -/
def wide : ClusterState :=
  sampleCluster 4097 soloGroup ((∅ : TreeMap NodeId LiveStore).insert 0 soloStore)

theorem wide_unchanging (ps : List PartitionId) : wide.Unchanging .available ps := by
  refine unchanging_of_replicas (fun h => by cases h.1) fun p _ => ?_
  have hsame : wide.servedBy .available p = wide.servedBy .available 0 := rfl
  rw [hsame]
  decide +kernel

/-- Every partition is reachable and one call returns all entries, but the pages never arrive: the
scope does not fit a token. -/
theorem paged_scan_refused : wide.Unchanging .available (wide.scope (pagedByOne .available)) ∧
      (∃ whole, (wide.scanWith sampleDigests (scanAll .available)).1 = .ok whole) ∧
      ∀ fuel pages, ClusterState.followPages sampleDigests (pagedByOne .available) (fun _ => none)
        fuel 0 none wide ≠ some (.ok pages) := by
  have hwhole : (wide.scanWith sampleDigests (scanAll .available)).1.isOk = true := by
    decide +kernel
  have hpage : (wide.scanWith sampleDigests (pagedByOne .available)).1.isOk = false := by
    decide +kernel
  refine ⟨wide_unchanging _, ?_, fun fuel pages => ?_⟩
  · cases hscan : (wide.scanWith sampleDigests (scanAll .available)).1 with
    | error e =>
      rw [hscan] at hwhole
      cases hwhole
    | ok whole => exact ⟨whole, rfl⟩
  · cases hscan : (wide.scanWith sampleDigests (pagedByOne .available)).1 with
    | ok page =>
      rw [hscan] at hpage
      cases hpage
    | error e =>
      cases fuel with
      | zero =>
        intro h
        cases h
      | succ fuel =>
        have hcall : followPages sampleDigests (pagedByOne .available) (fun _ => none)
            (fuel + 1) 0 none wide = some (.error e) := followPages_of_error hscan
        rw [hcall]
        intro h
        cases some.inj h

/-- What one call of the scan of a node that leads alone returns. -/
def soloEntries : Option (List (String × Bytes)) :=
  (solo.scanWith sampleDigests (scanAll .linearizable)).1.toOption.map FindResult.entries

theorem soloEntries_eq : soloEntries = some [("a", [1]), ("b", [2]), ("c", [3])] := by
  decide +kernel

theorem solo_unchanging : solo.Unchanging .linearizable [0] := by
  refine unchanging_of_leaders fun p hp => ⟨0, by decide, rfl, ?_, ?_⟩
  · exact mem_insert_self
  · exact ⟨⟨soloGroup, soloGroup.voters⟩, 1, rfl, by decide +kernel⟩

theorem solo_fits (h : e ∈ [("a", [1]), ("b", [2]), ("c", [3])]) :
    (nextPage (solo.resolve sampleDigests (pagedByOne .linearizable) none)
      (clampPage 1) e.1 0 0).Fits := by
  simp only [mem_cons, not_mem_nil, or_false] at h
  rcases h with rfl | rfl | rfl
  all_goals exact ⟨by decide +kernel, by decide +kernel, by decide +kernel⟩

/-- The pages of the scan of a node that leads alone are its entries. -/
theorem paged_scan_solo : ∃ fuel pages,
    ClusterState.followPages sampleDigests (pagedByOne .linearizable) (fun _ => none) fuel 0 none
        solo = some (.ok pages) ∧
      pages.flatMap FindResult.entries = [("a", [1]), ("b", [2]), ("c", [3])] ∧
      ∀ page ∈ pages, page.hasMore = page.continuation.isSome := by
  obtain ⟨r, hscan, hentries⟩ := exists_ok_of_toOption soloEntries_eq
  have hun : solo.Unchanging .linearizable (solo.scope (scanAll .linearizable)) := by
    rw [solo_scope]
    exact solo_unchanging
  have hpages := (paged_scan_eq sampleDigests solo (pagedByOne .linearizable) 1
    (fun _ => none) r rfl (by decide) rfl hun
    (fun i visit h => by cases h) (fun visit h => by cases h) hscan
    (fun k e _ he => solo_fits (hentries ▸ mem_of_getElem? he))).2
  rw [hentries] at hpages
  exact hpages

end Residiuum.Cluster
