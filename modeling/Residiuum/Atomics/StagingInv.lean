import Residiuum.Atomics.Staging

/-!
# What a staging call can do

One inversion lemma per mutator of the staging heap, and the invariant they keep.

* **`step_effect`**: every call publishes, prepares one new atomic, or stays within the staged lane
  (`LaneEffect`): it changes one unsealed slot, seals one slot, rotates the shards, or does nothing.
* `StagingHeap.Inv`, **`inv_of_reachable`**: every heap a run reaches has its invariant; in
  particular a sealed slot is `Complete`.
-/

namespace Residiuum.Atomics

open Bool ByteLib DistinctLib Except GroupLib List PlacementEntry StagingHeap Std TreeMap

theorem StagingHeap.require_eq_ok {α : Type} {x : Option α} {a : α} :
    require x = .ok a ↔ x = some a := by
  cases x with
  | none => simp [require, throw, throwThe, MonadExceptOf.throw]
  | some b => simp [require, pure, Except.pure]

/-! ## Placement -/

variable {atomicId : AtomicId} {contentRoot : ContentRoot} {manifest : PlacementManifest}
  {limits : ChunkLimits} {slot : StagedAtomic} {h' : StagingHeap} {seq : UInt64} {R : Runtime}
  {h : StagingHeap} {members : List AtomicMember} {c c' : CoordinatorStream} {r : CoordinatorRecord}
  {plan : ChunkPlan} {heapId : HeapId} {n : UInt32}

theorem map_member_placeMembers
    {seen : List ((CollectionId × Bytes) × UInt32)} {placed : List PlacementEntry}
    (h : PlacementManifest.placeMembers R atomicId n seen members = .ok placed) :
    placed.map member = members := by
  induction members generalizing seen placed with
  | nil =>
    cases h
    rfl
  | cons m ms ih =>
    obtain ⟨-, h⟩ := ite_throw_eq_ok.mp h
    obtain ⟨-, -, h⟩ := bind_eq_ok.mp h
    obtain ⟨-, h⟩ := ite_throw_eq_ok.mp h
    obtain ⟨hash, -, h⟩ := bind_eq_ok.mp h
    obtain ⟨rest, hrest, h⟩ := bind_eq_ok.mp h
    cases h
    rw [map_cons, ih hrest]

theorem assign_entries
    (h : PlacementManifest.assign R heapId atomicId contentRoot n members = .ok manifest) :
    (manifest.entries.map member).Perm members ∧
      manifest.entries.map (fun e => e.member.ordinal.toNat) =
        List.range manifest.entries.length := by
  obtain ⟨-, h⟩ := ite_throw_eq_ok.mp h
  obtain ⟨placed, hplaced, h⟩ := bind_eq_ok.mp h
  obtain ⟨hord, h⟩ := ite_throw_eq_ok.mp h
  obtain ⟨root, -, h⟩ := bind_eq_ok.mp h
  cases h
  refine ⟨?_, not_not.mp hord⟩
  rw [← map_member_placeMembers hplaced]
  exact (sortBy_perm _ placed).map _

/-! ## Slots -/

/-- The four ways the mutators change a slot that is not sealed. -/
inductive SlotChange (limits : ChunkLimits) (slot : StagedAtomic) : StagedAtomic → Prop where
  /-- `append_staged`. -/
  | appended (s : StagedMember) (hchunks : s.chunks = none) :
    SlotChange limits slot (StagingHeap.withMembers slot (slot.members ++ [s]))
  /-- `commit_chunk_manifest`. -/
  | planned (ordinal : UInt32) (plan : ChunkPlan) (hvalid : plan.validateWithin limits = .ok ())
    (hfresh : slot.chunkPlans.contains ordinal = false) :
    SlotChange limits slot { slot with chunkPlans := slot.chunkPlans.insert ordinal plan }
  /-- `append_chunk` for a member that is not staged. -/
  | chunked (plan : ChunkPlan) (s : StagedMember) (cs : List (Option Bytes))
    (hplan : slot.chunkPlans[s.member.ordinal]? = some plan) (hchunks : s.chunks = some cs)
    (hlen : cs.length = plan.total.toNat) :
    SlotChange limits slot (StagingHeap.withMembers slot (slot.members ++ [s]))
  /-- `append_chunk` for a staged member, whether or not its assembly fails. -/
  | filled (s s' : StagedMember) (cs cs' : List (Option Bytes)) (phase : AtomicLifecycle)
    (hs : s ∈ slot.members) (hmember : s'.member = s.member) (hchunks : s.chunks = some cs)
    (hchunks' : s'.chunks = some cs') (hlen : cs'.length = cs.length)
    (hphase : phase = slot.lifecycle ∨ phase = { slot.lifecycle with members := .staged }) :
    SlotChange limits slot { slot with
      members := StagingHeap.replaceMember slot.members s.member.ordinal s'
      lifecycle := phase }

/-- What sealing establishes: one staged member per entry of the placement, and payloads that
verify. -/
structure Complete (R : Runtime) (slot : StagedAtomic) : Prop where
  members : (slot.members.map StagedMember.member).Perm
    (slot.manifest.entries.map PlacementEntry.member)
  payloads : ∀ s ∈ slot.members, verifyPayload R s.member s.payload = .ok ()

/-- What holds of every slot. -/
structure SlotInv (R : Runtime) (limits : ChunkLimits) (slot : StagedAtomic) : Prop where
  ordinals : slot.manifest.entries.map (fun e => e.member.ordinal.toNat) =
    List.range slot.manifest.entries.length
  plans : ∀ (ordinal : UInt32) (plan : ChunkPlan), slot.chunkPlans[ordinal]? = some plan →
    plan.validateWithin limits = .ok ()
  chunks : ∀ s ∈ slot.members, ∀ cs, s.chunks = some cs →
    ∃ plan : ChunkPlan, slot.chunkPlans[s.member.ordinal]? = some plan ∧
      cs.length = plan.total.toNat
  complete : slot.lifecycle.members = .durableInvisible → Complete R slot

theorem mem_replaceMember {members : List StagedMember} {ordinal : UInt32} {s x : StagedMember}
    (h : x ∈ replaceMember members ordinal s) : x ∈ members ∨ x = s := by
  induction members with
  | nil => cases h
  | cons y ys ih =>
    unfold replaceMember at h ih
    rw [replaceF_cons] at h
    split at h
    · rcases mem_cons.mp h with rfl | h
      · exact .inl mem_cons_self
      · exact (ih h).imp_left (mem_cons_of_mem _)
    · rename_i a ha
      obtain rfl : s = a := by
        split_ifs at ha
        exact Option.some.inj ha
      rcases mem_cons.mp h with rfl | h
      · exact .inr rfl
      · exact .inl (mem_cons_of_mem _ h)

theorem getElem?_insert_of_fresh {α β : Type} {cmp : α → α → Ordering} [TransCmp cmp]
    {t : TreeMap α β cmp} {k a : α} {v w : β} (hk : t.contains k = false) (ha : t[a]? = some w) :
    (t.insert k v)[a]? = some w := by
  rw [TreeMap.getElem?_insert]
  split_ifs with heq
  · have : t.contains a = false := by rw [← contains_congr heq, hk]
    rw [getElem?_eq_none_of_contains_eq_false this] at ha
    cases ha
  · exact ha

theorem SlotInv.change {slot' : StagedAtomic}
    (hinv : SlotInv R limits slot) (hopen : slot.lifecycle.members ≠ .durableInvisible)
    (h : SlotChange limits slot slot') : SlotInv R limits slot' := by
  cases h with
  | appended s hs =>
    refine ⟨hinv.ordinals, hinv.plans, ?_, fun hseal => by cases hseal⟩
    intro x hx cs hcs
    rcases mem_append.mp hx with hx | hx
    · exact hinv.chunks x hx cs hcs
    · rw [mem_singleton.mp hx, hs] at hcs
      cases hcs
  | planned ordinal plan hvalid hfresh =>
    refine ⟨hinv.ordinals, ?_, ?_, fun hseal => absurd hseal hopen⟩
    · intro o p hp
      rw [TreeMap.getElem?_insert] at hp
      split_ifs at hp
      · cases hp
        exact hvalid
      · exact hinv.plans o p hp
    · intro s hs cs hcs
      obtain ⟨p, hp, hlen⟩ := hinv.chunks s hs cs hcs
      exact ⟨p, getElem?_insert_of_fresh hfresh hp, hlen⟩
  | chunked plan s cs hplan hs hlen =>
    refine ⟨hinv.ordinals, hinv.plans, ?_, fun hseal => by cases hseal⟩
    intro x hx cs' hcs
    rcases mem_append.mp hx with hx | hx
    · exact hinv.chunks x hx cs' hcs
    · obtain rfl := mem_singleton.mp hx
      cases hs.symm.trans hcs
      exact ⟨plan, hplan, hlen⟩
  | filled s s' cs cs' phase hs hmember hchunks hchunks' hlen hphase =>
    refine ⟨hinv.ordinals, hinv.plans, ?_, ?_⟩
    · intro x hx d hd
      rcases mem_replaceMember hx with hx | rfl
      · exact hinv.chunks x hx d hd
      · cases hchunks'.symm.trans hd
        rw [hmember, hlen]
        exact hinv.chunks s hs cs hchunks
    · intro hseal
      rcases hphase with rfl | rfl
      · exact absurd hseal hopen
      · cases hseal

theorem sealedMember_eq_ok {entry : PlacementEntry}
    {m : AtomicMember} (h : sealedMember R slot entry = .ok m) :
    ∃ s ∈ slot.members, s.member = entry.member ∧ verifyPayload R s.member s.payload = .ok () := by
  obtain ⟨s, hs, h⟩ := bind_eq_ok.mp h
  obtain ⟨hmember, h⟩ := ite_throw_eq_ok.mp h
  obtain ⟨hash, -, h⟩ := bind_eq_ok.mp h
  obtain ⟨-, h⟩ := ite_throw_eq_ok.mp h
  obtain ⟨_, hverify, -⟩ := bind_eq_ok.mp h
  exact ⟨s, mem_of_find?_eq_some (require_eq_ok.mp hs), not_not.mp hmember,
    hverify⟩

theorem nodup_members_of_ordinals {entries : List PlacementEntry}
    (h : entries.map (fun e => e.member.ordinal.toNat) = List.range entries.length) :
    (entries.map member).Nodup := by
  have hnodup : (entries.map fun e => e.member.ordinal.toNat).Nodup := h ▸ nodup_range
  refine List.Nodup.of_map (fun m : AtomicMember => m.ordinal.toNat) ?_
  rw [map_map]
  exact hnodup

/-- **What the seal check establishes.** As many members as entries, and one found for each entry:
the members are the entries' members, so each was verified. -/
theorem complete_of_check (hslot : h.staged[atomicId]? = some slot)
    (hord : slot.manifest.entries.map (fun e => e.member.ordinal.toNat) =
      List.range slot.manifest.entries.length)
    (hcheck : h.checkSealMemberBoundary R atomicId = .ok ()) : Complete R slot := by
  obtain ⟨slot', hslot', hcheck⟩ := bind_eq_ok.mp hcheck
  cases hslot.symm.trans (require_eq_ok.mp hslot')
  obtain ⟨-, hcheck⟩ := ite_throw_eq_ok.mp hcheck
  obtain ⟨hlen, hcheck⟩ := ite_throw_eq_ok.mp hcheck
  obtain ⟨sealed, hsealed, -⟩ := bind_eq_ok.mp hcheck
  have hfound : ∀ e ∈ slot.manifest.entries, ∃ s ∈ slot.members, s.member = e.member ∧
      verifyPayload R s.member s.payload = .ok () := by
    intro e he
    obtain ⟨m, hm⟩ := exists_mapM_ok.mp ⟨sealed, hsealed⟩ e he
    exact sealedMember_eq_ok hm
  have hsub : (slot.manifest.entries.map member).Subperm
      (slot.members.map StagedMember.member) := by
    refine subperm_of_subset (nodup_members_of_ordinals hord) fun m hm => ?_
    obtain ⟨e, he, rfl⟩ := mem_map.mp hm
    obtain ⟨s, hs, hmember, -⟩ := hfound e he
    exact mem_map.mpr ⟨s, hs, hmember⟩
  have hperm : (slot.members.map StagedMember.member).Perm
      (slot.manifest.entries.map member) :=
    (hsub.perm_of_length_le (by rw [length_map, length_map, not_not.mp hlen])).symm
  refine ⟨hperm, fun s hs => ?_⟩
  obtain ⟨e, he, hes⟩ := mem_map.mp (hperm.mem_iff.mp (mem_map.mpr ⟨s, hs, rfl⟩))
  obtain ⟨s', hs', hmember, hverify⟩ := hfound e he
  have hnodup := hperm.nodup_iff.mpr (nodup_members_of_ordinals hord)
  rw [inj_on_of_nodup_map hnodup hs hs' (hes.symm.trans hmember.symm)]
  exact hverify

/-! ## Effects -/

/-- What the calls on one staged atomic can do: they touch neither the coordinator nor the ordinary
map. -/
inductive LaneEffect (R : Runtime) (h : StagingHeap) : StagingHeap → Prop where
  | unchanged : LaneEffect R h h
  | changed (atomicId : AtomicId) (slot slot' : StagedAtomic)
    (hslot : h.staged[atomicId]? = some slot)
    (hopen : slot.lifecycle.members ≠ .durableInvisible)
    (hchange : SlotChange h.chunkLimits slot slot') : LaneEffect R h (h.setSlot atomicId slot')
  | sealed (atomicId : AtomicId) (slot : StagedAtomic) (hslot : h.staged[atomicId]? = some slot)
    (hcheck : h.checkSealMemberBoundary R atomicId = .ok ()) :
    LaneEffect R h (h.setSlot atomicId
      { slot with lifecycle := { slot.lifecycle with members := .durableInvisible } })
  | rotated (newCount : UInt32) : LaneEffect R h { h with shardCount := newCount }

/-- What one call can do to a heap. -/
inductive Effect (R : Runtime) (h : StagingHeap) : StagingHeap → Prop where
  | lane {h' : StagingHeap} (he : LaneEffect R h h') : Effect R h h'
  | published (collection : CollectionId) (key : CanonicalKey) (cell : OrdinaryCell) :
    Effect R h (h.publishOrdinary collection key cell)
  | prepared (atomicId : AtomicId) (seq : UInt64) (manifest : PlacementManifest)
    (coordinator : CoordinatorStream) (hfresh : h.staged.contains atomicId = false)
    (hord : manifest.entries.map (fun e => e.member.ordinal.toNat) =
      List.range manifest.entries.length)
    (hrecords : ∀ r ∈ coordinator.records,
      r ∈ h.coordinator.records ∨ r.atomicId = atomicId) :
    Effect R h (StagingHeap.setSlot { h with coordinator } atomicId (.prepared seq manifest))

theorem LaneEffect.coordinator_eq (he : LaneEffect R h h') : h'.coordinator = h.coordinator := by
  cases he <;> rfl

theorem LaneEffect.ordinary_eq (he : LaneEffect R h h') : h'.ordinary = h.ordinary := by
  cases he <;> rfl

theorem checkBeginPrepare_eq_ok
    (hcheck : h.checkBeginPrepare R atomicId contentRoot members = .ok manifest) :
    h.staged.contains atomicId = false ∧
      manifest.entries.map (fun e => e.member.ordinal.toNat) =
        List.range manifest.entries.length := by
  obtain ⟨hfresh, hassign⟩ := ite_throw_eq_ok.mp hcheck
  exact ⟨eq_false_iff.mpr hfresh, (assign_entries hassign).2⟩

theorem mem_records_allocate (h : c.allocate atomicId contentRoot = .ok (seq, c'))
    (hr : r ∈ c'.records) : r ∈ c.records ∨ r.atomicId = atomicId := by
  obtain ⟨-, h⟩ := ite_throw_eq_ok.mp h
  cases h
  rcases mem_append.mp hr with hr | hr
  · exact .inl hr
  · rw [mem_singleton.mp hr]
    exact .inr rfl

theorem mem_records_install (h : c.install seq atomicId contentRoot = .ok c')
    (hr : r ∈ c'.records) : r ∈ c.records ∨ r.atomicId = atomicId := by
  obtain ⟨-, h⟩ := ite_throw_eq_ok.mp h
  cases hfind : c.records.find? fun r => r.atomicId = atomicId with
  | some existing =>
    rw [hfind] at h
    obtain ⟨-, h⟩ := ite_throw_eq_ok.mp h
    cases h
    exact .inl hr
  | none =>
    rw [hfind] at h
    obtain ⟨-, h⟩ := ite_throw_eq_ok.mp h
    cases h
    rcases mem_append.mp ((sortBy_perm _ _).mem_iff.mp hr) with hr | hr
    · exact .inl hr
    · rw [mem_singleton.mp hr]
      exact .inr rfl

theorem slotIsSealed_some :
    slotIsSealed (some slot) = false ↔ slot.lifecycle.members ≠ .durableInvisible := by
  simp [slotIsSealed]

theorem locateChunk_eq_ok {member : AtomicMember} {index : UInt32} {body : Bytes} {shard : UInt32}
    (hloc : h.locateChunk R member index body = .ok (slot, plan, shard)) :
    h.staged[member.atomicId]? = some slot ∧ slot.lifecycle.members ≠ .durableInvisible ∧
      slot.chunkPlans[member.ordinal]? = some plan ∧ index < plan.total := by
  obtain ⟨hopen, hloc⟩ := ite_throw_eq_ok.mp hloc
  obtain ⟨-, -, hloc⟩ := bind_eq_ok.mp hloc
  obtain ⟨-, hloc⟩ := ite_throw_eq_ok.mp hloc
  obtain ⟨-, hloc⟩ := ite_throw_eq_ok.mp hloc
  obtain ⟨slot', hslot, hloc⟩ := bind_eq_ok.mp hloc
  obtain ⟨plan', hplan, hloc⟩ := bind_eq_ok.mp hloc
  obtain ⟨hindex, hloc⟩ := ite_throw_eq_ok.mp hloc
  obtain ⟨-, hloc⟩ := ite_throw_eq_ok.mp hloc
  obtain ⟨entry, -, hloc⟩ := bind_eq_ok.mp hloc
  simp only [pure, Except.pure, Except.ok.injEq, Prod.mk.injEq] at hloc
  obtain ⟨rfl, rfl, -⟩ := hloc
  rw [require_eq_ok] at hslot hplan
  rw [hslot] at hopen
  exact ⟨hslot, slotIsSealed_some.mp (eq_false_iff.mpr hopen), hplan, UInt32.not_le.mp hindex⟩

theorem maybeAssemble_eq_ok {s s' : StagedMember} (h : maybeAssemble R s plan limits = .ok s') :
    s'.member = s.member ∧ s'.chunks = s.chunks := by
  unfold maybeAssemble at h
  split at h
  · cases h
    exact ⟨rfl, rfl⟩
  · split_ifs at h
    · cases h
      exact ⟨rfl, rfl⟩
    · obtain ⟨payload, -, h⟩ := bind_eq_ok.mp h
      obtain ⟨-, h⟩ := ite_throw_eq_ok.mp h
      cases h
      exact ⟨rfl, rfl⟩

section Calls

variable (R : Runtime) (h : StagingHeap)

theorem beginPrepare_effect (atomicId : AtomicId) (contentRoot : ContentRoot)
    (members : List AtomicMember) :
    Effect R h (h.beginPrepare R atomicId contentRoot members).2 := by
  unfold beginPrepare
  split
  · exact .lane .unchanged
  · rename_i manifest hcheck
    split
    · exact .lane .unchanged
    · rename_i seq coordinator halloc
      obtain ⟨hfresh, hord⟩ := checkBeginPrepare_eq_ok hcheck
      exact .prepared _ _ _ _ hfresh hord fun r hr => mem_records_allocate halloc hr

theorem installPrepared_effect (seq : UInt64) (atomicId : AtomicId) (contentRoot : ContentRoot)
    (members : List AtomicMember) :
    Effect R h (h.installPrepared R seq atomicId contentRoot members).2 := by
  unfold installPrepared
  split
  · exact .lane .unchanged
  · rename_i manifest hcheck
    split
    · exact .lane .unchanged
    · rename_i coordinator hinstall
      obtain ⟨hfresh, hord⟩ := checkBeginPrepare_eq_ok hcheck
      exact .prepared _ _ _ _ hfresh hord fun r hr => mem_records_install hinstall hr

theorem appendStaged_effect (member : AtomicMember) (payload : Bytes) :
    LaneEffect R h (h.appendStaged R member payload).2 := by
  unfold appendStaged
  split
  · exact .unchanged
  rename_i shard hcheck
  split
  · exact .unchanged
  · rename_i slot hslot
    obtain ⟨hopen, -⟩ := ite_throw_eq_ok.mp hcheck
    rw [hslot] at hopen
    exact .changed _ slot _ hslot (slotIsSealed_some.mp (eq_false_iff.mpr hopen))
      (.appended _ rfl)

theorem commitChunkManifest_effect (atomicId : AtomicId) (ordinal : UInt32) (plan : ChunkPlan) :
    LaneEffect R h (h.commitChunkManifest atomicId ordinal plan).2 := by
  unfold commitChunkManifest
  split
  · exact .unchanged
  rename_i hcheck
  split
  · exact .unchanged
  rename_i slot hslot
  obtain ⟨_, hvalid, hcheck⟩ := bind_eq_ok.mp hcheck
  obtain ⟨slot', hslot', hcheck⟩ := bind_eq_ok.mp hcheck
  cases hslot.symm.trans (require_eq_ok.mp hslot')
  obtain ⟨hopen, hcheck⟩ := ite_throw_eq_ok.mp hcheck
  obtain ⟨-, hcheck⟩ := ite_throw_eq_ok.mp hcheck
  obtain ⟨hfresh, -⟩ := ite_throw_eq_ok.mp hcheck
  exact .changed _ slot _ hslot hopen
    (.planned ordinal plan hvalid (eq_false_iff.mpr fun hc => hfresh (.inr hc)))

theorem appendChunk_effect (member : AtomicMember) (index : UInt32) (body : Bytes) :
    LaneEffect R h (h.appendChunk R member index body).2 := by
  unfold appendChunk
  split
  · exact .unchanged
  split
  · exact .unchanged
  rename_i slot plan shard hloc
  obtain ⟨hslot, hopen, hplan, -⟩ := locateChunk_eq_ok hloc
  split
  · rename_i staged hfind
    have hmem := mem_of_find?_eq_some hfind
    have hord : staged.member.ordinal = member.ordinal := by simpa using find?_some hfind
    unfold appendToStaged
    split_ifs
    · exact .unchanged
    split
    · exact .unchanged
    rename_i chunks hchunks
    split_ifs
    · exact .unchanged
    dsimp only
    split
    -- the assembly failed: the chunk stays where it was put
    · refine .changed _ slot _ hslot hopen ?_
      rw [← hord]
      exact .filled staged _ chunks _ slot.lifecycle hmem rfl hchunks rfl length_set
        (.inl rfl)
    · rename_i staged' hassemble
      obtain ⟨hmember, hchunks'⟩ := maybeAssemble_eq_ok hassemble
      refine .changed _ slot _ hslot hopen ?_
      rw [← hord]
      exact .filled staged staged' chunks _ _ hmem hmember hchunks hchunks' length_set
        (.inr rfl)
  · unfold appendToNew
    split_ifs
    · exact .unchanged
    dsimp only
    split
    · exact .unchanged
    rename_i staged hassemble
    obtain ⟨hmember, hchunks⟩ := maybeAssemble_eq_ok hassemble
    refine .changed _ slot _ hslot hopen (.chunked plan staged _ ?_ hchunks ?_)
    · rw [hmember]
      exact hplan
    · rw [length_set, length_replicate]

theorem sealMemberBoundary_effect (atomicId : AtomicId) :
    LaneEffect R h (h.sealMemberBoundary R atomicId).2 := by
  unfold sealMemberBoundary
  split
  · exact .unchanged
  · rename_i hcheck
    split
    · exact .unchanged
    · rename_i slot hslot
      exact .sealed atomicId slot hslot hcheck

theorem rotateWriterShards_effect (newCount : UInt32) :
    LaneEffect R h (h.rotateWriterShards newCount).2 := by
  unfold rotateWriterShards
  split_ifs
  · exact .unchanged
  · exact .rotated newCount

theorem step_effect (call : StagingCall) : Effect R h (h.step R call) := by
  cases call with
  | publishOrdinary collection key cell => exact .published collection key cell
  | beginPrepare atomicId contentRoot members => exact beginPrepare_effect R h _ _ _
  | installPrepared seq atomicId contentRoot members => exact installPrepared_effect R h _ _ _ _
  | appendStaged member payload => exact .lane (appendStaged_effect R h _ _)
  | commitChunkManifest atomicId ordinal plan => exact .lane (commitChunkManifest_effect R h _ _ _)
  | appendChunk member index body => exact .lane (appendChunk_effect R h _ _ _)
  | sealMemberBoundary atomicId => exact .lane (sealMemberBoundary_effect R h _)
  | rotateWriterShards newCount => exact .lane (rotateWriterShards_effect R h _)

end Calls

/-! ## The invariant -/

/-- What holds of every heap that is reached. -/
structure StagingHeap.Inv (R : Runtime) (h : StagingHeap) : Prop where
  slots : ∀ (atomicId : AtomicId) (slot : StagedAtomic), h.staged[atomicId]? = some slot →
    SlotInv R h.chunkLimits slot
  records : ∀ r ∈ h.coordinator.records, h.staged.contains r.atomicId

theorem slotInv_prepared (hord : manifest.entries.map (fun e => e.member.ordinal.toNat) =
      List.range manifest.entries.length) : SlotInv R limits (.prepared seq manifest) where
  ordinals := hord
  plans ordinal plan hplan := by
    have hnone : (∅ : TreeMap UInt32 ChunkPlan)[ordinal]? = none := getElem?_emptyc
    rw [StagedAtomic.prepared, hnone] at hplan
    cases hplan
  chunks s hs := by cases hs
  complete hseal := by cases hseal

theorem StagingHeap.getElem?_setSlot (h : StagingHeap) (atomicId other : AtomicId)
    (slot : StagedAtomic) : (h.setSlot atomicId slot).staged[other]? =
      if atomicId = other then some slot else h.staged[other]? := by
  rw [StagingHeap.setSlot, TreeMap.getElem?_insert]
  simp

theorem StagingHeap.contains_setSlot {other : AtomicId} (hc : h.staged.contains other) :
    (h.setSlot atomicId slot).staged.contains other := by
  rw [StagingHeap.setSlot, TreeMap.contains_insert, hc, Bool.or_true]

theorem StagingHeap.Inv.setSlot (hinv : h.Inv R) (hslot : SlotInv R h.chunkLimits slot) :
    (h.setSlot atomicId slot).Inv R where
  slots other s hs := by
    rw [getElem?_setSlot] at hs
    split_ifs at hs
    · cases hs
      exact hslot
    · exact hinv.slots other s hs
  records r hr := contains_setSlot (hinv.records r hr)

theorem StagingHeap.Inv.lane (hinv : h.Inv R) (he : LaneEffect R h h') : h'.Inv R := by
  cases he with
  | unchanged => exact hinv
  | changed atomicId slot slot' hslot hopen hchange =>
    exact hinv.setSlot ((hinv.slots atomicId slot hslot).change hopen hchange)
  | sealed atomicId slot hslot hcheck =>
    have hs := hinv.slots atomicId slot hslot
    have hcomplete := complete_of_check hslot hs.ordinals hcheck
    exact hinv.setSlot ⟨hs.ordinals, hs.plans, hs.chunks, fun _ =>
      ⟨hcomplete.members, hcomplete.payloads⟩⟩
  | rotated newCount => exact ⟨hinv.slots, hinv.records⟩

theorem StagingHeap.Inv.effect (hinv : h.Inv R) (he : Effect R h h') : h'.Inv R := by
  cases he with
  | lane he => exact hinv.lane he
  | published collection key cell => exact ⟨hinv.slots, hinv.records⟩
  | prepared atomicId seq manifest coordinator hfresh hord hrecords =>
    refine ⟨fun other s hs => ?_, fun r hr => ?_⟩
    · rw [getElem?_setSlot] at hs
      split_ifs at hs
      · cases hs
        exact slotInv_prepared hord
      · exact hinv.slots other s hs
    · rcases hrecords r hr with hr | rfl
      · exact contains_setSlot (h := { h with coordinator }) (hinv.records r hr)
      · exact contains_insert_self

theorem StagingHeap.inv_new {shardCount : UInt32}
    (hnew : newWithChunkLimits heapId shardCount limits = .ok h) : h.Inv R := by
  obtain ⟨-, hnew⟩ := ite_throw_eq_ok.mp hnew
  obtain ⟨-, hnew⟩ := ite_throw_eq_ok.mp hnew
  cases hnew
  refine ⟨fun atomicId slot hslot => ?_, fun r hr => by cases hr⟩
  have hnone : (∅ : TreeMap AtomicId StagedAtomic)[atomicId]? = none := getElem?_emptyc
  rw [hnone] at hslot
  cases hslot

theorem StagingHeap.Inv.run (hinv : h.Inv R)
    (calls : List StagingCall) : (h.run R calls).Inv R := by
  induction calls generalizing h with
  | nil => exact hinv
  | cons call calls ih => exact ih (hinv.effect (step_effect R h call))

theorem StagingHeap.inv_of_reachable (hr : h.Reachable R) : h.Inv R := by
  obtain ⟨heapId, shardCount, limits, h₀, calls, hnew, rfl⟩ := hr
  exact (inv_new hnew).run calls

end Residiuum.Atomics
