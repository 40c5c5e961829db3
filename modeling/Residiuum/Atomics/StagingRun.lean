import Residiuum.Atomics.StagingInv

/-!
# Runs of the staging heap

* **`staging_exact_iff`**: a mutator succeeds exactly when its check does, and leaves the heap alone
  when it fails, except for the chunk that completes a member to a payload over the limit or of
  another hash: the check does not assemble the payload.
* **`coordinator_sound`**: the sequences issued in a run are not zero and distinct, and the next one
  is above them, as long as the counter keeps away from the top of its range.
* **`staged_frozen`**: only `publish_ordinary` changes the ordinary map, and a sealed atomic stays
  as it is: one verified member per entry of its placement.
-/

namespace Residiuum.Atomics

open ByteLib CoordinatorStream DistinctLib GroupLib List Nat Option Std

/-! ## Checks and mutators -/

namespace StagingHeap

variable (R : Runtime) (h : StagingHeap)

/-- The check that goes with a mutator, where there is one. -/
def checkOf : StagingCall → Option (Except AtomicsError Unit)
  | .beginPrepare atomicId contentRoot members =>
    some ((h.checkBeginPrepare R atomicId contentRoot members).map fun _ => ())
  | .appendStaged member payload => some ((h.checkAppendStaged R member payload).map fun _ => ())
  | .commitChunkManifest atomicId ordinal plan =>
    some (h.checkCommitChunkManifest atomicId ordinal plan)
  | .appendChunk member index body => some (h.checkAppendChunk R member index body)
  | .sealMemberBoundary atomicId => some (h.checkSealMemberBoundary R atomicId)
  | _ => none

/-- The call succeeds exactly when its check does, and a failure leaves the heap alone. -/
def Exact (call : StagingCall) (check : Except AtomicsError Unit) : Prop :=
  (h.perform R call).1.isOk = check.isOk ∧
    ((h.perform R call).1.isOk = false → (h.perform R call).2 = h)

/-- The slots of a staged member with one more chunk. -/
def withChunk (chunks : List (Option Bytes)) (index : UInt32) (body : Bytes) :
    List (Option Bytes) := chunks.set index.toNat (some body)

/-- A chunk that fills the last missing slot of its member makes up a payload within the limit,
with the hash the member records. -/
def Assembles (member : AtomicMember) (index : UInt32) (body : Bytes) : Prop :=
  ∀ slot staged chunks, h.staged[member.atomicId]? = some slot →
    (slot.members.find? fun s => s.member.ordinal = member.ordinal) = some staged →
    staged.chunks = some chunks → (∀ c ∈ withChunk chunks index body, c ≠ none) →
    ((withChunk chunks index body).flatMap fun c => c.getD []).length ≤
        h.chunkLimits.maxAssembledBytes.toNat ∧
      member.afterContentHash =
        some (R.blake3 ((withChunk chunks index body).flatMap fun c => c.getD []))

end StagingHeap

open StagingHeap

variable {limits : ChunkLimits} {plan : ChunkPlan} {call : StagingCall} {e : AtomicsError}
  {index : UInt32} {body : Bytes} {contentRoot : ContentRoot} {members : List AtomicMember}
  {seq : UInt64} {s : StagedMember} {chunks : List (Option Bytes)}

theorem assembleChunks_eq_ok
    {acc payload : Bytes} : assembleChunks limits acc chunks = .ok payload ↔
      (chunks ≠ [] → (acc ++ chunks.flatMap fun c => c.getD []).length ≤
        limits.maxAssembledBytes.toNat) ∧ payload = acc ++ chunks.flatMap fun c => c.getD [] := by
  induction chunks generalizing acc with
  | nil => simp [assembleChunks, pure, Except.pure, eq_comm]
  | cons c cs ih =>
    rw [assembleChunks, ite_throw_eq_ok, ih]
    simp only [flatMap_cons, append_assoc, length_append, ne_eq, reduceCtorEq,
      not_false_eq_true, forall_const]
    constructor
    · rintro ⟨hle, hrest, rfl⟩
      refine ⟨?_, rfl⟩
      cases cs with
      | nil => simpa using hle
      | cons d ds => exact hrest (by simp)
    · rintro ⟨hle, rfl⟩
      exact ⟨by omega, fun _ => hle, rfl⟩

theorem maybeAssemble_isOk {R : Runtime}
    (hs : s.chunks = some chunks) (hlen : chunks.length = plan.total.toNat) (hpos : chunks ≠ []) :
    (maybeAssemble R s plan limits).isOk ↔ ((∀ c ∈ chunks, c ≠ none) →
      (chunks.flatMap fun c => c.getD []).length ≤ limits.maxAssembledBytes.toNat ∧
        s.member.afterContentHash = some (R.blake3 (chunks.flatMap fun c => c.getD []))) := by
  have htotal : UInt32.ofNat chunks.length = plan.total := by rw [hlen, UInt32.ofNat_toNat]
  have hnone : chunks.any Option.isNone = true ↔ ¬ ∀ c ∈ chunks, c ≠ none := by
    simp [List.any_eq_true]
  unfold maybeAssemble
  rw [hs]
  dsimp only
  by_cases hall : ∀ c ∈ chunks, c ≠ none
  · rw [if_neg (fun hn => hnone.mp hn hall), if_neg (not_not.mpr htotal)]
    rw [imp_iff_right hall]
    cases hassemble : assembleChunks limits [] chunks with
    | error e =>
      refine iff_of_false (fun hok => by cases hok) fun hfit => ?_
      rw [assembleChunks_eq_ok.mpr ⟨fun _ => hfit.1, rfl⟩] at hassemble
      cases hassemble
    | ok payload =>
      obtain ⟨hfit, rfl⟩ := assembleChunks_eq_ok.mp hassemble
      rw [nil_append] at hfit ⊢
      change Except.isOk (if _ then _ else _) = true ↔ _
      split_ifs with hhash
      · exact iff_of_false (fun hok => by cases hok) fun hr => hhash hr.2.symm
      · exact iff_of_true rfl ⟨hfit hpos, (not_not.mp hhash).symm⟩
  · rw [if_pos (hnone.mpr hall)]
    exact iff_of_true rfl fun hall' => absurd hall' hall

section Exactness

variable {R : Runtime} {h : StagingHeap} {check : Except AtomicsError Unit} {member : AtomicMember}

theorem isOk_map {α β ε : Type} (x : Except ε α) (f : α → β) : (x.map f).isOk = x.isOk := by
  cases x <;> rfl

theorem StagingHeap.Exact.of_error
    (hperform : h.perform R call = (.error e, h)) (hcheck : check.isOk = false) :
    h.Exact R call check := by
  unfold Exact
  rw [hperform, hcheck]
  exact ⟨rfl, fun _ => rfl⟩

theorem StagingHeap.Exact.of_ok
    (hperform : (h.perform R call).1.isOk = true) (hcheck : check.isOk = true) :
    h.Exact R call check := by
  unfold Exact
  rw [hperform, hcheck]
  exact ⟨rfl, fun hf => by cases hf⟩

theorem exact_beginPrepare (hinv : h.Inv R) (atomicId : AtomicId) (contentRoot : ContentRoot)
    (members : List AtomicMember) : h.Exact R (.beginPrepare atomicId contentRoot members)
      ((h.checkBeginPrepare R atomicId contentRoot members).map fun _ => ()) := by
  cases hcheck : h.checkBeginPrepare R atomicId contentRoot members with
  | error e =>
    have hbegin : h.beginPrepare R atomicId contentRoot members = (.error e, h) := by
      rw [beginPrepare, hcheck]
    refine .of_error (e := e) ?_ rfl
    rw [perform, hbegin]
    rfl
  | ok manifest =>
    -- the identity is new to the staged lane, so the coordinator has no record of it
    have hfresh := (checkBeginPrepare_eq_ok hcheck).1
    have hnew : ¬ (h.coordinator.records.any fun r => r.atomicId = atomicId) = true := by
      simp only [List.any_eq_true, decide_eq_true_eq, not_exists, not_and]
      rintro r hr rfl
      rw [hinv.records r hr] at hfresh
      cases hfresh
    have halloc : h.coordinator.allocate atomicId contentRoot = .ok _ := if_neg hnew
    have hbegin : (h.beginPrepare R atomicId contentRoot members).1.isOk = true := by
      rw [beginPrepare, hcheck]
      rw [halloc]
      rfl
    refine .of_ok ?_ rfl
    rw [perform, Prod.map_fst, isOk_map]
    exact hbegin

theorem exact_appendStaged (member : AtomicMember) (payload : Bytes) :
    h.Exact R (.appendStaged member payload)
      ((h.checkAppendStaged R member payload).map fun _ => ()) := by
  cases hcheck : h.checkAppendStaged R member payload with
  | error e =>
    refine .of_error (e := e) ?_ rfl
    rw [perform, appendStaged, hcheck]
  | ok shard =>
    refine .of_ok ?_ rfl
    rw [perform, appendStaged, hcheck]
    obtain ⟨-, hcheck⟩ := ite_throw_eq_ok.mp hcheck
    obtain ⟨_, -, hcheck⟩ := bind_eq_ok.mp hcheck
    obtain ⟨_, -, hcheck⟩ := bind_eq_ok.mp hcheck
    obtain ⟨slot, hslot, -⟩ := bind_eq_ok.mp hcheck
    rw [require_eq_ok.mp hslot]
    rfl

theorem exact_commitChunkManifest (atomicId : AtomicId) (ordinal : UInt32) (plan : ChunkPlan) :
    h.Exact R (.commitChunkManifest atomicId ordinal plan)
      (h.checkCommitChunkManifest atomicId ordinal plan) := by
  cases hcheck : h.checkCommitChunkManifest atomicId ordinal plan with
  | error e =>
    refine .of_error (e := e) ?_ rfl
    rw [perform, commitChunkManifest, hcheck]
  | ok u =>
    refine .of_ok ?_ rfl
    rw [perform, commitChunkManifest, hcheck]
    obtain ⟨_, -, hcheck⟩ := bind_eq_ok.mp hcheck
    obtain ⟨slot, hslot, -⟩ := bind_eq_ok.mp hcheck
    rw [require_eq_ok.mp hslot]
    rfl

theorem exact_sealMemberBoundary (atomicId : AtomicId) :
    h.Exact R (.sealMemberBoundary atomicId) (h.checkSealMemberBoundary R atomicId) := by
  cases hcheck : h.checkSealMemberBoundary R atomicId with
  | error e =>
    refine .of_error (e := e) ?_ rfl
    rw [perform, sealMemberBoundary, hcheck]
  | ok u =>
    refine .of_ok ?_ rfl
    rw [perform, sealMemberBoundary, hcheck]
    obtain ⟨slot, hslot, -⟩ := bind_eq_ok.mp hcheck
    rw [require_eq_ok.mp hslot]
    rfl

theorem checkAppendChunk_eq_ok (hcheck : h.checkAppendChunk R member index body = .ok ()) :
    ∃ slot plan shard, h.locateChunk R member index body = .ok (slot, plan, shard) ∧
      ((∃ staged chunks,
        (slot.members.find? fun s => s.member.ordinal = member.ordinal) = some staged ∧
          staged.member = member ∧ staged.chunks = some chunks ∧
          chunks[index.toNat]?.any Option.isSome = false) ∨
        ((slot.members.find? fun s => s.member.ordinal = member.ordinal) = none ∧
          ¬ plan.total > h.chunkLimits.maxChunks)) := by
  obtain ⟨⟨slot, plan, shard⟩, hloc, hcheck⟩ := bind_eq_ok.mp hcheck
  refine ⟨slot, plan, shard, hloc, ?_⟩
  dsimp only at hcheck
  cases hfind : slot.members.find? fun s => s.member.ordinal = member.ordinal with
  | some staged =>
    rw [hfind] at hcheck
    obtain ⟨hmember, hcheck⟩ := ite_throw_eq_ok.mp hcheck
    obtain ⟨chunks, hchunks, hcheck⟩ := bind_eq_ok.mp hcheck
    obtain ⟨hempty, -⟩ := ite_throw_eq_ok.mp hcheck
    exact .inl ⟨staged, chunks, rfl, not_not.mp hmember, require_eq_ok.mp hchunks,
      Bool.eq_false_iff.mpr hempty⟩
  | none =>
    rw [hfind] at hcheck
    exact .inr ⟨rfl, (ite_throw_eq_ok.mp hcheck).1⟩

theorem two_le_total
    (h : plan.validateWithin limits = .ok ()) : 2 ≤ plan.total.toNat := by
  obtain ⟨htwo, -⟩ := ite_throw_eq_ok.mp h
  exact UInt32.le_iff_toNat_le.mp (UInt32.not_lt.mp htwo)

theorem maybeAssemble_first
    (hs : s.chunks = some ((List.replicate plan.total.toNat none).set index.toNat (some body)))
    (htwo : 2 ≤ plan.total.toNat) : maybeAssemble R s plan limits = .ok s := by
  have hmissing : ((List.replicate plan.total.toNat none).set index.toNat
      (some body)).any Option.isNone = true := by
    rw [List.any_eq_true]
    refine ⟨none, ?_, rfl⟩
    -- one of the first two slots is not the one that is filled
    obtain ⟨i, hi, hne⟩ : ∃ i < plan.total.toNat, i ≠ index.toNat := by
      by_cases h0 : index.toNat = 0
      · exact ⟨1, by omega, by omega⟩
      · exact ⟨0, by omega, fun h => h0 h.symm⟩
    refine mem_iff_getElem?.mpr ⟨i, ?_⟩
    rw [getElem?_set_ne (Ne.symm hne), getElem?_replicate, if_pos hi]
  unfold maybeAssemble
  rw [hs]
  exact if_pos hmissing

theorem appendChunk_isOk (hinv : h.Inv R)
    (hcheck : h.checkAppendChunk R member index body = .ok ()) :
    (h.appendChunk R member index body).1.isOk ↔ h.Assembles R member index body := by
  obtain ⟨slot, plan, shard, hloc, hcases⟩ := checkAppendChunk_eq_ok hcheck
  obtain ⟨hslot, -, hplan, hindex⟩ := locateChunk_eq_ok hloc
  have hs := hinv.slots _ _ hslot
  have htwo := two_le_total (hs.plans _ _ hplan)
  unfold appendChunk
  rw [hcheck]
  rw [hloc]
  dsimp only
  rcases hcases with ⟨staged, chunks, hfind, rfl, hchunks, hempty⟩ | ⟨hfind, hmax⟩
  · rw [hfind]
    dsimp [appendToStaged]
    rw [if_neg (by simp), hchunks]
    dsimp only
    rw [if_neg (by rw [hempty]; simp)]
    obtain ⟨plan', hplan', hlen⟩ := hs.chunks staged (mem_of_find?_eq_some hfind) _ hchunks
    cases hplan.symm.trans hplan'
    have hset : (withChunk chunks index body).length = plan.total.toNat := by
      rw [withChunk, length_set, hlen]
    have hne : withChunk chunks index body ≠ [] := by
      rw [← length_pos_iff, hset]
      omega
    have hok : (maybeAssemble R { staged with chunks := some (withChunk chunks index body) } plan
        h.chunkLimits).isOk ↔ _ := maybeAssemble_isOk rfl hset hne
    have hfits : h.Assembles R staged.member index body ↔
        ((∀ c ∈ withChunk chunks index body, c ≠ none) →
          ((withChunk chunks index body).flatMap fun c => c.getD []).length ≤
              h.chunkLimits.maxAssembledBytes.toNat ∧
            staged.member.afterContentHash =
              some (R.blake3 ((withChunk chunks index body).flatMap fun c => c.getD []))) := by
      refine ⟨fun ha => ha slot staged chunks hslot hfind hchunks, fun ha => ?_⟩
      intro slot' staged' chunks' hslot' hfind' hchunks'
      cases hslot.symm.trans hslot'
      cases hfind.symm.trans hfind'
      cases hchunks.symm.trans hchunks'
      exact ha
    rw [hfits, ← hok]
    unfold withChunk
    cases maybeAssemble R { staged with chunks := some (chunks.set index.toNat (some body)) } plan
      h.chunkLimits <;> rfl
  · rw [hfind]
    dsimp [appendToNew]
    rw [if_neg hmax, maybeAssemble_first rfl htwo]
    refine iff_of_true rfl ?_
    intro slot' staged' chunks' hslot' hfind'
    cases hslot.symm.trans hslot'
    rw [hfind] at hfind'
    cases hfind'

theorem exact_appendChunk_iff (hinv : h.Inv R) (member : AtomicMember) (index : UInt32)
    (body : Bytes) :
    h.Exact R (.appendChunk member index body) (h.checkAppendChunk R member index body) ↔
      ((h.checkAppendChunk R member index body).isOk → h.Assembles R member index body) := by
  cases hcheck : h.checkAppendChunk R member index body with
  | error e =>
    refine iff_of_true (.of_error (e := e) ?_ rfl) fun hok => by cases hok
    rw [perform, appendChunk, hcheck]
  | ok u =>
    have hok := appendChunk_isOk hinv hcheck
    constructor
    · rintro ⟨hsame, -⟩ -
      exact hok.mp hsame
    · intro ha
      exact .of_ok (hok.mpr (ha rfl)) rfl

end Exactness

/-- **Checks and mutators agree up to the assembly of chunks.** In every heap a run reaches, a
mutator succeeds exactly when its check does and leaves the heap alone when it fails, if and only if
a chunk that passes its check and completes its member makes up the payload the member records. -/
theorem staging_exact_iff (R : Runtime) (h : StagingHeap) (hr : h.Reachable R) (call : StagingCall)
    (check : Except AtomicsError Unit) (hcheck : h.checkOf R call = some check) :
    h.Exact R call check ↔ ∀ member index body, call = .appendChunk member index body →
      check.isOk → h.Assembles R member index body := by
  have hinv := inv_of_reachable hr
  cases call with
  | appendChunk member index body =>
    cases hcheck
    rw [exact_appendChunk_iff hinv]
    constructor
    · rintro ha _ _ _ ⟨rfl, rfl, rfl⟩
      exact ha
    · intro ha
      exact ha member index body rfl
  | beginPrepare atomicId contentRoot members =>
    cases hcheck
    exact iff_of_true (exact_beginPrepare hinv _ _ _) fun _ _ _ heq => by cases heq
  | appendStaged member payload =>
    cases hcheck
    exact iff_of_true (exact_appendStaged _ _) fun _ _ _ heq => by cases heq
  | commitChunkManifest atomicId ordinal plan =>
    cases hcheck
    exact iff_of_true (exact_commitChunkManifest _ _ _) fun _ _ _ heq => by cases heq
  | sealMemberBoundary atomicId =>
    cases hcheck
    exact iff_of_true (exact_sealMemberBoundary _) fun _ _ _ heq => by cases heq
  | publishOrdinary collection key cell => cases hcheck
  | installPrepared seq atomicId contentRoot members => cases hcheck
  | rotateWriterShards newCount => cases hcheck

/-! ### A chunk that does not assemble -/

def sampleIdentity (n : ℕ) (b : UInt8) : Arr n := toArr n [b]

/-- An atomic identity, also used as content root. -/
def sampleAtomic (b : UInt8) (hb : sampleIdentity 32 b ≠ zeros 32) : AtomicId :=
  ⟨sampleIdentity 32 b, hb⟩

def sampleShort (b : UInt8) (hb : sampleIdentity 16 b ≠ zeros 16) : HeapId :=
  ⟨sampleIdentity 16 b, hb⟩

/-- A new heap with two writer shards. -/
def emptyHeap : StagingHeap where
  heapId := sampleShort 1 (by decide)
  shardCount := 2
  chunkLimits := .hard
  coordinator := .new
  ordinary := ∅
  staged := ∅

/-- A created object whose value is `payload`. -/
def sampleMember (payload : Bytes) : AtomicMember where
  atomicId := sampleAtomic 1 (by decide)
  ordinal := 0
  objectIdentity := ⟨sampleShort 2 (by decide), .opaqueBytes [7]⟩
  memberKind := .create
  beforeVersion := none
  afterContentHash := some (productRuntime.blake3 payload)
  eventId := sampleShort 3 (by decide)

/-- The object has the value `payload` and the chunk map of `[1, 2]`; its first chunk is there. -/
def sampleChunked (payload : Bytes) : StagingHeap :=
  emptyHeap.run productRuntime
    [.beginPrepare (sampleAtomic 1 (by decide)) (sampleAtomic 9 (by decide)) [sampleMember payload],
      .commitChunkManifest (sampleAtomic 1 (by decide)) 0
        ⟨2, [productRuntime.blake3 [1], productRuntime.blake3 [2]]⟩,
      .appendChunk (sampleMember payload) 0 [1]]

theorem emptyHeap_new : StagingHeap.new (sampleShort 1 (by decide)) 2 = .ok emptyHeap := rfl

/-- The chunk slots of the members staged for the sample atomic. -/
def stagedChunks (h : StagingHeap) : List (Option Bytes) :=
  ((h.inspectStaged (sampleAtomic 1 (by decide))).getD []).flatMap fun s => s.chunks.getD []

/-- The second chunk: its check, the result of the call, and the chunk slots before and after. -/
def secondChunk : (Except AtomicsError Unit × Except AtomicsError Unit) ×
    List (Option Bytes) × List (Option Bytes) :=
  let h := sampleChunked [1, 2, 3]
  let check := h.checkAppendChunk productRuntime (sampleMember [1, 2, 3]) 1 [2]
  let after := h.appendChunk productRuntime (sampleMember [1, 2, 3]) 1 [2]
  ((check, after.1), stagedChunks h, stagedChunks after.2)

/-- The check accepts the second chunk, the call refuses it, and the heap keeps it. -/
theorem append_chunk_inexact : secondChunk =
    ((.ok (), .error (.refused .invalidValue)), [some [1], none], [some [1], some [2]]) := by
  decide +kernel

/-- The second chunk of `[1, 2]` fills the last slot and makes up the payload. -/
theorem staging_exact_last_chunk : stagedChunks (sampleChunked [1, 2]) = [some [1], none] ∧
    (sampleChunked [1, 2]).Exact productRuntime (.appendChunk (sampleMember [1, 2]) 1 [2])
      (.ok ()) := by
  have hslots : (((sampleChunked [1, 2]).staged[(sampleMember [1, 2]).atomicId]?).bind fun slot =>
      (slot.members.find? fun s => s.member.ordinal = (sampleMember [1, 2]).ordinal).bind
        StagedMember.chunks) = some [some [1], none] := by
    decide +kernel
  refine ⟨by decide +kernel, (staging_exact_iff productRuntime (sampleChunked [1, 2])
    ⟨_, _, _, emptyHeap, _, emptyHeap_new, rfl⟩ (.appendChunk (sampleMember [1, 2]) 1 [2]) (.ok ())
    (congrArg some (by decide +kernel))).mpr ?_⟩
  rintro _ _ _ ⟨⟩ - slot staged chunks hslot hfind hchunks -
  rw [hslot, bind_some, hfind, bind_some, hchunks] at hslots
  cases hslots
  exact ⟨by decide +kernel, rfl⟩

/-! ## Coordinator sequences -/

namespace StagingHeap

variable (R : Runtime)

def issuedBy (h : StagingHeap) : StagingCall → Option UInt64
  | .beginPrepare atomicId contentRoot members =>
    (h.beginPrepare R atomicId contentRoot members).1.toOption.map Prod.fst
  | .installPrepared seq atomicId contentRoot members =>
    (h.installPrepared R seq atomicId contentRoot members).1.toOption.map fun _ => seq
  | _ => none

/-- The coordinator sequences issued in a run, in order. -/
def issued : StagingHeap → List StagingCall → List UInt64
  | _, [] => []
  | h, call :: calls => (issuedBy R h call).toList ++ issued (h.step R call) calls

/-- The call increments a counter that is at the top of its range: it wraps around, or panics in a
build with overflow checks. -/
def Wraps (h : StagingHeap) (call : StagingCall) : Prop :=
  (∃ atomicId contentRoot members, call = .beginPrepare atomicId contentRoot members) ∧
    issuedBy R h call ≠ none ∧ h.coordinator.overflows

/-- The counter keeps away from the top: `begin_prepare` finds it below `u64::MAX`, and no installed
sequence is `u64::MAX`. -/
def Roomy (h : StagingHeap) : StagingCall → Prop
  | .beginPrepare _ _ _ => ¬ h.coordinator.overflows
  | .installPrepared seq _ _ _ => seq.toNat + 1 < 2 ^ 64
  | _ => True

def RoomyRun : StagingHeap → List StagingCall → Prop
  | _, [] => True
  | h, call :: calls => Roomy h call ∧ RoomyRun (h.step R call) calls

end StagingHeap

/-- The recorded sequences are distinct, not zero and below the counter. -/
structure CoordinatorStream.Sound (c : CoordinatorStream) : Prop where
  nodup : (c.records.map CoordinatorRecord.seq).Nodup
  bounds : ∀ r ∈ c.records, r.seq ≠ 0 ∧ r.seq < c.next
  pos : c.next ≠ 0

section Coordinator

variable {R : Runtime} {h : StagingHeap} {atomicId : AtomicId} {manifest : PlacementManifest}
  {calls : List StagingCall}

theorem beginPrepare_coordinator
    (hbegin : (h.beginPrepare R atomicId contentRoot members).1 = .ok (seq, manifest)) :
    seq = h.coordinator.next ∧
      (h.beginPrepare R atomicId contentRoot members).2.coordinator =
        { next := h.coordinator.next + 1
          records := h.coordinator.records ++ [⟨seq, atomicId, contentRoot⟩] } := by
  unfold beginPrepare at hbegin ⊢
  cases hcheck : h.checkBeginPrepare R atomicId contentRoot members with
  | error e =>
    rw [hcheck] at hbegin
    cases hbegin
  | ok manifest' =>
    rw [hcheck] at hbegin
    cases halloc : h.coordinator.allocate atomicId contentRoot with
    | error e =>
      rw [halloc] at hbegin
      cases hbegin
    | ok r =>
      rw [halloc] at hbegin
      obtain ⟨-, halloc⟩ := ite_throw_eq_ok.mp halloc
      cases halloc
      cases hbegin
      exact ⟨rfl, rfl⟩

/-- What a successful `install_prepared` does to the coordinator: the identity is new to the staged
lane, so it has no record yet. -/
theorem installPrepared_coordinator (hinv : h.Inv R)
    (hinstall : (h.installPrepared R seq atomicId contentRoot members).1 = .ok manifest) :
    seq ≠ 0 ∧ (∀ r ∈ h.coordinator.records, r.seq ≠ seq) ∧
      (h.installPrepared R seq atomicId contentRoot members).2.coordinator =
        { next := max h.coordinator.next (saturatingSucc seq)
          records := sortBy (compareOn CoordinatorRecord.seq)
            (h.coordinator.records ++ [⟨seq, atomicId, contentRoot⟩]) } := by
  unfold installPrepared at hinstall ⊢
  cases hcheck : h.checkBeginPrepare R atomicId contentRoot members with
  | error e =>
    rw [hcheck] at hinstall
    cases hinstall
  | ok manifest' =>
    rw [hcheck] at hinstall
    cases hinst : h.coordinator.install seq atomicId contentRoot with
    | error e =>
      rw [hinst] at hinstall
      cases hinstall
    | ok c =>
      obtain ⟨hzero, hinst⟩ := ite_throw_eq_ok.mp hinst
      have hfind : (h.coordinator.records.find? fun r => r.atomicId = atomicId) = none := by
        refine find?_eq_none.mpr fun r hr => ?_
        rw [decide_eq_true_eq]
        rintro rfl
        have hfresh := (checkBeginPrepare_eq_ok hcheck).1
        rw [hinv.records r hr] at hfresh
        cases hfresh
      rw [hfind] at hinst
      obtain ⟨hseq, hinst⟩ := ite_throw_eq_ok.mp hinst
      cases hinst
      refine ⟨hzero, fun r hr heq => hseq ?_, rfl⟩
      exact any_eq_true.mpr ⟨r, hr, decide_eq_true heq⟩

theorem beginPrepare_of_error
    (hbegin : (h.beginPrepare R atomicId contentRoot members).1 = .error e) :
    (h.beginPrepare R atomicId contentRoot members).2 = h := by
  unfold beginPrepare at hbegin ⊢
  split
  · rfl
  rename_i manifest hcheck
  rw [hcheck] at hbegin
  split
  · rfl
  · rename_i halloc
    rw [halloc] at hbegin
    cases hbegin

theorem installPrepared_of_error
    (hinstall : (h.installPrepared R seq atomicId contentRoot members).1 = .error e) :
    (h.installPrepared R seq atomicId contentRoot members).2 = h := by
  unfold installPrepared at hinstall ⊢
  split
  · rfl
  rename_i manifest hcheck
  rw [hcheck] at hinstall
  split
  · rfl
  · rename_i hinst
    rw [hinst] at hinstall
    cases hinstall

theorem step_coordinator (hinv : h.Inv R) (call : StagingCall) :
    (issuedBy R h call = none ∧ (h.step R call).coordinator = h.coordinator) ∨
    (∃ atomicId contentRoot members, call = .beginPrepare atomicId contentRoot members ∧
      issuedBy R h call = some h.coordinator.next ∧ (h.step R call).coordinator =
        { next := h.coordinator.next + 1
          records := h.coordinator.records ++ [⟨h.coordinator.next, atomicId, contentRoot⟩] }) ∨
    (∃ seq atomicId contentRoot members, call = .installPrepared seq atomicId contentRoot members ∧
      issuedBy R h call = some seq ∧ seq ≠ 0 ∧ (∀ r ∈ h.coordinator.records, r.seq ≠ seq) ∧
      (h.step R call).coordinator =
        { next := max h.coordinator.next (saturatingSucc seq)
          records := sortBy (compareOn CoordinatorRecord.seq)
            (h.coordinator.records ++ [⟨seq, atomicId, contentRoot⟩]) }) := by
  cases call with
  | beginPrepare atomicId contentRoot members =>
    cases hbegin : (h.beginPrepare R atomicId contentRoot members).1 with
    | error e =>
      refine .inl ⟨by simp [issuedBy, hbegin, Except.toOption], ?_⟩
      exact congrArg StagingHeap.coordinator (beginPrepare_of_error hbegin)
    | ok r =>
      obtain ⟨hseq, hc⟩ := beginPrepare_coordinator hbegin
      rw [hseq] at hc
      exact .inr (.inl ⟨_, _, _, rfl, by simp [issuedBy, hbegin, Except.toOption, hseq], hc⟩)
  | installPrepared seq atomicId contentRoot members =>
    cases hinstall : (h.installPrepared R seq atomicId contentRoot members).1 with
    | error e =>
      refine .inl ⟨by simp [issuedBy, hinstall, Except.toOption], ?_⟩
      exact congrArg StagingHeap.coordinator (installPrepared_of_error hinstall)
    | ok manifest =>
      obtain ⟨hzero, hnew, hc⟩ := installPrepared_coordinator hinv hinstall
      exact .inr (.inr ⟨_, _, _, _, rfl, by simp [issuedBy, hinstall, Except.toOption], hzero, hnew,
        hc⟩)
  | publishOrdinary collection key cell => exact .inl ⟨rfl, rfl⟩
  | appendStaged member payload => exact .inl ⟨rfl, (appendStaged_effect R h _ _).coordinator_eq⟩
  | commitChunkManifest atomicId ordinal plan =>
    exact .inl ⟨rfl, (commitChunkManifest_effect R h _ _ _).coordinator_eq⟩
  | appendChunk member index body =>
    exact .inl ⟨rfl, (appendChunk_effect R h _ _ _).coordinator_eq⟩
  | sealMemberBoundary atomicId =>
    exact .inl ⟨rfl, (sealMemberBoundary_effect R h _).coordinator_eq⟩
  | rotateWriterShards newCount =>
    exact .inl ⟨rfl, (rotateWriterShards_effect R h _).coordinator_eq⟩

theorem records_step_perm (hinv : h.Inv R) (call : StagingCall) :
    ((h.step R call).coordinator.records.map CoordinatorRecord.seq).Perm
      (h.coordinator.records.map CoordinatorRecord.seq ++ (issuedBy R h call).toList) := by
  rcases step_coordinator hinv call with ⟨hissued, hc⟩ | ⟨_, _, _, -, hissued, hc⟩ |
    ⟨_, _, _, _, -, hissued, -, -, hc⟩
  · rw [hissued, hc, toList_none, append_nil]
  · rw [hissued, hc, toList_some, map_append]
    exact List.Perm.refl _
  · rw [hissued, hc, toList_some]
    refine ((sortBy_perm _ _).map _).trans ?_
    rw [map_append]
    exact List.Perm.refl _

theorem records_run_perm (hinv : h.Inv R) (calls : List StagingCall) :
    ((h.run R calls).coordinator.records.map CoordinatorRecord.seq).Perm
      (h.coordinator.records.map CoordinatorRecord.seq ++ issued R h calls) := by
  induction calls generalizing h with
  | nil => rw [issued, append_nil]; exact List.Perm.refl _
  | cons call calls ih =>
    refine (ih (hinv.effect (step_effect R h call))).trans ?_
    rw [issued, ← append_assoc]
    exact (records_step_perm hinv call).append_right _

theorem toNat_succ_of_not_overflows {c : CoordinatorStream} (hc : ¬ c.overflows) :
    (c.next + 1).toNat = c.next.toNat + 1 := by
  have hlt := c.next.toNat_lt
  unfold overflows at hc
  rw [UInt64.toNat_add, UInt64.toNat_one, Nat.mod_eq_of_lt (by omega)]

theorem toNat_saturatingSucc {n : UInt64} (hn : n.toNat + 1 < 2 ^ 64) :
    (saturatingSucc n).toNat = n.toNat + 1 := by
  rw [saturatingSucc, if_neg (by omega), UInt64.toNat_add, UInt64.toNat_one,
    mod_eq_of_lt hn]

theorem toNat_max (a b : UInt64) : (max a b).toNat = max a.toNat b.toNat := by
  rw [show max a b = if a ≤ b then b else a from rfl]
  split_ifs with hab
  · exact (max_eq_right (UInt64.le_iff_toNat_le.mp hab)).symm
  · have hba := UInt64.le_iff_toNat_le.not.mp hab
    exact (Nat.max_eq_left (by omega)).symm

theorem CoordinatorStream.Sound.nodup_step {seq : UInt64} (hs : h.coordinator.Sound)
    (hinv : h.Inv R) (hissued : issuedBy R h call = some seq)
    (hnew : ∀ r ∈ h.coordinator.records, r.seq ≠ seq) :
    ((h.step R call).coordinator.records.map CoordinatorRecord.seq).Nodup := by
  rw [(records_step_perm hinv call).nodup_iff, hissued, toList_some]
  refine nodup_append.mpr ⟨hs.nodup, nodup_singleton _, ?_⟩
  intro a ha b hb hab
  obtain ⟨r, hr, rfl⟩ := mem_map.mp ha
  exact hnew r hr (hab.trans (mem_singleton.mp hb))

theorem CoordinatorStream.Sound.step (hs : h.coordinator.Sound) (hinv : h.Inv R)
    (hroomy : Roomy h call) : (h.step R call).coordinator.Sound := by
  rcases step_coordinator hinv call with ⟨hissued, hc⟩ | ⟨_, _, _, rfl, hissued, hc⟩ |
    ⟨seq, _, _, _, rfl, hissued, hzero, hnew, hc⟩
  · rw [hc]
    exact hs
  · have hnext := toNat_succ_of_not_overflows hroomy
    have hbelow : ∀ r ∈ h.coordinator.records, r.seq.toNat < h.coordinator.next.toNat :=
      fun r hr => UInt64.lt_iff_toNat_lt.mp (hs.bounds r hr).2
    refine ⟨hs.nodup_step hinv hissued fun r hr heq => ?_, ?_, ?_⟩
    · exact absurd (hbelow r hr) (by rw [heq]; exact lt_irrefl _)
    · intro r hr
      rw [hc] at hr ⊢
      rw [UInt64.lt_iff_toNat_lt, hnext]
      rcases mem_append.mp hr with hr | hr
      · exact ⟨(hs.bounds r hr).1, lt_succ_of_lt (hbelow r hr)⟩
      · rw [mem_singleton.mp hr]
        exact ⟨hs.pos, lt_succ_self _⟩
    · rw [hc]
      intro hzero
      have htoNat := congrArg UInt64.toNat hzero
      rw [hnext] at htoNat
      exact succ_ne_zero _ htoNat
  · have hsucc := toNat_saturatingSucc (n := seq) hroomy
    have hmax := toNat_max h.coordinator.next (saturatingSucc seq)
    rw [hsucc] at hmax
    refine ⟨hs.nodup_step hinv hissued hnew, ?_, ?_⟩
    · intro r hr
      rw [hc] at hr ⊢
      rw [UInt64.lt_iff_toNat_lt, hmax]
      rcases mem_append.mp ((sortBy_perm _ _).mem_iff.mp hr) with hr | hr
      · obtain ⟨hne, hlt⟩ := hs.bounds r hr
        exact ⟨hne, Nat.lt_of_lt_of_le (UInt64.lt_iff_toNat_lt.mp hlt) (Nat.le_max_left _ _)⟩
      · rw [mem_singleton.mp hr]
        exact ⟨hzero, Nat.le_max_right _ _⟩
    · rw [hc]
      intro hzero
      have htoNat := congrArg UInt64.toNat hzero
      have hle := le_max_right h.coordinator.next.toNat (seq.toNat + 1)
      rw [← hmax, htoNat] at hle
      exact not_succ_le_zero _ hle

theorem CoordinatorStream.Sound.run (hs : h.coordinator.Sound) (hinv : h.Inv R)
    (hroomy : RoomyRun R h calls) : (h.run R calls).coordinator.Sound := by
  induction calls generalizing h with
  | nil => exact hs
  | cons call calls ih =>
    exact ih (hs.step hinv hroomy.1) (hinv.effect (step_effect R h call)) hroomy.2

theorem not_wraps_of_roomy (hroomy : Roomy h call) : ¬ Wraps R h call := by
  rintro ⟨⟨_, _, _, rfl⟩, -, hover⟩
  exact hroomy hover

theorem roomyRun_append {rest : List StagingCall} :
    RoomyRun R h (calls ++ rest) ↔ RoomyRun R h calls ∧ RoomyRun R (h.run R calls) rest := by
  induction calls generalizing h with
  | nil => exact (iff_of_eq (true_and _)).symm
  | cons call calls ih =>
    rw [cons_append, RoomyRun, RoomyRun, ih, and_assoc]
    rfl

end Coordinator

/-- **The coordinator's order is sound away from the top of its range.** In every run whose
`begin_prepare` calls find the counter below `u64::MAX` and whose installed sequences are below
`u64::MAX`, the issued sequences are distinct, not zero and below the next one, and none wraps. -/
theorem coordinator_sound (R : Runtime) (heapId : HeapId) (shardCount : UInt32)
    (limits : ChunkLimits) (h₀ : StagingHeap)
    (hnew : newWithChunkLimits heapId shardCount limits = .ok h₀) (calls : List StagingCall)
    (hroomy : RoomyRun R h₀ calls) :
    (issued R h₀ calls).Nodup ∧
      (∀ seq ∈ issued R h₀ calls, seq ≠ 0 ∧ seq < (h₀.run R calls).coordinator.next) ∧
      ∀ before call after, calls = before ++ call :: after →
        ¬ Wraps R (h₀.run R before) call := by
  have hinv : h₀.Inv R := inv_new hnew
  obtain ⟨-, hnew⟩ := ite_throw_eq_ok.mp hnew
  obtain ⟨-, hnew⟩ := ite_throw_eq_ok.mp hnew
  cases hnew
  have hnew : new.Sound :=
    ⟨nodup_nil, (fun r hr => by cases hr), by decide⟩
  have hsound := hnew.run (h := _) hinv hroomy
  have hperm := records_run_perm hinv calls
  rw [show new.records = [] from rfl, map_nil, nil_append] at hperm
  refine ⟨hperm.nodup_iff.mp hsound.nodup, fun seq hseq => ?_, ?_⟩
  · obtain ⟨r, hr, rfl⟩ := mem_map.mp (hperm.mem_iff.mpr hseq)
    exact hsound.bounds r hr
  · rintro before call after rfl
    exact not_wraps_of_roomy (roomyRun_append.mp hroomy).2.1

/-- Recovery installs the highest sequence, and the next `begin_prepare` issues it again. -/
theorem coordinator_reissues : StagingHeap.new (sampleShort 1 (by decide)) 2 = .ok emptyHeap ∧
      issued productRuntime emptyHeap
        [.installPrepared 0xFFFF_FFFF_FFFF_FFFF (sampleAtomic 1 (by decide))
            (sampleAtomic 9 (by decide)) [],
          .beginPrepare (sampleAtomic 2 (by decide)) (sampleAtomic 9 (by decide)) []] =
        [0xFFFF_FFFF_FFFF_FFFF, 0xFFFF_FFFF_FFFF_FFFF] := by
  refine ⟨emptyHeap_new, ?_⟩
  decide +kernel

/-- A sequence installed out of order, then a new one above it. -/
def installThenBegin : List StagingCall :=
  [.installPrepared 5 (sampleAtomic 1 (by decide)) (sampleAtomic 9 (by decide)) [],
    .beginPrepare (sampleAtomic 2 (by decide)) (sampleAtomic 9 (by decide)) []]

theorem roomyRun_installThenBegin : RoomyRun productRuntime emptyHeap installThenBegin := by
  refine ⟨?_, ?_, trivial⟩
  · show (5 : UInt64).toNat + 1 < 2 ^ 64
    decide
  · show ¬ overflows _
    decide +kernel

/-- The two sequences are distinct. -/
theorem coordinator_sound_install : (issued productRuntime emptyHeap installThenBegin).Nodup :=
  (coordinator_sound productRuntime _ _ _ emptyHeap emptyHeap_new installThenBegin
    roomyRun_installThenBegin).1

/-! ## Sealed atomics -/

/-- The call writes the ordinary map. -/
def StagingCall.publishes : StagingCall → Bool
  | .publishOrdinary _ _ _ => true
  | _ => false

/-- The payload of a staged member has the recorded hash; a deletion has neither. -/
def StagedMember.Recorded (R : Runtime) (s : StagedMember) : Prop :=
  if s.member.memberKind = .delete then s.member.afterContentHash = none ∧ s.payload = []
  else s.member.afterContentHash = some (R.blake3 s.payload)

/-- The slot's members are the ones of its placement, each with the recorded payload. -/
structure StagedAtomic.Filled (R : Runtime) (slot : StagedAtomic) : Prop where
  members : (slot.members.map StagedMember.member).Perm
    (slot.manifest.entries.map PlacementEntry.member)
  payloads : ∀ s ∈ slot.members, s.Recorded R

/-- What a later state of a slot has kept: its sequence and placement, and everything once it is
sealed. -/
structure StagedAtomic.Keeps (slot slot' : StagedAtomic) : Prop where
  seq : slot'.seq = slot.seq
  manifest : slot'.manifest = slot.manifest
  sealed : slot.lifecycle.members = .durableInvisible → slot' = slot

section Frozen

variable {R : Runtime} {h h' : StagingHeap} {atomicId : AtomicId} {slot slot' : StagedAtomic}

theorem recorded_of_verify
    (hverify : verifyPayload R s.member s.payload = .ok ()) : s.Recorded R := by
  unfold verifyPayload at hverify
  unfold StagedMember.Recorded
  cases hkind : s.member.memberKind with
  | delete =>
    rw [hkind] at hverify
    obtain ⟨hnot, -⟩ := ite_throw_eq_ok.mp hverify
    rw [not_or, not_not, not_isSome_iff_eq_none] at hnot
    exact (if_pos rfl).mpr ⟨hnot.2, hnot.1⟩
  | _ =>
    rw [hkind] at hverify
    obtain ⟨hnot, -⟩ := ite_throw_eq_ok.mp hverify
    exact (not_not.mp hnot).symm

theorem filled_of_complete (hc : Complete R slot) : slot.Filled R :=
  ⟨hc.members, fun s hs => recorded_of_verify (hc.payloads s hs)⟩

theorem StagedAtomic.Keeps.refl : slot.Keeps slot := ⟨rfl, rfl, fun _ => rfl⟩

theorem StagedAtomic.Keeps.trans {slot'' : StagedAtomic} (h₁ : slot.Keeps slot')
    (h₂ : slot'.Keeps slot'') : slot.Keeps slot'' := by
  refine ⟨h₂.seq.trans h₁.seq, h₂.manifest.trans h₁.manifest, fun hsealed => ?_⟩
  have heq := h₁.sealed hsealed
  rw [heq] at h₂
  exact h₂.sealed hsealed

theorem keeps_of_change (hopen : slot.lifecycle.members ≠ .durableInvisible)
    (hchange : SlotChange limits slot slot') : slot.Keeps slot' := by
  cases hchange <;> exact ⟨rfl, rfl, fun hsealed => absurd hsealed hopen⟩

theorem keeps_seal : slot.Keeps
    { slot with lifecycle := { slot.lifecycle with members := .durableInvisible } } := by
  refine ⟨rfl, rfl, fun hsealed => ?_⟩
  rw [← hsealed]

theorem keeps_setSlot {other : AtomicId} {s : StagedAtomic}
    (hslot : h.staged[atomicId]? = some slot)
    (hkeeps : slot.Keeps slot') (hs : h.staged[other]? = some s) :
    ∃ s', (h.setSlot atomicId slot').staged[other]? = some s' ∧ s.Keeps s' := by
  rw [getElem?_setSlot]
  split_ifs with heq
  · subst heq
    cases hslot.symm.trans hs
    exact ⟨slot', rfl, hkeeps⟩
  · exact ⟨s, hs, .refl⟩

theorem Effect.keeps (he : Effect R h h') (hslot : h.staged[atomicId]? = some slot) :
    ∃ slot', h'.staged[atomicId]? = some slot' ∧ slot.Keeps slot' := by
  cases he with
  | lane he =>
    cases he with
    | unchanged | rotated newCount => exact ⟨slot, hslot, .refl⟩
    | changed other s s' hs hopen hchange =>
      exact keeps_setSlot hs (keeps_of_change hopen hchange) hslot
    | sealed other s hs hcheck => exact keeps_setSlot hs keeps_seal hslot
  | published collection key cell => exact ⟨slot, hslot, .refl⟩
  | prepared other seq manifest coordinator hfresh hord hrecords =>
    refine ⟨slot, ?_, .refl⟩
    rw [getElem?_setSlot, if_neg]
    · exact hslot
    -- a new identity is not the one of a slot
    · rintro rfl
      rw [TreeMap.contains_eq_isSome_getElem?, hslot] at hfresh
      cases hfresh

theorem keeps_run (hslot : h.staged[atomicId]? = some slot) (calls : List StagingCall) :
    ∃ slot', (h.run R calls).staged[atomicId]? = some slot' ∧ slot.Keeps slot' := by
  induction calls generalizing h slot with
  | nil => exact ⟨slot, hslot, .refl⟩
  | cons call calls ih =>
    obtain ⟨mid, hmid, hkeeps⟩ := (step_effect R h call).keeps hslot
    obtain ⟨last, hlast, hkeeps'⟩ := ih hmid
    exact ⟨last, hlast, hkeeps.trans hkeeps'⟩

theorem ordinary_step (hcall : call.publishes = false) : (h.step R call).ordinary = h.ordinary := by
  cases call with
  | publishOrdinary collection key cell => cases hcall
  | beginPrepare id root members =>
    show (h.beginPrepare R id root members).2.ordinary = h.ordinary
    unfold beginPrepare
    split
    · rfl
    · split <;> rfl
  | installPrepared seq id root members =>
    show (h.installPrepared R seq id root members).2.ordinary = h.ordinary
    unfold installPrepared
    split
    · rfl
    · split <;> rfl
  | appendStaged member payload => exact (appendStaged_effect R h _ _).ordinary_eq
  | commitChunkManifest id ordinal plan => exact (commitChunkManifest_effect R h _ _ _).ordinary_eq
  | appendChunk member index body => exact (appendChunk_effect R h _ _ _).ordinary_eq
  | sealMemberBoundary id => exact (sealMemberBoundary_effect R h _).ordinary_eq
  | rotateWriterShards newCount => exact (rotateWriterShards_effect R h _).ordinary_eq

theorem ordinary_run (heq : h.ordinary = h'.ordinary) (calls : List StagingCall) :
    (h.run R calls).ordinary = (h'.run R (calls.filter StagingCall.publishes)).ordinary := by
  induction calls generalizing h h' with
  | nil => exact heq
  | cons call calls ih =>
    cases hcall : call.publishes with
    | false =>
      rw [filter_cons_of_neg (by rw [hcall]; exact Bool.false_ne_true)]
      exact ih ((ordinary_step hcall).trans heq)
    | true =>
      rw [filter_cons_of_pos hcall]
      refine ih ?_
      cases call with
      | publishOrdinary collection key cell =>
        show h.ordinary.insert _ _ = h'.ordinary.insert _ _
        rw [heq]
      | _ => cases hcall

theorem run_append (calls rest : List StagingCall) :
    h.run R (calls ++ rest) = (h.run R calls).run R rest := by
  induction calls generalizing h with
  | nil => rfl
  | cons call calls ih => exact ih

end Frozen

/-- **Staged bytes stay invisible and frozen.** The ordinary map of a run is the one its
`publish_ordinary` calls alone produce. A slot keeps its placement, and once it is sealed it is the
same slot in every later state: one member per entry of the placement, each with the payload whose
hash is recorded. -/
theorem staged_frozen (R : Runtime) (heapId : HeapId) (shardCount : UInt32) (limits : ChunkLimits)
    (h₀ : StagingHeap) (hnew : newWithChunkLimits heapId shardCount limits = .ok h₀)
    (calls rest : List StagingCall) :
    (h₀.run R calls).ordinary = (h₀.run R (calls.filter StagingCall.publishes)).ordinary ∧
      ∀ (atomicId : AtomicId) (slot : StagedAtomic),
        (h₀.run R calls).staged[atomicId]? = some slot →
        (∃ slot' : StagedAtomic, (h₀.run R (calls ++ rest)).staged[atomicId]? = some slot' ∧
          slot'.manifest = slot.manifest) ∧
        (slot.lifecycle.members = .durableInvisible →
          (h₀.run R (calls ++ rest)).staged[atomicId]? = some slot ∧ slot.Filled R) := by
  refine ⟨ordinary_run rfl calls, fun atomicId slot hslot => ?_⟩
  have hinv := ((inv_new hnew).run calls).slots atomicId slot hslot
  obtain ⟨slot', hslot', hkeeps⟩ := keeps_run (R := R) hslot rest
  rw [run_append]
  refine ⟨⟨slot', hslot', hkeeps.manifest⟩, fun hsealed => ?_⟩
  rw [← hkeeps.sealed hsealed]
  exact ⟨hslot', filled_of_complete (hkeeps.sealed hsealed ▸ hinv.complete hsealed)⟩

def sealedCalls : List StagingCall :=
  [.beginPrepare (sampleAtomic 1 (by decide)) (sampleAtomic 9 (by decide)) [sampleMember [1, 2]],
    .appendStaged (sampleMember [1, 2]) [1, 2], .sealMemberBoundary (sampleAtomic 1 (by decide))]

theorem sealedCalls_sealed :
    ((emptyHeap.run productRuntime sealedCalls).lifecycle (sampleAtomic 1 (by decide))).map
      AtomicLifecycle.members = some .durableInvisible := by
  decide +kernel

/-- A retry and a published cell leave the sealed object alone. -/
theorem staged_frozen_sealed : ∃ slot : StagedAtomic,
    (emptyHeap.run productRuntime (sealedCalls ++ [.appendStaged (sampleMember [1, 2]) [1, 2],
      .publishOrdinary (sampleShort 2 (by decide)) (.opaqueBytes [7])
        ⟨sampleShort 4 (by decide), [5]⟩])).staged[sampleAtomic 1 (by decide)]? = some slot ∧
      slot.Filled productRuntime := by
  obtain ⟨lifecycle, hlife, hsealed⟩ := map_eq_some_iff.mp sealedCalls_sealed
  obtain ⟨slot, hslot, rfl⟩ := map_eq_some_iff.mp hlife
  exact ⟨slot, ((staged_frozen productRuntime _ _ _ emptyHeap emptyHeap_new sealedCalls _).2 _ _
    hslot).2 hsealed⟩

end Residiuum.Atomics
