import Residiuum.Format.Atomic
import Residiuum.Format.ScanForward

/-!
# Atomic evidence: what the class of a group depends on

The classification of a group reads its frames in scan order, but the class depends on the set of
frames only. Losing frames can make a group incomplete or corrupt, and cannot turn it into another
outcome.

* **`atomic_class_order_independent`**: reordering and repeating the frames of a buffer changes no
  class.
* **`damage_never_invents_outcome`**: the class reported once frames are lost.
-/

namespace Residiuum

open Atomics ByteLib DistinctLib FrameParts GroupLib List

/-! ## Records with the same members -/

section Records

variable {α : Type} [DecidableEq α] {l : List α}

theorem sameRecords_iff : sameRecords l = true ↔ ∀ a ∈ l, ∀ b ∈ l, a = b := by
  induction l with
  | nil => simp [sameRecords]
  | cons a l ih =>
    cases l with
    | nil => simp [sameRecords]
    | cons b l =>
      rw [sameRecords, Bool.and_eq_true, decide_eq_true_eq, ih]
      constructor
      · rintro ⟨rfl, h⟩ x hx y hy
        have hmem : ∀ z, z ∈ a :: a :: l → z ∈ a :: l := fun z hz => by simpa using hz
        exact h x (hmem x hx) y (hmem y hy)
      · intro h
        exact ⟨h a (by simp) b (by simp), fun x hx y hy =>
          h x (mem_cons_of_mem _ hx) y (mem_cons_of_mem _ hy)⟩

theorem head?_eq_some_iff (h : sameRecords l = true) {a : α} : l.head? = some a ↔ a ∈ l := by
  refine ⟨mem_of_head?, fun ha => ?_⟩
  cases l with
  | nil => exact absurd ha not_mem_nil
  | cons b l => rw [head?_cons, sameRecords_iff.mp h a ha b mem_cons_self]

variable {l l' : List α} (hmem : ∀ a, a ∈ l ↔ a ∈ l')

include hmem

theorem sameRecords_congr : sameRecords l = sameRecords l' := by
  rw [Bool.eq_iff_iff, sameRecords_iff, sameRecords_iff]
  simp [hmem]

theorem head?_congr (h : sameRecords l = true) : l.head? = l'.head? := by
  apply Option.ext
  intro a
  rw [head?_eq_some_iff h, hmem, head?_eq_some_iff (sameRecords_congr hmem ▸ h)]

end Records

/-! ## Classes with the same members -/

variable {γ : Type} {role : AtomicFrameRole} {decode : Bytes → Except AtomicsError γ}
  {l l' : List AtomicMember} {blocks : List Bytes} {r : List γ} {f : ValidFrame} {α : Type}
  {b : Bool}

section Congr

variable (R : Runtime) (prepare : AtomicPrepare) (decision : AtomicDecision)

theorem dedupMembers_eq (members : List AtomicMember) : dedupMembers members =
    if ∀ a ∈ members, ∀ b ∈ members, a.ordinal = b.ordinal → a = b then .ok (distinct members)
    else .error (.corrupt .bodyMismatch) := dedupBy_eq members

theorem classifyCommittedGroup_perm
    (hperm : l.Perm l') (hord : ∀ a ∈ l, ∀ b ∈ l, a.ordinal = b.ordinal → a = b) :
    classifyCommittedGroup R prepare decision l = classifyCommittedGroup R prepare decision l' := by
  unfold classifyCommittedGroup
  rw [hperm.length_eq]
  cases HeapId.fromBytes prepare.heapId.1 with
  | error e => rfl
  | ok heap => simp [orderedMemberManifestRoot_perm R heap hperm hord]

theorem classifyNotCommittedGroup_perm
    (hperm : l.Perm l') : classifyNotCommittedGroup prepare decision l =
      classifyNotCommittedGroup prepare decision l' := by
  unfold classifyNotCommittedGroup
  rw [hperm.isEmpty_eq]

theorem classifyDecided_perm
    (hperm : l.Perm l') (hord : ∀ a ∈ l, ∀ b ∈ l, a.ordinal = b.ordinal → a = b) :
    classifyDecided R prepare decision l = classifyDecided R prepare decision l' := by
  unfold classifyDecided
  rw [classifyCommittedGroup_perm R prepare decision hperm hord,
    classifyNotCommittedGroup_perm prepare decision hperm]

theorem classifyRecords_congr {ps ps' : List AtomicPrepare} {ds ds' : List AtomicDecision}
    {ms ms' : List AtomicMember} (hps : ∀ p, p ∈ ps ↔ p ∈ ps') (hds : ∀ d, d ∈ ds ↔ d ∈ ds')
    (hms : ∀ m, m ∈ ms ↔ m ∈ ms') : classifyRecords R ps ds ms = classifyRecords R ps' ds' ms' := by
  unfold classifyRecords
  rw [← sameRecords_congr hps, ← sameRecords_congr hds]
  by_cases hp : sameRecords ps = true
  · by_cases hd : sameRecords ds = true
    · rw [← head?_congr hps hp, ← head?_congr hds hd, dedupMembers_eq, dedupMembers_eq]
      simp only [← hms]
      by_cases hord : ∀ a ∈ ms, ∀ b ∈ ms, a.ordinal = b.ordinal → a = b
      · have hperm := distinct_perm hms
        have hord' : ∀ a ∈ distinct ms, ∀ b ∈ distinct ms, a.ordinal = b.ordinal → a = b :=
          fun a ha b hb => hord a (mem_distinct.mp ha) b (mem_distinct.mp hb)
        simp [if_pos hord, classifyDecided_perm R _ _ hperm hord']
      · simp [if_neg hord]
    · simp [hd]
  · simp [hp]

variable {frames frames' : List ValidFrame} (hmem : ∀ f, f ∈ frames ↔ f ∈ frames')

include hmem

theorem mem_bodiesOf_congr (role : AtomicFrameRole) (body : Bytes) :
    body ∈ bodiesOf role frames ↔ body ∈ bodiesOf role frames' := by
  simp [bodiesOf, hmem]

theorem mapM_bodiesOf_congr (role : AtomicFrameRole) (decode : Bytes → Except AtomicsError γ) :
    (∃ r r' : List γ, (bodiesOf role frames).mapM decode = .ok r ∧
        (bodiesOf role frames').mapM decode = .ok r' ∧ ∀ y, y ∈ r ↔ y ∈ r') ∨
      ∃ e e', (bodiesOf role frames).mapM decode = .error e ∧
        (bodiesOf role frames').mapM decode = .error e' := by
  have hb := mem_bodiesOf_congr hmem role
  have hex : (∃ r, (bodiesOf role frames).mapM decode = .ok r) ↔
      ∃ r, (bodiesOf role frames').mapM decode = .ok r := by
    rw [exists_mapM_ok, exists_mapM_ok]
    simp [hb]
  cases h : (bodiesOf role frames).mapM decode with
  | ok r =>
    obtain ⟨r', h'⟩ := hex.mp ⟨r, h⟩
    refine .inl ⟨r, r', rfl, h', fun y => ?_⟩
    rw [mem_mapM_ok h, mem_mapM_ok h']
    simp [hb]
  | error e =>
    cases h' : (bodiesOf role frames').mapM decode with
    | error e' => exact .inr ⟨e, e', rfl, rfl⟩
    | ok r' =>
      obtain ⟨r, hr⟩ := hex.mpr ⟨r', h'⟩
      cases h.symm.trans hr

theorem classifyGroup_congr : classifyGroup R frames = classifyGroup R frames' := by
  unfold classifyGroup
  obtain ⟨ps, ps', hp, hp', hps⟩ | ⟨_, _, hp, hp'⟩ :=
    mapM_bodiesOf_congr hmem .prepare decodePrepare
  · obtain ⟨ms, ms', hm, hm', hms⟩ | ⟨_, _, hm, hm'⟩ :=
      mapM_bodiesOf_congr hmem .member decodeMember
    · obtain ⟨ds, ds', hd, hd', hds⟩ | ⟨_, _, hd, hd'⟩ :=
        mapM_bodiesOf_congr hmem .commit decodeDecision
      · rw [hp, hp', hm, hm', hd, hd']
        exact classifyRecords_congr R hps hds hms
      · rw [hd, hd', hp, hp', hm, hm']
    · rw [hm, hm', hp, hp']
  · rw [hp, hp']

theorem classifyFrames_congr : classifyFrames R frames = classifyFrames R frames' := by
  unfold classifyFrames
  have hroots : (distinct (frames.map fun f => f.1.contentRoot)).length =
      (distinct (frames'.map fun f => f.1.contentRoot)).length := by
    refine (distinct_perm fun root => ?_).length_eq
    simp [hmem]
  rw [hroots, classifyGroup_congr R hmem]

end Congr

/-! ## Groups of a buffer -/

section Groups

variable (R : Runtime) {frames : List DecodedFrame}

theorem mem_framesOf {key : Arr 16 × Arr 32} {valid : List ValidFrame} :
    f ∈ framesOf key valid ↔ f ∈ valid ∧ f.key? = some key := by
  obtain ⟨heap, id⟩ := key
  rw [framesOf, mem_filter, decide_eq_true_eq, ValidFrame.key?, Option.map_eq_some_iff]
  refine and_congr_right fun _ => ⟨fun h => ⟨heap, h.2, by rw [h.1]⟩, ?_⟩
  rintro ⟨heap', hheap, heq⟩
  cases heq
  exact ⟨rfl, hheap⟩

theorem find?_eq_self [DecidableEq α] (l : List α) (a : α) :
    l.find? (fun x => x = a) = if a ∈ l then some a else none := by
  cases h : l.find? fun x => x = a with
  | some b =>
    obtain rfl : b = a := by simpa using find?_some h
    rw [if_pos (mem_of_find?_eq_some h)]
  | none =>
    have ha : a ∉ l := fun ha => by simpa using find?_eq_none.mp h a ha
    rw [if_neg ha]

theorem classOf_aggregateGroups (valid : List ValidFrame) (heapId : Arr 16) (atomicId : Arr 32) :
    classOf (aggregateGroups R valid) heapId atomicId =
      if framesOf (heapId, atomicId) valid = [] then none
      else some (classifyFrames R (framesOf (heapId, atomicId) valid)) := by
  have hkey : ∀ key : Arr 16 × Arr 32, (some key.1 = some heapId ∧ key.2 = atomicId) ↔
      key = (heapId, atomicId) := fun key => by
    rw [Option.some.injEq, Prod.ext_iff]
  have hmem : (heapId, atomicId) ∈ distinct (valid.filterMap ValidFrame.key?) ↔
      framesOf (heapId, atomicId) valid ≠ [] := by
    rw [mem_distinct, mem_filterMap, ne_eq, eq_nil_iff_forall_not_mem]
    simp [mem_framesOf, not_forall]
  unfold classOf aggregateGroups
  rw [find?_map]
  simp only [Function.comp_def, hkey]
  rw [find?_eq_self]
  by_cases h : framesOf (heapId, atomicId) valid = []
  · rw [if_neg (fun hm => hmem.mp hm h), if_pos h]
    rfl
  · rw [if_pos (hmem.mpr h), if_neg h]
    rfl

theorem classOf_frameGroups_congr {frames' : List DecodedFrame}
    (hmem : ∀ f, f ∈ frames ↔ f ∈ frames') (heapId : Arr 16) (atomicId : Arr 32) :
    classOf (frameGroups R frames) heapId atomicId =
      classOf (frameGroups R frames') heapId atomicId := by
  have hframes : ∀ f, f ∈ framesOf (heapId, atomicId) (frames.filterMap validFrame?) ↔
      f ∈ framesOf (heapId, atomicId) (frames'.filterMap validFrame?) := fun f => by
    simp [mem_framesOf, mem_filterMap, hmem]
  have hnil : framesOf (heapId, atomicId) (frames.filterMap validFrame?) = [] ↔
      framesOf (heapId, atomicId) (frames'.filterMap validFrame?) = [] := by
    simp [eq_nil_iff_forall_not_mem, hframes]
  unfold frameGroups
  rw [classOf_aggregateGroups, classOf_aggregateGroups, classifyFrames_congr R hframes]
  simp [hnil]

theorem groups_readAtomicEvidence {limits : SafetyLimits}
    (hframes : blocks.mapM (fun b => decodeFrame R b limits) = .ok frames) :
    (readAtomicEvidence R blocks.flatten limits).groups = frameGroups R frames := by
  have h₂ := mapM_eq_ok.mp hframes
  have hfst : (blocks.zip frames).map Prod.fst = blocks := map_fst_zip h₂.length_eq.le
  have hsnd : (blocks.zip frames).map Prod.snd = frames := map_snd_zip h₂.length_eq.ge
  have hscan := scanForward_blocks fun x (hx : x ∈ blocks.zip frames) =>
    (List.forall₂_iff_zip.mp h₂).2 hx
  rw [hfst] at hscan
  rw [frameGroups, ← hsnd, ← verified_regionsFrom 0 (blocks.zip frames), ← hscan,
    filterMap_map]
  rfl

end Groups

/-- **Order and replication independence.** However the frames of a buffer are permuted and
repeated, every identity keeps its class. -/
theorem atomic_class_order_independent (R : Runtime) (limits : SafetyLimits)
    (blocks blocks' : List Bytes) (hvalid : ∀ b ∈ blocks, ∃ f, decodeFrame R b limits = .ok f)
    (hsame : ∀ b, b ∈ blocks' ↔ b ∈ blocks) (heapId : Arr 16) (atomicId : Arr 32) :
    classOf (readAtomicEvidence R blocks'.flatten limits).groups heapId atomicId =
      classOf (readAtomicEvidence R blocks.flatten limits).groups heapId atomicId := by
  obtain ⟨frames, hframes⟩ := exists_mapM_ok.mpr hvalid
  obtain ⟨frames', hframes'⟩ := exists_mapM_ok.mpr fun b hb => hvalid b ((hsame b).mp hb)
  rw [groups_readAtomicEvidence R hframes, groups_readAtomicEvidence R hframes']
  refine classOf_frameGroups_congr R (fun f => ?_) heapId atomicId
  rw [mem_mapM_ok hframes, mem_mapM_ok hframes']
  simp [hsame]

/-! ## What is left of a group -/

section Kept

variable (R : Runtime)

/-- The bodies decode to these records. -/
structure HasRecords (frames : List ValidFrame) (ps : List AtomicPrepare)
    (ds : List AtomicDecision) (ms : List AtomicMember) : Prop where
  prepares : (bodiesOf .prepare frames).mapM decodePrepare = .ok ps
  decisions : (bodiesOf .commit frames).mapM decodeDecision = .ok ds
  members : (bodiesOf .member frames).mapM decodeMember = .ok ms

/-- A group with an outcome: one prepare, one decision on it and one record for each ordinal. -/
structure Settled (frames : List ValidFrame) (prepare : AtomicPrepare) (decision : AtomicDecision)
    (members : List AtomicMember) (class_ : AtomicGroupClass) : Prop where
  oneRoot : ∀ f ∈ frames, ∀ g ∈ frames, f.1.contentRoot = g.1.contentRoot
  records : ∃ ps ds, HasRecords frames ps ds members ∧ (∀ p ∈ ps, p = prepare) ∧
    ∀ d ∈ ds, d = decision
  ordinals : ∀ a ∈ members, ∀ b ∈ members, a.ordinal = b.ordinal → a = b
  decided : classifyDecided R prepare decision (distinct members) = class_

variable {R} {frames kept : List ValidFrame} {prepare : AtomicPrepare} {decision : AtomicDecision}
  {ms : List AtomicMember} {class_ : AtomicGroupClass} {l : List AtomicMember}

theorem oneRoot_of_length (h : ¬ (distinct (frames.map fun f => f.1.contentRoot)).length > 1) :
    ∀ f ∈ frames, ∀ g ∈ frames, f.1.contentRoot = g.1.contentRoot := by
  intro f hf g hg
  have hmem : ∀ x ∈ frames, x.1.contentRoot ∈ distinct (frames.map fun f => f.1.contentRoot) :=
    fun x hx => mem_distinct.mpr (mem_map.mpr ⟨x, hx, rfl⟩)
  have hf' := hmem f hf
  have hg' := hmem g hg
  match hroots : distinct (frames.map fun f => f.1.contentRoot) with
  | [] => rw [hroots] at hf'; cases hf'
  | [r] =>
    rw [hroots, mem_singleton] at hf' hg'
    rw [hf', hg']
  | _ :: _ :: _ => rw [hroots] at h; simp at h

theorem length_roots_le (h : ∀ f ∈ frames, ∀ g ∈ frames, f.1.contentRoot = g.1.contentRoot) :
    ¬ (distinct (frames.map fun f => f.1.contentRoot)).length > 1 := by
  cases frames with
  | nil => simp [distinct]
  | cons f l =>
    have hroot : ∀ x ∈ (f :: l).map fun f => f.1.contentRoot, x ∈ [f.1.contentRoot] := by
      intro x hx
      obtain ⟨g, hg, rfl⟩ := mem_map.mp hx
      exact mem_singleton.mpr (h g hg f mem_cons_self)
    exact not_lt.mpr (length_distinct_le hroot)

def AtomicGroupClass.IsOutcome : AtomicGroupClass → Prop
  | .consistent | .notCommitted _ => True
  | _ => False

theorem exists_settled (hclass : classifyFrames R frames = class_) (hout : class_.IsOutcome) :
    ∃ prepare decision members, Settled R frames prepare decision members class_ := by
  unfold classifyFrames at hclass
  by_cases hroots : (distinct (frames.map fun f => f.1.contentRoot)).length > 1
  · rw [if_pos hroots] at hclass
    subst hclass
    exact hout.elim
  rw [if_neg hroots] at hclass
  unfold classifyGroup at hclass
  split at hclass
  case h_2 => subst hclass; exact hout.elim
  case h_1 ps ms ds hp hm hd =>
  unfold classifyRecords at hclass
  by_cases hps : sameRecords ps = true
  · by_cases hds : sameRecords ds = true
    · rw [if_neg (by simp [hps]), if_neg (by simp [hds]), dedupMembers_eq] at hclass
      by_cases hord : ∀ a ∈ ms, ∀ b ∈ ms, a.ordinal = b.ordinal → a = b
      · rw [if_pos hord] at hclass
        dsimp only at hclass
        split at hclass
        case h_1 prepare decision hprep hdec =>
          refine ⟨prepare, decision, ms, oneRoot_of_length hroots, ⟨ps, ds, ⟨hp, hd, hm⟩, ?_, ?_⟩,
            hord, hclass⟩
          · exact fun p hmem => sameRecords_iff.mp hps p hmem prepare (mem_of_head? hprep)
          · exact fun d hmem => sameRecords_iff.mp hds d hmem decision (mem_of_head? hdec)
        case h_2 => subst hclass; exact hout.elim
      · rw [if_neg hord] at hclass
        subst hclass
        exact hout.elim
    · rw [if_neg (by simp [hps]), if_pos (by simpa using hds)] at hclass
      subst hclass
      exact hout.elim
  · rw [if_pos (by simpa using hps)] at hclass
    subst hclass
    exact hout.elim

theorem mapM_bodiesOf_subset
    (hsub : ∀ f ∈ kept, f ∈ frames) (h : (bodiesOf role frames).mapM decode = .ok r) :
    ∃ r', (bodiesOf role kept).mapM decode = .ok r' ∧ ∀ y ∈ r', y ∈ r := by
  have hbodies : ∀ b ∈ bodiesOf role kept, b ∈ bodiesOf role frames := by
    intro b hb
    obtain ⟨f, hf, rfl⟩ := mem_map.mp hb
    rw [mem_filter] at hf
    exact mem_map.mpr ⟨f, mem_filter.mpr ⟨hsub f hf.1, hf.2⟩, rfl⟩
  obtain ⟨r', h'⟩ := exists_mapM_ok.mpr fun b hb => exists_mapM_ok.mp ⟨r, h⟩ b (hbodies b hb)
  refine ⟨r', h', fun y hy => ?_⟩
  obtain ⟨b, hb, hdec⟩ := (mem_mapM_ok h').mp hy
  exact (mem_mapM_ok h).mpr ⟨b, hbodies b hb, hdec⟩

/-- What is left of a group with an outcome classifies as incomplete, or by the same prepare and
decision over the members that are left. -/
theorem Settled.classifyFrames_subset (h : Settled R frames prepare decision ms class_)
    (hsub : ∀ f ∈ kept, f ∈ frames) :
    ∃ ps' ds' ms', HasRecords kept ps' ds' ms' ∧ (∀ m ∈ ms', m ∈ ms) ∧ (∀ d ∈ ds', d = decision) ∧
      (∀ p ∈ ps', p = prepare) ∧
      classifyFrames R kept = if ps' = [] ∨ ds' = [] then .incomplete .groupIncomplete
        else classifyDecided R prepare decision (distinct ms') := by
  obtain ⟨ps, ds, hrec, hps, hds⟩ := h.records
  obtain ⟨ps', hp', hps'⟩ := mapM_bodiesOf_subset hsub hrec.prepares
  obtain ⟨ds', hd', hds'⟩ := mapM_bodiesOf_subset hsub hrec.decisions
  obtain ⟨ms', hm', hms'⟩ := mapM_bodiesOf_subset hsub hrec.members
  have hprepare : ∀ p ∈ ps', p = prepare := fun p hp => hps p (hps' p hp)
  have hdecision : ∀ d ∈ ds', d = decision := fun d hd => hds d (hds' d hd)
  refine ⟨ps', ds', ms', ⟨hp', hd', hm'⟩, hms', hdecision, hprepare, ?_⟩
  have hroot := length_roots_le fun f hf g hg => h.oneRoot f (hsub f hf) g (hsub g hg)
  have hsameP : sameRecords ps' = true :=
    sameRecords_iff.mpr fun a ha b hb => (hprepare a ha).trans (hprepare b hb).symm
  have hsameD : sameRecords ds' = true :=
    sameRecords_iff.mpr fun a ha b hb => (hdecision a ha).trans (hdecision b hb).symm
  have hord : ∀ a ∈ ms', ∀ b ∈ ms', a.ordinal = b.ordinal → a = b :=
    fun a ha b hb => h.ordinals a (hms' a ha) b (hms' b hb)
  unfold classifyFrames classifyGroup
  rw [if_neg hroot, hp', hd', hm']
  dsimp only
  unfold classifyRecords
  rw [if_neg (by simp [hsameP]), if_neg (by simp [hsameD]), dedupMembers_eq, if_pos hord]
  cases ps' with
  | nil => simp
  | cons p ps' =>
    cases ds' with
    | nil => simp
    | cons d ds' =>
      obtain rfl := hprepare p mem_cons_self
      obtain rfl := hdecision d mem_cons_self
      simp

theorem classifyDecided_eq_consistent (h : classifyDecided R prepare decision l = .consistent) :
    decision.decision = .committed ∧ decision.memberCount.toNat = l.length := by
  unfold classifyDecided at h
  split at h
  · cases h
  split at h
  · cases h
  split at h
  case h_2 =>
    unfold classifyNotCommittedGroup at h
    split at h <;> cases h
  case h_1 hdec =>
    refine ⟨hdec, ?_⟩
    unfold classifyCommittedGroup at h
    by_contra hne
    rw [if_pos hne] at h
    cases h

theorem classifyDecided_of_length_ne
    (h : classifyDecided R prepare decision l = .consistent) (hlen : l'.length ≠ l.length) :
    classifyDecided R prepare decision l' = .corrupt .bodyMismatch := by
  obtain ⟨hdec, hcount⟩ := classifyDecided_eq_consistent h
  unfold classifyDecided at h ⊢
  split at h
  · cases h
  split at h
  · cases h
  rename_i hash
  rw [if_neg hash, hdec]
  unfold classifyCommittedGroup
  rw [if_pos (by omega)]

theorem classifyDecided_eq_notCommitted
    (h : classifyDecided R prepare decision l = .notCommitted b) :
    decision.decision = .notCommitted := by
  unfold classifyDecided at h
  split at h
  · cases h
  split at h
  · cases h
  split at h
  case h_2 hdec => exact hdec
  case h_1 =>
    unfold classifyCommittedGroup at h
    split at h
    · cases h
    split at h
    · cases h
    split at h
    · split at h <;> cases h
    · cases h

end Kept

/-- What is left of a group keeps its committed outcome: a prepare, a committed decision and every
member record. -/
structure KeepsOutcome (frames kept : List ValidFrame) : Prop where
  prepare : ∃ f ∈ kept, f.1.role = .prepare
  decision : ∃ f ∈ kept, f.1.role = .commit ∧
    ∃ d, decodeDecision f.2 = .ok d ∧ d.decision = .committed
  members : ∀ f ∈ frames, f.1.role = .member →
    ∃ g ∈ kept, g.1.role = .member ∧ decodeMember g.2 = decodeMember f.2

section Kept

variable {R : Runtime} {frames kept : List ValidFrame}

theorem mem_records
    (h : (bodiesOf role frames).mapM decode = .ok r) {y : γ} :
    y ∈ r ↔ ∃ f ∈ frames, f.1.role = role ∧ decode f.2 = .ok y := by
  rw [mem_mapM_ok h]
  simp only [bodiesOf, mem_map, mem_filter, decide_eq_true_eq]
  constructor
  · rintro ⟨_, ⟨f, ⟨hf, hrole⟩, rfl⟩, hdec⟩
    exact ⟨f, hf, hrole, hdec⟩
  · rintro ⟨f, hf, hrole, hdec⟩
    exact ⟨_, ⟨f, ⟨hf, hrole⟩, rfl⟩, hdec⟩

theorem exists_record
    (h : (bodiesOf role frames).mapM decode = .ok r) (hf : f ∈ frames)
    (hrole : f.1.role = role) : ∃ y ∈ r, decode f.2 = .ok y := by
  have hb : f.2 ∈ bodiesOf role frames :=
    mem_map.mpr ⟨f, mem_filter.mpr ⟨hf, decide_eq_true hrole⟩, rfl⟩
  obtain ⟨y, hy⟩ := exists_mapM_ok.mp ⟨r, h⟩ f.2 hb
  exact ⟨y, (mem_records h).mpr ⟨f, hf, hrole, hy⟩, hy⟩

/-- **Frames lost from a consistent group** leave it consistent exactly when the outcome is kept,
and incomplete or corrupt otherwise. -/
theorem classifyFrames_kept_consistent (hclass : classifyFrames R frames = .consistent)
    (hsub : ∀ f ∈ kept, f ∈ frames) :
    (KeepsOutcome frames kept ∧ classifyFrames R kept = .consistent) ∨
      (¬ KeepsOutcome frames kept ∧ ∃ r, classifyFrames R kept = .incomplete r ∨
        classifyFrames R kept = .corrupt r) := by
  obtain ⟨prepare, decision, ms, h⟩ := exists_settled hclass trivial
  obtain ⟨ps', ds', ms', hrec, hms', hds', hps', hkept⟩ := h.classifyFrames_subset hsub
  obtain ⟨_, _, hall, -, -⟩ := h.records
  have hprep : (∃ f ∈ kept, f.1.role = .prepare) ↔ ps' ≠ [] := by
    constructor
    · rintro ⟨f, hf, hrole⟩
      obtain ⟨p, hp, -⟩ := exists_record hrec.prepares hf hrole
      exact ne_nil_of_mem hp
    · intro hne
      obtain ⟨p, hp⟩ := exists_mem_of_ne_nil ps' hne
      obtain ⟨f, hf, hrole, -⟩ := (mem_records hrec.prepares).mp hp
      exact ⟨f, hf, hrole⟩
  by_cases hnil : ps' = [] ∨ ds' = []
  · refine .inr ⟨fun hk => ?_, _, .inl (hkept.trans (if_pos hnil))⟩
    obtain hnil | hnil := hnil
    · exact hprep.mp hk.prepare hnil
    · obtain ⟨f, hf, hrole, d, hd, -⟩ := hk.decision
      have hmem := (mem_records hrec.decisions).mpr ⟨f, hf, hrole, hd⟩
      rw [hnil] at hmem
      cases hmem
  rw [if_neg hnil] at hkept
  obtain ⟨hp, hd⟩ := not_or.mp hnil
  by_cases hlen : (distinct ms').length = (distinct ms).length
  · -- as many members as there were: all of them are left
    have hmem : ∀ m, m ∈ ms ↔ m ∈ ms' := fun m => ⟨mem_of_length_distinct hms' hlen, hms' m⟩
    have hord : ∀ a ∈ distinct ms, ∀ b ∈ distinct ms, a.ordinal = b.ordinal → a = b :=
      fun a ha b hb => h.ordinals a (mem_distinct.mp ha) b (mem_distinct.mp hb)
    refine .inl ⟨⟨hprep.mpr hp, ?_, fun f hf hrole => ?_⟩, ?_⟩
    · obtain ⟨d, hmemd⟩ := exists_mem_of_ne_nil ds' hd
      obtain ⟨f, hf, hrole, hdec⟩ := (mem_records hrec.decisions).mp hmemd
      refine ⟨f, hf, hrole, d, hdec, ?_⟩
      rw [hds' d hmemd]
      exact (classifyDecided_eq_consistent h.decided).1
    · obtain ⟨m, hm, hdec⟩ := exists_record hall.members hf hrole
      obtain ⟨g, hg, hgrole, hgdec⟩ := (mem_records hrec.members).mp ((hmem m).mp hm)
      exact ⟨g, hg, hgrole, hgdec.trans hdec.symm⟩
    · rw [hkept, ← classifyDecided_perm R prepare decision (distinct_perm hmem) hord, h.decided]
  · refine .inr ⟨fun hk => hlen ?_, .bodyMismatch, .inr (hkept.trans ?_)⟩
    · refine (length_distinct_le hms').antisymm (length_distinct_le fun m hm => ?_)
      obtain ⟨f, hf, hrole, hdec⟩ := (mem_records hall.members).mp hm
      obtain ⟨g, hg, hgrole, hgdec⟩ := hk.members f hf hrole
      exact (mem_records hrec.members).mpr ⟨g, hg, hgrole, hgdec.trans hdec⟩
    · exact classifyDecided_of_length_ne h.decided hlen

theorem classifyFrames_kept_notCommitted
    (hclass : classifyFrames R frames = .notCommitted b) (hsub : ∀ f ∈ kept, f ∈ frames) :
    classifyFrames R kept ≠ .consistent := by
  obtain ⟨prepare, decision, ms, h⟩ := exists_settled hclass trivial
  obtain ⟨ps', ds', ms', -, -, -, -, hkept⟩ := h.classifyFrames_subset hsub
  rw [hkept]
  split
  · exact AtomicGroupClass.noConfusion
  · intro hcons
    have h1 := (classifyDecided_eq_consistent hcons).1
    rw [classifyDecided_eq_notCommitted h.decided] at h1
    cases h1

end Kept

def validBlock? (R : Runtime) (limits : SafetyLimits) (block : Bytes) : Option ValidFrame :=
  (decodeFrame R block limits).toOption.bind validFrame?

theorem classOf_readAtomicEvidence (R : Runtime) (limits : SafetyLimits)
    {heapId : Arr 16} {atomicId : Arr 32}
    (hvalid : ∀ b ∈ blocks, ∃ f, validBlock? R limits b = some f ∧
      f.key? = some (heapId, atomicId)) :
    classOf (readAtomicEvidence R blocks.flatten limits).groups heapId atomicId =
      if blocks = [] then none
      else some (classifyFrames R (blocks.filterMap (validBlock? R limits))) := by
  have hdec : ∀ b ∈ blocks, ∃ f, decodeFrame R b limits = .ok f := by
    intro b hb
    obtain ⟨f, hf, -⟩ := hvalid b hb
    unfold validBlock? at hf
    cases h : decodeFrame R b limits with
    | ok f => exact ⟨f, rfl⟩
    | error e => rw [h] at hf; cases hf
  obtain ⟨frames, hframes⟩ := exists_mapM_ok.mpr hdec
  have heq : frames.filterMap validFrame? = blocks.filterMap (validBlock? R limits) := by
    have h₂ := mapM_eq_ok.mp hframes
    clear hframes hdec hvalid
    induction h₂ with
    | nil => rfl
    | cons hb _ ih =>
      rw [filterMap_cons, filterMap_cons, ih]
      simp only [validBlock?, hb, Except.toOption, Option.bind_some]
  rw [groups_readAtomicEvidence R hframes, frameGroups, heq, classOf_aggregateGroups]
  have hself : framesOf (heapId, atomicId) (blocks.filterMap (validBlock? R limits)) =
      blocks.filterMap (validBlock? R limits) := by
    refine filter_eq_self.mpr fun f hf => ?_
    obtain ⟨b, hb, hbf⟩ := mem_filterMap.mp hf
    obtain ⟨g, hg, hkey⟩ := hvalid b hb
    obtain rfl : g = f := Option.some.inj (hg.symm.trans hbf)
    exact (mem_filter.mp (mem_framesOf.mpr ⟨hf, hkey⟩)).2
  have hnil : blocks.filterMap (validBlock? R limits) = [] ↔ blocks = [] := by
    refine ⟨fun h => eq_nil_iff_forall_not_mem.mpr fun b hb => ?_, fun h => by rw [h]; rfl⟩
    obtain ⟨f, hf, -⟩ := hvalid b hb
    exact eq_nil_iff_forall_not_mem.mp h f (mem_filterMap.mpr ⟨b, hb, hf⟩)
  rw [hself]
  simp [hnil]

/-- **Damage never invents an outcome.** Blocks lost from a consistent group leave it consistent
exactly when a prepare, a committed decision and every member record are left, and otherwise leave
it unreported, incomplete or corrupt; and no loss makes an aborted group consistent. -/
theorem damage_never_invents_outcome (R : Runtime) (limits : SafetyLimits)
    (blocks kept : List Bytes) (heapId : Arr 16) (atomicId : Arr 32)
    (hvalid : ∀ b ∈ blocks, ∃ f, validBlock? R limits b = some f ∧
      f.key? = some (heapId, atomicId)) (hkept : kept.Sublist blocks) :
    (classOf (readAtomicEvidence R blocks.flatten limits).groups heapId atomicId =
        some .consistent →
      (KeepsOutcome (blocks.filterMap (validBlock? R limits))
          (kept.filterMap (validBlock? R limits)) ∧
        classOf (readAtomicEvidence R kept.flatten limits).groups heapId atomicId =
          some .consistent) ∨
      (¬ KeepsOutcome (blocks.filterMap (validBlock? R limits))
          (kept.filterMap (validBlock? R limits)) ∧
        if kept = [] then
          classOf (readAtomicEvidence R kept.flatten limits).groups heapId atomicId = none
        else ∃ r,
          classOf (readAtomicEvidence R kept.flatten limits).groups heapId atomicId =
            some (.incomplete r) ∨
          classOf (readAtomicEvidence R kept.flatten limits).groups heapId atomicId =
            some (.corrupt r))) ∧
    ∀ b, classOf (readAtomicEvidence R blocks.flatten limits).groups heapId atomicId =
        some (.notCommitted b) →
      classOf (readAtomicEvidence R kept.flatten limits).groups heapId atomicId ≠
        some .consistent := by
  have hsub : ∀ f ∈ kept.filterMap (validBlock? R limits),
      f ∈ blocks.filterMap (validBlock? R limits) :=
    fun f hf => (hkept.filterMap _).subset hf
  rw [classOf_readAtomicEvidence R limits hvalid,
    classOf_readAtomicEvidence R limits fun b hb => hvalid b (hkept.subset hb)]
  have hblocks : ∀ c, (if blocks = [] then none
      else some (classifyFrames R (blocks.filterMap (validBlock? R limits)))) = some c →
      classifyFrames R (blocks.filterMap (validBlock? R limits)) = c := by
    intro c h
    by_cases hnil : blocks = []
    · rw [if_pos hnil] at h
      cases h
    · rw [if_neg hnil] at h
      exact Option.some.inj h
  constructor
  · intro hcons
    obtain ⟨hkeep, hclass⟩ | ⟨hkeep, r, hclass⟩ :=
      classifyFrames_kept_consistent (hblocks _ hcons) hsub
    · refine .inl ⟨hkeep, ?_⟩
      have hne : kept ≠ [] := by
        rintro rfl
        obtain ⟨f, hf, -⟩ := hkeep.prepare
        cases hf
      rw [if_neg hne, hclass]
    · refine .inr ⟨hkeep, ?_⟩
      by_cases hnil : kept = []
      · rw [if_pos hnil, if_pos hnil]
      · rw [if_neg hnil, if_neg hnil]
        exact ⟨r, hclass.imp (congrArg some) (congrArg some)⟩
  · intro b hcons hkeptc
    by_cases hnil : kept = []
    · rw [if_pos hnil] at hkeptc
      cases hkeptc
    · rw [if_neg hnil] at hkeptc
      exact classifyFrames_kept_notCommitted (hblocks _ hcons) hsub (Option.some.inj hkeptc)

/-! ## A committed group -/

section Sample

/-- The identity whose bytes are all one. -/
def oneIdentity (n : ℕ) (h : List.replicate n (1 : UInt8) ≠ List.replicate n 0) : Identity n :=
  ⟨⟨List.replicate n 1, length_replicate⟩, fun he => h (congrArg Subtype.val he)⟩

/-- The atomic id, and the content root, of the sample group. -/
def sampleAtomicId : AtomicId := oneIdentity 32 (by decide)

/-- The heap, the collection and the event of the sample group. -/
def sampleHeapId : HeapId := oneIdentity 16 (by decide)

/-- One upsert of an opaque key. -/
def sampleMember : AtomicMember :=
  ⟨sampleAtomicId, 0, ⟨sampleHeapId, .opaqueBytes [0x6b]⟩, .put, none, some (zeros 32),
    sampleHeapId⟩

def sampleManifestRoot : Arr 32 :=
  ⟨[0x6d, 0xdf, 0xf1, 0x0e, 0xc2, 0xd1, 0x90, 0x9c, 0x4c, 0xb8, 0x70, 0x11, 0x33, 0xa6, 0xf8, 0xc9,
    0x14, 0x35, 0x58, 0x60, 0x57, 0x64, 0xce, 0xb8, 0x9e, 0xf3, 0xc3, 0x58, 0x87, 0x5e, 0x0f, 0x86],
    rfl⟩

/-- A prepare that names this manifest. -/
def samplePrepare : AtomicPrepare where
  atomicId := sampleAtomicId
  heapId := sampleHeapId
  scope := .localHeap
  contentRoot := sampleAtomicId
  frontier := zeros 32
  orderedMemberManifestRoot := sampleManifestRoot
  memberCount := 1
  readSetRoot := zeros 32
  predicateSetRoot := zeros 32
  activeRuleRevisionRoot := zeros 32
  limits := ⟨1, 1, 1, 1, 1, 1, 1, 1, .fromMillis 1, 1⟩

def samplePrepareHash : Arr 32 :=
  ⟨[0xa5, 0xe0, 0x77, 0xb6, 0x05, 0x38, 0x21, 0xe2, 0xa5, 0x49, 0x7d, 0x86, 0x8a, 0x0b, 0x67, 0xd6,
    0xcc, 0xe2, 0xa1, 0x9f, 0x2d, 0x8d, 0xfe, 0x95, 0x25, 0x15, 0x4a, 0x4d, 0x17, 0xda, 0x74, 0x80],
    rfl⟩

def sampleDecision : AtomicDecision :=
  ⟨sampleAtomicId, samplePrepareHash, sampleManifestRoot, 1, .committed, some 1, .durable, none⟩

def atomicParts (kind : FrameKind) (envelope : Except AtomicEnvelopeError Bytes)
    (body : Except AtomicsError Bytes) : FrameParts :=
  let envelope := envelope.toOption.getD []
  let body := body.toOption.getD []
  ⟨.newDraft kind (UInt32.ofNat envelope.length) (UInt64.ofNat body.length) sampleHeapId.1,
    envelope, body⟩

def samplePrepareFrame : FrameParts :=
  atomicParts .batchPrepare
    (encodeAtomicPrepareEnvelope sampleHeapId.1 sampleAtomicId.1 sampleAtomicId.1)
    (encodePrepare samplePrepare)

def sampleMemberFrame : FrameParts :=
  atomicParts .itemEvent
    (encodeAtomicMemberEnvelope sampleHeapId.1 sampleAtomicId.1 0 sampleAtomicId.1 (some 1))
    (encodeMember sampleMember)

def sampleDecisionFrame : FrameParts :=
  atomicParts .batchCommit
    (encodeAtomicCommitEnvelope sampleHeapId.1 sampleAtomicId.1 sampleAtomicId.1 (some 1))
    (encodeDecision sampleDecision)

/-- The frames of the sample group in the order they are written. -/
def sampleGroup : List FrameParts := [samplePrepareFrame, sampleMemberFrame, sampleDecisionFrame]

/-- The bytes of a frame as product code writes them. -/
def FrameParts.block (parts : FrameParts) : Bytes :=
  frameImage productRuntime parts.header parts.envelope parts.body

theorem sampleGroup_decodes : ∀ parts ∈ sampleGroup,
    decodeFrame productRuntime parts.block .draftDefaults =
      .ok (parts.decoded productRuntime) := by
  have henc : ∀ parts ∈ sampleGroup,
      (UInt32.ofNat parts.envelope.length = parts.header.envelopeLen ∧
        parts.body.length = parts.header.bodyLen.toNat ∧ parts.header.wireMajor = WIRE_MAJOR ∧
        validateDeterministicCborEnvelope parts.envelope = .ok () ∧
        declaredLen parts.header < 2 ^ 64) ∧
      parts.envelope.length ≤ SafetyLimits.draftDefaults.maxEnvelopeLen.toNat ∧
      parts.body.length ≤ SafetyLimits.draftDefaults.maxBodyLen.toNat ∧
      120 + parts.envelope.length + parts.body.length ≤
        SafetyLimits.draftDefaults.maxFrameLen.toNat := by
    decide +kernel
  intro parts hparts
  obtain ⟨⟨h1, h2, h3, h4, h5⟩, h6, h7, h8⟩ := henc parts hparts
  exact decodeFrame_encodeFrame rfl ⟨h6, h7, h8⟩
    (encodeFrame_eq_ok.mpr ⟨⟨h1, h2, h3, h4, h5⟩, rfl⟩)

theorem sampleGroup_class :
    classOf (frameGroups productRuntime (sampleGroup.map (decoded productRuntime)))
      sampleHeapId.1 sampleAtomicId.1 = some .consistent := by
  decide +kernel

theorem sampleGroup_blocks : (sampleGroup.map block).mapM
    (fun b => decodeFrame productRuntime b .draftDefaults) =
      .ok (sampleGroup.map (decoded productRuntime)) := by
  rw [mapM_eq_ok, List.forall₂_map_left_iff, List.forall₂_map_right_iff, List.forall₂_same]
  exact sampleGroup_decodes

theorem sampleGroup_read :
    classOf (readAtomicEvidence productRuntime (sampleGroup.map block).flatten
      .draftDefaults).groups sampleHeapId.1 sampleAtomicId.1 = some .consistent := by
  rw [groups_readAtomicEvidence productRuntime sampleGroup_blocks]
  exact sampleGroup_class

theorem mem_reordered (p m d b : α) : b ∈ [d, m, d, p] ↔ b ∈ [p, m, d] := by
  simp only [mem_cons, not_mem_nil, or_false]
  tauto

/-- The decision first and twice, the prepare last: the group is still consistent. -/
theorem sampleGroup_reordered : classOf (readAtomicEvidence productRuntime
        [sampleDecisionFrame.block, sampleMemberFrame.block, sampleDecisionFrame.block,
          samplePrepareFrame.block].flatten .draftDefaults).groups
      sampleHeapId.1 sampleAtomicId.1 = some .consistent := by
  refine (atomic_class_order_independent productRuntime .draftDefaults
    (sampleGroup.map block) _ ?_ ?_ sampleHeapId.1 sampleAtomicId.1).trans
    sampleGroup_read
  · intro b hb
    obtain ⟨parts, hparts, rfl⟩ := mem_map.mp hb
    exact ⟨_, sampleGroup_decodes parts hparts⟩
  · exact mem_reordered samplePrepareFrame.block sampleMemberFrame.block sampleDecisionFrame.block

theorem validBlock?_sample {parts : FrameParts} (h : parts ∈ sampleGroup) :
    validBlock? productRuntime .draftDefaults parts.block =
      validFrame? (parts.decoded productRuntime) := by
  rw [validBlock?, sampleGroup_decodes parts h]
  rfl

theorem sampleGroup_key : ∀ parts ∈ sampleGroup,
    (validFrame? (parts.decoded productRuntime)).bind ValidFrame.key? =
      some (sampleHeapId.1, sampleAtomicId.1) := by
  decide +kernel

/-- Without its decision frame the sample group is incomplete or corrupt. -/
theorem sampleGroup_undecided : ∃ r, classOf (readAtomicEvidence productRuntime
          [samplePrepareFrame.block, sampleMemberFrame.block].flatten .draftDefaults).groups
        sampleHeapId.1 sampleAtomicId.1 = some (.incomplete r) ∨
      classOf (readAtomicEvidence productRuntime
          [samplePrepareFrame.block, sampleMemberFrame.block].flatten .draftDefaults).groups
        sampleHeapId.1 sampleAtomicId.1 = some (.corrupt r) := by
  have hsub : [samplePrepareFrame, sampleMemberFrame].Sublist sampleGroup :=
    sublist_append_left [samplePrepareFrame, sampleMemberFrame] [sampleDecisionFrame]
  have hroles : ∀ f ∈ [samplePrepareFrame, sampleMemberFrame].filterMap
      (fun parts => validFrame? (parts.decoded productRuntime)), f.1.role ≠ .commit := by
    decide +kernel
  have h := (damage_never_invents_outcome productRuntime .draftDefaults
    (sampleGroup.map block) ([samplePrepareFrame, sampleMemberFrame].map block)
    sampleHeapId.1 sampleAtomicId.1 ?_ (hsub.map _)).1 sampleGroup_read
  · have hkeep : ¬ KeepsOutcome
        ((sampleGroup.map block).filterMap (validBlock? productRuntime .draftDefaults))
        (([samplePrepareFrame, sampleMemberFrame].map block).filterMap
          (validBlock? productRuntime .draftDefaults)) := by
      intro hk
      obtain ⟨f, hf, hrole, -⟩ := hk.decision
      rw [filterMap_map, mem_filterMap] at hf
      obtain ⟨parts, hparts, hf⟩ := hf
      rw [Function.comp_apply, validBlock?_sample (hsub.subset hparts)] at hf
      exact hroles f (mem_filterMap.mpr ⟨parts, hparts, hf⟩) hrole
    have h' := (h.resolve_left fun h' => hkeep h'.1).2
    have hne : [samplePrepareFrame, sampleMemberFrame].map block ≠ [] :=
      cons_ne_nil _ _
    rwa [if_neg hne] at h'
  · intro b hb
    obtain ⟨parts, hparts, rfl⟩ := mem_map.mp hb
    rw [validBlock?_sample hparts]
    exact Option.bind_eq_some_iff.mp (sampleGroup_key parts hparts)

end Sample

end Residiuum
