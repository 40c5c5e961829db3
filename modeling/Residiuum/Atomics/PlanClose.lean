import Residiuum.Atomics.EvidenceCodec
import Residiuum.Atomics.Plan

/-!
# Closing forgets the order of the draft

The checks of `close_plan` ask about the elements of the four lists only, and the four order keys
separate whatever the checks let through. So a draft and any reordering of it close to one plan.

* **`AtomicPlan.close_of_reorders`**: a draft and a reordering of it close to the same plan, with
  the same content root, or are both refused.
-/

namespace Residiuum.Atomics

open AtomicPlan ByteLib DistinctLib Except GroupLib List PlanMutation Std.LawfulEqCmp

/-! ## Order keys -/

theorem stringBytes_injective : Function.Injective stringBytes := fun s t h => by
  have hs : fromUtf8 (stringBytes s) = some s := fromUtf8_eq_some.mpr rfl
  have ht : fromUtf8 (stringBytes s) = some t := fromUtf8_eq_some.mpr h
  exact Option.some.inj (hs.symm.trans ht)

theorem beBytes_scale_injective :
    Function.Injective fun scale : Int64 => beBytes 8 scale.toUInt64.toNat := fun s t h => by
  have hofBe := congrArg ofBe h
  simp only [ofBe_beBytes] at hofBe
  have hs := s.toUInt64.toNat_lt
  have ht := t.toUInt64.toNat_lt
  have hnat : s.toUInt64.toNat = t.toUInt64.toNat := by omega
  obtain ⟨s⟩ := s
  obtain ⟨t⟩ := t
  exact congrArg Int64.ofUInt64 (UInt64.toNat_inj.mp hnat)

theorem keyOrderBytes_injective : Function.Injective keyOrderBytes := fun a b h => by
  obtain ⟨hkind, hbytes⟩ := List.cons.inj h
  cases a <;> cases b <;> simp only [CanonicalKey.kindCode] at hkind <;>
    first | exact absurd hkind (by decide) | skip
  case string.string s t => exact congrArg _ (stringBytes_injective hbytes)
  case opaqueBytes.opaqueBytes b c => exact congrArg _ hbytes
  case integer.integer b c => exact congrArg _ hbytes
  case decimal.decimal c s d t =>
    obtain ⟨hscale, hcoefficient⟩ := append_inj hbytes (by simp)
    rw [beBytes_scale_injective hscale, show c = d from hcoefficient]

theorem optionalBytesOrder_injective : Function.Injective optionalBytesOrder := fun a b h => by
  cases a <;> cases b <;> simp_all [optionalBytesOrder]

theorem identity_ext {n : ℕ} {a b : Identity n} (h : a.1.1 = b.1.1) : a = b :=
  Subtype.ext (Subtype.ext h)

theorem version_map_injective {n : ℕ} :
    Function.Injective fun o : Option (Identity n) => o.map fun v => v.1.1 :=
  Option.map_injective fun _ _ h => identity_ext h

instance transCmpTargetOrder (heap : HeapId) : Std.TransCmp (PlanMutation.targetOrder heap) := by
  unfold PlanMutation.targetOrder
  infer_instance

instance transCmpReadOrder (heap : HeapId) : Std.TransCmp (readOrder heap) := by
  unfold readOrder
  infer_instance

instance transCmpPredOrder (heap : HeapId) : Std.TransCmp (predOrder heap) := by
  unfold predOrder
  infer_instance

instance transCmpRevisionOrder : Std.TransCmp revisionOrder := by
  unfold revisionOrder
  infer_instance

instance lawfulEqCmpRevisionOrder : Std.LawfulEqCmp revisionOrder where
  eq_of_compare {_ _} h := Subtype.ext (Std.LawfulEqCmp.eq_of_compare h)

variable {heap : HeapId} {parts d d' : AtomicPlanParts} {R : Runtime} {e : AtomicsError}
  {α κ : Type} {l : List α} (p : AtomicPlan R)

theorem targetOrder_eq {a b : PlanMutation}
    (h : targetOrder heap a b = .eq) : a.target = b.target := by
  simp only [targetOrder, compareLex_eq_eq] at h
  obtain ⟨-, hcollection, hkey, -⟩ := h
  exact Prod.ext (identity_ext (eq_of_compare hcollection))
    (eq_of_compare hkey)

theorem readOrder_eq {a b : ReadWitness} (h : readOrder heap a b = .eq) : a = b := by
  simp only [readOrder, compareLex_eq_eq] at h
  obtain ⟨-, hcollection, hkey, hversion, hprojection⟩ := h
  obtain ⟨collection, key, version, projection⟩ := a
  obtain ⟨collection', key', version', projection'⟩ := b
  obtain rfl : collection = collection' :=
    identity_ext (eq_of_compare hcollection)
  obtain rfl : key = key' := keyOrderBytes_injective (eq_of_compare hkey)
  obtain rfl : version = version' :=
    version_map_injective (optionalBytesOrder_injective (eq_of_compare hversion))
  obtain rfl : projection = projection' :=
    Subtype.ext (eq_of_compare hprojection)
  rfl

theorem collection_getD_injective :
    Function.Injective fun o : Option CollectionId => (o.map fun c => c.1.1).getD [] := by
  intro a b h
  have hne : ∀ c : CollectionId, c.1.1 ≠ [] := fun c hc => by
    have hlen := c.1.2
    rw [hc] at hlen
    cases hlen
  cases a with
  | none =>
    cases b with
    | none => rfl
    | some d => exact absurd h.symm (hne d)
  | some c =>
    cases b with
    | none => exact absurd h (hne c)
    | some d => exact congrArg some (identity_ext h)

theorem key_getD_injective :
    Function.Injective fun o : Option CanonicalKey => (o.map keyOrderBytes).getD [] := by
  intro a b h
  cases a with
  | none =>
    cases b with
    | none => rfl
    | some k => exact absurd h.symm (cons_ne_nil _ _)
  | some k =>
    cases b with
    | none => exact absurd h (cons_ne_nil _ _)
    | some l => exact congrArg some (keyOrderBytes_injective h)

theorem predicateKind_wireCode_injective : Function.Injective PredicateKind.wireCode :=
  fun a b h => by cases a <;> cases b <;> first | rfl | cases h

theorem predOrder_eq {a b : PlanPredicate} (h : predOrder heap a b = .eq) : a = b := by
  simp only [predOrder, compareLex_eq_eq] at h
  obtain ⟨-, hcollection, hkey, hkind, hversion, hencoded⟩ := h
  obtain ⟨kind, collection, key, version, encoded⟩ := a
  obtain ⟨kind', collection', key', version', encoded'⟩ := b
  obtain rfl : collection = collection' :=
    collection_getD_injective (eq_of_compare hcollection)
  obtain rfl : key = key' := key_getD_injective (eq_of_compare hkey)
  obtain rfl : kind = kind' :=
    predicateKind_wireCode_injective (eq_of_compare hkind)
  obtain rfl : version = version' :=
    version_map_injective (optionalBytesOrder_injective (eq_of_compare hversion))
  obtain rfl : encoded = encoded' :=
    optionalBytesOrder_injective (eq_of_compare hencoded)
  rfl

/-! ## What the checks ask -/

theorem refuseDuplicates_eq_ok [DecidableEq κ] {ident : α → Except AtomicsError κ} :
    refuseDuplicates ident e l = .ok () ↔
      (∀ x ∈ l, ∃ id, ident x = .ok id) ∧ (l.map ident).Nodup := by
  rw [← exists_collectNew_eq_ok (e := e), refuseDuplicates, bind_eq_ok]
  exact ⟨fun ⟨r, h, _⟩ => ⟨r, h⟩, fun ⟨r, h⟩ => ⟨r, h, rfl⟩⟩

theorem refuseDuplicates_pure_eq_ok [DecidableEq κ] {f : α → κ} :
    refuseDuplicates (fun x => .ok (f x)) e l = .ok () ↔ (l.map f).Nodup := by
  have hinj : Function.Injective (Except.ok : κ → Except AtomicsError κ) :=
    fun _ _ h => ok.inj h
  have hmap : l.map (fun x => (Except.ok (f x) : Except AtomicsError κ)) =
      (l.map f).map Except.ok := by
    rw [map_map]
    rfl
  rw [refuseDuplicates_eq_ok, hmap, nodup_map_iff hinj]
  exact and_iff_right fun x _ => ⟨f x, rfl⟩

theorem refuseDuplicateTargets_eq_ok {l : List PlanMutation} :
    refuseDuplicateTargets l = .ok () ↔ (l.map target).Nodup :=
  refuseDuplicates_pure_eq_ok

theorem refuseDuplicateReads_eq_ok {l : List ReadWitness} :
    refuseDuplicateReads l = .ok () ↔ (l.map ReadWitness.target).Nodup :=
  refuseDuplicates_pure_eq_ok

theorem refuseRevisions_sorted_eq_ok {l : List (Arr 32)} :
    refuseRevisions (sortBy revisionOrder l) = .ok () ↔ zeros 32 ∉ l ∧ l.Nodup := by
  have hperm := sortBy_perm revisionOrder l
  have hsorted : (sortBy revisionOrder l).Pairwise fun a b => (revisionOrder a b).isLE = true :=
    sortBy_pairwise l
  have hnodup := nodup_iff_of_sorted hsorted
  rw [hperm.nodup_iff] at hnodup
  rw [refuseRevisions, ite_throw_eq_ok, not_or, hperm.mem_iff, ← hnodup]
  exact and_iff_left rfl

theorem requireFrontierWithReads_eq_ok : requireFrontierWithReads parts = .ok () ↔
      (parts.readFrontier = none → parts.reads = []) := by
  rw [requireFrontierWithReads, ite_throw_eq_ok, not_and_or, not_not]
  constructor
  · rintro ⟨h, -⟩ hnone
    exact h.resolve_right fun hn => hn hnone
  · intro h
    refine ⟨?_, rfl⟩
    by_cases hnone : parts.readFrontier = none
    · exact .inl (h hnone)
    · exact .inr hnone

/-- Every key of the parts is valid. -/
structure AtomicPlanParts.KeysValid (parts : AtomicPlanParts) : Prop where
  mutations : ∀ m ∈ parts.mutations, validateCanonicalKey m.key = .ok ()
  reads : ∀ r ∈ parts.reads, validateCanonicalKey r.key = .ok ()
  predicates : ∀ p ∈ parts.predicates, p.validateKey = .ok ()

theorem validatePlanKeys_eq_ok : validatePlanKeys parts = .ok () ↔ parts.KeysValid := by
  unfold validatePlanKeys
  simp only [check_bind_eq_ok, forM_eq_ok]
  exact ⟨fun ⟨hm, hr, hp⟩ => ⟨hm, hr, hp⟩, fun ⟨hm, hr, hp⟩ => ⟨hm, hr, hp⟩⟩

/-- What closing asks of a draft. -/
structure AtomicPlanParts.Closable (R : Runtime) (d : AtomicPlanParts) : Prop where
  targets : (d.mutations.map PlanMutation.target).Nodup
  witnesses : (d.reads.map ReadWitness.target).Nodup
  identified : ∀ p ∈ d.predicates, ∃ id, p.ident R = .ok id
  identities : (d.predicates.map (PlanPredicate.ident R)).Nodup
  frontier : d.readFrontier = none → d.reads = []
  revisions : zeros 32 ∉ d.activeRuleRevisions ∧ d.activeRuleRevisions.Nodup
  mutationShapes : ∀ m ∈ d.mutations, m.validateShape = .ok ()
  predicateShapes : ∀ p ∈ d.predicates, p.validateShape R = .ok ()
  keys : d.KeysValid

theorem keysValid_sorted : d.sorted.KeysValid ↔ d.KeysValid := by
  have hm := fun m => (sortBy_perm (targetOrder d.heapId) d.mutations).mem_iff (a := m)
  have hr := fun r => (sortBy_perm (readOrder d.heapId) d.reads).mem_iff (a := r)
  have hp := fun p => (sortBy_perm (predOrder d.heapId) d.predicates).mem_iff (a := p)
  refine ⟨fun h => ⟨fun m hmem => ?_, fun r hmem => ?_, fun p hmem => ?_⟩,
    fun h => ⟨fun m hmem => ?_, fun r hmem => ?_, fun p hmem => ?_⟩⟩
  · exact h.mutations m ((hm m).mpr hmem)
  · exact h.reads r ((hr r).mpr hmem)
  · exact h.predicates p ((hp p).mpr hmem)
  · exact h.mutations m ((hm m).mp hmem)
  · exact h.reads r ((hr r).mp hmem)
  · exact h.predicates p ((hp p).mp hmem)

/-- **Closing succeeds on closable drafts, and sorts them.** -/
theorem closeParts_eq_ok : closeParts R d = .ok parts ↔ d.Closable R ∧ parts = d.sorted := by
  have hm := fun m => (sortBy_perm (targetOrder d.heapId) d.mutations).mem_iff (a := m)
  have hp := fun p => (sortBy_perm (predOrder d.heapId) d.predicates).mem_iff (a := p)
  unfold closeParts
  simp only [check_bind_eq_ok, refuseDuplicateTargets_eq_ok, refuseDuplicateReads_eq_ok,
    refuseDuplicatePredicates, refuseDuplicates_eq_ok, requireFrontierWithReads_eq_ok, forM_eq_ok,
    validatePlanKeys_eq_ok, keysValid_sorted, pure_eq_ok]
  constructor
  · rintro ⟨htargets, hwitnesses, hpredicates, hfrontier, hrevisions, hmutations, hshapes, hkeys,
      rfl⟩
    exact ⟨⟨htargets, hwitnesses, hpredicates.1, hpredicates.2, hfrontier,
      refuseRevisions_sorted_eq_ok.mp hrevisions, fun m hmem => hmutations m ((hm m).mpr hmem),
      fun p hmem => hshapes p ((hp p).mpr hmem), hkeys⟩, rfl⟩
  · rintro ⟨h, rfl⟩
    exact ⟨h.targets, h.witnesses, ⟨h.identified, h.identities⟩, h.frontier,
      refuseRevisions_sorted_eq_ok.mpr h.revisions,
      fun m hmem => h.mutationShapes m ((hm m).mp hmem),
      fun p hmem => h.predicateShapes p ((hp p).mp hmem), h.keys, rfl⟩

theorem AtomicPlan.ext {p q : AtomicPlan R} (h : p.parts = q.parts) : p = q := by
  obtain ⟨parts, hclosed⟩ := p
  obtain rfl : parts = q.parts := h
  rfl

theorem AtomicPlan.close_eq_ok {p : AtomicPlan R} :
    close R d = .ok p ↔ closeParts R d = .ok p.parts := by
  unfold close
  split
  next parts h =>
    refine ⟨fun hp => ?_, fun hp => ?_⟩
    · rw [← ok.inj hp]
      exact h
    · exact congrArg Except.ok (ext (ok.inj (h.symm.trans hp)))
  next e h =>
    rw [h]
    exact ⟨fun hp => (by cases hp), fun hp => (by cases hp)⟩

/-! ## Reorderings -/

/-- The same parts, with the four lists in another order. -/
structure AtomicPlanParts.Reorders (d d' : AtomicPlanParts) : Prop where
  profile : d.profile = d'.profile
  atomicId : d.atomicId = d'.atomicId
  heapId : d.heapId = d'.heapId
  scope : d.scope = d'.scope
  readFrontier : d.readFrontier = d'.readFrontier
  limits : d.limits = d'.limits
  reads : d.reads.Perm d'.reads
  predicates : d.predicates.Perm d'.predicates
  mutations : d.mutations.Perm d'.mutations
  activeRuleRevisions : d.activeRuleRevisions.Perm d'.activeRuleRevisions

theorem AtomicPlanParts.Reorders.symm (h : d.Reorders d') : d'.Reorders d :=
  ⟨h.profile.symm, h.atomicId.symm, h.heapId.symm, h.scope.symm, h.readFrontier.symm,
    h.limits.symm, h.reads.symm, h.predicates.symm, h.mutations.symm, h.activeRuleRevisions.symm⟩

theorem AtomicPlanParts.reorders_sorted (d : AtomicPlanParts) : d.Reorders d.sorted :=
  ⟨rfl, rfl, rfl, rfl, rfl, rfl, (sortBy_perm _ _).symm, (sortBy_perm _ _).symm,
    (sortBy_perm _ _).symm, (sortBy_perm _ _).symm⟩

theorem AtomicPlanParts.Closable.reorder
    (hc : d.Closable R) (h : d.Reorders d') : d'.Closable R where
  targets := (h.mutations.map _).nodup_iff.mp hc.targets
  witnesses := (h.reads.map _).nodup_iff.mp hc.witnesses
  identified p hp := hc.identified p (h.predicates.mem_iff.mpr hp)
  identities := (h.predicates.map _).nodup_iff.mp hc.identities
  frontier hnone := by
    have hnil : d.reads = [] := hc.frontier (h.readFrontier.trans hnone)
    exact nil_perm.mp (hnil ▸ h.reads)
  revisions := ⟨fun hz => hc.revisions.1 (h.activeRuleRevisions.mem_iff.mpr hz),
    h.activeRuleRevisions.nodup_iff.mp hc.revisions.2⟩
  mutationShapes m hm := hc.mutationShapes m (h.mutations.mem_iff.mpr hm)
  predicateShapes p hp := hc.predicateShapes p (h.predicates.mem_iff.mpr hp)
  keys := ⟨fun m hm => hc.keys.mutations m (h.mutations.mem_iff.mpr hm),
    fun r hr => hc.keys.reads r (h.reads.mem_iff.mpr hr),
    fun p hp => hc.keys.predicates p (h.predicates.mem_iff.mpr hp)⟩

/-- Sorting forgets the order: the targets of a closable draft are distinct, and the other three
order keys separate everything. -/
theorem AtomicPlanParts.Closable.sorted_eq
    (hc : d.Closable R) (h : d.Reorders d') : d.sorted = d'.sorted := by
  have hmutations : sortBy (targetOrder d.heapId) d.mutations =
      sortBy (targetOrder d.heapId) d'.mutations :=
    sortBy_eq_of_perm h.mutations fun a ha b hb hab =>
      inj_on_of_nodup_map hc.targets ha hb (targetOrder_eq hab)
  have hreads : sortBy (readOrder d.heapId) d.reads = sortBy (readOrder d.heapId) d'.reads :=
    sortBy_eq_of_perm h.reads fun _ _ _ _ hab => readOrder_eq hab
  have hpredicates : sortBy (predOrder d.heapId) d.predicates =
      sortBy (predOrder d.heapId) d'.predicates :=
    sortBy_eq_of_perm h.predicates fun _ _ _ _ hab => predOrder_eq hab
  have hrevisions : sortBy revisionOrder d.activeRuleRevisions =
      sortBy revisionOrder d'.activeRuleRevisions :=
    sortBy_eq_of_perm h.activeRuleRevisions fun _ _ _ _ hab => eq_of_compare hab
  unfold sorted
  rw [hmutations, hreads, hpredicates, hrevisions, h.profile, h.atomicId, h.heapId, h.scope,
    h.readFrontier, h.limits]

theorem closeParts_of_reorders (h : d.Reorders d')
    (hd : closeParts R d = .ok parts) : closeParts R d' = .ok parts := by
  obtain ⟨hc, rfl⟩ := closeParts_eq_ok.mp hd
  exact closeParts_eq_ok.mpr ⟨hc.reorder h, hc.sorted_eq h⟩

/-- **A draft and a reordering of it close to one plan**, with one content root, or are both
refused. -/
theorem AtomicPlan.close_of_reorders {R : Runtime} {d d' : AtomicPlanParts} (h : d.Reorders d') :
    ((∃ p, AtomicPlan.close R d = .ok p) ↔ ∃ p, AtomicPlan.close R d' = .ok p) ∧
      ∀ p p', AtomicPlan.close R d = .ok p → AtomicPlan.close R d' = .ok p' →
        p = p' ∧ planContentRoot p = planContentRoot p' := by
  refine ⟨⟨?_, ?_⟩, fun p p' hp hp' => ?_⟩
  · rintro ⟨p, hp⟩
    exact ⟨p, close_eq_ok.mpr
      (closeParts_of_reorders h (close_eq_ok.mp hp))⟩
  · rintro ⟨p, hp⟩
    exact ⟨p, close_eq_ok.mpr
      (closeParts_of_reorders h.symm (close_eq_ok.mp hp))⟩
  · have hd := closeParts_of_reorders h (close_eq_ok.mp hp)
    have hparts := ok.inj (hd.symm.trans (close_eq_ok.mp hp'))
    obtain rfl : p = p' := ext hparts
    exact ⟨rfl, rfl⟩

section Sample

/-- A put of one byte under an opaque key. -/
def putOf (key : Bytes) : PlanMutation :=
  ⟨.put, sevenShort, .opaqueBytes key, some [1], none⟩

/-- A draft of puts that allows the given time for construction. -/
def draftOf (deadline : Duration) (mutations : List PlanMutation) : AtomicPlanParts where
  profile := .localHeapV1
  atomicId := sevenLong
  heapId := sevenShort
  scope := .localHeap
  readFrontier := none
  reads := []
  predicates := []
  mutations := mutations
  activeRuleRevisions := []
  limits := { ResourceLimits.builderDefaultsLocalHeap with constructionDeadline := deadline }

theorem draftOf_reorders (deadline : Duration) {l l' : List PlanMutation} (h : l.Perm l') :
    (draftOf deadline l).Reorders (draftOf deadline l') :=
  ⟨rfl, rfl, rfl, rfl, rfl, rfl, .rfl, .rfl, h, .rfl⟩

theorem closeParts_putOf (deadline : Duration) (key : Bytes) (R : Runtime) :
    closeParts R (draftOf deadline [putOf key]) = .ok (draftOf deadline [putOf key]) := rfl

theorem close_two_puts : ∃ p, close productRuntime
    (draftOf (.fromSecs 5) [putOf [1], putOf [2]]) = .ok p := by
  have h : closeParts productRuntime (draftOf (.fromSecs 5) [putOf [1], putOf [2]]) =
      .ok (draftOf (.fromSecs 5) [putOf [1], putOf [2]]) := by decide +kernel
  exact ⟨⟨_, _, h⟩, close_eq_ok.mpr h⟩

/-- The two orders of two puts close to one plan. -/
theorem close_two_puts_swapped : ∃ p,
    AtomicPlan.close productRuntime (draftOf (.fromSecs 5) [putOf [1], putOf [2]]) = .ok p ∧
      AtomicPlan.close productRuntime (draftOf (.fromSecs 5) [putOf [2], putOf [1]]) = .ok p := by
  have hreorders := draftOf_reorders (.fromSecs 5) (List.Perm.swap (putOf [2]) (putOf [1]) [])
  obtain ⟨hiff, heq⟩ := close_of_reorders (R := productRuntime) hreorders
  obtain ⟨p, hp⟩ := close_two_puts
  obtain ⟨p', hp'⟩ := hiff.mp ⟨p, hp⟩
  obtain ⟨rfl, -⟩ := heq p p' hp hp'
  exact ⟨p, hp, hp'⟩

end Sample

theorem AtomicPlan.closeParts_self : closeParts R p.parts = .ok p.parts := by
  obtain ⟨parts, draft, hdraft⟩ := p
  obtain ⟨hc, rfl⟩ := closeParts_eq_ok.mp hdraft
  exact closeParts_of_reorders draft.reorders_sorted hdraft

theorem AtomicPlan.closable : p.parts.Closable R :=
  (closeParts_eq_ok.mp p.closeParts_self).1

theorem AtomicPlan.sorted_eq : p.parts.sorted = p.parts :=
  (closeParts_eq_ok.mp p.closeParts_self).2.symm

end Residiuum.Atomics
