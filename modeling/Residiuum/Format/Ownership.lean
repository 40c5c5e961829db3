import Residiuum.Format.CborCodec

/-!
# Heap ownership: envelope keys and agreement

An envelope names its heap, and perhaps a collection or a stream, under keys 31 to 34. Parsing is a
loop over the entries of the envelope that fills four optional fields.

* **`foldlM_ownershipEntry`**: the loop collects the values under the four keys.
* **`parseOwnershipEnvelope_eq_ok`**: which envelopes parse, and to which evidence. A heap id
  without a profile, or a profile without a heap id, is no evidence.
* **`agreeOwnership_eq_known`**: what two claims that agree have in common.
* **`parse_encodeBinding`**: the binding envelopes parse to the binding.
-/

namespace Residiuum

open ByteLib CborValue Except List Option

/-! ## Envelope keys -/

def ENV_HEAP_ID : UInt64 := 31

def ENV_COLLECTION_ID : UInt64 := 32

def ENV_STREAM_ID : UInt64 := 33

def ENV_OWNERSHIP_PROFILE : UInt64 := 34

def ENV_SOURCE_HEAP_ID : UInt64 := 35

def ENV_SOURCE_OBJECT_ID : UInt64 := 36

def ATOMIC_EXTENSION_FIRST : UInt64 := 37

def ATOMIC_EXTENSION_LAST : UInt64 := 40

def ENV_OPERATION_ID : UInt64 := 41

def ENV_OPERATION_CONTENT_HASH : UInt64 := 42

variable (key : UInt64)

def isAtomicExtensionKey : Bool :=
  key ≥ ATOMIC_EXTENSION_FIRST && key ≤ ATOMIC_EXTENSION_LAST

def OWNERSHIP_PROFILE_V1 : UInt64 := 1

/-! ## Parsing -/

/-- What an envelope says of its owner. -/
inductive OwnershipEvidence where
  | known (heapId : Arr 16) (profile : UInt64) (collectionId streamId : Option (Arr 16))
  | unknown
  deriving DecidableEq, Repr

/-- Why ownership cannot be read or does not agree. -/
inductive OwnershipError where
  | envelope (e : CborEnvelopeError)
  | conflict
  | unknownKey (key : UInt64)
  | badProfile
  | badLength
  deriving DecidableEq, Repr

/-- The `?` on a CBOR result inside the ownership parser. -/
def liftEnvelope {α : Type} : Except CborEnvelopeError α → Except OwnershipError α
  | .ok a => .ok a
  | .error e => .error (.envelope e)

def expectB16 : CborValue → Except OwnershipError (Arr 16)
  | .bytes b => if h : b.length = 16 then .ok ⟨b, h⟩ else .error .badLength
  | _ => .error .badLength

/-- The profile must be an unsigned integer. -/
def expectUint : CborValue → Except OwnershipError UInt64
  | .uint u => .ok u
  | _ => .error .badLength

/-- The fields the loop of `parse_ownership_envelope` fills. -/
structure OwnershipFields where
  heapId : Option (Arr 16)
  profile : Option UInt64
  collectionId : Option (Arr 16)
  streamId : Option (Arr 16)
  deriving DecidableEq, Repr

/-- The loop body of `parse_ownership_envelope`. -/
def ownershipEntry (fields : OwnershipFields) (entry : UInt64 × CborValue) :
    Except OwnershipError OwnershipFields :=
  let (k, v) := entry
  if 1 ≤ k ∧ k ≤ 30 then .ok fields
  else if k = ENV_HEAP_ID then do
    let id ← expectB16 v
    return { fields with heapId := some id }
  else if k = ENV_COLLECTION_ID then do
    let id ← expectB16 v
    return { fields with collectionId := some id }
  else if k = ENV_STREAM_ID then do
    let id ← expectB16 v
    return { fields with streamId := some id }
  else if k = ENV_OWNERSHIP_PROFILE then do
    let u ← expectUint v
    return { fields with profile := some u }
  else if k = ENV_SOURCE_HEAP_ID ∨ k = ENV_SOURCE_OBJECT_ID then .ok fields
  else if isAtomicExtensionKey k then .ok fields
  else if k = ENV_OPERATION_ID ∨ k = ENV_OPERATION_CONTENT_HASH then .ok fields
  else .error (.unknownKey k)

/-- The evidence of the collected fields. A heap id without a profile counts as missing, and so
does a profile without a heap id. -/
def OwnershipFields.evidence (fields : OwnershipFields) : Except OwnershipError OwnershipEvidence :=
  match fields.heapId, fields.profile with
  | some heapId, some profile =>
    if profile ≠ OWNERSHIP_PROFILE_V1 then .error .badProfile
    else .ok (.known heapId profile fields.collectionId fields.streamId)
  | _, _ => .ok .unknown

def parseOwnershipEnvelope (bytes : Bytes) : Except OwnershipError OwnershipEvidence :=
  if bytes = EMPTY_ENVELOPE then .ok .unknown
  else do
    let map ← liftEnvelope (decodeDeterministicUintMap bytes)
    let fields ← map.foldlM ownershipEntry ⟨none, none, none, none⟩
    fields.evidence

/-- Both ids are given, and differ. -/
def idsConflict (a b : Option (Arr 16)) : Bool := a.isSome && b.isSome && a != b

def agreeOwnership (a b : OwnershipEvidence) : Except OwnershipError OwnershipEvidence :=
  match a, b with
  | .known h1 p1 c1 s1, .known h2 p2 c2 s2 =>
    if h1 ≠ h2 then .error .conflict
    else if idsConflict c1 c2 then .error .conflict
    else if idsConflict s1 s2 then .error .conflict
    else .ok (.known h1 (max p1 p2) (c1.or c2) (s1.or s2))
  | .known h1 p1 c1 s1, .unknown => .ok (.known h1 p1 c1 s1)
  | .unknown, .known h2 p2 c2 s2 => .ok (.known h2 p2 c2 s2)
  | .unknown, .unknown => .ok .unknown

/-- The entries of a binding: `{31: heap_id, 32: collection_id?, 33: stream_id?, 34: 1}`. -/
def bindingEntries (heapId : Arr 16) (collectionId streamId : Option (Arr 16)) :
    List (UInt64 × CborValue) :=
  [(ENV_HEAP_ID, .bytes heapId.1)] ++
    (collectionId.toList.map fun id => (ENV_COLLECTION_ID, CborValue.bytes id.1)) ++
    (streamId.toList.map fun id => (ENV_STREAM_ID, CborValue.bytes id.1)) ++
    [(ENV_OWNERSHIP_PROFILE, .uint OWNERSHIP_PROFILE_V1)]

def encodeHeapBindingEnvelope (heapId : Arr 16) : Except CborEnvelopeError Bytes :=
  encodeDeterministicUintMap (bindingEntries heapId none none)

def encodeCollectionBindingEnvelope (heapId collectionId : Arr 16) :
    Except CborEnvelopeError Bytes :=
  encodeDeterministicUintMap (bindingEntries heapId (some collectionId) none)

/-! ## What the loop collects -/

variable {v : CborValue} {f f' : OwnershipFields} {k : UInt64} {es : List (UInt64 × CborValue)}
  {heapId : Arr 16} {collectionId streamId : Option (Arr 16)} {b : Bytes}
  {ev : OwnershipEvidence} {α : Type}

theorem expectB16_eq_ok {id : Arr 16} : expectB16 v = .ok id ↔ v = .bytes id.1 := by
  unfold expectB16
  split
  · next b =>
    split_ifs with hb
    · rw [Except.ok.injEq, CborValue.bytes.injEq]
      exact ⟨fun h => h ▸ rfl, fun h => Subtype.ext h⟩
    · refine ⟨fun h => (by cases h), fun h => ?_⟩
      rw [CborValue.bytes.inj h] at hb
      exact absurd id.2 hb
  · next hv => exact ⟨fun h => (by cases h), fun h => absurd h (hv id.1)⟩

theorem expectUint_eq_ok {u : UInt64} : expectUint v = .ok u ↔ v = .uint u := by
  unfold expectUint
  split
  · next w =>
    rw [Except.ok.injEq, CborValue.uint.injEq]
  · next hv => exact ⟨fun h => (by cases h), fun h => absurd h (hv u)⟩

/-- Keys with a meaning that does not bear on ownership. -/
def Ignored (k : UInt64) : Prop := (1 ≤ k ∧ k ≤ 30) ∨ (35 ≤ k ∧ k ≤ 42)

theorem expect_eq_ok {x : Except OwnershipError α} {g : α → OwnershipFields} :
    (x >>= fun a => pure (g a)) = .ok f ↔ ∃ a, x = .ok a ∧ f = g a := by
  rw [bind_eq_ok]
  exact exists_congr fun a => and_congr_right fun _ =>
    ⟨fun h => (ok.inj h).symm, fun h => h ▸ rfl⟩

theorem field_keys : ENV_HEAP_ID = 31 ∧ ENV_COLLECTION_ID = 32 ∧ ENV_STREAM_ID = 33 ∧
    ENV_OWNERSHIP_PROFILE = 34 :=
  ⟨rfl, rfl, rfl, rfl⟩

theorem ownershipEntry_ignored (f : OwnershipFields) (v : CborValue)
    (hk : Ignored k) : ownershipEntry f (k, v) = .ok f := by
  unfold Ignored at hk
  simp only [ownershipEntry, field_keys, ENV_SOURCE_HEAP_ID, ENV_SOURCE_OBJECT_ID,
    isAtomicExtensionKey, ATOMIC_EXTENSION_FIRST, ATOMIC_EXTENSION_LAST, ENV_OPERATION_ID,
    ENV_OPERATION_CONTENT_HASH]
  grind

theorem ownershipEntry_eq_ok : ownershipEntry f (k, v) = .ok f' ↔
      (Ignored k ∧ f' = f) ∨
      (k = ENV_HEAP_ID ∧ ∃ id, v = .bytes id.1 ∧ f' = { f with heapId := some id }) ∨
      (k = ENV_COLLECTION_ID ∧ ∃ id, v = .bytes id.1 ∧ f' = { f with collectionId := some id }) ∨
      (k = ENV_STREAM_ID ∧ ∃ id, v = .bytes id.1 ∧ f' = { f with streamId := some id }) ∨
      (k = ENV_OWNERSHIP_PROFILE ∧ ∃ u, v = .uint u ∧ f' = { f with profile := some u }) := by
  by_cases hk : Ignored k
  · have hne : k ≠ ENV_HEAP_ID ∧ k ≠ ENV_COLLECTION_ID ∧ k ≠ ENV_STREAM_ID ∧
        k ≠ ENV_OWNERSHIP_PROFILE := by
      unfold Ignored at hk
      simp only [field_keys]
      grind
    rw [ownershipEntry_ignored f v hk, Except.ok.injEq]
    simp [hk, hne, eq_comm]
  by_cases hkey : k = ENV_HEAP_ID ∨ k = ENV_COLLECTION_ID ∨ k = ENV_STREAM_ID ∨
      k = ENV_OWNERSHIP_PROFILE
  · -- the keys are different constants, so one disjunct is left
    rcases hkey with rfl | rfl | rfl | rfl
    case inr.inr.inr =>
      change (expectUint v >>= _) = _ ↔ _
      rw [expect_eq_ok]
      simp [Ignored, expectUint_eq_ok, field_keys]
    all_goals
      change (expectB16 v >>= _) = _ ↔ _
      rw [expect_eq_ok]
      simp [Ignored, expectB16_eq_ok, field_keys]
  · have hrun : ownershipEntry f (k, v) = .error (.unknownKey k) := by
      unfold Ignored at hk
      simp only [ownershipEntry, field_keys, ENV_SOURCE_HEAP_ID, ENV_SOURCE_OBJECT_ID,
        isAtomicExtensionKey, ATOMIC_EXTENSION_FIRST, ATOMIC_EXTENSION_LAST, ENV_OPERATION_ID,
        ENV_OPERATION_CONTENT_HASH] at hkey ⊢
      grind
    simp only [not_or] at hkey
    simp [hrun, hk, hkey]

def IsField : Prop :=
  key = ENV_HEAP_ID ∨ key = ENV_COLLECTION_ID ∨ key = ENV_STREAM_ID ∨ key = ENV_OWNERSHIP_PROFILE

/-- The collected value under a key, as the envelope holds it. -/
def OwnershipFields.value (f : OwnershipFields) (key : UInt64) : Option CborValue :=
  if key = ENV_HEAP_ID then f.heapId.map fun id => .bytes id.1
  else if key = ENV_COLLECTION_ID then f.collectionId.map fun id => .bytes id.1
  else if key = ENV_STREAM_ID then f.streamId.map fun id => .bytes id.1
  else f.profile.map .uint

def EntryOk (e : UInt64 × CborValue) : Prop :=
  Ignored e.1 ∨
    ((e.1 = ENV_HEAP_ID ∨ e.1 = ENV_COLLECTION_ID ∨ e.1 = ENV_STREAM_ID) ∧
      ∃ id : Arr 16, e.2 = .bytes id.1) ∨
    (e.1 = ENV_OWNERSHIP_PROFILE ∧ ∃ u, e.2 = .uint u)

theorem exists_ownershipEntry (f : OwnershipFields) (e : UInt64 × CborValue) :
    (∃ f', ownershipEntry f e = .ok f') ↔ EntryOk e := by
  obtain ⟨k, v⟩ := e
  simp only [ownershipEntry_eq_ok]
  constructor
  · rintro ⟨f', ⟨hk, -⟩ | ⟨hk, id, hv, -⟩ | ⟨hk, id, hv, -⟩ | ⟨hk, id, hv, -⟩ | ⟨hk, u, hv, -⟩⟩
    · exact .inl hk
    · exact .inr (.inl ⟨.inl hk, id, hv⟩)
    · exact .inr (.inl ⟨.inr (.inl hk), id, hv⟩)
    · exact .inr (.inl ⟨.inr (.inr hk), id, hv⟩)
    · exact .inr (.inr ⟨hk, u, hv⟩)
  · rintro (hk | ⟨hk | hk | hk, id, hv⟩ | ⟨hk, u, hv⟩)
    · exact ⟨_, .inl ⟨hk, rfl⟩⟩
    · exact ⟨_, .inr (.inl ⟨hk, id, hv, rfl⟩)⟩
    · exact ⟨_, .inr (.inr (.inl ⟨hk, id, hv, rfl⟩))⟩
    · exact ⟨_, .inr (.inr (.inr (.inl ⟨hk, id, hv, rfl⟩)))⟩
    · exact ⟨_, .inr (.inr (.inr (.inr ⟨hk, u, hv, rfl⟩)))⟩

theorem ownershipEntry_value {key : UInt64}
    (h : ownershipEntry f (k, v) = .ok f') (hkey : IsField key) :
    f'.value key = if key = k then some v else f.value key := by
  rcases ownershipEntry_eq_ok.mp h with ⟨hk, rfl⟩ | ⟨rfl, id, rfl, rfl⟩ | ⟨rfl, id, rfl, rfl⟩ |
    ⟨rfl, id, rfl, rfl⟩ | ⟨rfl, u, rfl, rfl⟩
  · have hne : key ≠ k := by
      rintro rfl
      unfold Ignored at hk
      simp only [IsField, field_keys] at hkey
      grind
    rw [if_neg hne]
  all_goals
    rcases hkey with rfl | rfl | rfl | rfl <;>
      simp [OwnershipFields.value, field_keys]

theorem OwnershipFields.ext_value {g : OwnershipFields}
    (h : ∀ key, IsField key → f.value key = g.value key) : f = g := by
  have hbytes : Function.Injective fun id : Arr 16 => CborValue.bytes id.1 :=
    fun a b hab => Subtype.ext (CborValue.bytes.inj hab)
  have huint : Function.Injective CborValue.uint := fun a b hab => CborValue.uint.inj hab
  have h1 : f.heapId.map _ = g.heapId.map _ := h ENV_HEAP_ID (.inl rfl)
  have h2 : f.collectionId.map _ = g.collectionId.map _ := h ENV_COLLECTION_ID (.inr (.inl rfl))
  have h3 : f.streamId.map _ = g.streamId.map _ := h ENV_STREAM_ID (.inr (.inr (.inl rfl)))
  have h4 : f.profile.map _ = g.profile.map _ :=
    h ENV_OWNERSHIP_PROFILE (.inr (.inr (.inr rfl)))
  obtain ⟨heap, profile, collection, stream⟩ := f
  obtain ⟨heap', profile', collection', stream'⟩ := g
  rw [OwnershipFields.mk.injEq]
  exact ⟨map_injective hbytes h1, map_injective huint h4,
    map_injective hbytes h2, map_injective hbytes h3⟩

theorem lookup_eq_some_iff (hes : KeysAscend es) : es.lookup k = some v ↔ (k, v) ∈ es := by
  induction es with
  | nil => simp
  | cons e es ih =>
    obtain ⟨k', v'⟩ := e
    obtain ⟨hlt, hes⟩ := pairwise_cons.mp hes
    rw [lookup_cons, mem_cons, Prod.mk.injEq]
    by_cases hk : k = k'
    · subst hk
      have hnot : (k, v) ∉ es := fun hmem => UInt64.lt_irrefl _ (hlt (k, v) hmem)
      simp only [beq_self_eq_true, Option.some.injEq, hnot, or_false, true_and, eq_comm]
    · rw [beq_false_of_ne hk, ih hes]
      simp [hk]

theorem foldlM_ownershipEntry (hes : KeysAscend es) : es.foldlM ownershipEntry f = .ok f' ↔
      (∀ e ∈ es, EntryOk e) ∧
        ∀ key, IsField key → f'.value key = (es.lookup key).or (f.value key) := by
  induction es generalizing f with
  | nil =>
    simp only [foldlM_nil, not_mem_nil, false_implies, implies_true, true_and,
      lookup_nil, none_or]
    refine ⟨fun h key _ => by rw [ok.inj h], fun h => ?_⟩
    rw [OwnershipFields.ext_value h]
    rfl
  | cons e es ih =>
    obtain ⟨k, v⟩ := e
    obtain ⟨hlt, htail⟩ := pairwise_cons.mp hes
    rw [foldlM_cons, bind_eq_ok, forall_mem_cons]
    -- the first entry is the only one with its key
    have hstep : ∀ f₁, ownershipEntry f (k, v) = .ok f₁ → ∀ key, IsField key →
        (es.lookup key).or (f₁.value key) = (((k, v) :: es).lookup key).or (f.value key) := by
      intro f₁ hf₁ key hkey
      rw [ownershipEntry_value hf₁ hkey, lookup_cons]
      by_cases hk : key = k
      · subst hk
        have hnone : es.lookup key = none := by
          rw [eq_none_iff_forall_ne_some]
          intro w hw
          exact UInt64.lt_irrefl _ (hlt (key, w) ((lookup_eq_some_iff htail).mp hw))
        rw [hnone, if_pos rfl, beq_self_eq_true]
        rfl
      · rw [if_neg hk, beq_false_of_ne hk]
    constructor
    · rintro ⟨f₁, hf₁, hrest⟩
      obtain ⟨hok, hvalues⟩ := (ih htail).mp hrest
      refine ⟨⟨(exists_ownershipEntry f _).mp ⟨f₁, hf₁⟩, hok⟩, fun key hkey => ?_⟩
      rw [hvalues key hkey, hstep f₁ hf₁ key hkey]
    · rintro ⟨⟨hok, hrest⟩, hvalues⟩
      obtain ⟨f₁, hf₁⟩ := (exists_ownershipEntry f _).mpr hok
      refine ⟨f₁, hf₁, (ih htail).mpr ⟨hrest, fun key hkey => ?_⟩⟩
      rw [hvalues key hkey, hstep f₁ hf₁ key hkey]

theorem exists_foldlM (f : OwnershipFields)
    (hes : ∀ e ∈ es, EntryOk e) : ∃ f', es.foldlM ownershipEntry f = .ok f' := by
  induction es generalizing f with
  | nil => exact ⟨f, rfl⟩
  | cons e es ih =>
    obtain ⟨he, hes⟩ := forall_mem_cons.mp hes
    obtain ⟨f₁, hf₁⟩ := (exists_ownershipEntry f e).mpr he
    obtain ⟨f', hf'⟩ := ih f₁ hes
    exact ⟨f', bind_eq_ok.mpr ⟨f₁, hf₁, hf'⟩⟩

theorem value_blank : OwnershipFields.value ⟨none, none, none, none⟩ key = none := by
  unfold OwnershipFields.value
  split_ifs <;> rfl

/-- What entries say of an owner. -/
inductive Evidence (es : List (UInt64 × CborValue)) : OwnershipEvidence → Prop
  | known {heapId : Arr 16} {collectionId streamId : Option (Arr 16)}
      (heap : es.lookup ENV_HEAP_ID = some (.bytes heapId.1))
      (profile : es.lookup ENV_OWNERSHIP_PROFILE = some (.uint OWNERSHIP_PROFILE_V1))
      (collection : es.lookup ENV_COLLECTION_ID = collectionId.map fun id => .bytes id.1)
      (stream : es.lookup ENV_STREAM_ID = streamId.map fun id => .bytes id.1) :
      Evidence es (.known heapId OWNERSHIP_PROFILE_V1 collectionId streamId)
  | unknown (missing : es.lookup ENV_HEAP_ID = none ∨ es.lookup ENV_OWNERSHIP_PROFILE = none) :
      Evidence es .unknown

theorem evidence_eq_ok
    (hf : ∀ key, IsField key → f.value key = es.lookup key) :
    f.evidence = .ok ev ↔ Evidence es ev := by
  have hheap : f.heapId.map _ = es.lookup ENV_HEAP_ID := hf ENV_HEAP_ID (.inl rfl)
  have hcollection : f.collectionId.map _ = es.lookup ENV_COLLECTION_ID :=
    hf ENV_COLLECTION_ID (.inr (.inl rfl))
  have hstream : f.streamId.map _ = es.lookup ENV_STREAM_ID :=
    hf ENV_STREAM_ID (.inr (.inr (.inl rfl)))
  have hprofile : f.profile.map _ = es.lookup ENV_OWNERSHIP_PROFILE :=
    hf ENV_OWNERSHIP_PROFILE (.inr (.inr (.inr rfl)))
  obtain ⟨heap, profile, collection, stream⟩ := f
  have hunknown : (heap = none ∨ profile = none) →
      ((Except.ok .unknown : Except OwnershipError _) = .ok ev ↔ Evidence es ev) := by
    intro hmissing
    have hlookup : es.lookup ENV_HEAP_ID = none ∨ es.lookup ENV_OWNERSHIP_PROFILE = none :=
      hmissing.imp (fun h => by rw [← hheap, h]; rfl) (fun h => by rw [← hprofile, h]; rfl)
    refine ⟨fun h => ok.inj h ▸ .unknown hlookup, fun h => ?_⟩
    cases h with
    | known hh hp _ _ =>
      rcases hlookup with h | h
      · cases h.symm.trans hh
      · cases h.symm.trans hp
    | unknown _ => rfl
  unfold OwnershipFields.evidence
  cases heap with
  | none => exact hunknown (.inl rfl)
  | some heapId =>
    cases profile with
    | none => exact hunknown (.inr rfl)
    | some u =>
      dsimp only
      constructor
      · intro h
        split_ifs at h with hu
        cases h
        obtain rfl := not_not.mp hu
        exact .known hheap.symm hprofile.symm hcollection.symm hstream.symm
      · intro h
        cases h with
        | known hh hp hc hs =>
          have hu : u = OWNERSHIP_PROFILE_V1 := uint.inj (Option.some.inj
            (hprofile.trans hp))
          have hid : heapId = _ := Subtype.ext (bytes.inj (Option.some.inj
            (hheap.trans hh)))
          have hbytes : Function.Injective fun id : Arr 16 => bytes id.1 :=
            fun a b hab => Subtype.ext (bytes.inj hab)
          have hcol : collection = _ := map_injective hbytes (hcollection.trans hc)
          have hstr : stream = _ := map_injective hbytes (hstream.trans hs)
          rw [if_neg (not_not.mpr hu), hu, hid, hcol, hstr]
        | unknown hmissing =>
          rcases hmissing with h | h
          · cases h.symm.trans hheap.symm
          · cases h.symm.trans hprofile.symm

theorem liftEnvelope_eq_ok {x : Except CborEnvelopeError α} {a : α} :
    liftEnvelope x = .ok a ↔ x = .ok a := by
  cases x <;> simp [liftEnvelope]

theorem keysAscend_of_decode (h : decodeDeterministicUintMap b = .ok es) : KeysAscend es :=
  (everywhere_map.mp (decode_eq_ok.mp h).1).1.2

theorem parseOwnershipEnvelope_eq_ok :
    parseOwnershipEnvelope b = .ok ev ↔ ∃ es, decodeDeterministicUintMap b = .ok es ∧
      (∀ e ∈ es, EntryOk e) ∧ Evidence es ev := by
  unfold parseOwnershipEnvelope
  by_cases hb : b = EMPTY_ENVELOPE
  · have hcanon : Canon (.map []) :=
      everywhere_map.mpr ⟨⟨Nat.two_pow_pos 64, List.Pairwise.nil⟩,
        fun e he => absurd he not_mem_nil⟩
    have hdecode : decodeDeterministicUintMap b = .ok [] :=
      decode_eq_ok.mpr ⟨hcanon, hb.trans (by decide)⟩
    have hnone : Evidence [] .unknown := .unknown (.inl rfl)
    rw [if_pos hb]
    constructor
    · intro h
      cases h
      exact ⟨[], hdecode, fun e he => absurd he not_mem_nil, hnone⟩
    · rintro ⟨es, hes, -, hev⟩
      cases hdecode.symm.trans hes
      cases hev with
      | known hh _ _ _ => cases hh
      | unknown _ => rfl
  · rw [if_neg hb, bind_eq_ok]
    simp only [liftEnvelope_eq_ok, bind_eq_ok]
    refine exists_congr fun es => and_congr_right fun hes => ?_
    have hasc := keysAscend_of_decode hes
    constructor
    · rintro ⟨f, hf, hev⟩
      obtain ⟨hok, hvalues⟩ := (foldlM_ownershipEntry hasc).mp hf
      refine ⟨hok, (evidence_eq_ok fun key hkey => ?_).mp hev⟩
      rw [hvalues key hkey, value_blank, or_none]
    · rintro ⟨hok, hev⟩
      obtain ⟨f, hf⟩ := exists_foldlM ⟨none, none, none, none⟩ hok
      refine ⟨f, hf, (evidence_eq_ok fun key hkey => ?_).mpr hev⟩
      rw [((foldlM_ownershipEntry hasc).mp hf).2 key hkey, value_blank, or_none]

/-- A claim names the heap, or none. -/
def OwnershipEvidence.NoOther (heapId : Arr 16) : OwnershipEvidence → Prop
  | .known h _ _ _ => h = heapId
  | .unknown => True

theorem agreeOwnership_eq_known {a b : OwnershipEvidence} {profile : UInt64}
    (h : agreeOwnership a b = .ok (.known heapId profile collectionId streamId)) :
    a.NoOther heapId ∧ b.NoOther heapId := by
  cases a with
  | known h1 p1 c1 s1 =>
    cases b with
    | known h2 p2 c2 s2 =>
      simp only [agreeOwnership] at h
      split_ifs at h with hne
      cases h
      exact ⟨rfl, (not_not.mp hne).symm⟩
    | unknown =>
      cases h
      exact ⟨rfl, trivial⟩
  | unknown =>
    cases b with
    | known h2 p2 c2 s2 =>
      cases h
      exact ⟨trivial, rfl⟩
    | unknown => cases h

theorem mem_bindingEntries
    {e : UInt64 × CborValue} (he : e ∈ bindingEntries heapId collectionId streamId) :
    ((e.1 = ENV_HEAP_ID ∨ e.1 = ENV_COLLECTION_ID ∨ e.1 = ENV_STREAM_ID) ∧
      ∃ id : Arr 16, e.2 = .bytes id.1) ∨
    (e.1 = ENV_OWNERSHIP_PROFILE ∧ e.2 = .uint OWNERSHIP_PROFILE_V1) := by
  simp only [bindingEntries, mem_append, List.mem_map, mem_singleton] at he
  rcases he with ((rfl | ⟨id, -, rfl⟩) | ⟨id, -, rfl⟩) | rfl
  · exact .inl ⟨.inl rfl, heapId, rfl⟩
  · exact .inl ⟨.inr (.inl rfl), id, rfl⟩
  · exact .inl ⟨.inr (.inr rfl), id, rfl⟩
  · exact .inr ⟨rfl, rfl⟩

theorem canon_bindingEntries (heapId : Arr 16) (collectionId streamId : Option (Arr 16)) :
    Canon (.map (bindingEntries heapId collectionId streamId)) := by
  refine everywhere_map.mpr ⟨⟨?_, ?_⟩, fun e he => ?_⟩
  · show (bindingEntries heapId collectionId streamId).length < 2 ^ 64
    cases collectionId <;> cases streamId <;> simp [bindingEntries]
  · show KeysAscend _
    cases collectionId <;> cases streamId <;>
      simp [bindingEntries, KeysAscend, field_keys]
  · obtain ⟨k, v⟩ := e
    rcases mem_bindingEntries he with ⟨-, id, rfl⟩ | ⟨-, rfl⟩
    · refine ⟨?_, trivial⟩
      show id.1.length < 2 ^ 64
      rw [id.2]
      decide
    · exact ⟨trivial, trivial⟩

theorem parse_encodeBinding
    (h : encodeDeterministicUintMap (bindingEntries heapId collectionId streamId) = .ok b) :
    parseOwnershipEnvelope b =
      .ok (.known heapId OWNERSHIP_PROFILE_V1 collectionId streamId) := by
  have hcanon := canon_bindingEntries heapId collectionId streamId
  rw [encode_of_canon hcanon] at h
  cases h
  apply parseOwnershipEnvelope_eq_ok.mpr
  refine ⟨_, decode_eq_ok.mpr ⟨hcanon, rfl⟩, fun e he => ?_, .known ?_ ?_ ?_ ?_⟩
  · rcases mem_bindingEntries he with hid | ⟨hk, hv⟩
    · exact .inr (.inl hid)
    · exact .inr (.inr ⟨hk, _, hv⟩)
  all_goals
    cases collectionId <;> cases streamId <;>
      simp [bindingEntries, lookup_cons, field_keys]

end Residiuum
