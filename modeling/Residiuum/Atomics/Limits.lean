import Mathlib.Tactic.NormNum

/-!
# Resource ceilings

The limits that a plan declares and a prepare records (`limits.rs`). The construction deadline is a
`Duration` in nanoseconds; on the wire it is a number of whole milliseconds.

* `ResourceLimits.builderDefaultsLocalHeap`: what a plan builder starts from.
* **`fromMillis_eq_iff`**: the wire keeps a deadline exactly when it is `Whole`.
-/

namespace Residiuum.Atomics

/-! ## Durations -/

/-- `std::time::Duration`: seconds, and fewer than a second of nanoseconds. -/
structure Duration where
  secs : UInt64
  nanos : UInt32
  nanos_lt : nanos.toNat < 1000000000
  deriving DecidableEq

namespace Duration

variable (d : Duration) (ms : UInt64)

def asMillis : ℕ := d.secs.toNat * 1000 + d.nanos.toNat / 1000000

def fromSecs (secs : UInt64) : Duration := ⟨secs, 0, by decide⟩

theorem subsec_lt (ms : ℕ) : ms % 1000 * 1000000 < UInt32.size := by
  have hsize : UInt32.size = 4294967296 := rfl
  omega

def fromMillis (ms : UInt64) : Duration where
  secs := UInt64.ofNat (ms.toNat / 1000)
  nanos := UInt32.ofNat (ms.toNat % 1000 * 1000000)
  nanos_lt := by
    rw [UInt32.toNat_ofNat_of_lt' (subsec_lt _)]
    omega

/-- `u64::try_from(as_millis).unwrap_or(u64::MAX)`. -/
def wireMillis : UInt64 :=
  if d.asMillis < 2 ^ 64 then UInt64.ofNat d.asMillis else UInt64.ofNat (2 ^ 64 - 1)

/-- A whole number of milliseconds that fits in `u64`. -/
def Whole : Prop := d.nanos.toNat % 1000000 = 0 ∧ d.asMillis < 2 ^ 64

instance (d : Duration) : Decidable d.Whole := inferInstanceAs (Decidable (_ ∧ _))

theorem ext_toNat {d d' : Duration} (hs : d.secs.toNat = d'.secs.toNat)
    (hn : d.nanos.toNat = d'.nanos.toNat) : d = d' := by
  obtain ⟨secs, nanos, h⟩ := d
  obtain ⟨secs', nanos', h'⟩ := d'
  obtain rfl := UInt64.toNat_inj.mp hs
  obtain rfl := UInt32.toNat_inj.mp hn
  rfl

theorem fromMillis_secs : (fromMillis ms).secs.toNat = ms.toNat / 1000 := by
  have hms : ms.toNat < UInt64.size := ms.toNat_lt
  exact UInt64.toNat_ofNat_of_lt' (Nat.lt_of_le_of_lt (Nat.div_le_self _ _) hms)

theorem fromMillis_nanos : (fromMillis ms).nanos.toNat = ms.toNat % 1000 * 1000000 :=
  UInt32.toNat_ofNat_of_lt' (subsec_lt _)

theorem asMillis_fromMillis : (fromMillis ms).asMillis = ms.toNat := by
  unfold asMillis
  rw [fromMillis_secs, fromMillis_nanos]
  omega

variable {d : Duration}

theorem wireMillis_of_lt (h : d.asMillis < 2 ^ 64) : d.wireMillis.toNat = d.asMillis := by
  rw [wireMillis, if_pos h]
  exact UInt64.toNat_ofNat_of_lt' h

theorem fromMillis_eq_iff {ms : UInt64} : fromMillis ms = d ↔ ms = d.wireMillis ∧ d.Whole := by
  constructor
  · rintro rfl
    have hmillis := asMillis_fromMillis ms
    have hlt : (fromMillis ms).asMillis < 2 ^ 64 := hmillis ▸ ms.toNat_lt
    refine ⟨UInt64.toNat_inj.mp ?_, ?_, hlt⟩
    · rw [wireMillis_of_lt hlt, hmillis]
    · rw [fromMillis_nanos]
      omega
  · rintro ⟨rfl, hwhole, hlt⟩
    have hnanos := d.nanos_lt
    have hwire := wireMillis_of_lt hlt
    unfold asMillis at hwire
    refine ext_toNat ?_ ?_
    · rw [fromMillis_secs]
      omega
    · rw [fromMillis_nanos]
      omega

end Duration

/-- Applied limits of a plan and a prepare. -/
structure ResourceLimits where
  callerMutations : UInt32
  totalGeneratedMembers : UInt32
  canonicalPlanBytes : UInt32
  totalProposedValueBytes : UInt32
  readWitnesses : UInt32
  predicates : UInt32
  affectedCollections : UInt32
  activeRuleRevisions : UInt32
  constructionDeadline : Duration
  emittedViolations : UInt32
  deriving DecidableEq

namespace ResourceLimits

def builderDefaultsLocalHeap : ResourceLimits where
  callerMutations := 64
  totalGeneratedMembers := 4096
  canonicalPlanBytes := 512 * 1024
  totalProposedValueBytes := 4 * 1024 * 1024
  readWitnesses := 4096
  predicates := 1024
  affectedCollections := 16
  activeRuleRevisions := 1024
  constructionDeadline := .fromSecs 5
  emittedViolations := 1024

end ResourceLimits

end Residiuum.Atomics
