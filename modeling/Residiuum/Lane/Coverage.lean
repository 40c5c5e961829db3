import Mathlib.Data.List.Induction
import Residiuum.Format.ScanForward

/-!
# Coverage of a recovered lane log

`recover.rs` scans the tail of a log and refuses a hole before the acknowledged length or before the
last verified frame. Offsets in the file are natural numbers: the source adds them in 64 bits, which
agrees as long as `base + image.length < 2 ^ 64`.

* **`accepted_log_covered`**: an accepted log has no gap.
-/

namespace Residiuum.Lane

open List TileLib

/-- A hole and its reason. -/
structure CoverageError where
  start : ℕ
  stop : ℕ
  reason : String
  deriving DecidableEq

def holeReasonLabel : HoleReason → String
  | .unclassifiedGarbage => "unclassified garbage in coverage"
  | .corruptCandidate _ _ => "corrupt candidate in coverage"
  | .damagedCandidate _ _ => "damaged candidate in coverage"

def lastVerifiedEnd (regions : List ScanRegion) (base : ℕ) : ℕ :=
  (regions.reverse.findSome? fun
    | .verifiedFrame range _ => some (base + range.stop)
    | .hole _ _ => none).getD base

/-- `refuse_coverage_damage`: the image that was scanned starts at `base` in the file. -/
def refuseCoverageDamage (report : ScanReport) (ackLen base fileEnd : ℕ) :
    Except CoverageError Unit :=
  if fileEnd < ackLen then .error ⟨fileEnd, ackLen, "acknowledged prefix truncated"⟩
  else
    let coveredEnd := max ackLen (lastVerifiedEnd report.regions base)
    match report.regions.findSome? fun
      | .hole range reason =>
        if base + range.start < coveredEnd then
          some (CoverageError.mk (base + range.start) (base + range.stop) (holeReasonLabel reason))
        else none
      | .verifiedFrame _ _ => none with
    | some err => .error err
    | none => .ok ()

theorem le_lastVerifiedEnd {regions : List ScanRegion} {base a b : ℕ}
    (h : RegionTiles a b regions) {range : ByteRange} {f : DecodedFrame}
    (hmem : .verifiedFrame range f ∈ regions) :
    base + range.stop ≤ lastVerifiedEnd regions base := by
  induction regions using List.reverseRecOn generalizing b with
  | nil => cases hmem
  | append_singleton regions r ih =>
    obtain ⟨hinit, hlast, -⟩ := tiles_snoc h
    rw [lastVerifiedEnd, reverse_append, reverse_singleton, singleton_append, findSome?_cons]
    rcases mem_append.mp hmem with hold | hnew
    · have hstop := (hinit.bounds hold).2.2
      cases r with
      | verifiedFrame last g =>
        have : range.stop ≤ last.start := hstop
        have : last.start < last.stop := hlast
        dsimp
        omega
      | hole last reason => exact ih hinit hold
    · rw [← mem_singleton.mp hnew]
      exact Nat.le_refl _

/-- **Accepted logs have no gap**: every byte from the base to the acknowledged length, and to the
end of any verified frame, lies in a verified frame. -/
theorem accepted_log_covered (R : Runtime) (image : List UInt8) (limits : SafetyLimits)
    (base ackLen : ℕ) (h : refuseCoverageDamage (scanForward R image limits) ackLen base
      (base + image.length) = .ok ()) :
    ackLen ≤ base + image.length ∧ ∀ x, base ≤ x →
      (x < ackLen ∨ ∃ range f, .verifiedFrame range f ∈ (scanForward R image limits).regions ∧
        x < base + range.stop) →
      ∃ (range : ByteRange) (f : DecodedFrame),
        verifyFrameAt R (image.drop range.start) limits = .ok f ∧
          range.stop = range.start + f.frameLen.toNat ∧ base + range.start ≤ x ∧
            x < base + range.stop := by
  have hinv := scanForward_inv R limits image
  unfold refuseCoverageDamage at h
  split_ifs at h with hack
  dsimp only at h
  split at h
  · cases h
  rename_i hnone
  refine ⟨Nat.le_of_not_lt hack, fun x hx hcovered => ?_⟩
  have hlast : x < max ackLen (lastVerifiedEnd (scanForward R image limits).regions base) := by
    rcases hcovered with hlt | ⟨range, f, hmem, hlt⟩
    · exact lt_max_of_lt_left hlt
    · exact lt_max_of_lt_right (hlt.trans_le (le_lastVerifiedEnd hinv.tiles hmem))
  have hend : x < base + image.length := by
    rcases hcovered with hlt | ⟨range, f, hmem, hlt⟩
    · omega
    · have : range.stop ≤ image.length := (hinv.tiles.bounds hmem).2.2
      omega
  -- The region that holds `x` is not a hole, which would start before the covered end.
  obtain ⟨r, hr, hlo, hhi⟩ := hinv.tiles.exists_covers (Nat.zero_le (x - base)) (by omega)
  cases r with
  | hole range reason =>
    have := findSome?_eq_none_iff.mp hnone _ hr
    have hlo : range.start ≤ x - base := hlo
    simp only [ite_eq_right_iff, reduceCtorEq, imp_false] at this
    omega
  | verifiedFrame range f =>
    have hlo : range.start ≤ x - base := hlo
    have hhi : x - base < range.stop := hhi
    obtain ⟨hframe, hstop⟩ := hinv.sound range f hr
    exact ⟨range, f, verifyFrameAt_eq_ok.mpr hframe, hstop, by omega, by omega⟩

/-- One frame, acknowledged as a whole, at offset 7 of its file. -/
theorem accepted_log_covered_sample : ∃ (range : ByteRange) (f : DecodedFrame),
    verifyFrameAt productRuntime (sampleBlock.drop range.start) .draftDefaults = .ok f ∧
      range.stop = range.start + f.frameLen.toNat ∧ 7 + range.start ≤ 8 ∧ 8 < 7 + range.stop := by
  have hdecode : ∀ b ∈ [(sampleBlock, sampleParts.decoded productRuntime)],
      decodeFrame productRuntime b.1 .draftDefaults = .ok b.2 := by
    simpa using decodeFrame_encodeFrame rfl sampleParts_accepted sampleBlock_encoded
  have hscan : (scanForward productRuntime sampleBlock .draftDefaults).regions =
      [.verifiedFrame ⟨0, sampleBlock.length⟩ (sampleParts.decoded productRuntime)] := by
    simpa [regionsFrom] using scanForward_blocks hdecode
  refine (accepted_log_covered productRuntime sampleBlock .draftDefaults 7 (7 + sampleBlock.length)
    ?_).2 8 (by decide) (.inl ?_)
  · simp [refuseCoverageDamage, hscan]
  · decide +kernel

end Residiuum.Lane
