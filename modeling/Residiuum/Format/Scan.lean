import Residiuum.Format.FrameCodec
import Residiuum.Lib.Loop
import Residiuum.Lib.Search
import Residiuum.Lib.Tiling

/-!
# Salvage scanning: the two scanners

Both scanners are loops over a position and the regions found so far. `forwardStep` and
`reverseStep` are the loop bodies; `forwardStep_cases` and `reverseStep_cases` say once what an
iteration can do.

Offsets are natural numbers: a buffer is shorter than `2 ^ 63` bytes, so neither `usize` nor `u64`
offsets wrap.
-/

namespace Residiuum

open ByteLib List LoopLib

/-! ## Reports -/

/-- A range of offsets. -/
structure ByteRange where
  start : ℕ
  stop : ℕ
  deriving DecidableEq, Repr

/-- Why a non-verified region exists. -/
inductive HoleReason where
  | unclassifiedGarbage
  | corruptCandidate (candidateOffset : ℕ) (error : FrameVerifyError)
  | damagedCandidate (candidateOffset : ℕ) (error : FrameVerifyError)
  deriving DecidableEq, Repr

/-- A frame or a hole. -/
inductive ScanRegion where
  | verifiedFrame (range : ByteRange) (frame : DecodedFrame)
  | hole (range : ByteRange) (reason : HoleReason)
  deriving DecidableEq, Repr

def ScanRegion.range : ScanRegion → ByteRange
  | .verifiedFrame range _ => range
  | .hole range _ => range

/-- What a scan reports. -/
structure ScanReport where
  sourceLen : ℕ
  limits : SafetyLimits
  regions : List ScanRegion
  deriving DecidableEq, Repr

def ScanRegion.verified? : ScanRegion → Option (ℕ × DecodedFrame)
  | .verifiedFrame range frame => some (range.start, frame)
  | .hole _ _ => none

def ScanReport.verifiedFrames (report : ScanReport) : List (ℕ × DecodedFrame) :=
  report.regions.filterMap ScanRegion.verified?

def garbage (start stop : ℕ) : ScanRegion := .hole ⟨start, stop⟩ .unclassifiedGarbage

/-- Damage after plausible lengths, or corruption before. -/
def classifyFailure (candidateOffset : ℕ) (error : FrameVerifyError) : HoleReason :=
  match error with
  | .badBodyHash | .badEndMagic | .badSuffixCrc | .frameLenMismatch _ _ | .truncated _ _ =>
    .damagedCandidate candidateOffset error
  | other => .corruptCandidate candidateOffset other

/-! ## Searching the magics -/

def findStartMagic (haystack : Bytes) (start : ℕ) : Option ℕ :=
  if start ≥ haystack.length ∨ haystack.length - start < START_MAGIC.length then none
  else
    (position (· == START_MAGIC) (windows START_MAGIC.length (haystack.drop start))).map (start + ·)

/-- The rightmost end magic inside the first `exclusiveEnd` bytes. -/
def findEndMagicRightmost (haystack : Bytes) (exclusiveEnd : ℕ) : Option ℕ :=
  if exclusiveEnd < END_MAGIC.length ∨ haystack = [] then none
  else
    let stop := min exclusiveEnd haystack.length
    if stop < END_MAGIC.length then none
    else rposition (· == END_MAGIC) (windows END_MAGIC.length (haystack.take stop))

variable {bytes : Bytes} {q : ℕ}

theorem findStartMagic_eq_some {p : ℕ} (h : findStartMagic bytes p = some q) :
    p ≤ q ∧ OccursAt START_MAGIC bytes q ∧
      ∀ o, p ≤ o → o < q → ¬ OccursAt START_MAGIC bytes o := by
  rw [findStartMagic] at h
  split_ifs at h
  obtain ⟨i, hi, rfl⟩ := Option.map_eq_some_iff.mp h
  obtain ⟨hocc, hbefore⟩ := position_windows_eq_some hi
  refine ⟨Nat.le_add_right _ _, occursAt_drop.mp hocc, fun o hp ho hocc' => ?_⟩
  obtain ⟨j, rfl⟩ := Nat.exists_eq_add_of_le hp
  exact hbefore j (by omega) (occursAt_drop.mpr hocc')

variable {o e s : ℕ} {f : DecodedFrame} {n : UInt64}

theorem findStartMagic_eq_none {p : ℕ} (h : findStartMagic bytes p = none)
    (hp : p ≤ o) : ¬ OccursAt START_MAGIC bytes o := by
  intro hocc
  have hle := hocc.le (by decide)
  rw [findStartMagic] at h
  split_ifs at h with hshort
  · have : 0 < START_MAGIC.length := by decide
    omega
  · obtain ⟨j, rfl⟩ := Nat.exists_eq_add_of_le hp
    exact position_windows_eq_none (by decide) (Option.map_eq_none_iff.mp h) j
      (occursAt_drop.mpr hocc)

/-- `s` is the last end magic inside the first `e` bytes. -/
structure LastEndMagic (bytes : Bytes) (e s : ℕ) : Prop where
  le : s + 8 ≤ e
  occurs : OccursAt END_MAGIC bytes s
  last : ∀ o, s < o → o + 8 ≤ e → ¬ OccursAt END_MAGIC bytes o

theorem findEndMagicRightmost_eq_some
    (h : findEndMagicRightmost bytes e = some s) : LastEndMagic bytes e s := by
  have h8 : END_MAGIC.length = 8 := rfl
  simp only [findEndMagicRightmost] at h
  split_ifs at h
  obtain ⟨hocc, hafter⟩ := rposition_windows_eq_some (by decide) h
  have hle := hocc.le (by decide)
  rw [length_take] at hle
  refine ⟨by omega, (occursAt_take (by omega)).mp hocc, fun o ho hoe hocc' => ?_⟩
  have hole := hocc'.le (by decide)
  exact hafter o ho ((occursAt_take (by omega)).mpr hocc')

theorem findEndMagicRightmost_eq_none (h : findEndMagicRightmost bytes e = none) (ho : o + 8 ≤ e) :
    ¬ OccursAt END_MAGIC bytes o := by
  intro hocc
  have h8 : END_MAGIC.length = 8 := rfl
  have hle := hocc.le (by decide)
  simp only [findEndMagicRightmost] at h
  split_ifs at h with h1 h2
  · rcases h1 with h1 | h1
    · omega
    · rw [h1, length_nil] at hle
      omega
  · omega
  · exact rposition_windows_eq_none (by decide) h o ((occursAt_take (by omega)).mpr hocc)

/-! ## The forward scanner -/

/-- Report `[start, stop)` as garbage, extending an adjacent garbage region. -/
def pushGarbage (regions : List ScanRegion) (start stop : ℕ) : List ScanRegion :=
  if start ≥ stop then regions
  else
    match regions.getLast? with
    | some (.hole range .unclassifiedGarbage) =>
      if range.stop = start then regions.dropLast ++ [garbage range.start stop]
      else regions ++ [garbage start stop]
    | _ => regions ++ [garbage start stop]

def tryCandidate (R : Runtime) (bytes : Bytes) (offset : ℕ) (limits : SafetyLimits) :
    Except FrameVerifyError (DecodedFrame × UInt64) := do
  let frame ← verifyFrameAt R (bytes.drop offset) limits
  return (frame, frame.frameLen)

/-- The loop body of `scan_forward`, on the position and the regions so far. -/
def forwardStep (R : Runtime) (bytes : Bytes) (limits : SafetyLimits) :
    ℕ × List ScanRegion → (ℕ × List ScanRegion) ⊕ List ScanRegion
  | (p, regions) =>
    if p + FRAME_PREFIX_LEN ≤ bytes.length then
      match findStartMagic bytes p with
      | none => .inr (if p < bytes.length then pushGarbage regions p bytes.length else regions)
      | some q =>
        let regions := if q > p then pushGarbage regions p q else regions
        match tryCandidate R bytes q limits with
        | .ok (frame, frameLen) =>
          let stop := q + frameLen.toNat
          .inl (stop, regions ++ [.verifiedFrame ⟨q, stop⟩ frame])
        | .error error =>
          .inl (q + 1, regions ++ [.hole ⟨q, q + 1⟩ (classifyFailure q error)])
    else .inr (if p < bytes.length then pushGarbage regions p bytes.length else regions)

section Forward

variable {R : Runtime} {bytes : Bytes} {limits : SafetyLimits}

theorem tryCandidate_eq_ok {frame : DecodedFrame} : tryCandidate R bytes q limits = .ok (frame, n) ↔
      Verified R limits (bytes.drop q) frame ∧ n = frame.frameLen := by
  rw [tryCandidate, bind_eq_ok]
  simp only [verifyFrameAt_eq_ok]
  constructor
  · rintro ⟨f, hf, h⟩
    cases h
    exact ⟨hf, rfl⟩
  · rintro ⟨hf, rfl⟩
    exact ⟨frame, hf, rfl⟩

theorem pushGarbage_self (regions : List ScanRegion) (p q : ℕ) :
    (if q > p then pushGarbage regions p q else regions) = pushGarbage regions p q := by
  split_ifs with h
  · rfl
  · rw [pushGarbage, if_pos (by omega)]

variable (R bytes limits) in
theorem forwardStep_cases (p : ℕ) (regions : List ScanRegion) :
    (forwardStep R bytes limits (p, regions) = .inr (pushGarbage regions p bytes.length) ∧
      ∀ o, p ≤ o → o + FRAME_PREFIX_LEN ≤ bytes.length → ¬ OccursAt START_MAGIC bytes o) ∨
    ∃ q, p ≤ q ∧ q + START_MAGIC.length ≤ bytes.length ∧
      (∀ o, p ≤ o → o < q → ¬ OccursAt START_MAGIC bytes o) ∧
      ((∃ frame, Verified R limits (bytes.drop q) frame ∧
        forwardStep R bytes limits (p, regions) = .inl (q + frame.frameLen.toNat,
          pushGarbage regions p q ++ [.verifiedFrame ⟨q, q + frame.frameLen.toNat⟩ frame])) ∨
      ∃ error, (∀ frame, ¬ Verified R limits (bytes.drop q) frame) ∧
        forwardStep R bytes limits (p, regions) = .inl (q + 1,
          pushGarbage regions p q ++ [.hole ⟨q, q + 1⟩ (classifyFailure q error)])) := by
  simp only [forwardStep, pushGarbage_self]
  split_ifs with hp
  · cases hq : findStartMagic bytes p with
    | none => exact .inl ⟨rfl, fun o ho _ => findStartMagic_eq_none hq ho⟩
    | some q =>
      obtain ⟨hpq, hocc, hbefore⟩ := findStartMagic_eq_some hq
      refine .inr ⟨q, hpq, hocc.le (by decide), hbefore, ?_⟩
      dsimp only
      cases hc : tryCandidate R bytes q limits with
      | ok r =>
        obtain ⟨f, n⟩ := r
        obtain ⟨hf, rfl⟩ := tryCandidate_eq_ok.mp hc
        exact .inl ⟨f, hf, rfl⟩
      | error error =>
        refine .inr ⟨error, fun f hf => ?_, rfl⟩
        rw [tryCandidate_eq_ok.mpr ⟨hf, rfl⟩] at hc
        cases hc
  · exact .inl ⟨rfl, fun o ho hlen => absurd hlen (by omega)⟩

theorem forwardStep_decreases :
    Decreases (forwardStep R bytes limits) fun s => bytes.length - s.1 := by
  rintro ⟨p, regions⟩ s' h
  rcases forwardStep_cases R bytes limits p regions with
    ⟨h', -⟩ | ⟨q, hpq, hq, -, ⟨f, hf, h'⟩ | ⟨_, -, h'⟩⟩
  · cases h'.symm.trans h
  · cases h'.symm.trans h
    have hle := hf.le_frameLen
    have hfits := hf.fits
    rw [length_drop] at hfits
    dsimp only
    omega
  · cases h'.symm.trans h
    have : START_MAGIC.length = 8 := rfl
    dsimp only
    omega

end Forward

def scanForward (R : Runtime) (bytes : Bytes) (limits : SafetyLimits) : ScanReport where
  sourceLen := bytes.length
  limits := limits
  regions := loop (forwardStep R bytes limits) _ forwardStep_decreases (0, [])

/-! ## The reverse scanner -/

/-- Verify the candidate whose suffix starts at `endMagicOff`, inside the first `exclusiveEnd`
bytes. -/
def tryReverseCandidate (R : Runtime) (bytes : Bytes) (endMagicOff exclusiveEnd : ℕ)
    (limits : SafetyLimits) : Except FrameVerifyError (DecodedFrame × ℕ × UInt64) :=
  if endMagicOff + FRAME_SUFFIX_LEN > exclusiveEnd ∨
      endMagicOff + FRAME_SUFFIX_LEN > bytes.length then
    throw (.truncated (endMagicOff + FRAME_SUFFIX_LEN) (min exclusiveEnd bytes.length))
  else
    let suf := slice bytes endMagicOff (endMagicOff + FRAME_SUFFIX_LEN)
    if slice suf 0 8 ≠ END_MAGIC then throw .badEndMagic
    else
      let claimedFrameLen := UInt64.ofNat (ofLe (slice suf 8 16))
      if claimedFrameLen.toNat < FRAME_PREFIX_LEN + FRAME_SUFFIX_LEN then throw .lengthsOutOfLimits
      else if claimedFrameLen.toNat > exclusiveEnd then
        throw (.truncated claimedFrameLen.toNat exclusiveEnd)
      else
        let frameEnd := endMagicOff + FRAME_SUFFIX_LEN
        if frameEnd < claimedFrameLen.toNat then throw (.truncated claimedFrameLen.toNat frameEnd)
        else
          let start := frameEnd - claimedFrameLen.toNat
          if start + claimedFrameLen.toNat > exclusiveEnd then
            throw (.truncated (start + claimedFrameLen.toNat) exclusiveEnd)
          else do
            let frame ← verifyFrameAt R (slice bytes start (start + claimedFrameLen.toNat)) limits
            if frame.frameLen ≠ claimedFrameLen then
              throw (.frameLenMismatch claimedFrameLen frame.frameLen)
            else return (frame, start, frame.frameLen)

/-- The loop body of `scan_reverse`, on the window end and the regions so far, right to left. -/
def reverseStep (R : Runtime) (bytes : Bytes) (limits : SafetyLimits) :
    ℕ × List ScanRegion → (ℕ × List ScanRegion) ⊕ (ℕ × List ScanRegion)
  | (e, regionsRev) =>
    if FRAME_SUFFIX_LEN ≤ e then
      match findEndMagicRightmost bytes e with
      | none => .inr (e, if e > 0 then regionsRev ++ [garbage 0 e] else regionsRev)
      | some s =>
        match tryReverseCandidate R bytes s e limits with
        | .ok (frame, start, frameLen) =>
          let frameEnd := start + frameLen.toNat
          let regionsRev :=
            if frameEnd < e then regionsRev ++ [garbage frameEnd e] else regionsRev
          .inl (start, regionsRev ++ [.verifiedFrame ⟨start, frameEnd⟩ frame])
        | .error error =>
          let regionsRev :=
            if s + END_MAGIC.length < e then regionsRev ++ [garbage (s + 1) e] else regionsRev
          .inl (s, regionsRev ++ [.hole ⟨s, s + 1⟩ (classifyFailure s error)])
    else .inr (e, regionsRev)

/-- A frame verifies at `o`, and its suffix starts at `s` inside the first `e` bytes. -/
structure FrameEnding (R : Runtime) (limits : SafetyLimits) (bytes : Bytes) (e s o : ℕ)
    (f : DecodedFrame) : Prop where
  verified : Verified R limits (bytes.drop o) f
  suffix : o + f.frameLen.toNat = s + 56
  inside : s + 56 ≤ e

section Reverse

variable {R : Runtime} {bytes : Bytes} {limits : SafetyLimits} {start : ℕ}

theorem Verified.suffix_at
    (hf : Verified R limits (bytes.drop start) f) (hs : start + f.frameLen.toNat = s + 56) :
    slice (slice bytes s (s + 56)) 0 8 = END_MAGIC ∧
      UInt64.ofNat (ofLe (slice (slice bytes s (s + 56)) 8 16)) = f.frameLen := by
  have hle := hf.le_frameLen
  obtain ⟨hmagic, hlen⟩ := hf.suffix_eq
  have h0 : start + (f.frameLen.toNat - 56) = s := by omega
  have h8 : start + (f.frameLen.toNat - 48) = s + 8 := by omega
  have h16 : start + (f.frameLen.toNat - 40) = s + 16 := by omega
  rw [slice_drop, h0, h8] at hmagic
  rw [slice_drop, h8, h16] at hlen
  rw [slice_slice _ _ _ _ _ (by omega), slice_slice _ _ _ _ _ (by omega)]
  exact ⟨hmagic, hlen⟩

theorem verified_slice : Verified R limits (slice bytes start (start + f.frameLen.toNat)) f ↔
      Verified R limits (bytes.drop start) f := by
  rw [slice, Nat.add_sub_cancel_left]
  refine ⟨fun h => h.congr ?_, fun h => h.congr ?_⟩
  all_goals rw [take_take, Nat.min_self]

/-- **A reverse candidate succeeds exactly on a verified frame that ends with its suffix.** -/
theorem tryReverseCandidate_eq_ok : tryReverseCandidate R bytes s e limits = .ok (f, o, n) ↔
      FrameEnding R limits bytes e s o f ∧ n = f.frameLen := by
  simp only [tryReverseCandidate, ite_throw_eq_ok, bind_eq_ok, verifyFrameAt_eq_ok, not_or,
    not_lt, not_not, gt_iff_lt]
  simp only [FRAME_SUFFIX_LEN, FRAME_PREFIX_LEN]
  constructor
  · rintro ⟨⟨hse, -⟩, -, -, -, hclaim, -, g, hg, hlen, hret⟩
    obtain ⟨rfl, h2⟩ := Prod.mk.inj (Except.ok.inj hret)
    cases h2
    rw [← hlen] at hclaim hg ⊢
    exact ⟨⟨verified_slice.mp hg, by omega, hse⟩, rfl⟩
  · rintro ⟨⟨hf, hend, hse⟩, rfl⟩
    obtain ⟨hmagic, hclaim⟩ := hf.suffix_at hend
    have hle := hf.le_frameLen
    have hfits := hf.fits
    have hstart : s + 56 - f.frameLen.toNat = o := by omega
    rw [length_drop] at hfits
    rw [hclaim, hstart]
    exact ⟨⟨hse, by omega⟩, hmagic, by omega, by omega, by omega, by omega, f,
      verified_slice.mpr hf, rfl, rfl⟩

variable (R bytes limits) in
theorem reverseStep_cases (e : ℕ) (regionsRev : List ScanRegion) :
    (reverseStep R bytes limits (e, regionsRev) = .inr (e, regionsRev) ∧ e < 56) ∨
    (reverseStep R bytes limits (e, regionsRev) = .inr (e, regionsRev ++ [garbage 0 e]) ∧ 56 ≤ e ∧
      ∀ o, o + 8 ≤ e → ¬ OccursAt END_MAGIC bytes o) ∨
    ∃ s, 56 ≤ e ∧ LastEndMagic bytes e s ∧
      ((∃ o f, FrameEnding R limits bytes e s o f ∧
        reverseStep R bytes limits (e, regionsRev) = .inl (o,
          (if s + 56 < e then regionsRev ++ [garbage (s + 56) e] else regionsRev) ++
            [.verifiedFrame ⟨o, s + 56⟩ f])) ∨
      ∃ error, (∀ o f, ¬ FrameEnding R limits bytes e s o f) ∧
        reverseStep R bytes limits (e, regionsRev) = .inl (s,
          (if s + 8 < e then regionsRev ++ [garbage (s + 1) e] else regionsRev) ++
            [.hole ⟨s, s + 1⟩ (classifyFailure s error)])) := by
  have h8 : END_MAGIC.length = 8 := rfl
  simp only [reverseStep, FRAME_SUFFIX_LEN, h8]
  by_cases he : 56 ≤ e
  · right
    rw [if_pos he]
    cases hs : findEndMagicRightmost bytes e with
    | none =>
      exact .inl ⟨by simp only [if_pos (show e > 0 by omega)], he,
        fun o ho => findEndMagicRightmost_eq_none hs ho⟩
    | some s =>
      refine .inr ⟨s, he, findEndMagicRightmost_eq_some hs, ?_⟩
      dsimp only
      cases hc : tryReverseCandidate R bytes s e limits with
      | ok r =>
        obtain ⟨f, o, n⟩ := r
        obtain ⟨hf, rfl⟩ := tryReverseCandidate_eq_ok.mp hc
        exact .inl ⟨o, f, hf, by simp [hf.suffix]⟩
      | error error =>
        refine .inr ⟨error, fun o f hf => ?_, rfl⟩
        rw [tryReverseCandidate_eq_ok.mpr ⟨hf, rfl⟩] at hc
        cases hc
  · exact .inl ⟨if_neg he, Nat.lt_of_not_le he⟩

theorem FrameEnding.lt (h : FrameEnding R limits bytes e s o f) : o + 64 ≤ s := by
  have := h.verified.le_frameLen
  have := h.suffix
  omega

theorem reverseStep_decreases : Decreases (reverseStep R bytes limits) fun s => s.1 := by
  rintro ⟨e, regionsRev⟩ s' h
  rcases reverseStep_cases R bytes limits e regionsRev with
    ⟨h', -⟩ | ⟨h', -⟩ | ⟨s, -, hs, ⟨o, f, hf, h'⟩ | ⟨_, -, h'⟩⟩
  · cases h'.symm.trans h
  · cases h'.symm.trans h
  · cases h'.symm.trans h
    have := hf.lt
    have := hf.inside
    dsimp only
    omega
  · cases h'.symm.trans h
    have := hs.le
    dsimp only
    omega

end Reverse

def coalesceStep (out : List ScanRegion) (region : ScanRegion) : List ScanRegion :=
  match out.getLast?, region with
  | some (.hole range .unclassifiedGarbage), .hole r2 .unclassifiedGarbage =>
    if range.stop = r2.start then out.dropLast ++ [garbage range.start r2.stop]
    else out ++ [region]
  | _, _ => out ++ [region]

def coalesceAdjacentGarbage (regions : List ScanRegion) : List ScanRegion :=
  if regions.length < 2 then regions else regions.foldl coalesceStep []

/-- The regions of the reverse loop, right to left, with the residual head. -/
def reverseRegions (R : Runtime) (bytes : Bytes) (limits : SafetyLimits) : List ScanRegion :=
  let (e, regionsRev) :=
    loop (reverseStep R bytes limits) _ reverseStep_decreases (bytes.length, [])
  if 0 < e ∧ e < FRAME_SUFFIX_LEN then regionsRev ++ [garbage 0 e] else regionsRev

/-- Reverse salvage scan; regions are returned in forward order. -/
def scanReverse (R : Runtime) (bytes : Bytes) (limits : SafetyLimits) : ScanReport where
  sourceLen := bytes.length
  limits := limits
  regions := coalesceAdjacentGarbage (reverseRegions R bytes limits).reverse

end Residiuum
