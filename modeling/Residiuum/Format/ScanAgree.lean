import Residiuum.Format.ScanReverse

/-!
# Agreement of the two scans

The forward scan goes by start magics and prefix lengths, the reverse scan by end magics and suffix
lengths. On a buffer whose frames do not overlap and whose suffixes hold no second end magic, both
report exactly the frames, so they agree whatever lies between.

* **`reverseStep_complete`**, **`scanReverse_verifiedFrames`**: the reverse scan loses no frame.
* **`scans_agree`**: both scans report the encoded frames between arbitrary garbage.
-/

namespace Residiuum

open ByteLib List LoopLib TileLib

/-! ## The reverse scan reports all frames -/

section Reverse

variable {R : Runtime} {limits : SafetyLimits} {bytes : Bytes}

theorem Verified.occurs_end {o : ℕ} {f : DecodedFrame} (hf : Verified R limits (bytes.drop o) f) :
    OccursAt END_MAGIC bytes (o + (f.frameLen.toNat - 56)) := by
  have hle := hf.le_frameLen
  have hmagic := hf.suffix_eq.1
  have h48 : f.frameLen.toNat - 48 = f.frameLen.toNat - 56 + END_MAGIC.length := by
    have : END_MAGIC.length = 8 := rfl
    omega
  rw [h48] at hmagic
  exact occursAt_drop.mp hmagic

variable (R limits bytes) in
/-- No end magic starts inside a frame's suffix, its own one apart. -/
def CleanSuffixes : Prop := ∀ o f, Verified R limits (bytes.drop o) f →
  ∀ s, o + f.frameLen.toNat < s + 56 → s < o + f.frameLen.toNat → ¬ OccursAt END_MAGIC bytes s

/-- A frame is left of the window end, or reported. -/
def ReverseComplete (R : Runtime) (limits : SafetyLimits) (bytes : Bytes) (e : ℕ)
    (rev : List ScanRegion) : Prop :=
  ∀ o f, Verified R limits (bytes.drop o) f → o + f.frameLen.toNat ≤ e ∨
    ∃ range, .verifiedFrame range f ∈ rev.reverse ∧ range.start = o

theorem reverseStep_complete {V : List (ℕ × DecodedFrame)} (hV : AllFrames R limits bytes V)
    (hclean : CleanSuffixes R limits bytes) {e e' : ℕ} {rev rev' : List ScanRegion}
    (h : ReverseComplete R limits bytes e rev)
    (hstep : reverseStep R bytes limits (e, rev) = .inl (e', rev')) :
    ReverseComplete R limits bytes e' rev' := by
  intro o f hf
  have hle := hf.le_frameLen
  have hocc := hf.occurs_end
  obtain ⟨s, -, hs, hcase⟩ := reverseStep_next hstep
  rcases h o f hf with hin | ⟨range, hmem, ho⟩
  · -- the frame's own end magic is not right of the last one
    have hos : o + (f.frameLen.toNat - 56) ≤ s := Nat.le_of_not_lt fun hlt =>
      hs.last _ hlt (by omega) hocc
    rcases hcase with ⟨g, hg, hrev⟩ | ⟨reason, rfl, hfail, hrev⟩
    · have hsuf := hg.suffix
      rcases Nat.lt_trichotomy o e' with hlt | rfl | hgt
      · exact .inl (hV.disjoint hf hg.verified hlt)
      · obtain rfl := hf.unique hg.verified
        refine .inr ⟨⟨o, s + 56⟩, ?_, rfl⟩
        rw [hrev, frameRegions]
        exact mem_append_left _ mem_cons_self
      · have := hV.disjoint hg.verified hf hgt
        omega
    · left
      by_contra hout
      have hne : o + f.frameLen.toNat ≠ e' + 56 := by
        intro heq
        exact hfail o f ⟨hf, heq, by omega⟩
      exact hclean o f hf e' (by omega) (by omega) hs.occurs
  · right
    refine ⟨range, ?_, ho⟩
    rcases hcase with ⟨g, -, hrev⟩ | ⟨reason, -, -, hrev⟩
    · rw [hrev]
      exact mem_append_right _ hmem
    · rw [hrev]
      exact mem_append_right _ hmem

theorem scanReverse_verifiedFrames {V : List (ℕ × DecodedFrame)} (hV : AllFrames R limits bytes V)
    (hclean : CleanSuffixes R limits bytes) : (scanReverse R bytes limits).verifiedFrames = V := by
  have hstart : Reaches (reverseStep R bytes limits) (bytes.length, []) (bytes.length, []) := .refl
  obtain ⟨e, rev, hr, hnone, hreport⟩ := reverseRegions_exit hstart
  have hinv := reverse_reaches_inv hr
  have hcomplete : ReverseComplete R limits bytes e rev :=
    hr.invariant (I := fun t => ReverseComplete R limits bytes t.1 t.2)
      (fun _ _ => reverseStep_complete hV hclean) fun o f hf => .inl hf.stop_le
  have hframes : (scanReverse R bytes limits).verifiedFrames =
      rev.reverse.filterMap ScanRegion.verified? := by
    rw [scanReverse_verified, hreport]
    split_ifs
    · rfl
    · rfl
  rw [hframes]
  refine eq_of_ascending (verified_ascending hinv.ordered.pairwise fun r hr =>
    (hinv.ordered.bounds r hr).2.1) hV.ascending ?_
  rintro ⟨o, f⟩
  rw [mem_verified, hV.mem_iff]
  constructor
  · rintro ⟨range, hmem, rfl⟩
    exact hinv.sound range f hmem
  · intro hf
    have hle := hf.le_frameLen
    rcases hcomplete o f hf with hin | h
    · exact absurd hf.occurs_end (hnone _ (by omega) (by omega))
    · exact h

end Reverse

theorem endMagic_no_overlap {l : Bytes} {i j : ℕ} (hi : OccursAt END_MAGIC l i)
    (hij : i < j) (hj : j < i + 8) : ¬ OccursAt END_MAGIC l j := by
  intro hocc
  have hfirst : l[j]? = some 0x52 := hocc.getElem? (j := 0) (by decide)
  have hk : j - i < 8 := by omega
  have hinner := hi.getElem? (j := j - i) hk
  rw [Nat.add_sub_cancel' hij.le, hfirst] at hinner
  have hall : ∀ k < 8, 0 < k → END_MAGIC[k]? ≠ some 0x52 := by decide
  exact hall (j - i) hk (by omega) hinner.symm

theorem endMagic_no_zero {l : Bytes} {i j : ℕ} (hi : OccursAt END_MAGIC l i) (hij : i ≤ j)
    (hj : j < i + 8) : l[j]? ≠ some 0 := by
  have hk : j - i < 8 := by omega
  have hinner := hi.getElem? (j := j - i) hk
  rw [Nat.add_sub_cancel' hij] at hinner
  rw [hinner]
  have hall : ∀ k < 8, END_MAGIC[k]? ≠ some 0 := by decide
  exact hall (j - i) hk

theorem frameImage_last (R : Runtime) (h : FrameHeader) (envelope body : Bytes) :
    ∃ init, frameImage R h envelope body = init ++ [0] := by
  refine ⟨encodePrefix R h envelope ++ (envelope ++ (body ++ ?_)), ?_⟩
  · exact ((suffixFields (UInt64.ofNat (declaredLen h)) (storedHash R body) (leBytes 4
      (suffixCrc R (UInt64.ofNat (declaredLen h)) (storedHash R body)).toNat)).take 4).flatten ++
      [0, 0, 0]
  · rw [frameImage, encodeSuffix_eq]
    simp [suffixFields]

theorem clean_block {init block rest : Bytes} {t : ℕ} (hlast : block = init ++ [0])
    (hlen : 56 ≤ block.length) (hown : OccursAt END_MAGIC (block ++ rest) (block.length - 56))
    (hsuffix : ∀ i, 8 ≤ i → ¬ OccursAt END_MAGIC (block.drop (block.length - 56)) i)
    (hlo : block.length < t + 56) (hhi : t < block.length) :
    ¬ OccursAt END_MAGIC (block ++ rest) t := by
  intro hocc
  have h8 : END_MAGIC.length = 8 := rfl
  rcases Nat.lt_or_ge t (block.length - 56 + 8) with hnear | hfar
  · exact endMagic_no_overlap hown (by omega) hnear hocc
  rcases Nat.lt_or_ge block.length (t + 8) with hout | hin
  · -- the magic would contain the last, reserved byte
    refine endMagic_no_zero hocc (j := block.length - 1) (by omega) (by omega) ?_
    rw [getElem?_append_left (by omega), hlast, length_append, length_singleton,
      Nat.add_sub_cancel, getElem?_concat_length]
  · have hblock : OccursAt END_MAGIC ((block ++ rest).take block.length) t :=
      (occursAt_take (by omega)).mpr hocc
    rw [take_left] at hblock
    have ht : t = block.length - 56 + (t - (block.length - 56)) := by omega
    rw [ht] at hblock
    exact hsuffix _ (by omega) (occursAt_drop.mpr hblock)

section Agree

variable {R : Runtime} {limits : SafetyLimits} {pieces : List (Piece UInt8 FrameParts)}
  {tail : Bytes} (hskip : R.diagnosticSkipBodyHash = false)
  (hframes : ∀ p ∈ pieces, encodeFrame R p.value = .ok p.block ∧
    limits.Accepts p.value.envelope.length p.value.body.length)

include hskip hframes

theorem allFrames_encoded
    (honly : ∀ o f, Verified R limits ((layout pieces tail).drop o) f →
      o ∈ (placed 0 pieces).map Prod.fst) :
    AllFrames R limits (layout pieces tail)
      ((placed 0 pieces).map fun x => (x.1, x.2.decoded R)) := by
  rw [← placed_map, ← layout_map (FrameParts.decoded R)]
  refine allFrames_layout ?_ fun o f hf => ?_
  · intro p hp
    obtain ⟨q, hq, rfl⟩ := mem_map.mp hp
    obtain ⟨hv, -, hlen⟩ := verify_encodeFrame hskip (hframes q hq).2 (hframes q hq).1 []
    rw [append_nil] at hv
    exact decodeFrame_eq_ok.mpr ⟨hv, hlen.symm⟩
  · rw [layout_map] at hf
    rw [placed_map, map_map]
    exact honly o f hf

theorem cleanSuffixes_encoded
    (hV : AllFrames R limits (layout pieces tail)
      ((placed 0 pieces).map fun x => (x.1, x.2.decoded R)))
    (hsuffix : ∀ p ∈ pieces, ∀ i, 8 ≤ i →
      ¬ OccursAt END_MAGIC (p.block.drop (p.block.length - 56)) i) :
    CleanSuffixes R limits (layout pieces tail) := by
  intro o f hf s hlo hhi hocc
  obtain ⟨⟨o', parts⟩, hx, heq⟩ := mem_map.mp ((hV.mem_iff o f).mpr hf)
  cases heq
  obtain ⟨p, hp, rfl, rest, hdrop⟩ :=
    placed_drop tail (show _ ∈ placed ([] : Bytes).length pieces from hx)
  obtain ⟨hv, hlen, hframe⟩ := verify_encodeFrame hskip (hframes p hp).2 (hframes p hp).1 rest
  obtain ⟨init, hlast⟩ := frameImage_last R p.value.header p.value.envelope p.value.body
  rw [← (encodeFrame_eq_ok.mp (hframes p hp).1).2] at hlast
  rw [nil_append] at hdrop
  rw [hframe] at hlo hhi
  have hown : OccursAt END_MAGIC (p.block ++ rest) (p.block.length - 56) := by
    rw [← hdrop, occursAt_drop, ← hframe]
    exact hf.occurs_end
  refine clean_block hlast (by omega) hown (hsuffix p hp) (t := s - o') ?_ ?_ ?_
  · omega
  · omega
  · rw [← hdrop, occursAt_drop, Nat.add_sub_cancel' (by omega)]
    exact hocc

end Agree

/-- **The two scans agree on frames between garbage.** -/
theorem scans_agree (R : Runtime) (hskip : R.diagnosticSkipBodyHash = false)
    (limits : SafetyLimits) (pieces : List (Piece UInt8 FrameParts)) (tail : Bytes)
    (hframes : ∀ p ∈ pieces, encodeFrame R p.value = .ok p.block ∧
      limits.Accepts p.value.envelope.length p.value.body.length)
    (honly : ∀ o f, verifyFrameAt R ((layout pieces tail).drop o) limits = .ok f →
      o ∈ (placed 0 pieces).map Prod.fst)
    (hsuffix : ∀ p ∈ pieces, ∀ i, 8 ≤ i →
      ¬ OccursAt END_MAGIC (p.block.drop (p.block.length - 56)) i) :
    (scanReverse R (layout pieces tail) limits).verifiedFrames =
      (scanForward R (layout pieces tail) limits).verifiedFrames ∧
    (scanForward R (layout pieces tail) limits).verifiedFrames =
      (placed 0 pieces).map fun x => (x.1, x.2.decoded R) := by
  simp only [verifyFrameAt_eq_ok] at honly
  have hV := allFrames_encoded hskip hframes honly
  rw [scanReverse_verifiedFrames hV (cleanSuffixes_encoded hskip hframes hV hsuffix),
    scanForward_verifiedFrames hV]
  exact ⟨rfl, rfl⟩

/-- The small frame between an end magic and a start magic. -/
theorem scans_agree_sample :
    (scanReverse productRuntime (END_MAGIC ++ (sampleBlock ++ START_MAGIC))
        .draftDefaults).verifiedFrames =
      [(8, sampleParts.decoded productRuntime)] := by
  have h8 : END_MAGIC.length = 8 := rfl
  have hlen : sampleBlock.length = 129 := length_frameImage _ _ _ _
  have htotal : (END_MAGIC ++ (sampleBlock ++ START_MAGIC)).length = 145 := by
    simp only [length_append, hlen]
    rfl
  have hstart : ∀ o < 26,
      OccursAt START_MAGIC (END_MAGIC ++ (sampleBlock ++ START_MAGIC)) o → o = 8 := by
    decide +kernel
  have hsuf : ∀ i < 49, 8 ≤ i → ¬ OccursAt END_MAGIC (sampleBlock.drop 73) i := by decide +kernel
  have hagree := scans_agree productRuntime rfl .draftDefaults
    [⟨END_MAGIC, sampleBlock, sampleParts⟩] START_MAGIC
    (by simpa using ⟨sampleBlock_encoded, sampleParts_accepted⟩)
    (fun o f hf => by
      have hf : Verified productRuntime .draftDefaults
          ((END_MAGIC ++ (sampleBlock ++ START_MAGIC)).drop o) f := verifyFrameAt_eq_ok.mp hf
      have hstop := hf.stop_le
      have hle := hf.le_frameLen
      rw [hstart o (by omega) hf.occurs_start]
      exact mem_singleton.mpr rfl)
    (by
      simp only [mem_singleton, forall_eq, hlen]
      intro i hi hocc
      have hle := hocc.le (by decide)
      rw [length_drop, hlen] at hle
      exact hsuf i (by omega) hi hocc)
  exact hagree.1.trans hagree.2

end Residiuum
