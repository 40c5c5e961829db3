import Residiuum.Format.Scan
import Residiuum.Lib.Layout

/-!
# The forward scan: soundness and completeness

At every position the regions found so far tile the bytes passed, every reported frame verifies at
its offset, and every verifying offset passed is reported or lies inside a reported frame. Failed
candidates advance by one byte only, so no offset is passed unchecked.

* **`forwardStep_inv`**, **`scanForward_inv`**: one iteration and the whole scan.
* **`scanForward_verifiedFrames`**: all frames are reported, when they do not overlap.
* **`scanForward_blocks`**: frames end to end are reported frame by frame; frames inside a body are
  passed over.
* **`scanForward_salvages`**: the report tiles the buffer, is sound and is complete.
-/

namespace Residiuum

open ByteLib List LoopLib Nat ScanRegion TileLib

/-! ## Verified offsets -/

variable {V : List (ℕ × DecodedFrame)} {f : DecodedFrame} {regions : List ScanRegion} {o : ℕ}

section Offsets

variable {R : Runtime} {limits : SafetyLimits} {bytes : Bytes} {o : ℕ} {f : DecodedFrame}

theorem Verified.occurs_start (hf : Verified R limits (bytes.drop o) f) :
    OccursAt START_MAGIC bytes o := by
  have h : OccursAt START_MAGIC (bytes.drop o) 0 := hf.start_magic
  exact occursAt_drop.mp h

theorem Verified.stop_le (hf : Verified R limits (bytes.drop o) f) :
    o + f.frameLen.toNat ≤ bytes.length := by
  have hfits := hf.fits
  have hle := hf.le_frameLen
  rw [length_drop] at hfits
  omega

/-- `V` lists every verifying offset with its frame, and the frames do not overlap. -/
structure AllFrames (R : Runtime) (limits : SafetyLimits) (bytes : Bytes)
    (V : List (ℕ × DecodedFrame)) : Prop where
  mem_iff : ∀ o f, (o, f) ∈ V ↔ Verified R limits (bytes.drop o) f
  apart : V.Pairwise fun x y => x.1 + x.2.frameLen.toNat ≤ y.1

theorem allFrames_layout {pieces : List (Piece UInt8 DecodedFrame)} {tail : Bytes}
    (hdecode : ∀ p ∈ pieces, decodeFrame R p.block limits = .ok p.value)
    (honly : ∀ o f, Verified R limits ((layout pieces tail).drop o) f →
      o ∈ (placed 0 pieces).map Prod.fst) :
    AllFrames R limits (layout pieces tail) (placed 0 pieces) := by
  have hmem : ∀ o f, (o, f) ∈ placed 0 pieces →
      Verified R limits ((layout pieces tail).drop o) f := by
    intro o f h
    obtain ⟨p, hp, rfl, rest, hdrop⟩ :=
      placed_drop tail (show (o, f) ∈ placed ([] : Bytes).length pieces from h)
    obtain ⟨hv, hlen⟩ := decodeFrame_eq_ok.mp (hdecode p hp)
    rw [nil_append] at hdrop
    refine hv.congr ?_
    rw [hdrop, ← hlen, take_left, take_length]
  refine ⟨fun o f => ⟨hmem o f, fun hv => ?_⟩,
    placed_pairwise (fun f => f.frameLen.toNat) fun p hp =>
    (decodeFrame_eq_ok.mp (hdecode p hp)).2⟩
  obtain ⟨⟨o', g⟩, hx, rfl⟩ := mem_map.mp (honly o f hv)
  rw [hv.unique (hmem _ _ hx)]
  exact hx

theorem AllFrames.ascending (hV : AllFrames R limits bytes V) :
    V.Pairwise fun x y => x.1 < y.1 := by
  refine hV.apart.imp_of_mem fun {x y} hx _ h => ?_
  have := ((hV.mem_iff x.1 x.2).mp hx).le_frameLen
  omega

theorem AllFrames.disjoint (hV : AllFrames R limits bytes V) {o' : ℕ}
    {g : DecodedFrame} (hf : Verified R limits (bytes.drop o) f)
    (hg : Verified R limits (bytes.drop o') g) (hlt : o < o') : o + f.frameLen.toNat ≤ o' :=
  apart_of_lt (fun f => f.frameLen.toNat) hV.apart ((hV.mem_iff o f).mpr hf)
    ((hV.mem_iff o' g).mpr hg) hlt

end Offsets

abbrev RegionTiles (a b : ℕ) (regions : List ScanRegion) : Prop :=
  Tiles (fun r : ScanRegion => r.range.start) (fun r => r.range.stop) a b regions

theorem pushGarbage_cases (regions : List ScanRegion) (p q : ℕ) :
    pushGarbage regions p q = regions ∧ q ≤ p ∨
    pushGarbage regions p q = regions ++ [garbage p q] ∧ p < q ∨
    ∃ rs a, regions = rs ++ [garbage a p] ∧ pushGarbage regions p q = rs ++ [garbage a q] ∧
      p < q := by
  rw [pushGarbage]
  split_ifs with hpq
  · exact .inl ⟨rfl, hpq⟩
  right
  have hlt : p < q := Nat.lt_of_not_le hpq
  split
  · next range hlast =>
    obtain ⟨rs, rfl⟩ := getLast?_eq_some_iff.mp hlast
    split_ifs with hstop
    · refine .inr ⟨rs, range.start, ?_, ?_, hlt⟩
      · rw [garbage, ← hstop]
      · rw [dropLast_concat]
    · exact .inl ⟨rfl, hlt⟩
  · exact .inl ⟨rfl, hlt⟩

theorem pushGarbage_tiles {a p q : ℕ} (h : RegionTiles a p regions)
    (hpq : p ≤ q) : RegionTiles a q (pushGarbage regions p q) := by
  rcases pushGarbage_cases regions p q with ⟨h', hqp⟩ | ⟨h', hlt⟩ | ⟨rs, b, rfl, h', hlt⟩
  · rw [h', le_antisymm hqp hpq]
    exact h
  · rw [h']
    exact tiles_append_singleton (r := garbage p q) h hlt
  · rw [h']
    obtain ⟨h1, h2, -⟩ := tiles_snoc h
    exact tiles_append_singleton (r := garbage b q) h1 (lt_trans h2 hlt)

theorem pushGarbage_verified (regions : List ScanRegion) (p q : ℕ) {range : ByteRange}
    : .verifiedFrame range f ∈ pushGarbage regions p q ↔ .verifiedFrame range f ∈ regions := by
  rcases pushGarbage_cases regions p q with ⟨h', -⟩ | ⟨h', -⟩ | ⟨rs, b, hrs, h', -⟩
  · rw [h']
  · simp [h', garbage]
  · rw [h', hrs]
    simp [garbage]

/-! ## The forward invariant -/

/-- A verifying offset is reported, or lies strictly inside a reported frame. -/
def Salvaged (regions : List ScanRegion) (o : ℕ) (f : DecodedFrame) : Prop :=
  (∃ range, .verifiedFrame range f ∈ regions ∧ range.start = o) ∨
    ∃ range g, .verifiedFrame range g ∈ regions ∧ range.start < o ∧ o < range.stop

/-- What the forward scanner knows at position `p`. -/
structure ForwardInv (R : Runtime) (limits : SafetyLimits) (bytes : Bytes) (p : ℕ)
    (regions : List ScanRegion) : Prop where
  le : p ≤ bytes.length
  tiles : RegionTiles 0 p regions
  sound : ∀ range f, .verifiedFrame range f ∈ regions →
    Verified R limits (bytes.drop range.start) f ∧ range.stop = range.start + f.frameLen.toNat
  complete : ∀ o f, o < p → Verified R limits (bytes.drop o) f → Salvaged regions o f

section Forward

variable {R : Runtime} {limits : SafetyLimits} {bytes : Bytes} {p q : ℕ}
  {regions : List ScanRegion}

theorem Salvaged.mono {regions' : List ScanRegion} (h : Salvaged regions o f)
    (hmem : ∀ range g, .verifiedFrame range g ∈ regions → .verifiedFrame range g ∈ regions') :
    Salvaged regions' o f := by
  rcases h with ⟨range, h, ho⟩ | ⟨range, g, h, ho⟩
  · exact .inl ⟨range, hmem _ _ h, ho⟩
  · exact .inr ⟨range, g, hmem _ _ h, ho⟩

theorem ForwardInv.skip (h : ForwardInv R limits bytes p regions) (hpq : p ≤ q)
    (hq : q ≤ bytes.length) (hnone : ∀ o f, p ≤ o → o < q → ¬ Verified R limits (bytes.drop o) f) :
    ForwardInv R limits bytes q (pushGarbage regions p q) where
  le := hq
  tiles := pushGarbage_tiles h.tiles hpq
  sound range f hmem := h.sound range f ((pushGarbage_verified regions p q).mp hmem)
  complete o f ho hf := by
    have hop : o < p := Nat.lt_of_not_le fun hle => hnone o f hle ho hf
    exact (h.complete o f hop hf).mono fun _ _ => (pushGarbage_verified regions p q).mpr

theorem ForwardInv.report (h : ForwardInv R limits bytes q regions)
    (hf : Verified R limits (bytes.drop q) f) :
    ForwardInv R limits bytes (q + f.frameLen.toNat)
      (regions ++ [.verifiedFrame ⟨q, q + f.frameLen.toNat⟩ f]) where
  le := hf.stop_le
  tiles := by
    have := hf.le_frameLen
    exact tiles_append_singleton (r := verifiedFrame ⟨q, q + f.frameLen.toNat⟩ f) h.tiles
      (show q < q + f.frameLen.toNat by omega)
  sound range g hmem := by
    rcases mem_append.mp hmem with hmem | hmem
    · exact h.sound range g hmem
    · cases mem_singleton.mp hmem
      exact ⟨hf, rfl⟩
  complete o g ho hg := by
    have hnew : verifiedFrame ⟨q, q + f.frameLen.toNat⟩ f ∈
        regions ++ [.verifiedFrame ⟨q, q + f.frameLen.toNat⟩ f] := by simp
    rcases lt_trichotomy o q with hlt | rfl | hgt
    · exact (h.complete o g hlt hg).mono fun _ _ => mem_append_left _
    · obtain rfl := hg.unique hf
      exact .inl ⟨_, hnew, rfl⟩
    · exact .inr ⟨_, f, hnew, hgt, ho⟩

theorem ForwardInv.stepOver (h : ForwardInv R limits bytes q regions) (hq : q < bytes.length)
    (hfail : ∀ f, ¬ Verified R limits (bytes.drop q) f) (reason : HoleReason) :
    ForwardInv R limits bytes (q + 1) (regions ++ [.hole ⟨q, q + 1⟩ reason]) where
  le := hq
  tiles :=
    tiles_append_singleton (r := hole ⟨q, q + 1⟩ reason) h.tiles (lt_succ_self q)
  sound range f hmem := h.sound range f (by simpa using hmem)
  complete o f ho hf := by
    have hlt : o < q := by
      rcases Nat.lt_succ_iff_lt_or_eq.mp ho with hlt | rfl
      · exact hlt
      · exact absurd hf (hfail f)
    exact (h.complete o f hlt hf).mono fun _ _ => mem_append_left _

theorem forwardStep_inv {s s' : ℕ × List ScanRegion} (h : ForwardInv R limits bytes s.1 s.2)
    (hs : forwardStep R bytes limits s = .inl s') : ForwardInv R limits bytes s'.1 s'.2 := by
  obtain ⟨p, regions⟩ := s
  rcases forwardStep_cases R bytes limits p regions with
    ⟨h', -⟩ | ⟨q, hpq, hq, hnone, hcase⟩
  · cases h'.symm.trans hs
  · have h8 : START_MAGIC.length = 8 := rfl
    have hskip := h.skip hpq (by omega) fun o f hp ho hf => hnone o hp ho hf.occurs_start
    rcases hcase with ⟨f, hf, h'⟩ | ⟨error, hfail, h'⟩
    · cases h'.symm.trans hs
      exact hskip.report hf
    · cases h'.symm.trans hs
      exact hskip.stepOver (by omega) hfail _

theorem forwardStep_exit {s : ℕ × List ScanRegion} {r : List ScanRegion}
    (h : ForwardInv R limits bytes s.1 s.2) (hs : forwardStep R bytes limits s = .inr r) :
    ForwardInv R limits bytes bytes.length r := by
  obtain ⟨p, regions⟩ := s
  rcases forwardStep_cases R bytes limits p regions with
    ⟨h', hnone⟩ | ⟨q, -, -, -, ⟨f, -, h'⟩ | ⟨error, -, h'⟩⟩
  · cases h'.symm.trans hs
    refine h.skip h.le le_rfl fun o f hp _ hf => hnone o hp ?_ hf.occurs_start
    have h1 := hf.stop_le
    have h2 := hf.le_frameLen
    rw [FRAME_PREFIX_LEN]
    omega
  · cases h'.symm.trans hs
  · cases h'.symm.trans hs

variable (R limits bytes) in
theorem scanForward_inv :
    ForwardInv R limits bytes bytes.length (scanForward R bytes limits).regions :=
  loop_invariant (I := fun s => ForwardInv R limits bytes s.1 s.2) forwardStep_decreases
    (fun _ _ => forwardStep_inv) (fun _ _ => forwardStep_exit)
    ⟨zero_le _, rfl, fun _ _ h => absurd h not_mem_nil,
      fun _ _ h => absurd h (not_lt_zero _)⟩

end Forward

theorem mem_verified : (o, f) ∈ regions.filterMap verified? ↔
      ∃ range, .verifiedFrame range f ∈ regions ∧ range.start = o := by
  rw [mem_filterMap]
  constructor
  · rintro ⟨r, hr, h⟩
    cases r with
    | verifiedFrame range g =>
      cases h
      exact ⟨range, hr, rfl⟩
    | hole range reason => cases h
  · rintro ⟨range, hr, rfl⟩
    exact ⟨_, hr, rfl⟩

theorem verified_ascending (horder : regions.Pairwise fun r s => r.range.stop ≤ s.range.start)
    (hne : ∀ r ∈ regions, r.range.start < r.range.stop) :
    (regions.filterMap verified?).Pairwise fun x y => x.1 < y.1 := by
  have hstart : ∀ r x, verified? r = some x → x.1 = r.range.start := by
    intro r x h
    cases r with
    | verifiedFrame range g => rw [← Option.some.inj h]; rfl
    | hole range reason => cases h
  refine pairwise_filterMap.mpr (horder.imp_of_mem fun {r s} hr _ h x hx y hy => ?_)
  rw [hstart r x hx, hstart s y hy]
  exact lt_of_lt_of_le (hne r hr) h

theorem scanForward_verifiedFrames {R : Runtime} {limits : SafetyLimits} {bytes : Bytes}
    (hV : AllFrames R limits bytes V) : (scanForward R bytes limits).verifiedFrames = V := by
  have hinv := scanForward_inv R limits bytes
  refine eq_of_ascending (verified_ascending hinv.tiles.pairwise fun r hr =>
    (hinv.tiles.bounds hr).2.1) hV.ascending ?_
  rintro ⟨o, f⟩
  rw [ScanReport.verifiedFrames, mem_verified, hV.mem_iff]
  constructor
  · rintro ⟨range, hr, rfl⟩
    exact (hinv.sound range f hr).1
  · intro hf
    have hle := hf.le_frameLen
    have hstop := hf.stop_le
    rcases hinv.complete o f (by omega) hf with h | ⟨range, g, hr, hlt, hgt⟩
    · exact h
    · -- an offset strictly inside a reported frame would make two frames overlap
      obtain ⟨hg, hend⟩ := hinv.sound range g hr
      have hapart := hV.disjoint hg hf hlt
      omega

/-! ## Frames end to end -/

section Blocks

variable {R : Runtime} {limits : SafetyLimits} {bytes : Bytes}
  {blocks : List (Bytes × DecodedFrame)}

theorem forwardStep_verified {p : ℕ} (hf : Verified R limits (bytes.drop p) f)
    (regions : List ScanRegion) : forwardStep R bytes limits (p, regions) =
      .inl (p + f.frameLen.toNat,
        regions ++ [.verifiedFrame ⟨p, p + f.frameLen.toNat⟩ f]) := by
  have hocc := hf.occurs_start
  have hlen := hf.le_frameLen
  have hstop := hf.stop_le
  rcases forwardStep_cases R bytes limits p regions with
    ⟨-, hnone⟩ | ⟨q, hpq, -, hbefore, hcase⟩
  · exact absurd hocc (hnone p le_rfl (by rw [FRAME_PREFIX_LEN]; omega))
  obtain rfl : p = q := by
    by_contra hne
    exact hbefore p le_rfl (by omega) hocc
  have hgap : pushGarbage regions p p = regions := by
    rw [pushGarbage, if_pos le_rfl]
  rcases hcase with ⟨g, hg, hstep⟩ | ⟨_, hfail, -⟩
  · rw [hstep, hgap, hf.unique hg]
  · exact absurd hf (hfail f)

theorem forwardStep_end (regions : List ScanRegion) :
    forwardStep R bytes limits (bytes.length, regions) = .inr regions := by
  have h8 : START_MAGIC.length = 8 := rfl
  rcases forwardStep_cases R bytes limits bytes.length regions with
    ⟨hstep, -⟩ | ⟨q, hpq, hq, -⟩
  · rw [hstep, pushGarbage, if_pos le_rfl]
  · omega

/-- The regions of frames that follow each other from offset `o` on. -/
def regionsFrom : ℕ → List (Bytes × DecodedFrame) → List ScanRegion
  | _, [] => []
  | o, (block, f) :: blocks =>
    .verifiedFrame ⟨o, o + block.length⟩ f :: regionsFrom (o + block.length) blocks

theorem reaches_blocks
    (hblocks : ∀ x ∈ blocks, decodeFrame R x.1 limits = .ok x.2) (before : Bytes)
    (hbytes : bytes = before ++ (blocks.map Prod.fst).flatten) (regions : List ScanRegion) :
    Reaches (forwardStep R bytes limits) (before.length, regions)
      (bytes.length, regions ++ regionsFrom before.length blocks) := by
  induction blocks generalizing before regions with
  | nil =>
    rw [hbytes, map_nil, flatten_nil, append_nil, regionsFrom, append_nil]
    exact .refl
  | cons x blocks ih =>
    obtain ⟨block, f⟩ := x
    obtain ⟨hx, hrest⟩ := forall_mem_cons.mp hblocks
    obtain ⟨hv, hlen⟩ := decodeFrame_eq_ok.mp hx
    rw [map_cons, flatten_cons] at hbytes
    have hdrop : bytes.drop before.length = block ++ (blocks.map Prod.fst).flatten := by
      rw [hbytes, drop_left]
    have hat : Verified R limits (bytes.drop before.length) f := by
      refine hv.congr ?_
      rw [hdrop, ← hlen, take_left, take_length]
    have hstep := forwardStep_verified hat regions
    rw [← hlen] at hstep
    have hreach := ih hrest (before ++ block) (by rw [hbytes, append_assoc])
      (regions ++ [.verifiedFrame ⟨before.length, before.length + block.length⟩ f])
    rw [length_append, append_assoc] at hreach
    exact hreach.head hstep

theorem scanForward_blocks (hblocks : ∀ x ∈ blocks, decodeFrame R x.1 limits = .ok x.2) :
    (scanForward R (blocks.map Prod.fst).flatten limits).regions = regionsFrom 0 blocks := by
  have hreach := reaches_blocks hblocks [] rfl []
  exact (hreach.loop_eq forwardStep_decreases).trans
    (loop_done forwardStep_decreases (forwardStep_end _))

theorem verified_regionsFrom (o : ℕ) (blocks : List (Bytes × DecodedFrame)) :
    ((regionsFrom o blocks).filterMap verified?).map Prod.snd =
      blocks.map Prod.snd := by
  induction blocks generalizing o with
  | nil => rfl
  | cons x blocks ih =>
    rw [regionsFrom, filterMap_cons, map_cons, ← ih (o + x.1.length)]
    rfl

end Blocks

/-- **Salvage soundness and completeness of the forward scan.** -/
theorem scanForward_salvages (R : Runtime) (bytes : Bytes) (limits : SafetyLimits) :
    let report := scanForward R bytes limits
    RegionTiles 0 bytes.length report.regions ∧
    (∀ range f, .verifiedFrame range f ∈ report.regions →
      verifyFrameAt R (bytes.drop range.start) limits = .ok f ∧
        range.stop = range.start + f.frameLen.toNat) ∧
    (∀ o f, verifyFrameAt R (bytes.drop o) limits = .ok f →
      (∃ range, .verifiedFrame range f ∈ report.regions ∧ range.start = o) ∨
        ∃ range g, .verifiedFrame range g ∈ report.regions ∧ range.start < o ∧ o < range.stop) ∧
    ∀ (pieces : List (Piece UInt8 DecodedFrame)) (tail : Bytes),
      bytes = layout pieces tail →
      (∀ p ∈ pieces, decodeFrame R p.block limits = .ok p.value) →
      (∀ o f, verifyFrameAt R (bytes.drop o) limits = .ok f → o ∈ (placed 0 pieces).map Prod.fst) →
      report.verifiedFrames = placed 0 pieces := by
  intro report
  have hinv := scanForward_inv R limits bytes
  simp only [verifyFrameAt_eq_ok]
  refine ⟨hinv.tiles, hinv.sound, fun o f hf => ?_, fun pieces tail hbytes hdecode honly => ?_⟩
  · have hle := hf.le_frameLen
    have hstop := hf.stop_le
    exact hinv.complete o f (by omega) hf
  · subst hbytes
    exact scanForward_verifiedFrames (allFrames_layout hdecode honly)

/-- The small frame between a stray byte and a start magic without a frame. -/
theorem scanForward_salvages_sample :
    (scanForward productRuntime ([0x52] ++ (sampleBlock ++ START_MAGIC))
        .draftDefaults).verifiedFrames =
      [(1, sampleParts.decoded productRuntime)] := by
  obtain ⟨hv, hlen, hframe⟩ := verify_encodeFrame rfl sampleParts_accepted sampleBlock_encoded []
  rw [append_nil] at hv
  refine (scanForward_salvages productRuntime _ .draftDefaults).2.2.2
    [⟨[0x52], sampleBlock, sampleParts.decoded productRuntime⟩] START_MAGIC rfl ?_ fun o f hf => ?_
  · simp only [mem_singleton, forall_eq]
    exact decodeFrame_eq_ok.mpr ⟨hv, hframe.symm⟩
  · -- the first nineteen offsets leave room for a frame, and one of them holds the magic
    have honly : ∀ o < 19,
        OccursAt START_MAGIC ([0x52] ++ (sampleBlock ++ START_MAGIC)) o → o = 1 := by
      decide +kernel
    have hf := verifyFrameAt_eq_ok.mp hf
    have hstop := hf.stop_le
    have hle := hf.le_frameLen
    have htotal : ([0x52] ++ (sampleBlock ++ START_MAGIC)).length = 138 := by
      simp only [length_append, hlen]
      rfl
    rw [honly o (by omega) hf.occurs_start]
    exact mem_singleton.mpr rfl

end Residiuum
