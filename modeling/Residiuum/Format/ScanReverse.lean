import Residiuum.Format.ScanForward

/-!
# The reverse scan: coverage

The reverse scan cuts the buffer from the right. `WindowEnd` says, on the buffer alone, at which
offsets it continues. Each iteration reports the bytes it moves over, with one exception: a failed
end magic that ends flush with the window is reported by its first byte, and its other seven bytes
are not reported at all.

* **`reverseStep_next`**, **`reverseStep_inv`**: one iteration, and what it keeps.
* **`scanReverse_covers_iff`**: the report covers the buffer exactly when no window ends with an
  end magic.
-/

namespace Residiuum

open ByteLib List LoopLib ScanRegion TileLib

abbrev RegionOrdered (a b : ℕ) (regions : List ScanRegion) : Prop :=
  Ordered (fun r : ScanRegion => r.range.start) (fun r => r.range.stop) a b regions

/-- The byte at `x` lies in the region. -/
abbrev RegionCovers (x : ℕ) (r : ScanRegion) : Prop :=
  Covers (fun r : ScanRegion => r.range.start) (fun r => r.range.stop) x r

/-! ## Coalescing -/

theorem coalesceStep_cases (out : List ScanRegion) (region : ScanRegion) :
    coalesceStep out region = out ++ [region] ∨
    ∃ rs a m b, out = rs ++ [garbage a m] ∧ region = garbage m b ∧
      coalesceStep out region = rs ++ [garbage a b] := by
  unfold coalesceStep
  split
  · next range r2 hlast =>
    obtain ⟨rs, rfl⟩ := getLast?_eq_some_iff.mp hlast
    split_ifs with h
    · refine .inr ⟨rs, range.start, range.stop, r2.stop, rfl, ?_, ?_⟩
      · rw [garbage, h]
      · rw [dropLast_concat]
    · exact .inl rfl
  · exact .inl rfl

theorem coalesce_eq_foldl (regions : List ScanRegion) :
    coalesceAdjacentGarbage regions = regions.foldl coalesceStep [] := by
  rw [coalesceAdjacentGarbage]
  split_ifs with h
  · match regions, h with
    | [], _ => rfl
    | [r], _ => rfl
  · rfl

variable {out regions : List ScanRegion} {t : ℕ × List ScanRegion}

theorem coalesceStep_tiles {region : ScanRegion} {a b : ℕ}
    (hout : RegionTiles a region.range.start out) (hne : region.range.start < region.range.stop)
    (hb : region.range.stop = b) : RegionTiles a b (coalesceStep out region) := by
  subst hb
  rcases coalesceStep_cases out region with h | ⟨rs, c, m, d, rfl, rfl, h⟩
  · rw [h]
    exact tiles_append_singleton hout hne
  · rw [h]
    obtain ⟨h1, h2, h3⟩ := tiles_snoc hout
    exact tiles_append_singleton (r := garbage c d) h1 (Nat.lt_trans h2 hne)

theorem foldl_coalesce_tiles {a m b : ℕ}
    (hout : RegionTiles a m out) (h : RegionTiles m b regions) :
    RegionTiles a b (regions.foldl coalesceStep out) := by
  induction regions generalizing out m with
  | nil => exact (show m = b from h) ▸ hout
  | cons r rs ih =>
    obtain ⟨rfl, h2, h3⟩ := h
    exact ih (coalesceStep_tiles hout h2 rfl) h3

theorem foldl_coalesce_not_covers {x : ℕ}
    (hout : ∀ r ∈ out, ¬ RegionCovers x r) (h : ∀ r ∈ regions, ¬ RegionCovers x r) :
    ∀ r ∈ regions.foldl coalesceStep out, ¬ RegionCovers x r := by
  induction regions generalizing out with
  | nil => exact hout
  | cons r rs ih =>
    obtain ⟨hr, hrs⟩ := forall_mem_cons.mp h
    refine ih ?_ hrs
    rcases coalesceStep_cases out r with h | ⟨ss, a, m, b, rfl, rfl, h⟩
    · rw [h]
      exact forall_mem_append.mpr ⟨hout, by simpa using hr⟩
    · obtain ⟨hss, hlast⟩ := forall_mem_append.mp hout
      have hlast := hlast _ (mem_singleton_self _)
      rw [h]
      refine forall_mem_append.mpr ⟨hss, ?_⟩
      simp only [mem_singleton, forall_eq, RegionCovers, Covers, garbage, ScanRegion.range]
        at hlast hr ⊢
      omega

theorem foldl_coalesce_verified (regions out : List ScanRegion) :
    (regions.foldl coalesceStep out).filterMap verified? =
      (out ++ regions).filterMap verified? := by
  induction regions generalizing out with
  | nil => rw [foldl_nil, append_nil]
  | cons r rs ih =>
    rw [foldl_cons, ih]
    rcases coalesceStep_cases out r with h | ⟨ss, a, m, b, rfl, rfl, h⟩
    · rw [h, append_assoc, singleton_append]
    · rw [h]
      simp [filterMap_cons, garbage, verified?]

theorem scanReverse_verified (R : Runtime) (bytes : Bytes) (limits : SafetyLimits) :
    (scanReverse R bytes limits).verifiedFrames =
      (reverseRegions R bytes limits).reverse.filterMap verified? := by
  rw [ScanReport.verifiedFrames, scanReverse, coalesce_eq_foldl, foldl_coalesce_verified,
    nil_append]

/-- The offsets the reverse scan continues from: the end of the buffer; the start of a frame whose
suffix is the last end magic before such an offset; and that magic itself, if no frame ends with
it. -/
inductive WindowEnd (R : Runtime) (limits : SafetyLimits) (bytes : Bytes) : ℕ → Prop
  | whole : WindowEnd R limits bytes bytes.length
  | frame {e s o : ℕ} {f : DecodedFrame} : WindowEnd R limits bytes e → 56 ≤ e →
    LastEndMagic bytes e s → FrameEnding R limits bytes e s o f → WindowEnd R limits bytes o
  | magic {e s : ℕ} : WindowEnd R limits bytes e → 56 ≤ e → LastEndMagic bytes e s →
    (∀ o f, ¬ FrameEnding R limits bytes e s o f) → WindowEnd R limits bytes s

section Window

variable {R : Runtime} {limits : SafetyLimits} {bytes : Bytes} {e s o : ℕ} {f : DecodedFrame}
  {rev : List ScanRegion}

theorem LastEndMagic.unique {s' : ℕ} (h : LastEndMagic bytes e s) (h' : LastEndMagic bytes e s') :
    s = s' := by
  rcases Nat.lt_trichotomy s s' with hlt | heq | hgt
  · exact absurd h'.occurs (h.last s' hlt h'.le)
  · exact heq
  · exact absurd h.occurs (h'.last s hgt h.le)

theorem FrameEnding.unique {o' : ℕ} {g : DecodedFrame} (h : FrameEnding R limits bytes e s o f)
    (h' : FrameEnding R limits bytes e s o' g) : o = o' := by
  have hf := (h.verified.suffix_at h.suffix).2
  have hg := (h'.verified.suffix_at h'.suffix).2
  have h1 := h.suffix
  have h2 := h'.suffix
  rw [hf.symm.trans hg] at h1
  omega

theorem WindowEnd.reached (h : WindowEnd R limits bytes e) :
    ∃ rev, Reaches (reverseStep R bytes limits) (bytes.length, []) (e, rev) := by
  induction h with
  | whole => exact ⟨[], .refl⟩
  | @frame e s o f _ he hs hf ih =>
    obtain ⟨rev, hr⟩ := ih
    rcases reverseStep_cases R bytes limits e rev with
      ⟨-, hlt⟩ | ⟨-, -, hnone⟩ | ⟨s', -, hs', ⟨o', g, hg, h'⟩ | ⟨_, hfail, -⟩⟩
    · omega
    · exact absurd hs.occurs (hnone s hs.le)
    · obtain rfl := hs.unique hs'
      obtain rfl := hf.unique hg
      exact ⟨_, hr.tail h'⟩
    · obtain rfl := hs.unique hs'
      exact absurd hf (hfail o f)
  | @magic e s _ he hs hnot ih =>
    obtain ⟨rev, hr⟩ := ih
    rcases reverseStep_cases R bytes limits e rev with
      ⟨-, hlt⟩ | ⟨-, -, hnone⟩ | ⟨s', -, hs', ⟨o', g, hg, -⟩ | ⟨_, -, h'⟩⟩
    · omega
    · exact absurd hs.occurs (hnone s hs.le)
    · obtain rfl := hs.unique hs'
      exact absurd hg (hnot o' g)
    · obtain rfl := hs.unique hs'
      exact ⟨_, hr.tail h'⟩

end Window

/-! ## One iteration -/

/-- What an accepted candidate adds, left to right. -/
def frameRegions (o s e : ℕ) (f : DecodedFrame) : List ScanRegion :=
  .verifiedFrame ⟨o, s + 56⟩ f :: if s + 56 < e then [garbage (s + 56) e] else []

/-- What a failed candidate adds, left to right. -/
def failedRegions (s e : ℕ) (reason : HoleReason) : List ScanRegion :=
  .hole ⟨s, s + 1⟩ reason :: if s + 8 < e then [garbage (s + 1) e] else []

section Step

variable {R : Runtime} {limits : SafetyLimits} {bytes : Bytes} {e s o e' : ℕ}
  {f : DecodedFrame} {rev rev' : List ScanRegion}

theorem reverseStep_next (h : reverseStep R bytes limits (e, rev) = .inl (e', rev')) :
    ∃ s, 56 ≤ e ∧ LastEndMagic bytes e s ∧
      ((∃ f, FrameEnding R limits bytes e s e' f ∧
        rev'.reverse = frameRegions e' s e f ++ rev.reverse) ∨
      ∃ reason, e' = s ∧ (∀ o f, ¬ FrameEnding R limits bytes e s o f) ∧
        rev'.reverse = failedRegions s e reason ++ rev.reverse) := by
  rcases reverseStep_cases R bytes limits e rev with
    ⟨h', -⟩ | ⟨h', -⟩ | ⟨s, he, hs, ⟨o, f, hf, h'⟩ | ⟨error, hfail, h'⟩⟩
  · cases h'.symm.trans h
  · cases h'.symm.trans h
  · cases Sum.inl.inj (h'.symm.trans h)
    refine ⟨s, he, hs, .inl ⟨f, hf, ?_⟩⟩
    rw [reverse_concat, frameRegions]
    split_ifs <;> simp
  · obtain ⟨rfl, rfl⟩ := Prod.mk.inj (Sum.inl.inj (h'.symm.trans h))
    refine ⟨s, he, hs, .inr ⟨classifyFailure s error, rfl, hfail, ?_⟩⟩
    rw [reverse_concat, failedRegions]
    split_ifs <;> simp

theorem frameRegions_tiles (hf : FrameEnding R limits bytes e s o f) :
    RegionTiles o e (frameRegions o s e f) := by
  have hlt := hf.lt
  have hin := hf.inside
  refine ⟨rfl, show o < s + 56 by omega, ?_⟩
  split_ifs with h
  · exact ⟨rfl, h, rfl⟩
  · exact show s + 56 = e by omega

theorem failedRegions_tiles (h : s + 8 < e) (reason : HoleReason) :
    RegionTiles s e (failedRegions s e reason) := by
  rw [failedRegions, if_pos h]
  exact ⟨rfl, Nat.lt_succ_self s, rfl, show s + 1 < e by omega, rfl⟩

theorem failedRegions_ordered (h : s + 8 ≤ e) (reason : HoleReason) :
    RegionOrdered s e (failedRegions s e reason) := by
  by_cases hlt : s + 8 < e
  · exact (failedRegions_tiles hlt reason).ordered
  · rw [failedRegions, if_neg hlt]
    refine ⟨pairwise_singleton _ _, ?_⟩
    simp only [mem_singleton, forall_eq, ScanRegion.range]
    omega

theorem reverseStep_new (h : reverseStep R bytes limits (e, rev) = .inl (e', rev')) :
    e' ≤ e ∧ ∃ new, RegionOrdered e' e new ∧ rev'.reverse = new ++ rev.reverse := by
  obtain ⟨s, he, hs, ⟨f, hf, hrev⟩ | ⟨reason, rfl, -, hrev⟩⟩ := reverseStep_next h
  · have hlt := hf.lt
    have hin := hf.inside
    exact ⟨by omega, _, (frameRegions_tiles hf).ordered, hrev⟩
  · have hle := hs.le
    exact ⟨by omega, _, failedRegions_ordered hle reason, hrev⟩

/-- What the reverse scanner knows at window end `e`. -/
structure ReverseInv (R : Runtime) (limits : SafetyLimits) (bytes : Bytes) (e : ℕ)
    (rev : List ScanRegion) : Prop where
  le : e ≤ bytes.length
  window : WindowEnd R limits bytes e
  ordered : RegionOrdered e bytes.length rev.reverse
  sound : ∀ range f, .verifiedFrame range f ∈ rev.reverse →
    Verified R limits (bytes.drop range.start) f

theorem reverseInv_init : ReverseInv R limits bytes bytes.length [] where
  le := le_rfl
  window := .whole
  ordered := ⟨List.Pairwise.nil, fun _ h => absurd h not_mem_nil⟩
  sound _ _ h := absurd h not_mem_nil

theorem reverseStep_inv (hinv : ReverseInv R limits bytes e rev)
    (h : reverseStep R bytes limits (e, rev) = .inl (e', rev')) :
    ReverseInv R limits bytes e' rev' := by
  obtain ⟨s, he, hs, ⟨f, hf, hrev⟩ | ⟨reason, rfl, hfail, hrev⟩⟩ := reverseStep_next h
  · have hlt := hf.lt
    have hin := hf.inside
    refine ⟨by have := hinv.le; omega, hinv.window.frame he hs hf, ?_, fun range g hmem => ?_⟩
    · rw [hrev]
      exact (frameRegions_tiles hf).ordered.append hinv.ordered (by omega) hinv.le
    · rw [hrev, frameRegions] at hmem
      rcases mem_append.mp hmem with hmem | hmem
      · have hg : verifiedFrame range g = .verifiedFrame ⟨e', s + 56⟩ f := by
          rcases mem_cons.mp hmem with h | h
          · exact h
          · split_ifs at h <;> simp [garbage] at h
        obtain ⟨rfl, rfl⟩ := verifiedFrame.inj hg
        exact hf.verified
      · exact hinv.sound range g hmem
  · have hle := hs.le
    refine ⟨by have := hinv.le; omega, hinv.window.magic he hs hfail, ?_, fun range g hmem => ?_⟩
    · rw [hrev]
      exact (failedRegions_ordered hle reason).append hinv.ordered (by omega) hinv.le
    · rw [hrev, failedRegions] at hmem
      rcases mem_append.mp hmem with hmem | hmem
      · split_ifs at hmem <;> simp [garbage] at hmem
      · exact hinv.sound range g hmem

theorem reverse_reaches_inv (h : Reaches (reverseStep R bytes limits) (bytes.length, []) t) :
    ReverseInv R limits bytes t.1 t.2 :=
  h.invariant (I := fun t => ReverseInv R limits bytes t.1 t.2)
    (fun _ _ => reverseStep_inv) reverseInv_init

/-- The report of the loop, from any state it passes through: it leaves at a window end `e` with no
end magic before it, and reports the bytes before `e` as garbage. -/
theorem reverseRegions_exit (ht : Reaches (reverseStep R bytes limits) (bytes.length, []) t) :
    ∃ e rev, Reaches (reverseStep R bytes limits) t (e, rev) ∧
      (∀ o, 48 ≤ o → o + 8 ≤ e → ¬ OccursAt END_MAGIC bytes o) ∧
      (reverseRegions R bytes limits).reverse =
        (if 0 < e then [garbage 0 e] else []) ++ rev.reverse := by
  obtain ⟨⟨e, rev⟩, hr, hexit⟩ := exists_exit reverseStep_decreases t
  refine ⟨e, rev, hr, ?_⟩
  rw [← ht.loop_eq reverseStep_decreases] at hexit
  rcases reverseStep_cases R bytes limits e rev with
    ⟨h', hlt⟩ | ⟨h', he, hnone⟩ | ⟨s, -, -, ⟨o, f, -, h'⟩ | ⟨error, -, h'⟩⟩
  · have hloop := Sum.inr.inj (hexit.symm.trans h')
    refine ⟨fun o ho hoe => by omega, ?_⟩
    simp only [reverseRegions, hloop, FRAME_SUFFIX_LEN]
    by_cases h0 : 0 < e
    · rw [if_pos ⟨h0, hlt⟩, if_pos h0, reverse_concat]
      rfl
    · rw [if_neg (by omega), if_neg h0, nil_append]
  · have hloop := Sum.inr.inj (hexit.symm.trans h')
    refine ⟨fun o _ => hnone o, ?_⟩
    simp only [reverseRegions, hloop, FRAME_SUFFIX_LEN]
    rw [if_neg (by omega), if_pos (by omega), reverse_concat]
    rfl
  · cases hexit.symm.trans h'
  · cases hexit.symm.trans h'

end Step

/-! ## Coverage -/

/-- The regions are in order and report every byte of the buffer exactly once. -/
def CoversOnce (n : ℕ) (regions : List ScanRegion) : Prop :=
  (regions.Pairwise fun r s => r.range.stop ≤ s.range.start) ∧
    ∀ x, regions.countP (fun r => decide (RegionCovers x r)) = if x < n then 1 else 0

theorem coversOnce_of_tiles {n : ℕ} (h : RegionTiles 0 n regions) : CoversOnce n regions := by
  refine ⟨h.pairwise, fun x => ?_⟩
  rw [h.countP_eq]
  simp

section Coverage

variable {R : Runtime} {limits : SafetyLimits} {bytes : Bytes} {e : ℕ}

theorem scanReverse_tiles
    (h : ∀ e, WindowEnd R limits bytes e → 56 ≤ e → ¬ OccursAt END_MAGIC bytes (e - 8)) :
    RegionTiles 0 bytes.length (scanReverse R bytes limits).regions := by
  have hinv : ∀ t, Reaches (reverseStep R bytes limits) (bytes.length, []) t →
      ReverseInv R limits bytes t.1 t.2 ∧ RegionTiles t.1 bytes.length t.2.reverse := by
    intro t ht
    refine ht.invariant (I := fun t => ReverseInv R limits bytes t.1 t.2 ∧
      RegionTiles t.1 bytes.length t.2.reverse) ?_ (by exact ⟨reverseInv_init, rfl⟩)
    rintro ⟨e, rev⟩ ⟨e', rev'⟩ ⟨hinv, htiles⟩ hstep
    refine ⟨reverseStep_inv hinv hstep, ?_⟩
    obtain ⟨s, he, hs, ⟨f, hf, hrev⟩ | ⟨reason, rfl, hfail, hrev⟩⟩ := reverseStep_next hstep
    · rw [hrev]
      exact tiles_append (frameRegions_tiles hf) htiles
    · rw [hrev]
      refine tiles_append (failedRegions_tiles (Nat.lt_of_le_of_ne hs.le fun hflush => ?_) _) htiles
      have hocc := hs.occurs
      rw [← Nat.add_sub_cancel (n := e') (m := 8), hflush] at hocc
      exact h e hinv.window he hocc
  have hstart : Reaches (reverseStep R bytes limits) (bytes.length, []) (bytes.length, []) := .refl
  obtain ⟨e, rev, hr, -, hreport⟩ := reverseRegions_exit hstart
  have htiles := (hinv _ hr).2
  rw [scanReverse, coalesce_eq_foldl, hreport]
  refine foldl_coalesce_tiles (m := 0) rfl (tiles_append (b := e) ?_ htiles)
  split_ifs with h0
  · exact ⟨rfl, h0, rfl⟩
  · exact show 0 = e by omega

theorem scanReverse_drops (hw : WindowEnd R limits bytes e) (he : 56 ≤ e)
    (hocc : OccursAt END_MAGIC bytes (e - 8)) :
    ∀ r ∈ (scanReverse R bytes limits).regions, ¬ RegionCovers (e - 1) r := by
  obtain ⟨rev, hr⟩ := hw.reached
  have hinv := reverse_reaches_inv hr
  -- the iteration at `e` reports one byte of the magic and continues at `e - 8`
  obtain ⟨reason, hstep⟩ : ∃ reason, reverseStep R bytes limits (e, rev) =
      .inl (e - 8, rev ++ [.hole ⟨e - 8, e - 8 + 1⟩ reason]) := by
    rcases reverseStep_cases R bytes limits e rev with
      ⟨-, hlt⟩ | ⟨-, -, hnone⟩ | ⟨s, -, hs, hcase⟩
    · omega
    · exact absurd hocc (hnone _ (by omega))
    have hse : s = e - 8 := by
      have hle := hs.le
      rcases Nat.lt_or_ge s (e - 8) with hlt | hge
      · exact absurd hocc (hs.last _ hlt (by omega))
      · omega
    subst hse
    rcases hcase with ⟨o, f, hf, -⟩ | ⟨error, -, h'⟩
    · have := hf.inside
      omega
    · rw [if_neg (by omega)] at h'
      exact ⟨_, h'⟩
  -- from there on everything reported lies left of `e - 8`
  have hlater : ∀ t, Reaches (reverseStep R bytes limits)
      (e - 8, rev ++ [.hole ⟨e - 8, e - 8 + 1⟩ reason]) t →
      t.1 ≤ e - 8 ∧ ∀ r ∈ t.2.reverse, ¬ RegionCovers (e - 1) r := by
    intro t ht
    refine ht.invariant (I := fun t => t.1 ≤ e - 8 ∧ ∀ r ∈ t.2.reverse, ¬ RegionCovers (e - 1) r)
      ?_ ⟨le_rfl, ?_⟩
    · rintro ⟨a, ra⟩ ⟨b, rb⟩ ⟨hle, hnot⟩ hstep
      obtain ⟨hab, new, hnew, hrev⟩ := reverseStep_new hstep
      refine ⟨by omega, ?_⟩
      rw [hrev]
      refine forall_mem_append.mpr ⟨fun r hmem hcov => ?_, hnot⟩
      have hstop : r.range.stop ≤ a := (hnew.bounds r hmem).2.2
      have hx : e - 1 < r.range.stop := hcov.2
      omega
    · rw [reverse_concat]
      refine forall_mem_cons.mpr ⟨?_, fun r hmem hcov => ?_⟩
      · simp only [RegionCovers, Covers, ScanRegion.range]
        omega
      · have hstart : e ≤ r.range.start := (hinv.ordered.bounds r hmem).1
        have hx : r.range.start ≤ e - 1 := hcov.1
        omega
  obtain ⟨e₁, rev₁, hr₁, -, hreport⟩ := reverseRegions_exit (hr.tail hstep)
  obtain ⟨hle, hnot⟩ := hlater _ hr₁
  rw [scanReverse, coalesce_eq_foldl, hreport]
  refine foldl_coalesce_not_covers (by simp) (forall_mem_append.mpr ⟨?_, hnot⟩)
  intro r hmem hcov
  split_ifs at hmem with h0
  · obtain rfl := mem_singleton.mp hmem
    have : e - 1 < e₁ := hcov.2
    omega
  · exact absurd hmem not_mem_nil

theorem not_coversOnce_of_flush (hw : WindowEnd R limits bytes e) (he : 56 ≤ e)
    (hocc : OccursAt END_MAGIC bytes (e - 8)) :
    ¬ CoversOnce bytes.length (scanReverse R bytes limits).regions := by
  intro ⟨_, hcount⟩
  obtain ⟨rev, hr⟩ := hw.reached
  have hle : e ≤ bytes.length := (reverse_reaches_inv hr).le
  have hzero : (scanReverse R bytes limits).regions.countP
      (fun r => decide (RegionCovers (e - 1) r)) = 0 :=
    countP_eq_zero.mpr (by simpa using scanReverse_drops hw he hocc)
  have hone := hcount (e - 1)
  rw [if_pos (by omega), hzero] at hone
  cases hone

end Coverage

/-- **The reverse scan covers the buffer exactly when no window ends with an end magic.** -/
theorem scanReverse_covers_iff (R : Runtime) (bytes : Bytes) (limits : SafetyLimits) :
    CoversOnce bytes.length (scanReverse R bytes limits).regions ↔
      ∀ e, WindowEnd R limits bytes e → 56 ≤ e → ¬ OccursAt END_MAGIC bytes (e - 8) := by
  exact ⟨fun h e hw he hocc => not_coversOnce_of_flush hw he hocc h,
    fun h => coversOnce_of_tiles (scanReverse_tiles h)⟩

/-- A buffer that ends with an end magic: seven of its bytes are not reported. -/
theorem scanReverse_not_covers_flush : ¬ CoversOnce 56
      (scanReverse productRuntime (List.replicate 48 0 ++ END_MAGIC) .draftDefaults).regions :=
  not_coversOnce_of_flush WindowEnd.whole (by decide) (by decide)

end Residiuum
