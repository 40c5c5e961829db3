import Residiuum.Lib.Raft.Protocol

/-!
# The invariant of the protocol

Every log consists of what the leaders of the terms of its entries had, a node that granted its vote
in a term grants it to nobody else, and an acknowledged prefix stays in the log of the node until a
later winner without it takes over. From this a prefix that a majority acknowledged is in the log of
every later winner.

* **`Inv.prefix_base`**: leader completeness.
* **`Step.inv`**: every step keeps the invariant.
-/

namespace RaftLib

open Function History List Nat Option

variable {N E : Type} [DecidableEq N] {τ : E → ℕ}

/-! ## The invariant -/

section Invariant

/-- The leader of term `t` may have changed the log of the node. -/
def History.Touched (h : History N E) (n : Node N E) (t : ℕ) : Prop :=
  t < n.term ∨ t = n.term ∧ ∃ c, h.winner t = some c ∧ n.vote = some c

/-- The winners of the terms `T` after `t` started with `p`. -/
def History.Kept (h : History N E) (t : ℕ) (p : List E) (T : ℕ → Prop) : Prop :=
  ∀ t', t < t' → T t' → h.winner t' ≠ none → p <+: h.base t'

/-- The node cannot win term `t`. -/
def Past (t : ℕ) (n : Node N E) : Prop := t ≤ n.term ∧ (n.role = .candidate → t < n.term)

variable (τ)

/-- What holds of a node. -/
structure NodeInv (voters : List N) (h : History N E) (v : N) (n : Node N E) : Prop where
  grounded : Grounded τ h.history n.log
  log_le : ∀ e ∈ n.log, τ e ≤ n.term
  leader : n.role = .leader → v ∈ voters ∧ h.winner n.term = some v ∧ n.log = h.history n.term
  candidate : n.role = .candidate → v ∈ voters ∧ n.vote = some v ∧ h.winner n.term ≠ some v ∧
    (∀ e ∈ n.log, τ e < n.term) ∧ ∀ w l, h.ballot w n.term v l → UpToDate τ n.log l
  winner_le : ∀ t, h.winner t = some v → v ∈ voters → t ≤ n.term
  ballot_le : ∀ t c l, h.ballot v t c l → v ∈ voters ∧ t ≤ n.term
  ballot_vote : ∀ c l, h.ballot v n.term c l → ∃ c', n.vote = some c' ∧
    (c' = c ∨ h.winner n.term = some c')
  request_le : ∀ w t l, h.ballot w t v l → v ∈ voters ∧ t ≤ n.term
  acked_le : ∀ t p, h.acked v t p → t ≤ n.term
  acked_log : ∀ t p, h.acked v t p → h.Kept t p (h.Touched n) → p <+: n.log
  commit_log : n.commit ≤ n.log.length ∧ (n.commit = 0 ∨
    ∃ t p, h.committed t p ∧ t ≤ n.term ∧ n.log.take n.commit <+: p)

/-- What holds of what has happened. -/
structure HistoryInv (voters : List N) (h : History N E) : Prop where
  grounded : ∀ t, Grounded τ h.history (h.history t)
  history_le : ∀ t, ∀ e ∈ h.history t, τ e ≤ t
  history_nil : ∀ t, h.winner t = none → h.history t = []
  base_history : ∀ t, h.base t <+: h.history t
  base_lt : ∀ t, ∀ e ∈ h.base t, τ e < t
  ballot_grounded : ∀ v t c l, h.ballot v t c l → Grounded τ h.history l
  ballot_unique : ∀ v t c l c' l', h.ballot v t c l → h.ballot v t c' l' → c = c'
  ballot_base : ∀ v t c l, h.ballot v t c l → h.winner t = some c → UpToDate τ (h.base t) l
  acked_history : ∀ v t p, h.acked v t p → h.winner t ≠ none ∧ p <+: h.history t
  acked_ballot : ∀ v t p t' c l, h.acked v t p → h.ballot v t' c l → t < t' →
    h.Kept t p (· < t') → p <+: l
  committed_last : ∀ t p, h.committed t p → ∃ q e, p = q ++ [e] ∧ τ e = t
  committed_history : ∀ t p, h.committed t p → h.winner t ≠ none ∧ p <+: h.history t
  committed_acked : ∀ t p, h.committed t p → Majority voters fun v => h.acked v t p
  complete : ∀ t p t', h.committed t p → t < t' → h.winner t' ≠ none → p <+: h.base t'

/-- The invariant. A term that was won cannot be won again: no voter can win it, or a majority
granted it to the winner. -/
structure Inv (s : State N E) : Prop where
  node : ∀ v, NodeInv τ s.voters s.toHistory v (s.node v)
  hist : HistoryInv τ s.voters s.toHistory
  won : ∀ t c, s.winner t = some c →
    (∀ v ∈ s.voters, Past t (s.node v)) ∨ Majority s.voters fun v => ∃ l, s.ballot v t c l

end Invariant

/-! ## Nodes that do not act -/

section Extends

/-- What a step never takes back. -/
structure Grows (h h' : History N E) : Prop where
  winner : ∀ t c, h.winner t = some c → h'.winner t = some c
  base : ∀ t, h.winner t ≠ none → h'.base t = h.base t
  history : ∀ t, h.history t <+: h'.history t
  committed : ∀ t p, h.committed t p → h'.committed t p

/-- `h'` continues `h`, and nothing that happened since concerns `w`. -/
structure Extends (w : N) (h h' : History N E) : Prop extends Grows h h' where
  winner_own : ∀ t, h'.winner t = some w → h.winner t = some w
  history_own : ∀ t, h.winner t = some w → h'.history t = h.history t
  ballot : ∀ v t c l, h'.ballot v t c l → v = w ∨ c = w → h.ballot v t c l
  acked : ∀ t p, h'.acked w t p → h.acked w t p

variable {voters : List N} {h h' : History N E} {v w c : N} {t : ℕ} {l p : List E} {n : Node N E}
  {s : State N E} {T T' : ℕ → Prop} {h'' : History N E}

omit [DecidableEq N]

theorem Grows.refl (h : History N E) : Grows h h :=
  ⟨fun _ _ hw => hw, fun _ _ => rfl, fun _ => prefix_refl _, fun _ _ hc => hc⟩

theorem Grows.trans (hg : Grows h h') (hg' : Grows h' h'') : Grows h h'' where
  winner t c hw := hg'.winner t c (hg.winner t c hw)
  base t hw := by
    obtain ⟨c, hc⟩ := ne_none_iff_exists'.mp hw
    have hw' : h'.winner t ≠ none := ne_none_iff_exists'.mpr ⟨c, hg.winner t c hc⟩
    exact (hg'.base t hw').trans (hg.base t hw)
  history t := (hg.history t).trans (hg'.history t)
  committed t p hc := hg'.committed t p (hg.committed t p hc)

theorem Extends.refl (w : N) (h : History N E) : Extends w h h :=
  ⟨.refl h, fun _ hw => hw, fun _ _ => rfl, fun _ _ _ _ hb _ => hb, fun _ _ ha => ha⟩

theorem Grows.winner_ne_none (hg : Grows h h') (hw : h.winner t ≠ none) : h'.winner t ≠ none := by
  obtain ⟨c, hc⟩ := ne_none_iff_exists'.mp hw
  exact ne_none_iff_exists'.mpr ⟨c, hg.winner t c hc⟩

theorem History.Kept.mono (hk : h.Kept t p T') (hT : ∀ t', T t' → T' t') : h.Kept t p T :=
  fun t' ht hT' hw => hk t' ht (hT t' hT') hw

theorem Grows.kept (hg : Grows h h') (hk : h'.Kept t p T')
    (hT : ∀ t', T t' → T' t') : h.Kept t p T := by
  intro t' ht hT' hw
  rw [← hg.base t' hw]
  exact hk t' ht (hT t' hT') (hg.winner_ne_none hw)

theorem Grows.touched (hg : Grows h h') (ht : h.Touched n t) : h'.Touched n t :=
  ht.imp_right fun ⟨heq, c, hc, hvote⟩ => ⟨heq, c, hg.winner _ _ hc, hvote⟩

theorem NodeInv.extend (hn : NodeInv τ voters h w n) (hx : Extends w h h') :
    NodeInv τ voters h' w n where
  grounded := hn.grounded.mono hx.history
  log_le := hn.log_le
  leader hr := by
    obtain ⟨hv, hw, hl⟩ := hn.leader hr
    exact ⟨hv, hx.winner _ _ hw, hl.trans (hx.history_own _ hw).symm⟩
  candidate hr := by
    obtain ⟨hv, hvote, hw, hlt, hup⟩ := hn.candidate hr
    exact ⟨hv, hvote, fun hw' => hw (hx.winner_own _ hw'), hlt,
      fun u l hb => hup u l (hx.ballot u _ w l hb (.inr rfl))⟩
  winner_le t hw hv := hn.winner_le t (hx.winner_own t hw) hv
  ballot_le t c l hb := hn.ballot_le t c l (hx.ballot w t c l hb (.inl rfl))
  ballot_vote c l hb := by
    obtain ⟨c', hc', hor⟩ := hn.ballot_vote c l (hx.ballot w _ c l hb (.inl rfl))
    exact ⟨c', hc', hor.imp_right (hx.winner _ _)⟩
  request_le u t l hb := hn.request_le u t l (hx.ballot u t w l hb (.inr rfl))
  acked_le t p ha := hn.acked_le t p (hx.acked t p ha)
  acked_log t p ha hk :=
    hn.acked_log t p (hx.acked t p ha) (hx.kept hk fun _ => hx.touched)
  commit_log := by
    refine hn.commit_log.imp_right fun hc => hc.imp_right ?_
    rintro ⟨t, p, hcom, ht, hp⟩
    exact ⟨t, p, hx.committed t p hcom, ht, hp⟩

theorem extends_addBallot (hv : w ≠ v) (hc : w ≠ c) : Extends w h (h.addBallot v t c l) :=
  { Extends.refl w h with
    ballot := by
      rintro v' t' c' l' (hb | ⟨rfl, -, rfl, -⟩) hor
      · exact hb
      · exact hor.elim (absurd · hv.symm) (absurd · hc.symm) }

theorem extends_addAcked (hv : w ≠ v) : Extends w h (h.addAcked v t l) :=
  { Extends.refl w h with acked := fun _ _ ha => ha.resolve_right fun heq => hv heq.1 }

theorem grows_addAcked : Grows h (h.addAcked v t l) :=
  ⟨fun _ _ hw => hw, fun _ _ => rfl, fun _ => prefix_refl _, fun _ _ hc => hc⟩

theorem grows_addCommitted : Grows h (h.addCommitted t p) :=
  { Grows.refl h with committed := fun _ _ hc => .inl hc }

theorem Extends.trans (hx : Extends w h h') (hx' : Extends w h' h'') : Extends w h h'' :=
  { hx.toGrows.trans hx'.toGrows with
    winner_own := fun t hw => hx.winner_own t (hx'.winner_own t hw)
    history_own := fun t hw =>
      (hx'.history_own t (hx.winner t w hw)).trans (hx.history_own t hw)
    ballot := fun v t c l hb hor => hx.ballot v t c l (hx'.ballot v t c l hb hor) hor
    acked := fun t p ha => hx.acked t p (hx'.acked t p ha) }

theorem grows_addWinner (hnone : h.winner t = none) (hnil : h.history t = []) :
    Grows h (h.addWinner c t l) where
  winner t' c' hc' := by
    have hne : t' ≠ t := by rintro rfl; simp [hnone] at hc'
    simpa [addWinner, hne] using hc'
  base t' hw' := by
    have hne : t' ≠ t := by rintro rfl; exact hw' hnone
    simp [addWinner, hne]
  history t' := by
    by_cases hne : t' = t
    · rw [hne, hnil]
      exact nil_prefix
    · simp [addWinner, hne]
  committed _ _ hc := hc

theorem extends_addWinner (hnone : h.winner t = none) (hnil : h.history t = []) (hw : w ≠ c) :
    Extends w h (h.addWinner c t l) :=
  { grows_addWinner hnone hnil with
    winner_own := fun t' hw' => by
      by_cases hne : t' = t
      · simp only [addWinner, hne, update_self, Option.some.injEq] at hw'
        exact absurd hw'.symm hw
      · simpa [addWinner, hne] using hw'
    history_own := fun t' hw' => by
      have hne : t' ≠ t := by rintro rfl; simp [hnone] at hw'
      simp [addWinner, hne]
    ballot := fun _ _ _ _ hb _ => hb
    acked := fun _ _ ha => ha }

theorem grows_setHistory (hl : h.history t <+: l) : Grows h (h.setHistory t l) :=
  { Grows.refl h with
    history := fun t' => by
      by_cases hne : t' = t
      · simpa [setHistory, hne] using hl
      · simp [setHistory, hne] }

theorem extends_setHistory (hl : h.history t <+: l) (hw : h.winner t ≠ some w) :
    Extends w h (h.setHistory t l) :=
  { grows_setHistory hl with
    winner_own := fun _ hw' => hw'
    history_own := fun t' hw' => by
      have hne : t' ≠ t := by rintro rfl; exact hw hw'
      simp [setHistory, hne]
    ballot := fun _ _ _ _ hb _ => hb
    acked := fun _ _ ha => ha }

/-- **How a step of one node is checked**: the nodes, the history, and that the terms that were won
stay closed. -/
theorem Inv.act [DecidableEq N] (hs : Inv τ s)
    (hother : ∀ w, w ≠ v → NodeInv τ s.voters h' w (s.node w))
    (hnode : NodeInv τ s.voters h' v n) (hhist : HistoryInv τ s.voters h')
    (hpast : v ∈ s.voters → ∀ t, Past t (s.node v) → Past t n)
    (hballot : ∀ u t c l, s.ballot u t c l → h'.ballot u t c l)
    (hwon : ∀ t c, h'.winner t = some c → s.winner t = some c ∨
      Majority s.voters fun u => ∃ l, h'.ballot u t c l) :
    Inv τ (s.act v n h') where
  node w := by
    by_cases hw : w = v
    · rw [hw, s.act_node_self]
      exact hnode
    · rw [s.act_node_of_ne n h' hw]
      exact hother w hw
  hist := hhist
  won t c hc := by
    obtain hc | hc := hwon t c hc
    · refine (hs.won t c hc).imp (fun hp u hu => ?_) fun hm => ?_
      · by_cases hu' : u = v
        · subst hu'
          rw [s.act_node_self]
          exact hpast hu t (hp u hu)
        · rw [s.act_node_of_ne n h' hu']
          exact hp u hu
      · exact hm.mono fun u _ ⟨l, hl⟩ => ⟨l, hballot u t c l hl⟩
    · exact .inr hc

end Extends

/-! ## What happens -/

section History

variable {voters : List N} {h : History N E} {v c : N} {t : ℕ} {b l p : List E} {e : E}
  (hh : HistoryInv τ voters h)

include hh

omit [DecidableEq N]

theorem HistoryInv.addBallot (hl : Grounded τ h.history l)
    (huniq : ∀ c' l', h.ballot v t c' l' → c' = c) (hw : h.winner t ≠ some c)
    (hacked : ∀ t' p, h.acked v t' p → t' < t → h.Kept t' p (· < t) → p <+: l) :
    HistoryInv τ voters (h.addBallot v t c l) :=
  { hh with
    ballot_grounded := by
      rintro v' t' c' l' (hb | ⟨-, -, -, rfl⟩)
      · exact hh.ballot_grounded v' t' c' l' hb
      · exact hl
    ballot_unique := by
      rintro v' t' c₁ l₁ c₂ l₂ (hb₁ | ⟨rfl, rfl, rfl, -⟩) (hb₂ | ⟨hv₂, ht₂, hc₂, -⟩)
      · exact hh.ballot_unique v' t' c₁ l₁ c₂ l₂ hb₁ hb₂
      · subst hv₂ ht₂ hc₂
        exact huniq c₁ l₁ hb₁
      · exact (huniq c₂ l₂ hb₂).symm
      · exact hc₂.symm
    ballot_base := by
      rintro v' t' c' l' (hb | ⟨-, rfl, rfl, -⟩) hw'
      · exact hh.ballot_base v' t' c' l' hb hw'
      · exact absurd hw' hw
    acked_ballot := by
      rintro v' t₀ p t' c' l' ha (hb | ⟨rfl, rfl, -, rfl⟩) hlt hk
      · exact hh.acked_ballot v' t₀ p t' c' l' ha hb hlt hk
      · exact hacked t₀ p ha hlt hk }

theorem HistoryInv.addAcked (hw : h.winner t ≠ none)
    (hl : l <+: h.history t) (hb : ∀ t' c' l', h.ballot v t' c' l' → t' ≤ t) :
    HistoryInv τ voters (h.addAcked v t l) :=
  { hh with
    acked_history := by
      rintro v' t' p (ha | ⟨-, rfl, hp⟩)
      · exact hh.acked_history v' t' p ha
      · exact ⟨hw, hp.trans hl⟩
    acked_ballot := by
      rintro v' t₀ p t' c' l' (ha | ⟨rfl, rfl, -⟩) hb' hlt hk
      · exact hh.acked_ballot v' t₀ p t' c' l' ha hb' hlt hk
      · exact absurd (hb t' c' l' hb') (not_le.mpr hlt)
    committed_acked := fun t' p hc => (hh.committed_acked t' p hc).mono fun _ _ ha => .inl ha }

theorem HistoryInv.setHistory (hw : h.winner t ≠ none)
    (hl : h.history t <+: l) (hground : Grounded τ (h.setHistory t l).history l)
    (hle : ∀ x ∈ l, τ x ≤ t) : HistoryInv τ voters (h.setHistory t l) := by
  have hg := grows_setHistory hl
  have hself : (h.setHistory t l).history t = l := update_self ..
  have hother : ∀ t', t' ≠ t → (h.setHistory t l).history t' = h.history t' :=
    fun t' hne => update_of_ne hne ..
  refine { hh with
    grounded := fun t' => ?_
    history_le := fun t' => ?_
    history_nil := fun t' hw' => ?_
    base_history := fun t' => (hh.base_history t').trans (hg.history t')
    ballot_grounded := fun v' t' c' l' hb => (hh.ballot_grounded v' t' c' l' hb).mono hg.history
    acked_history := fun v' t' p ha =>
      (hh.acked_history v' t' p ha).imp_right fun hp => hp.trans (hg.history t')
    committed_history := fun t' p hc =>
      (hh.committed_history t' p hc).imp_right fun hp => hp.trans (hg.history t') }
  · by_cases hne : t' = t
    · rw [hne, hself]
      exact hground
    · rw [hother t' hne]
      exact (hh.grounded t').mono hg.history
  · by_cases hne : t' = t
    · rw [hne, hself]
      exact hle
    · rw [hother t' hne]
      exact hh.history_le t'
  · have hne : t' ≠ t := by rintro rfl; exact hw hw'
    rw [hother t' hne]
    exact hh.history_nil t' hw'

theorem HistoryInv.winner_ne_none (hl : Grounded τ h.history l)
    (he : e ∈ l) : h.winner (τ e) ≠ none := by
  intro hw
  obtain ⟨p, hp⟩ := hl.of_mem he
  rw [hh.history_nil _ hw] at hp
  simp at hp

/-- A prefix that a voter held when it voted, and that every winner between started with, is in the
log it voted for. -/
theorem HistoryInv.prefix_of_ballot (hb : Grounded τ h.history b)
    (hlt : ∀ x ∈ b, τ x < t) (hl : Grounded τ h.history l) (hup : UpToDate τ b l)
    (hp : p ++ [e] <+: l) (hk : h.Kept (τ e) (p ++ [e]) (· < t)) : p ++ [e] <+: b := by
  refine prefix_of_upToDate hh.history_le hb hl hup hp fun q x hq hex => ?_
  have hx : x ∈ b := by simp [hq]
  exact (hk (τ x) hex (hlt x hx) (hh.winner_ne_none hb hx)).trans (hh.base_history _)

theorem HistoryInv.addWinner (hnone : h.winner t = none)
    (hl : Grounded τ h.history l) (hlt : ∀ x ∈ l, τ x < t)
    (hup : ∀ v l', h.ballot v t c l' → UpToDate τ l l')
    (hq : Majority voters fun v => ∃ l', h.ballot v t c l') :
    HistoryInv τ voters (h.addWinner c t l) := by
  have hg : Grows h (h.addWinner c t l) := grows_addWinner hnone (hh.history_nil t hnone)
  have hhist : (h.addWinner c t l).history t = l := update_self ..
  have hbase : (h.addWinner c t l).base t = l := update_self ..
  have hwin : (h.addWinner c t l).winner t = some c := update_self ..
  have hhist' : ∀ t', t' ≠ t → (h.addWinner c t l).history t' = h.history t' :=
    fun t' hne => update_of_ne hne ..
  have hbase' : ∀ t', t' ≠ t → (h.addWinner c t l).base t' = h.base t' :=
    fun t' hne => update_of_ne hne ..
  have hwin' : ∀ t', t' ≠ t → (h.addWinner c t l).winner t' = h.winner t' :=
    fun t' hne => update_of_ne hne ..
  refine { hh with
    grounded := fun t' => ?_
    history_le := fun t' => ?_
    history_nil := fun t' hw => ?_
    base_history := fun t' => ?_
    base_lt := fun t' => ?_
    ballot_grounded := fun v' t' c' l' hb => (hh.ballot_grounded v' t' c' l' hb).mono hg.history
    ballot_base := fun v' t' c' l' hb hw => ?_
    acked_history := fun v' t' p ha => ?_
    acked_ballot := fun v' t₀ p t' c' l' ha hb hlt' hk =>
      hh.acked_ballot v' t₀ p t' c' l' ha hb hlt' (hg.kept hk fun _ ht => ht)
    committed_history := fun t' p hc => ?_
    complete := fun t₀ p t' hc hlt' hw => ?_ }
  · by_cases hne : t' = t
    · rw [hne, hhist]
      exact hl.mono hg.history
    · rw [hhist' t' hne]
      exact (hh.grounded t').mono hg.history
  · by_cases hne : t' = t
    · rw [hne, hhist]
      exact fun x hx => (hlt x hx).le
    · rw [hhist' t' hne]
      exact hh.history_le t'
  · by_cases hne : t' = t
    · rw [hne, hwin] at hw
      cases hw
    · rw [hwin' t' hne] at hw
      rw [hhist' t' hne]
      exact hh.history_nil t' hw
  · by_cases hne : t' = t
    · rw [hne, hhist, hbase]
    · rw [hhist' t' hne, hbase' t' hne]
      exact hh.base_history t'
  · by_cases hne : t' = t
    · rw [hne, hbase]
      exact hlt
    · rw [hbase' t' hne]
      exact hh.base_lt t'
  · by_cases hne : t' = t
    · rw [hne, hwin] at hw
      cases hw
      rw [hne, hbase]
      exact hup v' l' (hne ▸ hb)
    · rw [hwin' t' hne] at hw
      rw [hbase' t' hne]
      exact hh.ballot_base v' t' c' l' hb hw
  · obtain ⟨hw, hp⟩ := hh.acked_history v' t' p ha
    exact ⟨hg.winner_ne_none hw, hp.trans (hg.history t')⟩
  · obtain ⟨hw, hp⟩ := hh.committed_history t' p hc
    exact ⟨hg.winner_ne_none hw, hp.trans (hg.history t')⟩
  · by_cases hne : t' = t
    · -- the prefix is in the log of a voter that acknowledged it and voted for the new winner
      subst hne
      rw [hbase]
      obtain ⟨q, e, rfl, rfl⟩ := hh.committed_last t₀ p hc
      obtain ⟨v, -, ha, l', hb⟩ := (hh.committed_acked _ _ hc).meet hq
      have hk : h.Kept (τ e) (q ++ [e]) (· < t') := fun t'' ht'' _ hw'' =>
        hh.complete _ _ t'' hc ht'' hw''
      exact hh.prefix_of_ballot hl hlt (hh.ballot_grounded v t' c l' hb) (hup v l' hb)
        (hh.acked_ballot v _ _ t' c l' ha hb hlt' hk) hk
    · rw [hwin' t' hne] at hw
      rw [hbase' t' hne]
      exact hh.complete t₀ p t' hc hlt' hw

theorem HistoryInv.addCommitted (hw : h.winner (τ e) ≠ none) (hp : p ++ [e] <+: h.history (τ e))
    (hq : Majority voters fun v => h.acked v (τ e) (p ++ [e]))
    (hlater : ∀ t', τ e < t' → h.winner t' ≠ none → p ++ [e] <+: h.base t') :
    HistoryInv τ voters (h.addCommitted (τ e) (p ++ [e])) :=
  { hh with
    committed_last := by
      rintro t' q (hc | ⟨rfl, rfl⟩)
      · exact hh.committed_last t' q hc
      · exact ⟨p, e, rfl, rfl⟩
    committed_history := by
      rintro t' q (hc | ⟨rfl, rfl⟩)
      · exact hh.committed_history t' q hc
      · exact ⟨hw, hp⟩
    committed_acked := by
      rintro t' q (hc | ⟨rfl, rfl⟩)
      · exact hh.committed_acked t' q hc
      · exact hq
    complete := by
      rintro t₀ q t' (hc | ⟨rfl, rfl⟩) hlt hw'
      · exact hh.complete t₀ q t' hc hlt hw'
      · exact hlater t' hlt hw' }

end History

/-! ## Steps -/

section Steps

variable {s : State N E} (hs : Inv τ s) {c v : N} {p : List E} {s' : State N E} {e : E}

include hs

theorem Inv.yield {n : Node N E} (hterm : (s.node v).term ≤ n.term)
    (hrole : n.role = .follower) (hlog : n.log = (s.node v).log)
    (hcommit : n.commit = (s.node v).commit)
    (hvote : n.term = (s.node v).term → (s.node v).vote = none ∨ n.vote = (s.node v).vote ∨
      ∃ c, s.winner n.term = some c ∧ n.vote = some c) : Inv τ (s.act v n s.toHistory) := by
  have hn := hs.node v
  refine hs.act (fun w _ => hs.node w) ?_ hs.hist ?_ (fun _ _ _ _ hb => hb) fun _ _ hw => .inl hw
  · refine ⟨hlog ▸ hn.grounded, fun e he => (hn.log_le e (hlog ▸ he)).trans hterm,
      fun hr => by simp [hrole] at hr, fun hr => by simp [hrole] at hr,
      fun t hw hv => (hn.winner_le t hw hv).trans hterm,
      fun t c l hb => (hn.ballot_le t c l hb).imp_right fun h => h.trans hterm, fun c l hb => ?_,
      fun w t l hb => (hn.request_le w t l hb).imp_right fun h => h.trans hterm,
      fun t p ha => (hn.acked_le t p ha).trans hterm, fun t p ha hk => ?_, ?_⟩
    · have heq : n.term = (s.node v).term := (hn.ballot_le _ c l hb).2.antisymm hterm
      obtain ⟨c', hc', hor⟩ := hn.ballot_vote c l (heq ▸ hb)
      obtain hfree | hv | ⟨c'', hw, hv⟩ := hvote heq
      · simp [hfree] at hc'
      · exact ⟨c', hv.trans hc', heq ▸ hor⟩
      · exact ⟨c'', hv, .inr hw⟩
    · -- whoever touched the log before has touched it now
      rw [hlog]
      refine hn.acked_log t p ha (hk.mono ?_)
      rintro t' (hlt | ⟨rfl, c, hc, hv⟩)
      · exact .inl (hlt.trans_le hterm)
      · obtain hlt | heq := hterm.lt_or_eq
        · exact .inl hlt
        · refine .inr ⟨heq, ?_⟩
          obtain hfree | hv' | hw := hvote heq.symm
          · simp [hfree] at hv
          · exact ⟨c, hc, hv'.trans hv⟩
          · rwa [heq]
    · rw [hlog, hcommit]
      refine hn.commit_log.imp_right fun hc => hc.imp_right ?_
      rintro ⟨t, p, hcom, ht, hp⟩
      exact ⟨t, p, hcom, ht.trans hterm, hp⟩
  · rintro - t ⟨hle, -⟩
    exact ⟨hle.trans hterm, fun hr => by simp [hrole] at hr⟩

theorem Inv.timeout (hc : c ∈ s.voters) : Inv τ (s.act c
      { s.node c with term := (s.node c).term + 1, vote := some c, role := .candidate }
      (s.addBallot c ((s.node c).term + 1) c (s.node c).log)) := by
  have hn := hs.node c
  -- the new term is new to the candidate
  have hreq : ∀ w l, ¬ s.ballot w ((s.node c).term + 1) c l := fun w l hb =>
    absurd (hn.request_le w _ l hb).2 (by omega)
  have hown : ∀ c' l, ¬ s.ballot c ((s.node c).term + 1) c' l := fun c' l hb =>
    absurd (hn.ballot_le _ c' l hb).2 (by omega)
  have hwin : s.winner ((s.node c).term + 1) ≠ some c := fun hw =>
    absurd (hn.winner_le _ hw hc) (by omega)
  have htouch : ∀ t', s.Touched (s.node c) t' → t' < (s.node c).term + 1 := by
    rintro t' (hlt | ⟨rfl, -⟩) <;> omega
  refine hs.act (fun w hw => (hs.node w).extend (extends_addBallot hw hw)) ?_ ?_ ?_
    (fun _ _ _ _ hb => .inl hb) fun _ _ hw => .inl hw
  · refine ⟨hn.grounded, fun e he => (hn.log_le e he).trans (le_succ _), nofun,
      fun _ => ⟨hc, rfl, hwin, fun e he => lt_succ_of_le (hn.log_le e he), ?_⟩,
      fun t hw hv => (hn.winner_le t hw hv).trans (le_succ _), ?_, ?_, ?_,
      fun t p ha => (hn.acked_le t p ha).trans (le_succ _),
      fun t p ha hk => hn.acked_log t p ha (hk.mono fun t' ht' => .inl (htouch t' ht')), ?_⟩
    · rintro w l (hb | ⟨-, -, -, rfl⟩)
      · exact absurd hb (hreq w l)
      · exact UpToDate.refl _
    · rintro t c' l (hb | ⟨-, rfl, -, -⟩)
      · exact (hn.ballot_le t c' l hb).imp_right fun h => h.trans (le_succ _)
      · exact ⟨hc, le_rfl⟩
    · rintro c' l (hb | ⟨-, -, rfl, -⟩)
      · exact absurd hb (hown c' l)
      · exact ⟨c', rfl, .inl rfl⟩
    · rintro w t l (hb | ⟨rfl, rfl, -, -⟩)
      · exact (hn.request_le w t l hb).imp_right fun h => h.trans (le_succ _)
      · exact ⟨hc, le_rfl⟩
    · refine hn.commit_log.imp_right fun h => h.imp_right ?_
      rintro ⟨t, p, hcom, ht, hp⟩
      exact ⟨t, p, hcom, ht.trans (le_succ _), hp⟩
  · exact hs.hist.addBallot hn.grounded (fun c' l hb => absurd hb (hown c' l)) hwin
      fun t' p ha _ hk => hn.acked_log t' p ha (hk.mono htouch)
  · rintro - t ⟨hle, -⟩
    exact ⟨hle.trans (le_succ _), fun _ => lt_succ_of_le hle⟩

theorem Inv.grant (hv : v ∈ s.voters) (hne : v ≠ c)
    (hc : (s.node c).role = .candidate) (hterm : (s.node v).term = (s.node c).term)
    (hvote : (s.node v).vote = none ∨ (s.node v).vote = some c)
    (hup : UpToDate τ (s.node c).log (s.node v).log) :
    Inv τ (s.act v { s.node v with vote := some c }
      (s.addBallot v (s.node c).term c (s.node v).log)) := by
  have hn := hs.node v
  have hnc := hs.node c
  obtain ⟨hcv, -, hwin, -, hups⟩ := hnc.candidate hc
  have hvote' : ∀ c', (s.node v).vote = some c' → c' = c := by
    intro c' hv'
    obtain hnone | hsome := hvote
    · simp [hnone] at hv'
    · exact some.inj (hv'.symm.trans hsome)
  -- a vote that `v` gave in this term went to the candidate
  have hown : ∀ c' l, s.ballot v (s.node c).term c' l → c' = c := by
    intro c' l hb
    obtain ⟨c'', hv'', hor⟩ := hn.ballot_vote c' l (hterm ▸ hb)
    obtain rfl := hvote' c'' hv''
    exact hor.elim Eq.symm fun hw => absurd (hterm ▸ hw) hwin
  -- nobody that won this term has touched the log of `v`
  have htouch : ∀ t', s.Touched (s.node v) t' → t' < (s.node c).term := by
    rintro t' (hlt | ⟨rfl, c', hw, hv'⟩)
    · exact hterm ▸ hlt
    · obtain rfl := hvote' c' hv'
      exact absurd (hterm ▸ hw) hwin
  refine hs.act (fun w hw => ?_) ?_ ?_ (fun _ _ hp => hp) (fun _ _ _ _ hb => .inl hb)
    fun _ _ hw => .inl hw
  · by_cases hwc : w = c
    · -- the candidate has one more ballot
      subst hwc
      refine { hnc with
        candidate := fun hr => ⟨hcv, (hnc.candidate hr).2.1, hwin, (hnc.candidate hr).2.2.2.1, ?_⟩
        ballot_le := ?_
        ballot_vote := ?_
        request_le := ?_ }
      · rintro u l (hb | ⟨-, -, -, rfl⟩)
        · exact hups u l hb
        · exact hup
      · rintro t c' l (hb | ⟨h, -⟩)
        · exact hnc.ballot_le t c' l hb
        · exact absurd h hw
      · rintro c' l (hb | ⟨h, -⟩)
        · exact hnc.ballot_vote c' l hb
        · exact absurd h hw
      · rintro u t l (hb | ⟨-, rfl, -, -⟩)
        · exact hnc.request_le u t l hb
        · exact ⟨hcv, le_rfl⟩
    · exact (hs.node w).extend (extends_addBallot hw hwc)
  · refine { hn with
      candidate := fun hr => absurd (hvote' v (hn.candidate hr).2.1) hne
      ballot_le := ?_
      ballot_vote := ?_
      request_le := ?_
      acked_log := fun t p ha hk =>
        hn.acked_log t p ha (hk.mono fun t' ht' => .inl (hterm ▸ htouch t' ht')) }
    · rintro t c' l (hb | ⟨-, rfl, -, -⟩)
      · exact hn.ballot_le t c' l hb
      · exact ⟨hv, hterm.ge⟩
    · rintro c' l (hb | ⟨-, -, rfl, -⟩)
      · exact ⟨c, rfl, .inl (hown c' l (hterm ▸ hb)).symm⟩
      · exact ⟨c', rfl, .inl rfl⟩
    · rintro w t l (hb | ⟨-, -, h, -⟩)
      · exact hn.request_le w t l hb
      · exact absurd h hne
  · exact hs.hist.addBallot hn.grounded hown hwin fun t' p ha _ hk =>
      hn.acked_log t' p ha (hk.mono htouch)

omit [DecidableEq N] in
theorem Inv.winner_eq_none (hc : (s.node c).role = .candidate)
    (hq : Majority s.voters fun v => ∃ l, s.ballot v (s.node c).term c l) :
    s.winner (s.node c).term = none := by
  obtain ⟨hcv, -, hwin, -⟩ := (hs.node c).candidate hc
  by_contra hne
  obtain ⟨c', hc'⟩ := ne_none_iff_exists'.mp hne
  obtain hpast | hwon := hs.won _ c' hc'
  · exact lt_irrefl _ ((hpast c hcv).2 hc)
  · obtain ⟨v, -, ⟨l, hb⟩, l', hb'⟩ := hq.meet hwon
    obtain rfl := hs.hist.ballot_unique v _ c l c' l' hb hb'
    exact hwin hc'

theorem Inv.win (hc : (s.node c).role = .candidate)
    (hq : Majority s.voters fun v => ∃ l, s.ballot v (s.node c).term c l) :
    Inv τ (s.act c { s.node c with role := .leader }
      ((s.addWinner c (s.node c).term (s.node c).log).addAcked c (s.node c).term
        (s.node c).log)) := by
  have hn := hs.node c
  have hnone := hs.winner_eq_none hc hq
  have hnil := hs.hist.history_nil _ hnone
  obtain ⟨hcv, hvote, -, hlt, hup⟩ := hn.candidate hc
  have hg : Grows s.toHistory (s.addWinner c (s.node c).term (s.node c).log) :=
    grows_addWinner hnone hnil
  have hself : (s.addWinner c (s.node c).term (s.node c).log).winner (s.node c).term = some c :=
    update_self ..
  have hhist : (s.addWinner c (s.node c).term (s.node c).log).history (s.node c).term =
      (s.node c).log := update_self ..
  refine hs.act (fun w hw => (hs.node w).extend
    ((extends_addWinner hnone hnil hw).trans (extends_addAcked hw))) ?_ ?_ ?_
    (fun _ _ _ _ hb => hb) ?_
  · refine ⟨hn.grounded.mono hg.history, hn.log_le, fun _ => ⟨hcv, hself, hhist.symm⟩, nofun,
      fun t hw hv => ?_, hn.ballot_le, fun c' l hb => ?_, hn.request_le, ?_, ?_, ?_⟩
    · by_cases hne : t = (s.node c).term
      · exact hne.le
      · exact hn.winner_le t (by simpa [addAcked, addWinner, hne] using hw) hv
    · obtain ⟨c'', hv'', -⟩ := hn.ballot_vote c' l hb
      cases hvote.symm.trans hv''
      exact ⟨c, hv'', .inr hself⟩
    · rintro t p (ha | ⟨-, rfl, -⟩)
      · exact hn.acked_le t p ha
      · exact le_rfl
    · rintro t p (ha | ⟨-, -, hp⟩) hk
      · refine hn.acked_log t p ha (hg.kept hk fun t' ht' => ?_)
        exact hg.touched ht'
      · exact hp
    · exact hn.commit_log
  · refine (hs.hist.addWinner hnone hn.grounded hlt hup hq).addAcked ?_ ?_ ?_
    · exact ne_none_iff_exists'.mpr ⟨c, hself⟩
    · rw [hhist]
    · exact fun t' c' l' hb => (hn.ballot_le t' c' l' hb).2
  · rintro - t ⟨hle, -⟩
    exact ⟨hle, nofun⟩
  · intro t c' hw
    by_cases hne : t = (s.node c).term
    · subst hne
      cases hself.symm.trans hw
      exact .inr hq
    · exact .inl (by simpa [addAcked, addWinner, hne] using hw)

theorem Inv.propose (hc : (s.node c).role = .leader) (he : τ e = (s.node c).term) :
    Inv τ (s.act c { s.node c with log := (s.node c).log ++ [e] }
      ((s.setHistory (s.node c).term ((s.node c).log ++ [e])).addAcked c (s.node c).term
        ((s.node c).log ++ [e]))) := by
  have hn := hs.node c
  obtain ⟨hcv, hw, hlog⟩ := hn.leader hc
  have hl : s.history (s.node c).term <+: (s.node c).log ++ [e] := by
    rw [← hlog]
    exact prefix_append _ _
  have hg : Grows s.toHistory (s.setHistory (s.node c).term ((s.node c).log ++ [e])) :=
    grows_setHistory hl
  have hself : (s.setHistory (s.node c).term ((s.node c).log ++ [e])).history (s.node c).term =
      (s.node c).log ++ [e] := update_self ..
  have hground : Grounded τ (s.setHistory (s.node c).term ((s.node c).log ++ [e])).history
      ((s.node c).log ++ [e]) :=
    (hn.grounded.mono hg.history).concat (by rw [he, hself])
  have hle : ∀ x ∈ (s.node c).log ++ [e], τ x ≤ (s.node c).term := by
    intro x hx
    obtain hx | hx := mem_append.mp hx
    · exact hn.log_le x hx
    · rw [mem_singleton.mp hx, he]
  have hwne : s.winner (s.node c).term ≠ none := ne_none_iff_exists'.mpr ⟨c, hw⟩
  refine hs.act (fun w hne => (hs.node w).extend ((extends_setHistory hl fun hw' =>
    hne (some.inj (hw'.symm.trans hw))).trans (extends_addAcked hne))) ?_ ?_
    (fun _ _ hp => hp) (fun _ _ _ _ hb => hb) fun _ _ hw' => .inl hw'
  · refine ⟨hground, hle, fun _ => ⟨hcv, hw, hself.symm⟩, fun hr => by simp [hc] at hr,
      hn.winner_le, hn.ballot_le, hn.ballot_vote, hn.request_le, ?_, ?_, ?_, ?_⟩
    · rintro t p (ha | ⟨-, rfl, -⟩)
      · exact hn.acked_le t p ha
      · exact le_rfl
    · rintro t p (ha | ⟨-, -, hp⟩) hk
      · exact (hn.acked_log t p ha hk).trans (prefix_append _ _)
      · exact hp
    · exact hn.commit_log.1.trans (by simp)
    · dsimp only
      rw [take_append_of_le_length hn.commit_log.1]
      exact hn.commit_log.2
  · exact (hs.hist.setHistory hwne hl hground hle).addAcked hwne (by rw [hself])
      fun t' c' l' hb => (hn.ballot_le t' c' l' hb).2

theorem Inv.accept {l log : List E}
    (hrole : (s.node v).role = .follower) (hc : s.winner (s.node v).term = some c)
    (hvote : (s.node v).vote = some c) (hl : l <+: s.history (s.node v).term)
    (hlog : log = (s.node v).log ∧ l <+: (s.node v).log ∨ log = l ∧ ¬ l <+: (s.node v).log) :
    Inv τ (s.act v { s.node v with log := log } (s.addAcked v (s.node v).term l)) := by
  have hn := hs.node v
  have hh := hs.hist
  have hw : s.winner (s.node v).term ≠ none := ne_none_iff_exists'.mpr ⟨c, hc⟩
  -- what the node holds of the winner's log it keeps
  have hkeep : ∀ p, p <+: (s.node v).log → p <+: s.history (s.node v).term → p <+: log := by
    intro p hp hp'
    obtain ⟨rfl, -⟩ | ⟨rfl, hnot⟩ := hlog
    · exact hp
    · exact prefix_of_not_covered hp' hl hp hnot
  have hl' : l <+: log := by
    obtain ⟨rfl, hp⟩ | ⟨rfl, -⟩ := hlog
    · exact hp
    · exact prefix_refl _
  refine hs.act (fun w hne => (hs.node w).extend (extends_addAcked hne)) ?_
    (hh.addAcked hw hl fun t' c' l' hb => (hn.ballot_le t' c' l' hb).2) (fun _ _ hp => hp)
    (fun _ _ _ _ hb => hb) fun _ _ hw' => .inl hw'
  refine ⟨?_, ?_, fun hr => by simp [hrole] at hr, fun hr => by simp [hrole] at hr,
    hn.winner_le, hn.ballot_le, hn.ballot_vote, hn.request_le, ?_, ?_, ?_⟩
  · obtain ⟨rfl, -⟩ | ⟨rfl, -⟩ := hlog
    · exact hn.grounded
    · exact (hh.grounded _).initial hl
  · obtain ⟨rfl, -⟩ | ⟨rfl, -⟩ := hlog
    · exact hn.log_le
    · exact fun e he => hh.history_le _ e (hl.subset he)
  · rintro t p (ha | ⟨-, rfl, -⟩)
    · exact hn.acked_le t p ha
    · exact le_rfl
  · rintro t p (ha | ⟨-, -, hp⟩) hk
    · refine hkeep p (hn.acked_log t p ha hk) ?_
      obtain hlt | rfl := (hn.acked_le t p ha).lt_or_eq
      · exact (hk _ hlt (.inr ⟨rfl, c, hc, hvote⟩) hw).trans (hh.base_history _)
      · exact (hh.acked_history v _ p ha).2
    · exact hp.trans hl'
  · obtain ⟨hle, hzero | ⟨t, p, hcom, ht, hp⟩⟩ := hn.commit_log
    · exact ⟨by simp [hzero], .inl hzero⟩
    · have hhist : p <+: s.history (s.node v).term := by
        obtain hlt | rfl := ht.lt_or_eq
        · exact (hh.complete t p _ hcom hlt hw).trans (hh.base_history _)
        · exact (hh.committed_history _ p hcom).2
      have hq := hkeep _ ( take_prefix _ _) (hp.trans hhist)
      have hlen : ((s.node v).log.take (s.node v).commit).length = (s.node v).commit :=
        length_take_of_le hle
      refine ⟨hlen ▸ hq.length_le, .inr ⟨t, p, hcom, ht, ?_⟩⟩
      rw [prefix_iff_eq_take, hlen] at hq
      exact hq ▸ hp

omit [DecidableEq N] in
theorem Inv.prefix_base (hc : c ∈ s.voters)
    (hterm : (s.node c).term = τ e) (hq : Majority s.voters fun v => s.acked v (τ e) (p ++ [e])) :
    ∀ t, τ e < t → s.winner t ≠ none → p ++ [e] <+: s.base t := by
  intro t
  induction t using Nat.strong_induction_on with
  | _ t ih =>
    intro hlt hw
    obtain ⟨w, hw⟩ := ne_none_iff_exists'.mp hw
    obtain hpast | hwon := hs.won t w hw
    · exact absurd (hpast c hc).1 (by omega)
    obtain ⟨v, -, hack, l, hb⟩ := hq.meet hwon
    have hk : s.Kept (τ e) (p ++ [e]) (· < t) := fun t' hlt' ht' hw' => ih t' ht' hlt' hw'
    exact hs.hist.prefix_of_ballot ((hs.hist.grounded t).initial (hs.hist.base_history t))
      (hs.hist.base_lt t) (hs.hist.ballot_grounded v t w l hb) (hs.hist.ballot_base v t w l hb hw)
      (hs.hist.acked_ballot v _ _ t w l hack hb hlt hk) hk

theorem Inv.commit (hc : (s.node c).role = .leader)
    (hp : p ++ [e] <+: (s.node c).log) (he : τ e = (s.node c).term)
    (hq : Majority s.voters fun v => s.acked v (s.node c).term (p ++ [e])) :
    Inv τ (s.act c { s.node c with commit := (p ++ [e]).length }
      (s.addCommitted (s.node c).term (p ++ [e]))) := by
  have hn := hs.node c
  obtain ⟨hcv, hw, hlog⟩ := hn.leader hc
  have hwne : s.winner (s.node c).term ≠ none := ne_none_iff_exists'.mpr ⟨c, hw⟩
  have hx : ∀ w, Extends w s.toHistory (s.addCommitted (s.node c).term (p ++ [e])) := fun w =>
    { Extends.refl w s.toHistory with committed := grows_addCommitted.committed }
  refine hs.act (fun w _ => (hs.node w).extend (hx w))
    { hn.extend (hx c) with commit_log := ⟨hp.length_le, .inr ⟨_, _, .inr ⟨rfl, rfl⟩, le_rfl, ?_⟩⟩ }
    ?_ (fun _ _ h => h) (fun _ _ _ _ hb => hb) fun _ _ hw' => .inl hw'
  · rw [← prefix_iff_eq_take.mp hp]
  · rw [← he] at hq hwne hlog ⊢
    exact hs.hist.addCommitted hwne (hlog ▸ hp) hq (hs.prefix_base hcv he.symm hq)

theorem Inv.learn {i t : ℕ}
    (hi : i ≤ (s.node v).log.length) (hp : s.committed t p) (ht : t ≤ (s.node v).term)
    (hlog : (s.node v).log.take i <+: p) :
    Inv τ (s.act v { s.node v with commit := i } s.toHistory) :=
  hs.act (fun w _ => hs.node w) { hs.node v with commit_log := ⟨hi, .inr ⟨t, p, hp, ht, hlog⟩⟩ }
    hs.hist (fun _ _ h => h) (fun _ _ _ _ hb => hb) fun _ _ hw => .inl hw

theorem Inv.stream {d : N} (hd : d ∉ s.voters) :
    Inv τ (s.act d { s.node v with vote := none, role := .follower }
      (s.setAcked d fun t p =>
        (s.node v).role = .leader ∧ t = (s.node v).term ∧ p <+: (s.node v).log)) := by
  have hn := hs.node v
  have hh := hs.hist
  have hself : ∀ A : ℕ → List E → Prop, (s.setAcked d A).acked d = A :=
    fun A => update_self ..
  have hother : ∀ (A : ℕ → List E → Prop) w, w ≠ d → (s.setAcked d A).acked w = s.acked w :=
    fun A w hne => update_of_ne hne ..
  -- a node without a vote has granted and requested nothing
  have hgrant : ∀ t c l, ¬ s.ballot d t c l := fun t c l hb => hd ((hs.node d).ballot_le t c l hb).1
  have hrequest : ∀ w t l, ¬ s.ballot w t d l := fun w t l hb =>
    hd ((hs.node d).request_le w t l hb).1
  refine hs.act (fun w hne => (hs.node w).extend
      { Extends.refl w s.toHistory with acked := fun t p ha => ?_ }) ?_ ?_
    (fun h => absurd h hd) (fun _ _ _ _ hb => hb) fun _ _ hw => .inl hw
  · rwa [hother _ w hne] at ha
  · refine ⟨hn.grounded, hn.log_le, nofun, nofun, fun t _ h => absurd h hd,
      fun t c l hb => absurd hb (hgrant t c l), fun c l hb => absurd hb (hgrant _ c l),
      fun w t l hb => absurd hb (hrequest w t l), fun t p ha => ?_, fun t p ha _ => ?_,
      hn.commit_log⟩
    · rw [hself] at ha
      exact ha.2.1.le
    · rw [hself] at ha
      exact ha.2.2
  · refine { hh with
      acked_history := fun w t p ha => ?_
      acked_ballot := fun w t p t' c l ha hb hlt hk => ?_
      committed_acked := fun t p hc => (hh.committed_acked t p hc).mono fun w hw ha => ?_ }
    · by_cases hne : w = d
      · subst hne
        rw [hself] at ha
        obtain ⟨hr, rfl, hp⟩ := ha
        obtain ⟨-, hw, hlog⟩ := hn.leader hr
        exact ⟨ne_none_iff_exists'.mpr ⟨v, hw⟩, hlog ▸ hp⟩
      · rw [hother _ w hne] at ha
        exact hh.acked_history w t p ha
    · have hne : w ≠ d := by rintro rfl; exact hgrant t' c l hb
      rw [hother _ w hne] at ha
      exact hh.acked_ballot w t p t' c l ha hb hlt hk
    · have hne : w ≠ d := fun h => hd (h ▸ hw)
      rw [hother _ w hne]
      exact ha

omit [DecidableEq N] in
theorem Inv.reconfigure {voters : List N}
    (hrole : ∀ v, (s.node v).role = .follower ∨ (s.node v).role = .leader ∧ v ∈ voters)
    (hterm : ∀ v ∈ voters, ∀ t, s.winner t ≠ none → t ≤ (s.node v).term)
    (hlog : ∀ t p, s.committed t p → Majority voters fun v => p <+: (s.node v).log) :
    Inv τ (s.reconfigure voters) where
  node v := by
    have hn := hs.node v
    refine ⟨hn.grounded, hn.log_le, fun hr => ?_, fun hr => ?_, fun t hw hv => ?_, nofun, nofun,
      nofun, ?_, ?_, hn.commit_log⟩
    · obtain h | h := hrole v
      · simp [State.reconfigure, h] at hr
      · exact ⟨h.2, (hn.leader hr).2⟩
    · obtain h | h := hrole v <;> simp [State.reconfigure, h] at hr
    · exact hterm v hv t (ne_none_iff_exists'.mpr ⟨v, hw⟩)
    · rintro t p (ha | ⟨hv, hc, -⟩)
      · exact hn.acked_le t p ha
      · exact hterm v hv t (hs.hist.committed_history t p hc).1
    · rintro t p (ha | ⟨-, -, hp⟩) hk
      · exact hn.acked_log t p ha hk
      · exact hp
  hist :=
    { hs.hist with
      ballot_grounded := nofun
      ballot_unique := nofun
      ballot_base := nofun
      acked_history := by
        rintro v t p (ha | ⟨-, hc, -⟩)
        · exact hs.hist.acked_history v t p ha
        · exact hs.hist.committed_history t p hc
      acked_ballot := nofun
      committed_acked := fun t p hc => (hlog t p hc).mono fun v hv hp => .inr ⟨hv, hc, hp⟩ }
  won t c hw := by
    refine .inl fun v hv => ⟨hterm v hv t (ne_none_iff_exists'.mpr ⟨c, hw⟩), fun hr => ?_⟩
    obtain h | h := hrole v <;> simp [State.reconfigure, h] at hr

omit hs in
theorem Step.inv (h : Step τ s s') (hs : Inv τ s) : Inv τ s' := by
  cases h with
  | yield v n hterm hrole hlog hcommit hvote => exact hs.yield hterm hrole hlog hcommit hvote
  | timeout c hc => exact hs.timeout hc
  | grant v c hv hne hc hterm hvote hup => exact hs.grant hv hne hc hterm hvote hup
  | win c hc hq => exact hs.win hc hq
  | propose c e hc he => exact hs.propose hc he
  | accept v c l log hrole hc hvote hl hlog => exact hs.accept hrole hc hvote hl hlog
  | commit c p e hc _ hp he hq => exact hs.commit hc hp he hq
  | learn v i t p _ hi hp ht hlog => exact hs.learn hi hp ht hlog

omit hs in
theorem Change.inv (h : Change s s') (hs : Inv τ s) : Inv τ s' := by
  cases h with
  | stream v d hd => exact hs.stream hd
  | reconfigure voters hrole hterm hlog => exact hs.reconfigure hrole hterm hlog

end Steps

end RaftLib
