import Mathlib.Algebra.Order.BigOperators.Group.List
import Mathlib.Logic.Relation
import Residiuum.Lib.Raft.Invariant

/-!
# What the protocol guarantees

What was won and committed stays so along every run, and in every state that satisfies the
invariant the committed prefixes form a chain that later leaders and a majority of the voters hold.

* **`Inv.committed_comparable`**: two committed prefixes agree.
* **`Inv.leader_contains`**: a leader has what was committed before its term.
* **`Inv.committed_stored`**: a majority of the voters has every committed prefix.
* **`Inv.commit_agree`**: two nodes agree as far as both know to be committed.
-/

namespace RaftLib

open List

variable {N E : Type} {τ : E → ℕ} {s s' : State N E}

/-! ## Runs -/

section Runs

variable [DecidableEq N]

variable (τ) in
abbrev Steps : State N E → State N E → Prop := Relation.ReflTransGen (Step τ)

omit [DecidableEq N] in
theorem Inv.init (voters : List N) : Inv τ (State.init (N := N) (E := E) voters) where
  node _ := ⟨.nil, nofun, nofun, nofun, nofun, nofun, nofun, nofun, nofun, nofun, le_rfl, .inl rfl⟩
  hist := ⟨fun _ => .nil, nofun, fun _ _ => rfl, fun _ => prefix_refl _, nofun, nofun, nofun,
    nofun, nofun, nofun, nofun, nofun, nofun, nofun⟩
  won := nofun

theorem Step.grows (h : Step τ s s') (hs : Inv τ s) : Grows s.toHistory s'.toHistory := by
  cases h with
  | yield | timeout | grant | accept | learn =>
    exact ⟨fun _ _ hw => hw, fun _ _ => rfl, fun _ => prefix_refl _, fun _ _ hc => hc⟩
  | win c hc hq =>
    have hnone := hs.winner_eq_none hc hq
    exact (grows_addWinner hnone (hs.hist.history_nil _ hnone)).trans grows_addAcked
  | propose c e hc he =>
    refine (grows_setHistory ?_).trans grows_addAcked
    rw [← ((hs.node c).leader hc).2.2]
    exact prefix_append _ _
  | commit => exact grows_addCommitted

theorem Change.grows (h : Change s s') : Grows s.toHistory s'.toHistory := by
  cases h with
  | stream | reconfigure =>
    exact ⟨fun _ _ hw => hw, fun _ _ => rfl, fun _ => prefix_refl _, fun _ _ hc => hc⟩

theorem Steps.inv (h : Steps τ s s') (hs : Inv τ s) : Inv τ s' := by
  induction h with
  | refl => exact hs
  | tail _ hstep ih => exact hstep.inv ih

theorem Steps.grows (h : Steps τ s s') (hs : Inv τ s) : Grows s.toHistory s'.toHistory := by
  induction h with
  | refl => exact Grows.refl _
  | tail hsteps hstep ih => exact ih.trans (hstep.grows (Steps.inv hsteps hs))

variable (τ) in
/-- Any number of steps and changes of the voters. -/
abbrev Moves : State N E → State N E → Prop :=
  Relation.ReflTransGen fun s s' => Step τ s s' ∨ Change s s'

theorem Steps.moves (h : Steps τ s s') : Moves τ s s' := by
  have hle : Step τ ≤ fun s s' : State N E => Step τ s s' ∨ Change s s' :=
    fun _ _ hstep => .inl hstep
  exact Relation.ReflTransGen.mono hle s s' h

theorem Moves.inv (h : Moves τ s s') (hs : Inv τ s) : Inv τ s' := by
  induction h with
  | refl => exact hs
  | tail _ hmove ih => exact hmove.elim (fun hstep => hstep.inv ih) fun hchange => hchange.inv ih

theorem Moves.grows (h : Moves τ s s') (hs : Inv τ s) : Grows s.toHistory s'.toHistory := by
  induction h with
  | refl => exact Grows.refl _
  | tail hmoves hmove ih =>
    exact ih.trans (hmove.elim (fun hstep => hstep.grows (Moves.inv hmoves hs)) Change.grows)

end Runs

/-! ## States -/

section States

variable {t t' : ℕ} {p p' : List E} {v w : N} (hs : Inv τ s) {i : ℕ}

include hs

theorem Inv.committed_history_of_le (hp : s.committed t p) (hle : t ≤ t')
    (hw : s.winner t' ≠ none) : p <+: s.history t' := by
  obtain hlt | rfl := hle.lt_or_eq
  · exact (hs.hist.complete t p t' hp hlt hw).trans (hs.hist.base_history t')
  · exact (hs.hist.committed_history t p hp).2

theorem Inv.committed_comparable (hp : s.committed t p) (hp' : s.committed t' p') :
    p <+: p' ∨ p' <+: p := by
  obtain hle | hle := le_total t t'
  · obtain ⟨hw, hhist⟩ := hs.hist.committed_history t' p' hp'
    exact prefix_or_prefix_of_prefix (hs.committed_history_of_le hp hle hw) hhist
  · obtain ⟨hw, hhist⟩ := hs.hist.committed_history t p hp
    exact prefix_or_prefix_of_prefix hhist (hs.committed_history_of_le hp' hle hw)

theorem Inv.leader_contains (hrole : (s.node v).role = .leader)
    (hp : s.committed t p) (hle : t ≤ (s.node v).term) : p <+: (s.node v).log := by
  obtain ⟨-, hw, hlog⟩ := (hs.node v).leader hrole
  rw [hlog]
  exact hs.committed_history_of_le hp hle (Option.ne_none_iff_exists'.mpr ⟨v, hw⟩)

theorem Inv.committed_stored (hp : s.committed t p) :
    Majority s.voters fun v => p <+: (s.node v).log :=
  (hs.hist.committed_acked t p hp).mono fun v _ ha =>
    (hs.node v).acked_log t p ha fun t' hlt _ hw => hs.hist.complete t p t' hp hlt hw

theorem Inv.take_commit (hi : i ≤ (s.node v).commit) (hpos : 0 < i) :
    ∃ t p, s.committed t p ∧ t ≤ (s.node v).term ∧ (s.node v).log.take i <+: p := by
  obtain ⟨-, hzero | ⟨t, p, hp, ht, hlog⟩⟩ := (hs.node v).commit_log
  · omega
  · exact ⟨t, p, hp, ht, (take_prefix_take_left hi).trans hlog⟩

theorem Inv.commit_agree (hi : i ≤ (s.node v).commit)
    (hi' : i ≤ (s.node w).commit) : (s.node v).log.take i = (s.node w).log.take i := by
  obtain rfl | hpos := i.eq_zero_or_pos
  · rfl
  obtain ⟨t, p, hp, -, hlog⟩ := hs.take_commit hi hpos
  obtain ⟨t', p', hp', -, hlog'⟩ := hs.take_commit hi' hpos
  have hlen : ∀ u, i ≤ (s.node u).commit → ((s.node u).log.take i).length = i := fun u hu =>
    length_take_of_le (hu.trans (hs.node u).commit_log.1)
  obtain ⟨q, hq, hq'⟩ : ∃ q, (s.node v).log.take i <+: q ∧ (s.node w).log.take i <+: q := by
    obtain h | h := hs.committed_comparable hp hp'
    · exact ⟨p', hlog.trans h, hlog'⟩
    · exact ⟨p, hlog, hlog'.trans h⟩
  refine (prefix_of_prefix_length_le hq hq' ?_).eq_of_length ?_
  all_goals rw [hlen v hi, hlen w hi']

theorem Inv.take_eq_take (hs' : Inv τ s') (hg : ∀ t p, s.committed t p → s'.committed t p)
    (hcommit : (s'.node v).commit = (s.node v).commit) :
    (s'.node v).log.take (s.node v).commit = (s.node v).log.take (s.node v).commit := by
  obtain hzero | hpos := (s.node v).commit.eq_zero_or_pos
  · rw [hzero, take_zero, take_zero]
  obtain ⟨t, p, hp, -, hlog⟩ := hs.take_commit le_rfl hpos
  obtain ⟨t', p', hp', -, hlog'⟩ := hs'.take_commit hcommit.ge hpos
  obtain ⟨q, hq, hq'⟩ : ∃ q, (s.node v).log.take (s.node v).commit <+: q ∧
      (s'.node v).log.take (s.node v).commit <+: q := by
    obtain h | h := hs'.committed_comparable (hg t p hp) hp'
    · exact ⟨p', hlog.trans h, hlog'⟩
    · exact ⟨p, hlog, hlog'.trans h⟩
  have hlen : ((s.node v).log.take (s.node v).commit).length = (s.node v).commit :=
    length_take_of_le (hs.node v).commit_log.1
  have hlen' : ((s'.node v).log.take (s.node v).commit).length = (s.node v).commit :=
    length_take_of_le (hcommit ▸ (hs'.node v).commit_log.1)
  exact (prefix_of_prefix_length_le hq' hq (hlen'.trans hlen.symm).le).eq_of_length
    (hlen'.trans hlen.symm)

theorem Inv.log_matching {e e' : E} (he : (s.node v).log[i]? = some e)
    (he' : (s.node w).log[i]? = some e') (hterm : τ e = τ e') :
    (s.node v).log.take (i + 1) = (s.node w).log.take (i + 1) :=
  (hs.node v).grounded.matching (hs.node w).grounded he he' hterm

end States

/-! ## What nodes know -/

section Known

variable [DecidableEq N] {t : ℕ} {p : List E}

/-- Some voter knows the prefix to be committed. -/
def Known (s : State N E) (p : List E) : Prop :=
  ∃ v ∈ s.voters, p <+: (s.node v).log ∧ p.length ≤ (s.node v).commit

theorem Step.voters_eq (h : Step τ s s') : s'.voters = s.voters := by
  cases h <;> rfl

theorem Step.keeps (h : Step τ s s') (hs : Inv τ s) (v : N) :
    (s.node v).commit ≤ (s'.node v).commit ∧
      (s.node v).log.take (s.node v).commit <+: (s'.node v).log := by
  have hg := (h.grows hs).committed
  have hs' := h.inv hs
  -- the acting node keeps its commit index or its log
  have hact : ∀ u n h', s' = s.act u n h' → (n.commit = (s.node u).commit ∨
      n.log = (s.node u).log ∧ (s.node u).commit ≤ n.commit) →
      (s.node v).commit ≤ (s'.node v).commit ∧
        (s.node v).log.take (s.node v).commit <+: (s'.node v).log := by
    rintro u n h' rfl hn
    by_cases hv : v = u
    · subst hv
      obtain hcommit | ⟨hlog, hle⟩ := hn
      · have heq : ((s.act v n h').node v).commit = (s.node v).commit := by
          rw [s.act_node_self, hcommit]
        refine ⟨heq.ge, ?_⟩
        rw [← hs.take_eq_take hs' hg heq]
        exact take_prefix _ _
      · rw [s.act_node_self]
        exact ⟨hle, hlog ▸ take_prefix _ _⟩
    · rw [s.act_node_of_ne n h' hv]
      exact ⟨le_rfl, take_prefix _ _⟩
  cases h with
  | yield u n _ _ _ hcommit => exact hact u n _ rfl (.inl hcommit)
  | timeout | grant | win | propose | accept => exact hact _ _ _ rfl (.inl rfl)
  | commit c p e _ hle => exact hact c _ _ rfl (.inr ⟨rfl, hle⟩)
  | learn u i t p hle => exact hact u _ _ rfl (.inr ⟨rfl, hle⟩)

theorem Step.known (h : Step τ s s') (hs : Inv τ s) (hp : Known s p) : Known s' p := by
  obtain ⟨v, hv, hlog, hlen⟩ := hp
  obtain ⟨hle, hkeep⟩ := h.keeps hs v
  exact ⟨v, h.voters_eq ▸ hv, (prefix_take_iff.mpr ⟨hlog, hlen⟩).trans hkeep, hlen.trans hle⟩

theorem Step.known_of_committed (h : Step τ s s') (hs : Inv τ s) (hp : s'.committed t p) :
    s.committed t p ∨ Known s' p := by
  cases h with
  | yield | timeout | grant | win | propose | accept | learn => exact .inl hp
  | commit c q e hc _ hq =>
    obtain hp | ⟨-, rfl⟩ := hp
    · exact .inl hp
    · refine .inr ⟨c, ((hs.node c).leader hc).1, ?_, ?_⟩
      · rw [s.act_node_self]
        exact hq
      · rw [s.act_node_self]

theorem Steps.known_of_committed (h : Steps τ s s') (hs : Inv τ s) (hp : s'.committed t p) :
    s.committed t p ∨ Known s' p := by
  induction h with
  | refl => exact .inl hp
  | tail hsteps hstep ih =>
    obtain hp | hknown := hstep.known_of_committed (Steps.inv hsteps hs) hp
    · exact (ih hp).imp_right (hstep.known (Steps.inv hsteps hs))
    · exact .inr hknown

end Known

end RaftLib
