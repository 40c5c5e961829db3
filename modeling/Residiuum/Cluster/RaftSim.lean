import Residiuum.Cluster.RaftPeers
import Residiuum.Lib.Raft.Safety

/-!
# The group runs the replication protocol

What a peer does with a request is a sequence of steps of the protocol. The state of the protocol
beside a group keeps what has happened; the maps of a leader say what was acknowledged.

* **`Sim.requestVote`**: a vote request is answered by protocol steps.
* **`Sim.appendEntries`**: so is a part of the leader's log.
-/

namespace Residiuum.Cluster

open List LogEntry Option PartitionRaft RaftLib RaftPeer

/-! ## Logs -/

/-- The entry at position `i` has index `i + 1`. -/
def Indexed (log : List LogEntry) : Prop := ∀ i e, log[i]? = some e → e.index = i + 1

namespace Indexed

variable {log l : List LogEntry} {e : LogEntry}

theorem nil : Indexed [] := by
  intro i e h
  simp at h

theorem of_append (h : Indexed (log ++ l)) : Indexed log := by
  intro i e he
  have hlt : i < log.length := (List.getElem?_eq_some_iff.mp he).1
  exact h i e (by rw [getElem?_append_left hlt, he])

theorem initial (h : Indexed log) (hl : l <+: log) : Indexed l := by
  obtain ⟨t, rfl⟩ := hl
  exact h.of_append

theorem concat (h : Indexed log) (he : e.index = log.length + 1) : Indexed (log ++ [e]) := by
  intro i x hx
  obtain hlt | hge := Nat.lt_or_ge i log.length
  · rw [getElem?_append_left hlt] at hx
    exact h i x hx
  · rw [getElem?_append_right hge] at hx
    obtain ⟨hi, rfl⟩ := List.getElem?_eq_some_iff.mp hx
    simp only [length_singleton] at hi
    have : i = log.length := by omega
    subst this
    simpa using he

theorem lastIndex_eq (h : Indexed log) : lastIndex log = log.length := by
  obtain rfl | ⟨p, e, rfl⟩ := eq_nil_or_concat' log
  · rfl
  · have := h p.length e (by simp)
    simp [lastIndex, this]

theorem entryAtPos (h : Indexed log) {i : ℕ} (he : entryAtPos log i = some e) : e.index = i := by
  unfold Cluster.entryAtPos at he
  split at he
  · cases he
  · have := h (i - 1) e he
    omega

end Indexed

/-! ## The state of the protocol -/

/-- What the protocol sees of a peer. -/
def RaftPeer.node (p : RaftPeer) : Node NodeId LogEntry :=
  ⟨p.currentTerm, p.votedFor, p.role, p.log, p.commitIndex⟩

/-- What the protocol sees of a node; a missing peer is a new one. -/
def PartitionRaft.node (g : PartitionRaft) (v : NodeId) : Node NodeId LogEntry :=
  match g.peers v with
  | some p => p.node
  | none => ⟨0, none, .follower, [], 0⟩

/-- What a leader knows of its followers was acknowledged to it. -/
structure LeaderSim (A : State NodeId LogEntry) (v : NodeId) (p : RaftPeer) : Prop where
  vote : p.votedFor = some v
  next : ∀ f n, p.nextIndex f = some n → 1 ≤ n ∧ n ≤ p.log.length + 1
  matched : ∀ f m, p.matchIndex f = some m → m ≤ p.log.length ∧
    ∀ i, 0 < i → i ≤ m → A.acked f p.currentTerm (p.log.take i)
  own : ∀ i, 0 < i → i ≤ p.log.length → A.acked v p.currentTerm (p.log.take i)

/-- A group and a state of the protocol agree. -/
structure Sim (g : PartitionRaft) (A : State NodeId LogEntry) : Prop where
  inv : Inv LogEntry.term A
  voters : A.voters = g.voters
  node : ∀ v, A.node v = g.node v
  known : ∀ v ∈ g.voters, g.peers v ≠ none
  indexed : ∀ t, Indexed (A.history t)
  id : ∀ v p, g.peers v = some p → p.nodeId = v
  leader : ∀ v p, g.peers v = some p → p.role = .leader → LeaderSim A v p

variable {g : PartitionRaft} {A : State NodeId LogEntry} {v : NodeId} {p p' : RaftPeer}

namespace PartitionRaft

theorem node_eq (h : g.peers v = some p) : g.node v = p.node := by
  rw [node, h]

end PartitionRaft

namespace Sim

section

variable (hs : Sim g A) {h : RaftLib.History NodeId LogEntry}

include hs

theorem flush : Sim g.flushPeer.2 A :=
  ⟨hs.inv, hs.voters, hs.node, hs.known, hs.indexed, hs.id, hs.leader⟩

theorem node_of_peer (hp : g.peers v = some p) : A.node v = p.node :=
  (hs.node v).trans (node_eq hp)

theorem commit_le_length (hp : g.peers v = some p) : p.commitIndex ≤ p.log.length := by
  have hlen := (hs.inv.node v).commit_log.1
  rwa [hs.node_of_peer hp] at hlen

theorem indexed_log (hp : g.peers v = some p) : Indexed p.log := by
  obtain hnil | ⟨q, e, hq⟩ := eq_nil_or_concat' p.log
  · rw [hnil]
    exact .nil
  · have hground := (hs.inv.node v).grounded
    rw [hs.node_of_peer hp] at hground
    have hpre : p.log <+: A.history e.term := hq ▸ hground q e (by simp [RaftPeer.node, hq])
    exact (hs.indexed _).initial hpre

theorem actLeaders (hinv : Inv term (A.act v p'.node h)) (hid : p'.nodeId = v)
    (hindexed : ∀ t, Indexed (h.history t))
    (hothers : ∀ w q, w ≠ v → g.peers w = some q → q.role = .leader →
      LeaderSim (A.act v p'.node h) w q)
    (hleader : p'.role = .leader → LeaderSim (A.act v p'.node h) v p') :
    Sim (g.setPeer v p') (A.act v p'.node h) where
  inv := hinv
  voters := hs.voters
  node w := by
    by_cases hw : w = v
    · subst hw
      rw [node_eq (g.setPeer_self w p'), A.act_node_self]
    · have : (g.setPeer v p').node w = g.node w := by
        rw [PartitionRaft.node, PartitionRaft.node, g.setPeer_of_ne p' hw]
      rw [this, ← hs.node w, A.act_node_of_ne _ _ hw]
  known w hw := by
    by_cases hv : w = v
    · subst hv
      simp
    · rw [g.setPeer_of_ne p' hv]
      exact hs.known w hw
  indexed := hindexed
  id w q hq := by
    by_cases hw : w = v
    · subst hw
      rw [g.setPeer_self] at hq
      cases hq
      exact hid
    · rw [g.setPeer_of_ne p' hw] at hq
      exact hs.id w q hq
  leader w q hq hr := by
    by_cases hw : w = v
    · subst hw
      rw [g.setPeer_self] at hq
      cases hq
      exact hleader hr
    · rw [g.setPeer_of_ne p' hw] at hq
      exact hothers w q hw hq hr

/-- **How a step of a peer is followed**: acknowledgements are not lost, and a leader knows what was
acknowledged. -/
theorem act (hinv : Inv term (A.act v p'.node h)) (hid : p'.nodeId = v)
    (hindexed : ∀ t, Indexed (h.history t)) (hacked : ∀ w t q, A.acked w t q → h.acked w t q)
    (hleader : p'.role = .leader → LeaderSim (A.act v p'.node h) v p') :
    Sim (g.setPeer v p') (A.act v p'.node h) := by
  refine hs.actLeaders hinv hid hindexed (fun w q _ hq hr => ?_) hleader
  have hl := hs.leader w q hq hr
  refine ⟨hl.vote, hl.next, fun f m hm => ?_, fun i hi hle => hacked _ _ _ (hl.own i hi hle)⟩
  exact (hl.matched f m hm).imp_right fun h i hi hle => hacked _ _ _ (h i hi hle)

end

end Sim

/-! ## Calls without a new winner -/

/-- Steps in which no term is won and nobody becomes a leader or a candidate. -/
structure Calm (A A' : State NodeId LogEntry) : Prop where
  steps : Steps LogEntry.term A A'
  winner : A'.winner = A.winner
  leader : ∀ w, (A'.node w).role = .leader →
    (A.node w).role = .leader ∧ (A'.node w).term = (A.node w).term
  candidate : ∀ w, (A'.node w).role = .candidate → (A.node w).role = .candidate
  ballot : ∀ w t c l, A.ballot w t c l → A'.ballot w t c l
  acked : ∀ w t q, A.acked w t q → A'.acked w t q
  term : ∀ w, (A.node w).term ≤ (A'.node w).term

namespace Calm

variable {A' A'' : State NodeId LogEntry} {n : Node NodeId LogEntry}
  {h : RaftLib.History NodeId LogEntry}

theorem refl (A : State NodeId LogEntry) : Calm A A :=
  ⟨.refl, rfl, fun _ hr => ⟨hr, rfl⟩, fun _ hr => hr, fun _ _ _ _ hb => hb, fun _ _ _ ha => ha,
    fun _ => le_rfl⟩

theorem trans (h : Calm A A') (h' : Calm A' A'') : Calm A A'' where
  steps := h.steps.trans h'.steps
  winner := h'.winner.trans h.winner
  leader w hr := by
    obtain ⟨hr', ht'⟩ := h'.leader w hr
    obtain ⟨hr'', ht''⟩ := h.leader w hr'
    exact ⟨hr'', ht'.trans ht''⟩
  candidate w hr := h.candidate w (h'.candidate w hr)
  ballot w t c l hb := h'.ballot w t c l (h.ballot w t c l hb)
  acked w t q ha := h'.acked w t q (h.acked w t q ha)
  term w := (h.term w).trans (h'.term w)

theorem act (hstep : Step LogEntry.term A (A.act v n h)) (hwinner : h.winner = A.winner)
    (hrole : n.role = (A.node v).role ∧ n.term = (A.node v).term ∨ n.role = .follower)
    (hballot : ∀ w t c l, A.ballot w t c l → h.ballot w t c l)
    (hacked : ∀ w t q, A.acked w t q → h.acked w t q) (hterm : (A.node v).term ≤ n.term) :
    Calm A (A.act v n h) where
  steps := .single hstep
  winner := hwinner
  leader w hr := by
    by_cases hw : w = v
    · subst hw
      rw [A.act_node_self] at hr ⊢
      obtain ⟨hr', ht⟩ | hr' := hrole
      · exact ⟨hr' ▸ hr, ht⟩
      · rw [hr'] at hr
        cases hr
    · rw [A.act_node_of_ne n h hw] at hr ⊢
      exact ⟨hr, rfl⟩
  candidate w hr := by
    by_cases hw : w = v
    · subst hw
      rw [A.act_node_self] at hr
      obtain ⟨hr', -⟩ | hr' := hrole
      · exact hr' ▸ hr
      · rw [hr'] at hr
        cases hr
    · rwa [A.act_node_of_ne n h hw] at hr
  ballot := hballot
  acked := hacked
  term w := by
    by_cases hw : w = v
    · subst hw
      rw [A.act_node_self]
      exact hterm
    · rw [A.act_node_of_ne n h hw]

end Calm

variable {g' : PartitionRaft} {t : ℕ} {c : NodeId} {log : List LogEntry}

namespace Sim

theorem congr (hs : Sim g A) (hpeers : g'.peers = g.peers)
    (hvoters : g'.voters = g.voters) : Sim g' A where
  inv := hs.inv
  voters := hs.voters.trans hvoters.symm
  node w := by rw [hs.node w, PartitionRaft.node, PartitionRaft.node, hpeers]
  known w hw := by
    rw [hpeers]
    exact hs.known w (hvoters ▸ hw)
  indexed := hs.indexed
  id w q hq := hs.id w q (hpeers ▸ hq)
  leader w q hq := hs.leader w q (hpeers ▸ hq)

theorem yield_calm (hs : Sim g A) (hp : g.peers v = some p) (hid : p'.nodeId = p.nodeId)
    (hterm : p.currentTerm ≤ p'.currentTerm) (hrole : p'.role = .follower)
    (hlog : p'.log = p.log) (hcommit : p'.commitIndex = p.commitIndex)
    (hvote : p'.currentTerm = p.currentTerm → p.votedFor = none ∨ p'.votedFor = p.votedFor ∨
      ∃ c, A.winner p'.currentTerm = some c ∧ p'.votedFor = some c) :
    Calm A (A.act v p'.node A.toHistory) ∧
      Sim (g.setPeer v p') (A.act v p'.node A.toHistory) := by
  have hn : A.node v = p.node := hs.node_of_peer hp
  have hstep : Step term A (A.act v p'.node A.toHistory) := by
    apply Step.yield
    · rw [hn]; exact hterm
    · exact hrole
    · rw [hn]; exact hlog
    · rw [hn]; exact hcommit
    · rw [hn]; exact hvote
  constructor
  · refine Calm.act hstep rfl (.inr hrole) (fun _ _ _ _ hb => hb) (fun _ _ _ ha => ha) ?_
    rw [hn]
    exact hterm
  · refine hs.act (hstep.inv hs.inv) (hid.trans (hs.id v p hp)) hs.indexed (fun _ _ _ h => h) ?_
    intro hr
    rw [hrole] at hr
    cases hr

theorem becomeFollower (hs : Sim g A) (hp : g.peers v = some p) (ht : p.currentTerm < t) :
    Calm A (A.act v (p.becomeFollower t).node A.toHistory) ∧
      Sim (g.setPeer v (p.becomeFollower t)) (A.act v (p.becomeFollower t).node A.toHistory) :=
  hs.yield_calm hp rfl ht.le rfl rfl rfl fun h => absurd h ht.ne'

theorem stepDown (hs : Sim g A) (hp : g.peers v = some p) :
    Calm A (A.act v { p with role := .follower }.node A.toHistory) ∧
      Sim (g.setPeer v { p with role := .follower })
        (A.act v { p with role := .follower }.node A.toHistory) :=
  hs.yield_calm hp rfl le_rfl rfl rfl rfl fun _ => .inr (.inl rfl)

end Sim

/-! ## Vote requests -/

/-- The peer that decides on a vote request of term `t`. -/
def PartitionRaft.voterFor (p : RaftPeer) (t : ℕ) : RaftPeer :=
  if t > p.currentTerm then p.becomeFollower t else p

theorem PartitionRaft.requestVote_cases (hp : g.peers v = some p) (c : NodeId) (t : ℕ) (i : ℕ)
    (lt : ℕ) :
    (t < p.currentTerm ∧ g.requestVote v c t i lt = (⟨p.currentTerm, false⟩, g)) ∨
      p.currentTerm ≤ t ∧
        ((((voterFor p t).votedFor = none ∨ (voterFor p t).votedFor = some c) ∧
            (voterFor p t).logAtLeastAsUpToDate lt i = true ∧
            g.requestVote v c t i lt = (⟨t, true⟩, (g.setPeer v
              { voterFor p t with votedFor := some c, currentTerm := t }).flushPeer.2)) ∨
          ∃ g', g'.peers = (g.setPeer v (voterFor p t)).peers ∧ g'.voters = g.voters ∧
            g.requestVote v c t i lt = (⟨t, false⟩, g')) := by
  have hterm : p.currentTerm ≤ t → (voterFor p t).currentTerm = t := by
    intro hle
    unfold voterFor
    split
    · rfl
    · omega
  unfold requestVote
  rw [hp]
  dsimp only
  by_cases hlt : t < p.currentTerm
  · exact .inl ⟨hlt, if_pos hlt⟩
  refine .inr ⟨not_lt.mp hlt, ?_⟩
  rw [if_neg hlt]
  have hvoter : (if t > p.currentTerm then p.becomeFollower t else p) = voterFor p t := rfl
  rw [hvoter]
  by_cases hgrant : ((voterFor p t).votedFor = none ∨ (voterFor p t).votedFor = some c) ∧
      (voterFor p t).logAtLeastAsUpToDate lt i = true
  · rw [if_pos hgrant]
    by_cases hflush : g.flushes.headD true = true
    · exact .inl ⟨hgrant.1, hgrant.2, if_pos hflush⟩
    · refine .inr ⟨_, ?_, ?_, if_neg hflush⟩
      · simp [setPeer, flushPeer]
      · rfl
  · rw [if_neg hgrant]
    refine .inr ⟨(g.setPeer v (voterFor p t)).flushPeer.2, rfl, rfl, ?_⟩
    rw [hterm (not_lt.mp hlt)]

theorem upToDate_of_vote (hindexed : Indexed p.log)
    (h : p.logAtLeastAsUpToDate (lastTerm term log) log.length = true) :
    UpToDate term log p.log := by
  unfold logAtLeastAsUpToDate lastLogIndex at h
  rw [hindexed.lastIndex_eq] at h
  by_cases hne : lastTerm term log ≠ p.lastLogTerm
  · rw [if_pos hne, decide_eq_true_eq] at h
    exact .inl (lt_of_le_of_ne h hne.symm)
  · rw [if_neg hne, decide_eq_true_eq] at h
    exact .inr ⟨(not_not.mp hne).symm, h⟩

namespace Sim

theorem voterFor (hs : Sim g A) (hp : g.peers v = some p) (t : ℕ) :
    ∃ A', Calm A A' ∧ Sim (g.setPeer v (voterFor p t)) A' ∧
      (∀ w, w ≠ v → A'.node w = A.node w) := by
  unfold PartitionRaft.voterFor
  by_cases hlt : t > p.currentTerm
  · rw [if_pos hlt]
    obtain ⟨hcalm, hsim⟩ := hs.becomeFollower hp hlt
    exact ⟨_, hcalm, hsim, fun w hw => A.act_node_of_ne _ _ hw⟩
  · rw [if_neg hlt, setPeer_same hp]
    exact ⟨A, .refl A, hs, fun _ _ => rfl⟩

theorem grant (hs : Sim g A) (hp : g.peers v = some p) (hv : v ∈ g.voters)
    (hne : v ≠ c) (hc : (A.node c).role = .candidate) (hterm : p.currentTerm = (A.node c).term)
    (hvote : p.votedFor = none ∨ p.votedFor = some c) (hup : UpToDate term (A.node c).log p.log) :
    ∃ A', Calm A A' ∧ Sim (g.setPeer v { p with votedFor := some c }) A' ∧
      (∀ w, w ≠ v → A'.node w = A.node w) ∧ ∃ l, A'.ballot v (A.node c).term c l := by
  have hn : A.node v = p.node := hs.node_of_peer hp
  have hstep := Step.grant (τ := term) (s := A) v c (hs.voters ▸ hv) hne hc
    (by rw [hn]; exact hterm) (by rw [hn]; exact hvote) (by rw [hn]; exact hup)
  have hnode : { A.node v with vote := some c } = { p with votedFor := some c }.node := by
    rw [hn]
    rfl
  rw [hnode] at hstep
  have hrole : p.role ≠ .leader := by
    intro hr
    obtain hnone | hsome := hvote
    · exact absurd ((hs.leader v p hp hr).vote.symm.trans hnone) (some_ne_none v)
    · exact hne (some.inj ((hs.leader v p hp hr).vote.symm.trans hsome))
  refine ⟨_, Calm.act hstep rfl (.inl (by rw [hn]; exact ⟨rfl, rfl⟩)) (fun _ _ _ _ hb => .inl hb)
      (fun _ _ _ ha => ha) (by rw [hn]; exact le_rfl),
    hs.act (hstep.inv hs.inv) (hs.id v p hp) hs.indexed (fun _ _ _ ha => ha)
      fun hr => absurd hr hrole,
    fun w hw => A.act_node_of_ne _ _ hw, _, .inr ⟨rfl, rfl, rfl, rfl⟩⟩

/-- **A vote request of a candidate is answered by protocol steps**: a granted vote is a ballot, and
without a higher term in the answer the voter is in the candidate's term. -/
theorem requestVote (hs : Sim g A) (hv : v ∈ g.voters) (hne : v ≠ c)
    (hc : (A.node c).role = .candidate) {r : VoteResult}
    (hr : g.requestVote v c (A.node c).term (A.node c).log.length
      (lastTerm term (A.node c).log) = (r, g')) :
    g'.voters = g.voters ∧ ∃ A', Calm A A' ∧ Sim g' A' ∧ (∀ w, w ≠ v → A'.node w = A.node w) ∧
      (r.term ≤ (A.node c).term → (A'.node v).term = (A.node c).term) ∧
      (r.voteGranted = true → ∃ l, A'.ballot v (A.node c).term c l) := by
  obtain ⟨p, hp⟩ := ne_none_iff_exists'.mp (hs.known v hv)
  have hterm : p.currentTerm ≤ (A.node c).term →
      (PartitionRaft.voterFor p (A.node c).term).currentTerm = (A.node c).term := by
    intro hle
    unfold PartitionRaft.voterFor
    split
    · rfl
    · omega
  obtain ⟨A₁, hcalm, hs₁, hother⟩ := hs.voterFor hp (A.node c).term
  have hp₁ := g.setPeer_self v (PartitionRaft.voterFor p (A.node c).term)
  obtain ⟨hlt, hcase⟩ | ⟨hle, ⟨hvote, hup, hcase⟩ | ⟨g₁, hpeers, hvoters, hcase⟩⟩ :=
    requestVote_cases hp c (A.node c).term (A.node c).log.length
      (lastTerm term (A.node c).log)
  · -- the voter is in a higher term
    cases hcase.symm.trans hr
    exact ⟨rfl, A, .refl A, hs, fun _ _ => rfl, fun h => absurd hlt (not_lt.mpr h),
      nofun⟩
  · -- the vote is granted
    cases hcase.symm.trans hr
    have hnc : A₁.node c = A.node c := hother c (Ne.symm hne)
    obtain ⟨A₂, hcalm₂, hs₂, hother₂, hballot⟩ := hs₁.grant hp₁ hv hne
      (by rw [hnc]; exact hc) (by rw [hnc]; exact hterm hle) hvote
      (by rw [hnc]; exact upToDate_of_vote (hs₁.indexed_log hp₁) hup)
    rw [setPeer_setPeer] at hs₂
    have hpeer : ∀ (q : RaftPeer) (t : ℕ), q.currentTerm = t →
        { q with votedFor := some c, currentTerm := t } = { q with votedFor := some c } := by
      rintro q _ rfl
      rfl
    rw [hpeer _ _ (hterm hle)]
    refine ⟨rfl, A₂, hcalm.trans hcalm₂, hs₂.flush,
      fun w hw => (hother₂ w hw).trans (hother w hw), fun _ => ?_, fun _ => hnc ▸ hballot⟩
    rw [hs₂.node_of_peer (g.setPeer_self v _)]
    exact hterm hle
  · -- the vote is not granted
    cases hcase.symm.trans hr
    refine ⟨hvoters, A₁, hcalm, hs₁.congr hpeers hvoters, hother, fun _ => ?_, nofun⟩
    rw [hs₁.node_of_peer hp₁]
    exact hterm hle

end Sim

/-! ## Appending entries -/

section AppendLoop

variable {log pre entries : List LogEntry}

theorem entryAtPos_succ (log : List LogEntry) (i : ℕ) : entryAtPos log (i + 1) = log[i]? := by
  simp [entryAtPos]

theorem getElem?_append_cons (pre entries : List LogEntry) (e : LogEntry) :
    (pre ++ e :: entries)[pre.length]? = some e := by
  simp

theorem appendLoop_extend (h : Indexed (log ++ entries)) :
    appendLoop log entries = (log ++ entries, none) := by
  induction entries generalizing log with
  | nil => simp [appendLoop]
  | cons e entries ih =>
    have hindex : e.index = log.length + 1 := h log.length e (getElem?_append_cons log entries e)
    have hlast : lastIndex log = log.length := h.of_append.lastIndex_eq
    rw [appendLoop, hindex, entryAtPos_succ, getElem?_eq_none le_rfl]
    dsimp only
    rw [if_neg (by rw [hlast]; exact not_not.mpr rfl), ih (by simpa using h)]
    simp

/-- **What appending a part of the leader's log does**: the log is kept if it contains the part, and
becomes the part otherwise. -/
theorem appendLoop_eq (h : Indexed (pre ++ entries)) (hpre : pre <+: log)
    (hmatch : ∀ i e e', log[i]? = some e → (pre ++ entries)[i]? = some e' → e.term = e'.term →
      log.take (i + 1) = (pre ++ entries).take (i + 1)) :
    ∃ log', appendLoop log entries = (log', none) ∧
      (log' = log ∧ pre ++ entries <+: log ∨
        log' = pre ++ entries ∧ ¬ pre ++ entries <+: log) := by
  induction entries generalizing pre with
  | nil => exact ⟨log, rfl, .inl ⟨rfl, by simpa using hpre⟩⟩
  | cons e entries ih =>
    have hindex : e.index = pre.length + 1 := h pre.length e (getElem?_append_cons pre entries e)
    have hassoc : pre ++ e :: entries = pre ++ [e] ++ entries := by simp
    have htake : log.take pre.length = pre := (prefix_iff_eq_take.mp hpre).symm
    rw [appendLoop, hindex, entryAtPos_succ]
    cases hx : log[pre.length]? with
    | some x =>
      dsimp only
      by_cases hterm : x.term ≠ e.term
      · -- the first entry that differs replaces what follows
        rw [if_pos hterm, Nat.add_sub_cancel, htake, appendLoop_extend (hassoc ▸ h)]
        refine ⟨_, rfl, .inr ⟨hassoc.symm, fun hsub => hterm ?_⟩⟩
        obtain ⟨t, rfl⟩ := hsub
        rw [getElem?_append_left (by simp), getElem?_append_cons] at hx
        rw [some.inj hx]
      rw [if_neg hterm]
      have heq := hmatch _ x e hx (getElem?_append_cons pre entries e) (not_not.mp hterm)
      have hnext : pre ++ [e] <+: log := by
        have : (pre ++ e :: entries).take (pre.length + 1) = pre ++ [e] := by
          rw [take_append]
          simp
        rw [← this, ← heq]
        exact take_prefix _ _
      rw [hassoc]
      exact ih (hassoc ▸ h) hnext (hassoc ▸ hmatch)
    | none =>
      -- the log ends where the entries begin
      have hlen : log.length ≤ pre.length := List.getElem?_eq_none_iff.mp hx
      obtain rfl : pre = log := hpre.eq_of_length_le hlen
      have hlast : lastIndex pre = pre.length := h.of_append.lastIndex_eq
      dsimp only
      rw [if_neg (by rw [hlast]; exact not_not.mpr rfl), appendLoop_extend (hassoc ▸ h)]
      refine ⟨_, rfl, .inr ⟨hassoc.symm, fun hsub => ?_⟩⟩
      have := hsub.length_le
      simp at this

end AppendLoop

/-- A part of the log of the winner of a term, with what it has committed. -/
structure ValidAppend (A : State NodeId LogEntry) (leader : NodeId) (t : ℕ)
    (pre entries : List LogEntry) (commit : ℕ) : Prop where
  winner : A.winner t = some leader
  log : pre ++ entries <+: A.history t
  commit : commit = 0 ∨ ∃ t' q, A.committed t' q ∧ t' ≤ t ∧ commit ≤ (A.history t).length ∧
    (A.history t).take commit <+: q

namespace Sim

theorem accept (hs : Sim g A) (hp : g.peers v = some p) {l : List LogEntry}
    (hrole : p.role = .follower) (hc : A.winner p.currentTerm = some c)
    (hvote : p.votedFor = some c) (hl : l <+: A.history p.currentTerm)
    (hlog : log = p.log ∧ l <+: p.log ∨ log = l ∧ ¬ l <+: p.log) :
    ∃ A', Calm A A' ∧ Sim (g.setPeer v { p with log := log }) A' ∧
      (∀ w, w ≠ v → A'.node w = A.node w) ∧ A'.history = A.history ∧
      A'.committed = A.committed ∧ ∀ q, q <+: l → A'.acked v p.currentTerm q := by
  have hn : A.node v = p.node := hs.node_of_peer hp
  have hterm : (A.node v).term = p.currentTerm := by rw [hn]; rfl
  have hstep := Step.accept (τ := term) (s := A) v c l log (by rw [hn]; exact hrole)
    (by rw [hterm]; exact hc) (by rw [hn]; exact hvote) (by rw [hterm]; exact hl)
    (by rw [hn]; exact hlog)
  have hnode : { A.node v with log := log } = { p with log := log }.node := by
    rw [hn]
    rfl
  rw [hnode, hterm] at hstep
  have hnot : p.role ≠ .leader := by rw [hrole]; exact RaftLib.Role.noConfusion
  exact ⟨_, Calm.act hstep rfl (.inr hrole) (fun _ _ _ _ hb => hb)
      (fun _ _ _ ha => .inl ha) hterm.le,
    hs.act (hstep.inv hs.inv) (hs.id v p hp) hs.indexed (fun _ _ _ ha => .inl ha)
      fun hr => absurd hr hnot,
    fun w hw => A.act_node_of_ne _ _ hw, rfl, rfl, fun q hq => .inr ⟨rfl, rfl, hq⟩⟩

theorem learn (hs : Sim g A) (hp : g.peers v = some p) {i : ℕ} {q : List LogEntry}
    (hle : p.commitIndex ≤ i) (hi : i ≤ p.log.length) (hq : A.committed t q)
    (ht : t ≤ p.currentTerm) (hlog : p.log.take i <+: q) :
    ∃ A', Calm A A' ∧ Sim (g.setPeer v { p with commitIndex := i }) A' ∧
      (∀ w, w ≠ v → A'.node w = A.node w) ∧ A'.acked = A.acked := by
  have hn : A.node v = p.node := hs.node_of_peer hp
  have hstep := Step.learn (τ := term) (s := A) v i t q (by rw [hn]; exact hle)
    (by rw [hn]; exact hi) hq
    (by rw [hn]; exact ht) (by rw [hn]; exact hlog)
  have hnode : { A.node v with commit := i } = { p with commitIndex := i }.node := by
    rw [hn]
    rfl
  rw [hnode] at hstep
  refine ⟨_, Calm.act hstep rfl (.inl (by rw [hn]; exact ⟨rfl, rfl⟩)) (fun _ _ _ _ hb => hb)
      (fun _ _ _ ha => ha) (by rw [hn]; exact le_rfl),
    hs.act (hstep.inv hs.inv) (hs.id v p hp) hs.indexed (fun _ _ _ ha => ha) fun hr => ?_,
    fun w hw => A.act_node_of_ne _ _ hw, rfl⟩
  exact ⟨(hs.leader v p hp hr).vote, (hs.leader v p hp hr).next, (hs.leader v p hp hr).matched,
    (hs.leader v p hp hr).own⟩

end Sim

namespace PartitionRaft

theorem followLeader_eq (leader : NodeId) (ht : p.currentTerm ≤ t) :
    (followLeader p leader t).currentTerm = t ∧ (followLeader p leader t).role = .follower ∧
      (followLeader p leader t).votedFor = some leader ∧ (followLeader p leader t).log = p.log ∧
      (followLeader p leader t).commitIndex = p.commitIndex ∧
      (followLeader p leader t).nodeId = p.nodeId := by
  unfold followLeader
  by_cases h : (t > p.currentTerm ∨ p.role ≠ .follower ∨ p.votedFor ≠ some leader) ∧
      t ≥ p.currentTerm
  · rw [if_pos h]
    exact ⟨rfl, rfl, rfl, rfl, rfl, rfl⟩
  · rw [if_neg h]
    rw [not_and', not_or, not_or, not_not, not_not] at h
    obtain ⟨h1, h2, h3⟩ := h ht
    exact ⟨by omega, h2, h3, rfl, rfl, rfl⟩

theorem followCommit_eq (p : RaftPeer) (commit : ℕ) : followCommit p commit =
      if commit > p.commitIndex then { p with commitIndex := min commit p.lastLogIndex } else p :=
  rfl

end PartitionRaft

namespace Sim

variable {leader : NodeId} {commit prevTerm prevIdx : ℕ} {pre entries : List LogEntry}

theorem followLeader (hs : Sim g A) (hp : g.peers v = some p)
    (ht : p.currentTerm ≤ t) (hw : A.winner t = some leader) :
    Calm A (A.act v (followLeader p leader t).node A.toHistory) ∧
      Sim (g.setPeer v (followLeader p leader t))
        (A.act v (followLeader p leader t).node A.toHistory) := by
  obtain ⟨h1, h2, h3, h4, h5, h6⟩ := followLeader_eq leader ht
  exact hs.yield_calm hp h6 (by rw [h1]; exact ht) h2 h4 h5 fun _ =>
    .inr (.inr ⟨leader, by rw [h1]; exact hw, h3⟩)

theorem prefix_of_prevConflict (hs : Sim g A) (hp : g.peers v = some p)
    (hpre : pre <+: A.history t) (h : prevConflict p pre.length (lastTerm term pre) = none) :
    pre <+: p.log := by
  obtain rfl | ⟨q, x, rfl⟩ := eq_nil_or_concat' pre
  · exact nil_prefix
  unfold prevConflict termAt at h
  rw [if_pos (by simp), if_neg (by simp)] at h
  simp only [length_append, length_singleton, Nat.add_sub_cancel,
    lastTerm_append_singleton] at h
  cases hx : p.log[q.length]? with
  | none => simp [hx] at h
  | some y =>
    have hterm : y.term = x.term := by
      by_contra hne
      simp [hx, hne] at h
    have hground := (hs.inv.node v).grounded
    rw [hs.node_of_peer hp] at hground
    have hq : (q ++ [x])[q.length]? = some x := by simp
    have := hground.matching ((hs.inv.hist.grounded t).initial hpre) hx hq hterm
    rw [take_of_length_le (l := q ++ [x]) (by simp)] at this
    rw [← this]
    exact take_prefix _ _

theorem prevConflict_congr {q : RaftPeer} (h : p.log = q.log) :
    prevConflict p prevIdx prevTerm = prevConflict q prevIdx prevTerm := by
  unfold prevConflict termAt lastLogIndex
  rw [h]

theorem prevConflict_le (hindexed : Indexed p.log) {c : ℕ}
    (h : prevConflict p prevIdx prevTerm = some c) : c ≤ prevIdx := by
  unfold prevConflict at h
  split_ifs at h with hpos
  unfold termAt at h
  rw [if_neg hpos.ne'] at h
  cases hx : p.log[prevIdx - 1]? with
  | none =>
    rw [hx, map_none] at h
    have hlen : p.log.length ≤ prevIdx - 1 := List.getElem?_eq_none_iff.mp hx
    have hlast : p.lastLogIndex = p.log.length := hindexed.lastIndex_eq
    have hc := some.inj h
    omega
  | some x =>
    rw [hx, map_some] at h
    dsimp only at h
    split_ifs at h
    exact (some.inj h).ge

theorem take_of_cover {log' history : List LogEntry} (hhist : pre ++ entries <+: history)
    (hlog : log' = log ∧ pre ++ entries <+: log ∨ log' = pre ++ entries ∧ ¬ pre ++ entries <+: log)
    (hcover : commit ≤ (pre ++ entries).length ∨ log.length ≤ (pre ++ entries).length ∨
      ¬ pre ++ entries <+: log ∨ log <+: history) :
    log'.take (min commit log'.length) <+: history.take commit := by
  have hpart : ∀ l, l <+: history → l <+: log' → min commit log'.length ≤ l.length →
      log'.take (min commit log'.length) <+: history.take commit := by
    intro l hl hl' hlen
    rw [take_of_initial hl' hlen, ← take_of_initial hl hlen]
    exact take_prefix_take_left (min_le_left _ _)
  obtain ⟨rfl, hsub⟩ | ⟨rfl, hnot⟩ := hlog
  · obtain hle | hle | hnot | hinit := hcover
    · exact hpart _ hhist hsub ((min_le_left _ _).trans hle)
    · exact hpart _ hhist hsub ((min_le_right _ _).trans hle)
    · exact absurd hsub hnot
    · exact hpart _ hinit (prefix_refl _) (min_le_right _ _)
  · exact hpart _ hhist (prefix_refl _) (min_le_right _ _)

/-- **A part of the winner's log is taken over by protocol steps**, provided that the follower does
not take more for committed than it has of the winner's log. -/
theorem appendEntries (hs : Sim g A) (hp : g.peers v = some p)
    (hvalid : ValidAppend A leader t pre entries commit) (hcover : p.currentTerm ≤ t →
      prevConflict p pre.length (lastTerm term pre) = none →
        commit ≤ (pre ++ entries).length ∨ p.log.length ≤ (pre ++ entries).length ∨
          ¬ pre ++ entries <+: p.log ∨ p.log <+: A.history t)
    {r : AppendResult}
    (hr : g.appendEntries v leader t pre.length (lastTerm term pre) entries commit =
      (r, g')) :
    g'.voters = g.voters ∧ (∀ w, w ≠ v → g'.peers w = g.peers w) ∧
      (∀ c, r.conflictIndex = some c → c ≤ pre.length) ∧
      ∃ A' p', Calm A A' ∧ Sim g' A' ∧ g'.peers v = some p' ∧
        (r.success = true → p.currentTerm ≤ t ∧
          prevConflict p pre.length (lastTerm term pre) = none ∧
          (p'.log = p.log ∧ pre ++ entries <+: p.log ∨
            p'.log = pre ++ entries ∧ ¬ pre ++ entries <+: p.log) ∧
          ∀ q, q <+: pre ++ entries ∨ q <+: p'.log ∧ p'.log <+: A.history t →
            A'.acked v t q) := by
  unfold PartitionRaft.appendEntries at hr
  rw [hp] at hr
  dsimp only at hr
  by_cases hlt : t < p.currentTerm
  · rw [if_pos hlt] at hr
    cases hr
    exact ⟨rfl, fun _ _ => rfl, nofun, A, p, .refl A, hs, hp, nofun⟩
  rw [if_neg hlt] at hr
  replace hcover := hcover (not_lt.mp hlt)
  obtain ⟨h1, h2, h3, h4, h5, h6⟩ := followLeader_eq leader (not_lt.mp hlt)
  obtain ⟨hcalm, hs₁⟩ := hs.followLeader hp (not_lt.mp hlt) hvalid.winner
  have hp₁ := g.setPeer_self v (PartitionRaft.followLeader p leader t)
  generalize PartitionRaft.followLeader p leader t = p₁ at *
  have hpre : pre <+: A.history t := (prefix_append _ _).trans hvalid.log
  cases hconf : prevConflict p₁ pre.length (RaftLib.lastTerm LogEntry.term pre) with
  | some conflict =>
    rw [hconf] at hr
    cases hr
    refine ⟨rfl, fun w hw => g.setPeer_of_ne _ hw, fun c hc => ?_, _, p₁, hcalm, hs₁, hp₁, nofun⟩
    cases hc
    exact prevConflict_le (hs₁.indexed_log hp₁) hconf
  | none =>
    rw [hconf] at hr
    have hlog := hs₁.prefix_of_prevConflict hp₁ hpre hconf
    have hground := (hs₁.inv.node v).grounded
    rw [hs₁.node_of_peer hp₁] at hground
    obtain ⟨log', hloop, hlog'⟩ := appendLoop_eq ((hs.indexed t).initial hvalid.log) hlog
      fun i e e' he he' hterm => hground.matching
        ((hs₁.inv.hist.grounded t).initial hvalid.log) he he' hterm
    rw [hloop] at hr
    -- what is acknowledged: the whole log if the winner has it, and what was sent otherwise
    obtain ⟨l, hl, hacc, hsent, hwhole⟩ : ∃ l, l <+: A.history t ∧
        (log' = p₁.log ∧ l <+: p₁.log ∨ log' = l ∧ ¬ l <+: p₁.log) ∧ pre ++ entries <+: l ∧
        (log' <+: A.history t → l = log') := by
      by_cases hinit : log' <+: A.history t
      · refine ⟨log', hinit, ?_, ?_, fun _ => rfl⟩
        · obtain ⟨heq, -⟩ | ⟨heq, hnot⟩ := hlog'
          · exact .inl ⟨heq, heq ▸ prefix_refl _⟩
          · exact .inr ⟨rfl, heq ▸ hnot⟩
        · obtain ⟨heq, hsub⟩ | ⟨heq, -⟩ := hlog'
          · exact heq ▸ hsub
          · exact heq ▸ prefix_refl _
      · exact ⟨_, hvalid.log, hlog', prefix_refl _, fun h => absurd h hinit⟩
    obtain ⟨A₂, hcalm₂, hs₂, -, -, hcom₂, hacked₂⟩ := hs₁.accept hp₁ h2
      (by rw [h1]; exact hvalid.winner) h3 (by rw [h1]; exact hl) hacc
    rw [setPeer_setPeer] at hs₂
    have hp₂ := g.setPeer_self v { p₁ with log := log' }
    have hcom : p₁.commitIndex ≤ log'.length := by
      have := (hs₂.inv.node v).commit_log.1
      rwa [hs₂.node_of_peer hp₂] at this
    rw [h4] at hlog'
    obtain ⟨A₃, hcalm₃, hs₃, hacked₃⟩ : ∃ A₃, Calm A₂ A₃ ∧
        Sim (g.setPeer v (followCommit { p₁ with log := log' } commit)) A₃ ∧
        A₃.acked = A₂.acked := by
      rw [followCommit_eq]
      by_cases hgt : commit > p₁.commitIndex
      · rw [if_pos hgt, lastLogIndex, (hs₂.indexed_log hp₂).lastIndex_eq]
        obtain hzero | ⟨t', q, hq, ht', hlen, hpre'⟩ := hvalid.commit
        · omega
        obtain ⟨A₃, hcalm₃, hs₃, -, hacked₃⟩ := hs₂.learn hp₂ (i := min commit log'.length)
          (le_min hgt.le hcom) (min_le_right _ _) (by rw [hcom₂]; exact hq) (by rw [h1]; exact ht')
          ((take_of_cover hvalid.log hlog' (hcover (prevConflict_congr h4 ▸ hconf))).trans hpre')
        rw [setPeer_setPeer] at hs₃
        exact ⟨A₃, hcalm₃, hs₃, hacked₃⟩
      · rw [if_neg hgt]
        exact ⟨A₂, .refl A₂, hs₂, rfl⟩
    have hp₃ := g.setPeer_self v (followCommit { p₁ with log := log' } commit)
    have hlog₃ : (followCommit { p₁ with log := log' } commit).log = log' := by
      rw [followCommit_eq]
      split <;> rfl
    cases hr
    refine ⟨rfl, fun w hw => g.setPeer_of_ne _ hw, nofun, A₃, _, (hcalm.trans hcalm₂).trans hcalm₃,
      hs₃.flush, hp₃, fun _ => ⟨not_lt.mp hlt, prevConflict_congr h4 ▸ hconf, ?_, fun q hq => ?_⟩⟩
    · rw [hlog₃]
      exact hlog'
    · rw [hacked₃]
      rw [h1] at hacked₂
      rw [hlog₃] at hq
      obtain hq | ⟨hq, hinit⟩ := hq
      · exact hacked₂ q (hq.trans hsent)
      · exact hacked₂ q (hwhole hinit ▸ hq)

theorem lateVote (hs : Sim g A) (t i lt : ℕ) (hne : v ≠ c) :
    ∃ A', Calm A A' ∧ Sim (g.requestVote v c t i lt).2 A' := by
  cases hp : g.peers v with
  | none =>
    rw [PartitionRaft.requestVote, hp]
    exact ⟨A, .refl A, hs⟩
  | some p =>
    obtain ⟨-, hcase⟩ | ⟨hle, ⟨hvote, -, hcase⟩ | ⟨g₁, hpeers, hvoters, hcase⟩⟩ :=
      requestVote_cases hp c t i lt
    · rw [hcase]
      exact ⟨A, .refl A, hs⟩
    · rw [hcase]
      have hn : A.node v = p.node := hs.node_of_peer hp
      unfold PartitionRaft.voterFor at hvote ⊢
      by_cases hlt : t > p.currentTerm
      · -- the vote of a new term
        rw [if_pos hlt]
        obtain ⟨hcalm, hs'⟩ :
            _ ∧ Sim (g.setPeer v { p.becomeFollower t with votedFor := some c }) _ :=
          hs.yield_calm hp rfl hlt.le rfl rfl rfl fun h => absurd h hlt.ne'
        exact ⟨_, hcalm, hs'.flush⟩
      -- a vote of this term that was free or already given so
      rw [if_neg hlt] at hvote ⊢
      obtain rfl : t = p.currentTerm := by omega
      have hrole : p.role = .follower := by
        cases hrole : p.role with
        | follower => rfl
        | candidate =>
          have := ((hs.inv.node v).candidate (by rw [hn]; exact hrole)).2.1
          rw [hn] at this
          obtain hnone | hsome := hvote
          · exact absurd (this.symm.trans hnone) (some_ne_none v)
          · exact absurd (some.inj (this.symm.trans hsome)) hne
        | leader =>
          have := (hs.leader v p hp hrole).vote
          obtain hnone | hsome := hvote
          · exact absurd (this.symm.trans hnone) (some_ne_none v)
          · exact absurd (some.inj (this.symm.trans hsome)) hne
      obtain ⟨hcalm, hs'⟩ : _ ∧ Sim (g.setPeer v { p with votedFor := some c }) _ :=
        hs.yield_calm hp rfl le_rfl hrole rfl rfl fun _ =>
          hvote.imp_right fun h => .inl h.symm
      exact ⟨_, hcalm, hs'.flush⟩
    · rw [hcase]
      obtain ⟨A', hcalm, hs', -⟩ := hs.voterFor hp t
      exact ⟨A', hcalm, hs'.congr hpeers hvoters⟩

end Sim

end Residiuum.Cluster
