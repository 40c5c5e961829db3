import Residiuum.Cluster.RebalanceSim

/-!
# Committed entries and rebalances

A rebalance streams the log of the leader once and then puts the new voters in place, whatever they
hold at that time. If they have caught up whenever voters are put in place, committed entries are in
the log of every later leader; if an entry is committed after the stream, they may lose it.

* **`RebSim.step`**, **`RebSim.run`**: then rebalances are moves of the replication protocol.
* **`rebalance_run_safe`**: committed entries are in the logs of the leaders under any voters.
* **`rebalance_run_durable`**: what was committed stays so, under any voters.
-/

namespace Residiuum.Cluster

open List LogEntry Option RebalanceState

open RaftLib (Inv Majority Moves State Steps)
open PartitionRaft

variable {g g' : PartitionRaft} {A A' : State NodeId LogEntry} {v : NodeId} {p : RaftPeer}
  {seen : List PartitionRaft} {s s' : RebalanceState}

/-! ## Voters that have caught up -/

def termOf (g : PartitionRaft) (v : NodeId) : ℕ := ((g.peers v).map RaftPeer.currentTerm).getD 0

/-- The voters have reached the terms of the leaders seen so far, and a majority of them stores the
entries that a voter has had at or below its commit index. -/
structure Ready (seen : List PartitionRaft) (g : PartitionRaft) (voters : List NodeId) : Prop where
  terms : ∀ g' ∈ seen, ∀ u ∈ g'.voters, ∀ q ∈ g'.peers u, q.role = .leader →
    ∀ v ∈ voters, q.currentTerm ≤ termOf g v
  logs : ∀ g' ∈ seen, ∀ u ∈ g'.voters, ∀ q ∈ g'.peers u, ∀ i ≤ q.commitIndex,
    ∀ e ∈ q.entryAt i, voters.length / 2 + 1 ≤ (voters.filter fun v => Stores g v i e).length

instance decidableReady (seen : List PartitionRaft) (g : PartitionRaft) (voters : List NodeId) :
    Decidable (Ready seen g voters) :=
  -- lists of nodes are searched, not all nodes
  have (q : RaftPeer) : Decidable (∀ v ∈ voters, q.currentTerm ≤ termOf g v) :=
    List.decidableBAll _ voters
  have (g' : PartitionRaft) : Decidable (∀ u ∈ g'.voters, ∀ q ∈ g'.peers u, q.role = .leader →
      ∀ v ∈ voters, q.currentTerm ≤ termOf g v) := List.decidableBAll _ g'.voters
  have (g' : PartitionRaft) : Decidable (∀ u ∈ g'.voters, ∀ q ∈ g'.peers u, ∀ i ≤ q.commitIndex,
      ∀ e ∈ q.entryAt i, voters.length / 2 + 1 ≤ (voters.filter fun v => Stores g v i e).length) :=
    List.decidableBAll _ g'.voters
  decidable_of_iff ((∀ g' ∈ seen, ∀ u ∈ g'.voters, ∀ q ∈ g'.peers u, q.role = .leader →
      ∀ v ∈ voters, q.currentTerm ≤ termOf g v) ∧
    ∀ g' ∈ seen, ∀ u ∈ g'.voters, ∀ q ∈ g'.peers u, ∀ i ≤ q.commitIndex,
      ∀ e ∈ q.entryAt i, voters.length / 2 + 1 ≤ (voters.filter fun v => Stores g v i e).length)
    ⟨fun h => ⟨h.1, h.2⟩, fun h => ⟨h.terms, h.logs⟩⟩

/-- Whenever voters are put in place, they have caught up. -/
def ReadyRun (seen : List PartitionRaft) (s : RebalanceState) : List RebalanceCall → Prop
  | [] => True
  | c :: calls =>
    (∀ voters ∈ s.nextVoters c, Ready (s.group :: seen) s.group voters) ∧
      ReadyRun (s.group :: seen) (s.step c).2 calls

instance decidableReadyRun (seen : List PartitionRaft) (s : RebalanceState) :
    (calls : List RebalanceCall) → Decidable (ReadyRun seen s calls)
  | [] => isTrue trivial
  | c :: calls =>
    have := decidableReadyRun (s.group :: seen) (s.step c).2 calls
    inferInstanceAs (Decidable (_ ∧ _))

/-- What was won and committed could be seen in some group. -/
structure Visible (seen : List PartitionRaft) (A : State NodeId LogEntry) : Prop where
  winner : ∀ t c, A.winner t = some c →
    ∃ g ∈ seen, c ∈ g.voters ∧ ∃ q ∈ g.peers c, q.role = .leader ∧ q.currentTerm = t
  committed : ∀ t l, A.committed t l →
    ∃ g ∈ seen, ∃ u ∈ g.voters, ∃ q ∈ g.peers u, l <+: q.log ∧ l.length ≤ q.commitIndex

variable {voters : List NodeId} {t : ℕ} {l : List LogEntry}

namespace Visible

section

variable (h : Visible seen A)

include h

theorem weaken (g : PartitionRaft) : Visible (g :: seen) A where
  winner t c hw := by
    obtain ⟨g', hg', hq⟩ := h.winner t c hw
    exact ⟨g', mem_cons_of_mem g hg', hq⟩
  committed t l hl := by
    obtain ⟨g', hg', hq⟩ := h.committed t l hl
    exact ⟨g', mem_cons_of_mem g hg', hq⟩

theorem congr (hwinner : A'.winner = A.winner) (hcommitted : A'.committed = A.committed) : Visible
    seen A' :=
  ⟨fun t c hw => h.winner t c (hwinner ▸ hw), fun t l hl => h.committed t l (hcommitted ▸ hl)⟩

theorem extend (hinv : Inv term A) (hsteps : Steps term A A') (hs' : Sim g' A')
    (hlead : WinnersLead A A') : Visible (g' :: seen) A' where
  winner t c hw := by
    obtain hw | ⟨hr, ht⟩ := hlead t c hw
    · exact (h.weaken g').winner t c hw
    · obtain ⟨q, hq, hqr⟩ := hs'.leader_peer hr
      rw [hs'.node_of_peer hq] at ht
      have hc : c ∈ g'.voters := hs'.voters ▸ ((hs'.inv.node c).leader hr).1
      exact ⟨g', mem_cons_self, hc, q, hq, hqr, ht⟩
  committed t l hl := by
    obtain hl | ⟨u, hu, hlog, hlen⟩ := hsteps.known_of_committed hinv hl
    · exact (h.weaken g').committed t l hl
    · have hu : u ∈ g'.voters := hs'.voters ▸ hu
      obtain ⟨q, hq⟩ := ne_none_iff_exists'.mp (hs'.known u hu)
      rw [hs'.node_of_peer hq] at hlog hlen
      exact ⟨g', mem_cons_self, u, hu, q, hq, hlog, hlen⟩

theorem terms (hs : Sim g A) (hr : Ready seen g voters) (hv : v ∈ voters) (ht : A.winner t ≠ none) :
    t ≤ (A.node v).term := by
  obtain ⟨c, hc⟩ := ne_none_iff_exists'.mp ht
  obtain ⟨g', hg', hvoter, q, hq, hrole, rfl⟩ := h.winner t c hc
  have hle := hr.terms g' hg' c hvoter q hq hrole v hv
  rw [hs.node v]
  unfold termOf at hle
  unfold PartitionRaft.node
  cases hp : g.peers v with
  | none | some p =>
    rw [hp] at hle
    exact hle

end

end Visible

theorem Sim.prefix_of_stores (hs : Sim g A) {e : LogEntry}
    (hl : A.committed t (l ++ [e])) (hv : Stores g v (l.length + 1) e) :
    l ++ [e] <+: (A.node v).log := by
  obtain ⟨p, hp, x, hx, -, hterm⟩ := hv
  have hground : RaftLib.Grounded term A.history (l ++ [e]) :=
    (hs.inv.hist.grounded t).initial (hs.inv.hist.committed_history t _ hl).2
  have hx : (A.node v).log[l.length]? = some x := by
    rw [hs.node_of_peer hp]
    exact (entryAtPos_succ p.log l.length).symm.trans hx
  have hmatch := (hs.inv.node v).grounded.matching hground hx (getElem?_append_cons l [] e) hterm
  have hwhole : (l ++ [e]).take (l.length + 1) = l ++ [e] := take_of_length_le (by simp)
  rw [← hwhole, ← hmatch]
  exact take_prefix _ _

theorem Visible.logs (h : Visible seen A) (hs : Sim g A)
    (hr : Ready seen g voters) (hl : A.committed t l) :
    Majority voters fun v => l <+: (A.node v).log := by
  obtain ⟨l, e, rfl, -⟩ := hs.inv.hist.committed_last t _ hl
  obtain ⟨g', hg', u, hu, q, hq, hlog, hlen⟩ := h.committed t _ hl
  rw [length_append, length_singleton] at hlen
  have hentry : q.entryAt (l.length + 1) = some e :=
    entryAtPos_of_initial hlog ((entryAtPos_succ _ _).trans (getElem?_append_cons l [] e))
  exact (majority_of_quorum_le (hr.logs g' hg' u hu q hq _ hlen e hentry)).mono fun v _ hv =>
    hs.prefix_of_stores hl hv

/-! ## Rebalances -/

def JobSound (s : RebalanceState) : Prop :=
  match s.job with
  | none => s.group.voters = s.replicas
  | some job =>
    (∀ d ∈ job.destinations, d ∉ job.oldReplicas) ∧
      match job.phase with
      | .planCommitted | .learnersAdded | .segmentsCopied => s.group.voters = job.oldReplicas
      | .epochActivated | .safetyWindow => s.group.voters = s.replicas
      | .logCaughtUp | .membershipChanged | .reclaimed => True

/-- A partition in a move agrees with the protocol. -/
structure RebSim (seen : List PartitionRaft) (s : RebalanceState) (A : State NodeId LogEntry) :
    Prop where
  sim : Sim s.group A
  idle : Idle A
  visible : Visible (s.group :: seen) A
  job : JobSound s

/-- A step takes a partition on by moves of the protocol, and what it returned has happened. -/
def Moved (A : State NodeId LogEntry) (seen : List PartitionRaft) (ret : Option RaftReturn)
    (s' : RebalanceState) : Prop :=
  ∃ A', Moves LogEntry.term A A' ∧ RebSim seen s' A' ∧
    ∀ r ∈ ret, Recorded A' r ∧ ReportedLeads A' r

theorem mem_destinations {old new : List NodeId} {epoch : ℕ} {d : NodeId}
    (h : d ∈ (RebalanceJob.plan old new epoch).destinations) : d ∉ old := by
  have h := (DistinctLib.sortBy_perm compare _).mem_iff.mp h
  simpa using (mem_filter.mp h).2

namespace RebSim

variable (h : RebSim seen s A)

include h

theorem raft (call : RaftCall) :
    Moved A (s.group :: seen) (some (s.group.call call).1)
      { s with group := (s.group.call call).2 } := by
  obtain ⟨hvoters, A', hsteps, hs', hi', hrec, hreport, hlead⟩ :=
    h.sim.call h.idle (Prod.mk.eta (p := s.group.call call)).symm
  refine ⟨A', hsteps.moves, ⟨hs', hi', h.visible.extend h.sim.inv hsteps hs' hlead, ?_⟩, ?_⟩
  · have hjob := h.job
    unfold JobSound at hjob ⊢
    rw [hvoters]
    exact hjob
  · rintro r ⟨⟩
    exact ⟨hrec, hreport⟩

theorem beginRebalance (newReplicas : List NodeId) :
    Moved A (s.group :: seen) none (s.beginRebalance newReplicas) := by
  have hsame : Moved A (s.group :: seen) none s :=
    ⟨A, .refl, ⟨h.sim, h.idle, h.visible.weaken _, h.job⟩, fun r hr => (by cases hr)⟩
  unfold RebalanceState.beginRebalance
  by_cases hnil : newReplicas = []
  · rw [if_pos hnil]
    exact hsame
  rw [if_neg hnil]
  cases hjob : s.job with
  | some job => exact hsame
  | none =>
    have hvoters : s.group.voters = s.replicas := by
      have := h.job
      unfold JobSound at this
      rwa [hjob] at this
    exact ⟨A, .refl, ⟨h.sim, h.idle, h.visible.weaken _, fun d hd => mem_destinations hd, hvoters⟩,
      fun r hr => (by cases hr)⟩

theorem switch (hr : Ready (s.group :: seen) s.group voters) (epoch : ℕ) (joint : Bool)
    (outgoing incoming : List NodeId) :
    ∃ A', Moves term A A' ∧ Sim (stepDownOutside
        { voters.foldl PartitionRaft.ensurePeer s.group with
          voters := voters
          placementEpoch := epoch
          joint := joint
          outgoing := outgoing
          incoming := incoming }) A' ∧ Idle A' ∧ Visible (s.group :: seen) A' := by
  obtain ⟨A', hmoves, hs', hi', hsame⟩ := h.sim.switch h.idle
    { voters.foldl PartitionRaft.ensurePeer s.group with
      voters := voters
      placementEpoch := epoch
      joint := joint
      outgoing := outgoing
      incoming := incoming }
    (fun v hv t ht => h.visible.terms h.sim hr hv ht)
    (fun t q hq => h.visible.logs h.sim hr hq) rfl rfl
  exact ⟨A', hmoves, hs', hi', h.visible.congr hsame.winner hsame.committed⟩

theorem source {job : RebalanceJob} (hold : s.group.voters = job.oldReplicas)
    (hv : streamSource s.group job = some v) : Sim.Source A v := by
  unfold streamSource at hv
  cases hlead : s.group.currentLeader with
  | some lt =>
    obtain ⟨leader, t⟩ := lt
    rw [hlead] at hv
    cases hv
    obtain ⟨p, hp, hr, -⟩ := currentLeader_eq_some hlead
    have hrole : (A.node v).role = .leader := by
      rw [h.sim.node_of_peer hp]
      exact hr
    exact ⟨((h.sim.inv.node v).leader hrole).1, fun w hw => h.sim.leader_unique h.idle hw hrole⟩
  | none =>
    rw [hlead] at hv
    refine ⟨?_, fun w hw => ?_⟩
    · rw [h.sim.voters, hold]
      exact mem_of_find?_eq_some hv
    · obtain ⟨p, hp, hr⟩ := h.sim.leader_peer hw
      have hvoter : w ∈ s.group.voters := by
        rw [← h.sim.voters]
        exact ((h.sim.inv.node w).leader hw).1
      exact absurd hr (role_of_currentLeader_eq_none h.sim.known hlead hvoter hp)

theorem advanceRebalance (online : List NodeId) (preferred : Option NodeId)
    (hready : ∀ voters ∈ s.nextVoters (.advanceRebalance online preferred),
      Ready (s.group :: seen) s.group voters) :
    Moved A (s.group :: seen) (s.advanceRebalance online preferred).1
      (s.advanceRebalance online preferred).2 := by
  have hsame : Moved A (s.group :: seen) none s :=
    ⟨A, .refl, ⟨h.sim, h.idle, h.visible.weaken _, h.job⟩, fun r hr => (by cases hr)⟩
  have hsound := h.job
  unfold JobSound at hsound
  unfold nextVoters at hready
  unfold RebalanceState.advanceRebalance
  cases hjob : s.job with
  | none => exact hsame
  | some job =>
    rw [hjob] at hsound hready
    obtain ⟨hdest, hphase⟩ := hsound
    dsimp only at hready ⊢
    cases hp : job.phase with
    | planCommitted =>
      rw [hp] at hphase
      obtain ⟨hs', hvoters, -⟩ := h.sim.ensurePeers job.destinations
      exact ⟨A, .refl, ⟨hs', h.idle, h.visible.weaken _, hdest, hvoters.trans hphase⟩,
        fun r hr => (by cases hr)⟩
    | learnersAdded | epochActivated =>
      rw [hp] at hphase
      exact ⟨A, .refl, ⟨h.sim, h.idle, h.visible.weaken _, hdest, hphase⟩,
        fun r hr => (by cases hr)⟩
    | segmentsCopied =>
      rw [hp] at hphase
      cases hsrc : streamSource s.group job with
      | none => exact hsame
      | some leader =>
        have hd : ∀ d ∈ job.destinations, d ∉ s.group.voters := hphase ▸ hdest
        obtain ⟨hvoters, A', hmoves, hs', hi', hwinner, hcommitted⟩ :=
          h.sim.streamAll h.idle (h.source hphase hsrc) hd (Prod.mk.eta (p :=
            streamAll leader job.destinations job.logEntriesStreamed s.group)).symm
        exact ⟨A', hmoves,
          ⟨hs', hi', (h.visible.weaken _).congr hwinner hcommitted, hdest, trivial⟩,
          fun r hr => (by cases hr)⟩
    | logCaughtUp =>
      rw [hp] at hready
      obtain ⟨A', hmoves, hs', hi', hvisible⟩ :=
        h.switch (hready _ rfl) job.planEpoch true job.oldReplicas job.newReplicas
      exact ⟨A', hmoves, ⟨hs', hi', hvisible.weaken _, hdest, trivial⟩, fun r hr => (by cases hr)⟩
    | membershipChanged =>
      rw [hp] at hready
      obtain ⟨A₁, hmoves, hs₁, hi₁, hvisible⟩ :=
        h.switch (hready _ rfl) (job.planEpoch + 1) false [] []
      obtain ⟨hvoters, A', hsteps, hs', hi', hwon⟩ := hs₁.ensureLeaderPreferring hi₁
        (Prod.mk.eta (p := (s.group.setVoters job.newReplicas
          (job.planEpoch + 1)).ensureLeaderPreferring online preferred)).symm
      refine ⟨A', hmoves.trans hsteps.moves, ⟨hs', hi',
        hvisible.extend hs₁.inv hsteps hs' hwon.winnersLead, hdest, hvoters⟩, fun r hr => ?_⟩
      cases hr
      exact ⟨fun v t hres => (hwon.leads v t hres).1,
        fun v t hres => (hwon.leads v t (RaftReturn.elected.inj hres)).2.1⟩
    | safetyWindow =>
      rw [hp] at hphase
      exact ⟨A, .refl, ⟨h.sim, h.idle, h.visible.weaken _, hphase⟩, fun r hr => (by cases hr)⟩
    | reclaimed => exact hsame

theorem step {c : RebalanceCall}
    (hready : ∀ voters ∈ s.nextVoters c, Ready (s.group :: seen) s.group voters) :
    Moved A (s.group :: seen) (s.step c).1 (s.step c).2 := by
  cases c with
  | raft call => exact h.raft call
  | beginRebalance newReplicas => exact h.beginRebalance newReplicas
  | advanceRebalance online preferred => exact h.advanceRebalance online preferred hready

theorem run {calls later : List RebalanceCall} (hready : ReadyRun seen s (calls ++ later)) :
    ∃ A' seen', Moves term A A' ∧ RebSim seen' (s.run calls).2 A' ∧
      ReadyRun seen' (s.run calls).2 later ∧ ∀ r ∈ (s.run calls).1, Recorded A' r := by
  induction calls generalizing seen s A with
  | nil => exact ⟨A, seen, .refl, h, hready, fun r hr => absurd hr not_mem_nil⟩
  | cons c calls ih =>
    obtain ⟨hc, hready⟩ := hready
    obtain ⟨A₁, hmoves₁, h₁, hret⟩ := h.step hc
    obtain ⟨A', seen', hmoves, h', hlater, hrets⟩ := ih h₁ hready
    refine ⟨A', seen', hmoves₁.trans hmoves, h', hlater, fun r hr => ?_⟩
    obtain hr | hr := mem_append.mp hr
    · exact (hret r (mem_toList.mp hr)).1.mono (hmoves.grows h₁.sim.inv)
    · exact hrets r hr

omit h in
theorem new (replicas : List NodeId) (epoch : ℕ) (flushes : List Bool) :
    RebSim [] (new replicas epoch flushes) (State.init replicas) where
  sim := Sim.new replicas epoch flushes
  idle := ⟨fun v hv => (by cases hv), fun v hv => (by cases hv)⟩
  visible := ⟨fun t c hw => (by cases hw), fun t l hl => hl.elim⟩
  job := rfl

end RebSim

/-! ## Safety -/

/-- **Reconfiguration keeps committed entries** if the voters that are put in place have caught up:
an entry that was reported committed is at its index in the log of every peer that leads after any
later call, and a peer that the call reports as elected leads. -/
theorem rebalance_run_safe (replicas : List NodeId) (epoch : ℕ) (flushes : List Bool)
    (calls : List RebalanceCall) (c : RebalanceCall)
    (hready : ReadyRun [] (RebalanceState.new replicas epoch flushes) (calls ++ [c])) :
    let before := (RebalanceState.new replicas epoch flushes).run calls
    let after := before.2.step c
    (∀ r, .proposed (.ok r) ∈ before.1 → r.committed = true → ∀ v p,
        after.2.group.peers v = some p → p.role = .leader → p.entryAt r.position = some r.entry) ∧
      ∀ v t, after.1 = some (.elected (.ok (v, t))) →
        ∃ p, after.2.group.peers v = some p ∧ p.role = .leader := by
  obtain ⟨A, seen, -, h, hlast, hrets⟩ := (RebSim.new replicas epoch flushes).run hready
  obtain ⟨A', hmoves, h', hret⟩ := h.step hlast.1
  intro before after
  refine ⟨fun r hr hcom v p hp hrole => ?_, fun v t hv => ?_⟩
  · have hset : Settled A r.position r.entry := hrets _ hr r rfl hcom
    exact h'.sim.leader_entryAt h'.idle hp hrole (hset.mono (hmoves.grows h.sim.inv))
  · exact h'.sim.leader_peer ((hret _ hv).2 v t rfl)

/-- A partition of nodes 0, 1 and 2 is moved to nodes 2, 3 and 4; a put is committed on nodes 0 and
1 after the log was streamed. -/
def lateCommit : List RebalanceCall :=
  [.raft (.elect 0 [0, 1, 2]), .beginRebalance [2, 3, 4], .advanceRebalance [0, 1, 2, 3, 4] none,
    .advanceRebalance [0, 1, 2, 3, 4] none, .advanceRebalance [0, 1, 2, 3, 4] none,
    .raft (.propose 0 (.put "k" [1]) [0, 1]), .advanceRebalance [0, 1, 2, 3, 4] none]

def lateResult : ProposeResult := ⟨⟨1, 1, .put "k" [1]⟩, 1, 1, 2, [0, 1], true, 1⟩

/-- **A rebalance loses a committed entry**: under the joint voters, node 3 is elected without the
put. -/
theorem rebalance_run_loses : let (rets, s) := (RebalanceState.new [0, 1, 2] 1 []).run lateCommit
    .proposed (.ok lateResult) ∈ rets ∧ ∃ p,
      (s.step (.raft (.elect 3 [2, 3, 4]))).2.group.peers 3 = some p ∧ p.role = .leader ∧
        p.entryAt lateResult.position = none := by
  exact ⟨mem_of_getElem? (i := 1) rfl, _, rfl, rfl, rfl⟩

/-- The same move with the put before the log is streamed. -/
def earlyCommit : List RebalanceCall :=
  [.raft (.elect 0 [0]), .raft (.propose 0 (.put "k" [1]) [0]), .beginRebalance [1, 2],
    .advanceRebalance [] none, .advanceRebalance [] none, .advanceRebalance [] none,
    .advanceRebalance [] none]

def earlyResult : ProposeResult := ⟨⟨1, 1, .put "k" [1]⟩, 1, 1, 1, [0], true, 1⟩

/-- A put on node 0 is committed before its log is streamed to nodes 1 and 2, and the leader that
these elect has it. -/
theorem rebalance_run_safe_early : ∃ p,
    (((RebalanceState.new [0] 1 []).run earlyCommit).2.step
      (.advanceRebalance [1, 2] none)).2.group.peers 1 = some p ∧ p.role = .leader ∧
        p.entryAt 1 = some earlyResult.entry := by
  have hready : ReadyRun [] (new [0] 1 [])
      (earlyCommit ++ [.advanceRebalance [1, 2] none]) := by
    decide +kernel
  obtain ⟨hsafe, hleads⟩ := rebalance_run_safe [0] 1 [] earlyCommit
    (.advanceRebalance [1, 2] none) hready
  obtain ⟨p, hp, hr⟩ := hleads 1 2 rfl
  exact ⟨p, hp, hr, hsafe earlyResult (mem_of_getElem? (i := 1) rfl) rfl 1 p hp hr⟩

/-- **So it does under any voters**, if they have caught up when they are put in place. -/
theorem rebalance_run_durable (replicas : List NodeId) (epoch : ℕ) (flushes : List Bool)
    (calls later : List RebalanceCall)
    (hready : ReadyRun [] (RebalanceState.new replicas epoch flushes) (calls ++ later)) :
    let s := ((RebalanceState.new replicas epoch flushes).run calls).2
    ∀ v p, s.group.peers v = some p → Durable p (s.run later).2.group := by
  intro s v p hp
  obtain ⟨A, seen, -, h, hlater, -⟩ := (RebSim.new replicas epoch flushes).run hready
  rw [← append_nil later] at hlater
  obtain ⟨A', _, hmoves, h', -⟩ := h.run hlater
  exact h.sim.durable h'.sim (hmoves.grows h.sim.inv) hp

theorem rebalance_run_durable_early :
    let s := ((RebalanceState.new [0] 1 []).run (earlyCommit.take 2)).2
    ∃ p, s.group.peers 0 = some p ∧ p.commitIndex = 1 ∧
      Durable p (s.run (earlyCommit.drop 2)).2.group :=
  ⟨_, rfl, rfl, rebalance_run_durable [0] 1 [] (earlyCommit.take 2) (earlyCommit.drop 2)
    (by decide +kernel) 0 _ rfl⟩

end Residiuum.Cluster
