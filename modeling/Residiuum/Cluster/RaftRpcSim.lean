import Residiuum.Cluster.RaftPropose
import Residiuum.Cluster.RaftRpc

/-!
# The network runs the replication protocol

A node that campaigns holds the ballots it has counted, a node that replicates leads the term of the
append it waits for, and every append on its way is a part of the log of the winner of its term.

* `RpcSim`: a network and a state of the protocol that agree.
-/

namespace Residiuum.Cluster

open Function List Option PartitionRaft RaftLib RpcNetwork

variable {w : RpcNetwork} {g g' : PartitionRaft} {A A' A'' : State NodeId LogEntry} {f u v : NodeId}
  {p : RaftPeer}

/-! ## What is on its way -/

/-- Steps that keep the ballots. -/
structure Onward (A A' : State NodeId LogEntry) : Prop where
  steps : Steps LogEntry.term A A'
  ballot : ∀ w t c l, A.ballot w t c l → A'.ballot w t c l

theorem Onward.refl (A : State NodeId LogEntry) : Onward A A := ⟨.refl, fun _ _ _ _ hb => hb⟩

theorem Onward.trans (h : Onward A A') (h' : Onward A' A'') : Onward A A'' :=
  ⟨h.steps.trans h'.steps, fun w t c l hb => h'.ballot w t c l (h.ballot w t c l hb)⟩

theorem Calm.onward (h : Calm A A') : Onward A A' := ⟨h.steps, h.ballot⟩

variable {pre entries : List LogEntry} {voters : List NodeId} {votes : ℕ} {asked : NodeId}
  {req : RequestVoteRequest} {rest : List NodeId} {left : List NodeId} {task : RpcTask}
  {attempts : ℕ}

theorem ValidAppend.mono {leader : NodeId} {t commit : ℕ}
    (h : ValidAppend A leader t pre entries commit)
    (hg : RaftLib.Grows A.toHistory A'.toHistory) : ValidAppend A' leader t pre entries commit where
  winner := hg.winner t leader h.winner
  log := h.log.trans (hg.history t)
  commit := h.commit.imp_right fun ⟨t', q, hq, ht, hlen, hpre⟩ =>
    ⟨t', q, hg.committed t' q hq, ht, hlen.trans (hg.history t).length_le, by
      rwa [take_of_initial (hg.history t) hlen]⟩

/-- An append that the winner of its term may have sent. -/
def Sendable (A : State NodeId LogEntry) (req : AppendEntriesRequest) : Prop :=
  ∃ pre, pre.length = req.prevLogIndex ∧
    RaftLib.lastTerm LogEntry.term pre = req.prevLogTerm ∧
    ValidAppend A req.leaderId req.term pre req.entries req.leaderCommit

def Sound (A : State NodeId LogEntry) : RaftRpcRequest → Prop
  | .requestVote dst req => dst ≠ req.candidateId
  | .appendEntries _ req => Sendable A req

theorem Sendable.mono {req : AppendEntriesRequest} (h : Sendable A req)
    (hg : RaftLib.Grows A.toHistory A'.toHistory) : Sendable A' req := by
  obtain ⟨pre, hlen, hterm, hvalid⟩ := h
  exact ⟨pre, hlen, hterm, hvalid.mono hg⟩

theorem Sound.mono {req : RaftRpcRequest} (h : Sound A req)
    (hg : RaftLib.Grows A.toHistory A'.toHistory) : Sound A' req := by
  cases req with
  | requestVote dst req => exact h
  | appendEntries dst req => exact Sendable.mono h hg

/-! ## What locked nodes wait for -/

/-- A candidate with the ballots it has counted, and the voters it has yet to hear of. -/
structure CampaignSim (voters : List NodeId) (A : State NodeId LogEntry) (v : NodeId) (p : RaftPeer)
    (req : RequestVoteRequest) (left : List NodeId) (votes : ℕ) : Prop where
  role : p.role = .candidate
  voter : v ∈ voters
  req_eq : req = ⟨p.currentTerm, v, p.log.length, RaftLib.lastTerm LogEntry.term p.log⟩
  own : ∃ b, A.ballot v p.currentTerm v b
  counted : ∃ done l : List NodeId, (done ++ left).Sublist (voters.filter fun u => u ≠ v) ∧
    l.Sublist done ∧ votes = l.length + 1 ∧ ∀ u ∈ l, ∃ b, A.ballot u p.currentTerm v b

def Followers (voters : List NodeId) (v : NodeId) (fs : List NodeId) : Prop :=
  ∀ f ∈ fs, f ∈ voters ∧ f ≠ v

/-- What a locked node waits for. -/
def TaskSim (g : PartitionRaft) (A : State NodeId LogEntry) (v : NodeId) : RpcTask → Prop
  | .campaign req asked rest votes =>
    ∃ p, g.peers v = some p ∧ CampaignSim g.voters A v p req (asked :: rest) votes
  | .replicate proposal req f _ rest =>
    ∃ p, g.peers v = some p ∧ p.role = .leader ∧ req.leaderId = v ∧ req.term = p.currentTerm ∧
      req.prevLogIndex ≤ p.log.length ∧ Sendable A req ∧ Followers g.voters v (f :: rest) ∧
      Followers g.voters v proposal.followers

theorem CampaignSim.mono (h : CampaignSim voters A v p req left votes) (ho : Onward A A') :
    CampaignSim voters A' v p req left votes where
  role := h.role
  voter := h.voter
  req_eq := h.req_eq
  own := h.own.imp fun b hb => ho.ballot _ _ _ b hb
  counted := by
    obtain ⟨done, l, hdone, hl, hvotes, hballot⟩ := h.counted
    exact ⟨done, l, hdone, hl, hvotes, fun u hu => (hballot u hu).imp fun b hb =>
      ho.ballot _ _ _ b hb⟩

theorem TaskSim.mono (h : TaskSim g A v task) (ho : Onward A A')
    (hg : RaftLib.Grows A.toHistory A'.toHistory) (hpeer : g'.peers v = g.peers v)
    (hvoters : g'.voters = g.voters) : TaskSim g' A' v task := by
  cases task with
  | campaign req asked rest votes =>
    obtain ⟨p, hp, hc⟩ := h
    exact ⟨p, hpeer.trans hp, hvoters ▸ hc.mono ho⟩
  | replicate proposal req f attempts rest =>
    obtain ⟨p, hp, hr, hid, hterm, hlen, hsend, hfs, hall⟩ := h
    exact ⟨p, hpeer.trans hp, hr, hid, hterm, hlen, hsend.mono hg, hvoters ▸ hfs, hvoters ▸ hall⟩

/-- A network and a state of the protocol agree, but for what `v` waits for. -/
structure RpcSimBut (v : NodeId) (w : RpcNetwork) (A : State NodeId LogEntry) : Prop where
  sim : Sim w.group A
  sent : ∀ req ∈ w.sent, Sound A req
  others : ∀ u task, u ≠ v → w.task u = some task → TaskSim w.group A u task

/-- Peers, tasks and messages agree with the protocol. -/
structure RpcSim (w : RpcNetwork) (A : State NodeId LogEntry) : Prop where
  sim : Sim w.group A
  sent : ∀ req ∈ w.sent, Sound A req
  task : ∀ u task, w.task u = some task → TaskSim w.group A u task

/-- Protocol steps lead to a state that agrees with a network. -/
def Reaches (A : State NodeId LogEntry) (w : RpcNetwork) : Prop :=
  ∃ A', Onward A A' ∧ RpcSim w A'

theorem Reaches.trans (ho : Onward A A') (h : Reaches A' w) : Reaches A w := by
  obtain ⟨A'', ho', hs⟩ := h
  exact ⟨A'', ho.trans ho', hs⟩

theorem RpcSim.but (h : RpcSim w A) (v : NodeId) : RpcSimBut v w A :=
  ⟨h.sim, h.sent, fun u task _ ht => h.task u task ht⟩

theorem RpcSim.setGroup (h : RpcSim w A) (ho : Onward A A') (hs : Sim g A')
    (hvoters : g.voters = w.group.voters)
    (hpeers : ∀ u, w.task u ≠ none → g.peers u = w.group.peers u) : RpcSim (w.setGroup g) A' where
  sim := hs
  sent req hreq := (h.sent req hreq).mono (ho.steps.grows h.sim.inv)
  task u task ht :=
    have ht : w.task u = some task := ht
    (h.task u task ht).mono ho (ho.steps.grows h.sim.inv)
      (hpeers u (by rw [ht]; exact some_ne_none task)) hvoters

namespace RpcSimBut

theorem setGroup (h : RpcSimBut v w A) (ho : Onward A A') (hs : Sim g A')
    (hvoters : g.voters = w.group.voters) (hpeers : ∀ u, u ≠ v → g.peers u = w.group.peers u) :
    RpcSimBut v (w.setGroup g) A' where
  sim := hs
  sent req hreq := (h.sent req hreq).mono (ho.steps.grows h.sim.inv)
  others u task hu ht := (h.others u task hu ht).mono ho (ho.steps.grows h.sim.inv) (hpeers u hu)
    hvoters

theorem finish (h : RpcSimBut v w A) : RpcSim (w.finish v) A where
  sim := h.sim
  sent := h.sent
  task u task ht := by
    by_cases hu : u = v
    · subst hu
      cases ht.symm.trans (update_self ..)
    · have ht' : w.task u = some task := by
        rw [← ht]
        exact (update_of_ne hu ..).symm
      exact h.others u task hu ht'

theorem await (h : RpcSimBut v w A) {req : RaftRpcRequest}
    (ht : TaskSim w.group A v task) (hreq : Sound A req) : RpcSim (w.await v task req) A where
  sim := h.sim
  sent r hr := by
    obtain hr | hr := mem_append.mp hr
    · exact h.sent r hr
    · rw [mem_singleton.mp hr]
      exact hreq
  task u t htask := by
    by_cases hu : u = v
    · subst hu
      have heq : some t = some task := htask.symm.trans (update_self ..)
      rw [some.inj heq]
      exact ht
    · have ht' : w.task u = some t := by
        rw [← htask]
        exact (update_of_ne hu ..).symm
      exact h.others u t hu ht'

end RpcSimBut

/-! ## Elections -/

theorem CampaignSim.majority
    (h : CampaignSim voters A v p req [] votes) (hq : voters.length / 2 + 1 ≤ votes) :
    Majority voters fun u => ∃ b, A.ballot u p.currentTerm v b := by
  obtain ⟨done, l, hdone, hl, hvotes, hballot⟩ := h.counted
  rw [append_nil] at hdone
  obtain ⟨l', hsub, hlen, hmem⟩ := exists_sublist_insert h.voter (hl.trans hdone)
  refine ⟨l', hsub, by omega, fun u hu => ?_⟩
  obtain rfl | hu := hmem u hu
  · exact h.own
  · exact hballot u hu

namespace RpcSimBut

theorem closeCampaign (h : RpcSimBut v w A) (hp : w.group.peers v = some p)
    (hc : CampaignSim w.group.voters A v p req [] votes) :
    Reaches A ((w.setGroup (closeCampaign w.group v req.term votes)).finish v) := by
  have hterm : req.term = p.currentTerm := by rw [hc.req_eq]
  unfold RpcNetwork.closeCampaign
  rw [modifyPeer_eq hp, modifyPeer_eq hp, hterm]
  by_cases hq : votes ≥ w.group.quorum
  · rw [if_pos hq]
    obtain ⟨hstep, hs⟩ := h.sim.win hp hc.role (hc.majority hq)
    have ho : Onward A _ := ⟨.single hstep, fun _ _ _ _ hb => hb⟩
    exact ⟨_, ho, (h.setGroup ho hs.flush rfl fun u hu => setPeer_of_ne _ _ hu).finish⟩
  · rw [if_neg hq]
    obtain ⟨hcalm, hs⟩ := h.sim.stepDown hp
    exact ⟨_, hcalm.onward,
      (h.setGroup hcalm.onward hs.flush rfl fun u hu => setPeer_of_ne _ _ hu).finish⟩

theorem askNext (h : RpcSimBut v w A) (hp : w.group.peers v = some p)
    (hc : CampaignSim w.group.voters A v p req left votes) :
    Reaches A (w.askNext v req left votes) := by
  cases left with
  | nil => exact h.closeCampaign hp hc
  | cons asked rest =>
    refine ⟨A, .refl A, h.await ⟨p, hp, hc⟩ fun heq => ?_⟩
    obtain ⟨done, -, hdone, -⟩ := hc.counted
    have hmem := hdone.subset (mem_append_right done mem_cons_self)
    rw [hc.req_eq] at heq
    rw [heq] at hmem
    exact absurd rfl (decide_eq_true_eq.mp (mem_filter.mp hmem).2)

end RpcSimBut

theorem CampaignSim.next (h : CampaignSim voters A v p req (asked :: rest) votes) {granted : Bool}
    (hb : granted = true → ∃ b, A.ballot asked p.currentTerm v b) :
    CampaignSim voters A v p req rest (if granted then votes + 1 else votes) where
  role := h.role
  voter := h.voter
  req_eq := h.req_eq
  own := h.own
  counted := by
    obtain ⟨done, l, hdone, hl, hvotes, hballot⟩ := h.counted
    have hassoc : done ++ asked :: rest = (done ++ [asked]) ++ rest := by simp
    rw [hassoc] at hdone
    cases granted with
    | false => exact ⟨_, l, hdone, hl.trans (sublist_append_left _ _), hvotes, hballot⟩
    | true =>
      refine ⟨_, l ++ [asked], hdone, hl.append (.refl _), by simp [hvotes], fun u hu => ?_⟩
      obtain hu | hu := mem_append.mp hu
      · exact hballot u hu
      · rw [mem_singleton.mp hu]
        exact hb rfl

theorem requestVote_others (g : PartitionRaft) (v c : NodeId) (t i lt : ℕ) :
    (g.requestVote v c t i lt).2.voters = g.voters ∧
      ∀ u, u ≠ v → (g.requestVote v c t i lt).2.peers u = g.peers u := by
  cases hp : g.peers v with
  | none =>
    rw [requestVote, hp]
    exact ⟨rfl, fun _ _ => rfl⟩
  | some p =>
    obtain ⟨-, hcase⟩ | ⟨-, ⟨-, -, hcase⟩ | ⟨g₁, hpeers, hvoters, hcase⟩⟩ :=
      requestVote_cases hp c t i lt
    · rw [hcase]
      exact ⟨rfl, fun _ _ => rfl⟩
    · rw [hcase]
      exact ⟨rfl, fun u hu => setPeer_of_ne g _ hu⟩
    · rw [hcase]
      refine ⟨hvoters, fun u hu => ?_⟩
      rw [hpeers]
      exact setPeer_of_ne g _ hu

namespace RpcSim

theorem setFree (h : RpcSim w A) (hfree : w.task v = none) (ho : Onward A A') (hs : Sim g A')
    (hvoters : g.voters = w.group.voters) (hpeers : ∀ u, u ≠ v → g.peers u = w.group.peers u) :
    RpcSim (w.setGroup g) A' := by
  refine h.setGroup ho hs hvoters fun u hu => hpeers u ?_
  rintro rfl
  exact hu hfree

theorem campaign (h : RpcSim w A) (hfree : w.task v = none) (online : List NodeId) :
    Reaches A (w.campaign v online) := by
  unfold RpcNetwork.campaign
  by_cases hvoter : v ∉ w.group.voters
  · rw [if_pos hvoter]
    exact ⟨A, .refl A, h⟩
  rw [if_neg hvoter]
  by_cases honline : v ∉ online
  · rw [if_pos honline]
    exact ⟨A, .refl A, h⟩
  rw [if_neg honline]
  cases hp : w.group.peers v with
  | none => exact ⟨A, .refl A, h⟩
  | some p =>
    dsimp only
    obtain ⟨A₁, hstep, hs₁, -, -, hballot, hself⟩ := h.sim.timeout hp (not_not.mp hvoter)
    have ho : Onward A A₁ := ⟨.single hstep, hballot⟩
    have hp₁ : (w.group.setPeer v (p.becomeCandidate v)).flushPeer.2.peers v =
        some (p.becomeCandidate v) := w.group.setPeer_self _ _
    by_cases hflush : (w.group.setPeer v (p.becomeCandidate v)).flushPeer.1 = false
    · rw [if_pos hflush, modifyPeer_eq hp₁]
      obtain ⟨hcalm, hs₂⟩ := hs₁.flush.stepDown hp₁
      refine ⟨_, ho.trans hcalm.onward, h.setFree hfree (ho.trans hcalm.onward) hs₂ rfl
        fun u hu => ?_⟩
      rw [setPeer_of_ne _ _ hu]
      exact setPeer_of_ne _ _ hu
    rw [if_neg hflush]
    have hbut : RpcSimBut v (w.setGroup (w.group.setPeer v (p.becomeCandidate v)).flushPeer.2) A₁ :=
      (h.but v).setGroup ho hs₁.flush rfl fun u hu => setPeer_of_ne _ _ hu
    have hlast : (p.becomeCandidate v).lastLogIndex = (p.becomeCandidate v).log.length :=
      (h.sim.indexed_log hp).lastIndex_eq
    refine Reaches.trans ho (hbut.askNext hp₁ ⟨rfl, not_not.mp hvoter, ?_, ⟨_, hself⟩, ?_⟩)
    · rw [hlast]
      rfl
    · refine ⟨[], [], ?_, .slnil, rfl, nofun⟩
      rw [nil_append]
      exact monotone_filter_right _ fun u hu => by
        simp only [decide_eq_true_eq] at hu ⊢
        exact hu.1

theorem onVote (h : RpcSim w A)
    (htask : w.task v = some (.campaign req asked rest votes)) {res : Option VoteResult}
    (hres : ∀ r, res = some r → r.voteGranted = true →
      ∃ b, A.ballot asked req.term req.candidateId b) :
    Reaches A (w.onVote v req rest votes res) := by
  obtain ⟨p, hp, hc⟩ := h.task v _ htask
  have hterm : req.term = p.currentTerm := by rw [hc.req_eq]
  have hcand : req.candidateId = v := by rw [hc.req_eq]
  cases res with
  | none =>
    exact (h.but v).askNext hp (hc.next fun hno : false = true => absurd hno Bool.false_ne_true)
  | some r =>
    unfold RpcNetwork.onVote
    dsimp only
    by_cases hhigher : r.term > req.term
    · rw [if_pos hhigher, modifyPeer_eq hp]
      rw [hterm] at hhigher
      obtain ⟨hcalm, hs⟩ : _ ∧ Sim (w.group.setPeer v (stepDown r.term p)) _ :=
        h.sim.yield_calm hp rfl hhigher.le rfl rfl rfl fun heq => absurd heq hhigher.ne'
      exact ⟨_, hcalm.onward,
        ((h.but v).setGroup hcalm.onward hs.flush rfl fun u hu => setPeer_of_ne _ _ hu).finish⟩
    · rw [if_neg hhigher]
      refine (h.but v).askNext hp (hc.next fun hgrant => ?_)
      rw [← hterm, ← hcand]
      exact hres r rfl hgrant

/-- **A vote request is handled by protocol steps**; the answer to a candidate is a ballot. -/
theorem handleVote (h : RpcSim w A) (htask : w.task v = some (.campaign req asked rest votes))
    (hfree : w.task asked = none) {res : VoteResult}
    (hr : w.group.handleRequestVote asked req = (res, g)) :
    ∃ A', Onward A A' ∧ RpcSim (w.setGroup g) A' ∧
      (res.voteGranted = true → ∃ b, A'.ballot asked req.term req.candidateId b) := by
  obtain ⟨p, hp, hc⟩ := h.task v _ htask
  have hasked : asked ∈ w.group.voters ∧ asked ≠ v := by
    obtain ⟨done, -, hdone, -⟩ := hc.counted
    have hmem := hdone.subset (mem_append_right done mem_cons_self)
    obtain ⟨hmem, hne⟩ := mem_filter.mp hmem
    exact ⟨hmem, decide_eq_true_eq.mp hne⟩
  have hn : A.node v = p.node := h.sim.node_of_peer hp
  have hr' : w.group.requestVote asked v (A.node v).term (A.node v).log.length
      (lastTerm LogEntry.term (A.node v).log) = (res, g) := by
    rw [hn, ← hr, hc.req_eq]
    rfl
  obtain ⟨hvoters, A', hcalm, hs, -, -, hballot⟩ := h.sim.requestVote hasked.1 hasked.2
    (by rw [hn]; exact hc.role) hr'
  refine ⟨A', hcalm.onward, h.setFree hfree hcalm.onward hs hvoters fun u hu => ?_,
    fun hgrant => ?_⟩
  · have hothers := (requestVote_others w.group asked v (A.node v).term (A.node v).log.length
      (lastTerm LogEntry.term (A.node v).log)).2 u hu
    rwa [hr'] at hothers
  · have := hballot hgrant
    rw [hn] at this
    rw [hc.req_eq]
    exact this

end RpcSim

/-! ## Proposals -/

theorem Sim.appendRequest (hs : Sim g A) (hp : g.peers v = some p) (hr : p.role = .leader)
    (config : RaftRpcConfig) (f : NodeId) :
    Sendable A (appendRequest config v f p) ∧
      (appendRequest config v f p).prevLogIndex ≤ p.log.length := by
  have hn := hs.next_bound hp hr f
  have hlen : (p.nextIndex f).getD 1 - 1 ≤ p.log.length := by omega
  refine ⟨⟨p.log.take ((p.nextIndex f).getD 1 - 1), length_take_of_le hlen,
    (termAt_eq_lastTerm p hlen).symm, hs.validAppend hp hr ?_⟩, hlen⟩
  unfold RpcNetwork.appendRequest
  dsimp only
  rw [filter_index_eq_drop (hs.indexed_log hp) hn.1]
  conv_rhs => rw [← take_append_drop ((p.nextIndex f).getD 1 - 1) p.log]
  exact (prefix_append_right_inj _).mpr ( take_prefix _ _)

theorem advanceCommit_others (g : PartitionRaft) (v : NodeId) :
    (g.advanceCommit v).voters = g.voters ∧
      ∀ u, u ≠ v → (g.advanceCommit v).peers u = g.peers u := by
  unfold advanceCommit
  cases hp : g.peers v with
  | none => exact ⟨rfl, fun _ _ => rfl⟩
  | some p =>
    dsimp only
    split
    · exact ⟨rfl, fun _ _ => rfl⟩
    · cases g.newCommit p with
      | none => exact ⟨rfl, fun _ _ => rfl⟩
      | some n =>
        dsimp only
        rw [modifyPeer_eq hp]
        exact ⟨rfl, fun u hu => setPeer_of_ne g _ hu⟩

namespace RpcSimBut

variable {proposal : RpcProposal} {fs rest : List NodeId}

section

variable (h : RpcSimBut v w A)

include h

theorem replicateTo {w' : RpcNetwork} (hfs : Followers w.group.voters v (f :: rest))
    (hall : Followers w.group.voters v proposal.followers)
    (hrep : w.replicateTo v proposal f rest attempts = some w') : RpcSim w' A := by
  unfold RpcNetwork.replicateTo at hrep
  cases attempts with
  | zero => cases hrep
  | succ attempts =>
    cases hp : w.group.peers v with
    | none =>
      rw [hp] at hrep
      cases hrep
    | some p =>
      rw [hp] at hrep
      dsimp only at hrep
      split at hrep
      · cases hrep
      · rename_i hr
        cases hrep
        have hr : p.role = .leader := not_not.mp hr
        obtain ⟨hsend, hlen⟩ := h.sim.appendRequest hp hr (w.config v) f
        exact h.await ⟨p, hp, hr, rfl, rfl, hlen, hsend, hfs, hall⟩ hsend

theorem pushCommits (hfs : Followers w.group.voters v fs)
    (hall : Followers w.group.voters v proposal.followers) :
    RpcSim (w.pushCommits v proposal fs) A := by
  induction fs with
  | nil => exact h.finish
  | cons f fs ih =>
    unfold RpcNetwork.pushCommits
    cases hrep : w.replicateTo v proposal f fs (w.config v).replicateAttempts with
    | none => exact ih fun u hu => hfs u (mem_cons_of_mem f hu)
    | some w' => exact h.replicateTo hfs hall hrep

theorem advanceCommit : ∃ A', Onward A A' ∧ RpcSimBut v (w.setGroup (w.group.advanceCommit v)) A' :=
    by
  obtain ⟨hvoters, hpeers⟩ := advanceCommit_others w.group v
  obtain ⟨A', hcalm, hs⟩ : ∃ A', Calm A A' ∧ Sim (w.group.advanceCommit v) A' := by
    by_cases hlead : ∃ p, w.group.peers v = some p ∧ p.role = .leader
    · obtain ⟨p, hp, hr⟩ := hlead
      obtain ⟨-, -, A', hcalm, hs⟩ := h.sim.advanceCommit hp hr
      exact ⟨A', hcalm, hs⟩
    · have hsame : w.group.advanceCommit v = w.group := by
        unfold PartitionRaft.advanceCommit
        cases hp : w.group.peers v with
        | none => rfl
        | some p => exact if_pos fun hr => hlead ⟨p, hp, hr⟩
      rw [hsame]
      exact ⟨A, .refl A, h.sim⟩
  exact ⟨A', hcalm.onward, h.setGroup hcalm.onward hs hvoters hpeers⟩

theorem closeProposal (hall : Followers w.group.voters v proposal.followers) : Reaches A
    (w.closeProposal v proposal) := by
  obtain ⟨A', ho, hbut⟩ := h.advanceCommit
  have hvoters : (w.group.advanceCommit v).voters = w.group.voters :=
    (advanceCommit_others w.group v).1
  have hall' : Followers (w.group.advanceCommit v).voters v proposal.followers := hvoters ▸ hall
  refine ⟨A', ho, ?_⟩
  unfold RpcNetwork.closeProposal
  dsimp only
  split
  · exact hbut.pushCommits hall' hall'
  · exact hbut.finish

theorem sendEntries (hfs : Followers w.group.voters v fs)
    (hall : Followers w.group.voters v proposal.followers) :
    Reaches A (w.sendEntries v proposal fs) := by
  induction fs with
  | nil => exact h.closeProposal hall
  | cons f fs ih =>
    unfold RpcNetwork.sendEntries
    cases hrep : w.replicateTo v proposal f fs (w.config v).replicateAttempts with
    | none => exact ih fun u hu => hfs u (mem_cons_of_mem f hu)
    | some w' => exact ⟨A, .refl A, h.replicateTo hfs hall hrep⟩

theorem nextFollower (hfs : Followers w.group.voters v fs)
    (hall : Followers w.group.voters v proposal.followers) :
    Reaches A (w.nextFollower v proposal fs) := by
  unfold RpcNetwork.nextFollower
  split
  · exact ⟨A, .refl A, h.pushCommits hfs hall⟩
  · exact h.sendEntries hfs hall

end

end RpcSimBut

theorem RpcSim.propose (h : RpcSim w A) (hfree : w.task v = none) (command : LogCommand)
    (online : List NodeId) : Reaches A (w.propose v command online) := by
  unfold RpcNetwork.propose
  cases hp : w.group.peers v with
  | none => exact ⟨A, .refl A, h⟩
  | some p =>
    dsimp only
    by_cases hr : p.role ≠ .leader
    · rw [if_pos hr]
      exact ⟨A, .refl A, h⟩
    rw [if_neg hr]
    have hr : p.role = .leader := not_not.mp hr
    have hlast : p.lastLogIndex = p.log.length := (h.sim.indexed_log hp).lastIndex_eq
    rw [hlast]
    generalize he : (⟨p.currentTerm, p.log.length + 1, command⟩ : LogEntry) = e
    have hindex : e.index = p.log.length + 1 := by rw [← he]
    have hterm : e.term = p.currentTerm := by rw [← he]
    have hp₁ : (w.group.setPeer v (pushEntry v e p)).flushPeer.2.peers v =
        some (pushEntry v e p) := w.group.setPeer_self _ _
    by_cases hflush : (w.group.setPeer v (pushEntry v e p)).flushPeer.1 = false
    · rw [if_pos hflush, modifyPeer_eq hp₁, ← hindex]
      have hs₁ := (h.sim.popEntry hp hr e).flush
      refine ⟨A, .refl A, h.setFree hfree (.refl A) (hs₁.congr
        (by simp [setPeer, flushPeer]) rfl) rfl fun u hu => ?_⟩
      rw [setPeer_of_ne _ _ hu]
      exact setPeer_of_ne _ _ hu
    rw [if_neg hflush]
    obtain ⟨A₁, hcalm₁, hs₁⟩ := h.sim.pushEntry hp hr hterm hindex
    have hbut : RpcSimBut v (w.setGroup (w.group.setPeer v (pushEntry v e p)).flushPeer.2) A₁ :=
      (h.but v).setGroup hcalm₁.onward hs₁.flush rfl fun u hu => setPeer_of_ne _ _ hu
    have hfs : Followers w.group.voters v
        (w.group.voters.filter fun u => u ≠ v ∧ u ∈ online) := by
      intro u hu
      obtain ⟨hu, hcond⟩ := mem_filter.mp hu
      exact ⟨hu, (decide_eq_true_eq.mp hcond).1⟩
    exact Reaches.trans hcalm₁.onward (hbut.sendEntries hfs hfs)

/-! ## Appends -/

/-- What a follower keeps past an append that it accepts is in the log of the sender: the append
reaches to the end of the follower's log or conflicts with it, or the sender still leads and has the
whole log. -/
def Covers (g : PartitionRaft) (dst : NodeId) (req : AppendEntriesRequest) : Prop :=
  ∀ p ∈ g.peers dst, p.currentTerm ≤ req.term →
    prevConflict p req.prevLogIndex req.prevLogTerm = none →
      p.log.length ≤ req.prevLogIndex + req.entries.length ∨
        (∃ e ∈ req.entries, ∃ x ∈ p.entryAt e.index, x.term ≠ e.term) ∨
        ∃ q ∈ g.peers req.leaderId, q.role = .leader ∧ q.currentTerm = req.term ∧ p.log <+: q.log

instance decidableCovers (g : PartitionRaft) (dst : NodeId) (req : AppendEntriesRequest) :
    Decidable (Covers g dst req) :=
  inferInstanceAs (Decidable (∀ p ∈ g.peers dst, _))

theorem not_initial_of_conflict {log : List LogEntry} (h : Indexed (pre ++ entries))
    (hconf : ∃ e ∈ entries, ∃ x ∈ entryAtPos log e.index, x.term ≠ e.term) :
    ¬ pre ++ entries <+: log := by
  rintro ⟨t, rfl⟩
  obtain ⟨e, he, x, hx, hne⟩ := hconf
  obtain ⟨k, hk⟩ := getElem?_of_mem (mem_append_right pre he)
  rw [h k e hk, mem_def, entryAtPos_succ,
    getElem?_append_left (List.getElem?_eq_some_iff.mp hk).1, hk] at hx
  exact hne (congrArg LogEntry.term (some.inj hx)).symm

theorem Sim.leader_history (hs : Sim g A) (hp : g.peers v = some p) (hr : p.role = .leader) :
    A.winner p.currentTerm = some v ∧ p.log = A.history p.currentTerm := by
  have hn : A.node v = p.node := hs.node_of_peer hp
  obtain ⟨-, hw, hlog⟩ := (hs.inv.node v).leader (by rw [hn]; exact hr)
  rw [hn] at hw hlog
  exact ⟨hw, hlog⟩

theorem Sim.covered (hs : Sim g A) {req : AppendEntriesRequest}
    (hlen : pre.length = req.prevLogIndex)
    (hvalid : ValidAppend A req.leaderId req.term pre req.entries req.leaderCommit)
    (hcover : p.log.length ≤ req.prevLogIndex + req.entries.length ∨
      (∃ e ∈ req.entries, ∃ x ∈ p.entryAt e.index, x.term ≠ e.term) ∨
      ∃ q ∈ g.peers req.leaderId, q.role = .leader ∧ q.currentTerm = req.term ∧ p.log <+: q.log) :
    p.log.length ≤ (pre ++ req.entries).length ∨ ¬ pre ++ req.entries <+: p.log ∨
      p.log <+: A.history req.term := by
  obtain hle | hconf | ⟨q, hq, hr, hterm, hinit⟩ := hcover
  · rw [length_append, hlen]
    exact .inl hle
  · exact .inr (.inl (not_initial_of_conflict ((hs.indexed req.term).initial hvalid.log) hconf))
  · rw [(hs.leader_history hq hr).2, hterm] at hinit
    exact .inr (.inr hinit)

namespace RpcSim

/-- **An append is handled by protocol steps**, and a follower that accepts acknowledges as much of
the winner's log as it reports. -/
theorem handleAppend (h : RpcSim w A) {req : AppendEntriesRequest} (hfree : w.task f = none)
    (hsend : Sendable A req) (hcover : Covers w.group f req) {res : AppendEntriesResponse}
    (hr : w.group.handleAppendEntries f req = (res, g)) :
    ∃ A', Calm A A' ∧ RpcSim (w.setGroup g) A' ∧
      (∀ c, res.conflictIndex = some c → c ≤ req.prevLogIndex) ∧
      (res.success = true → ∃ m, res.matchIndex = some m ∧ m ≤ (A'.history req.term).length ∧
        ∀ i, i ≤ m → A'.acked f req.term ((A'.history req.term).take i)) := by
  obtain ⟨pre, hlen, hterm, hvalid⟩ := hsend
  obtain ⟨⟨r, g₁⟩, happ⟩ : ∃ r, w.group.appendEntries f req.leaderId req.term req.prevLogIndex
    req.prevLogTerm req.entries req.leaderCommit = r := ⟨_, rfl⟩
  unfold handleAppendEntries at hr
  rw [happ] at hr
  cases hr
  cases hp : w.group.peers f with
  | none =>
    unfold appendEntries at happ
    rw [hp] at happ
    cases happ
    exact ⟨A, .refl A, h, fun c hc => (by cases hc), fun hok => (by cases hok)⟩
  | some p =>
    rw [← hlen, ← hterm] at happ
    have hcov : p.currentTerm ≤ req.term →
        prevConflict p pre.length (lastTerm LogEntry.term pre) = none →
          p.log.length ≤ (pre ++ req.entries).length ∨ ¬ pre ++ req.entries <+: p.log ∨
            p.log <+: A.history req.term := by
      intro hle hconf
      rw [hlen, hterm] at hconf
      exact h.sim.covered hlen hvalid (hcover p hp hle hconf)
    obtain ⟨hvoters, hpeers, hconf, A', p', hcalm, hs', hp', hok⟩ :=
      h.sim.appendEntries hp hvalid (fun hle hconf => .inr (hcov hle hconf)) happ
    refine ⟨A', hcalm, h.setFree hfree hcalm.onward hs' hvoters hpeers,
      fun c hc => hlen ▸ hconf c hc, fun hsucc => ?_⟩
    obtain ⟨hle, hnone, hlog, hacked⟩ := hok hsucc
    have hinit : p'.log <+: A.history req.term := by
      obtain ⟨heq, hsub⟩ | ⟨heq, -⟩ := hlog
      · obtain hlen | hnot | hinit := hcov hle hnone
        · rw [heq, ← hsub.eq_of_length_le hlen]
          exact hvalid.log
        · exact absurd hsub hnot
        · exact heq ▸ hinit
      · exact heq ▸ hvalid.log
    have hlast : p'.lastLogIndex = p'.log.length := (hs'.indexed_log hp').lastIndex_eq
    have hinit' := hinit.trans ((hcalm.steps.grows h.sim.inv).history req.term)
    refine ⟨p'.log.length, ?_, hinit'.length_le, fun i hi => hacked _ (.inr ⟨?_, hinit⟩)⟩
    · rw [if_pos hsucc, hp', map_some, hlast]
    · rw [take_of_initial hinit' hi]
      exact take_prefix _ _

theorem onAppend (h : RpcSim w A) {proposal : RpcProposal} {req : AppendEntriesRequest}
    (htask : w.task v = some (.replicate proposal req f attempts rest))
    {res : Option AppendEntriesResponse}
    (hres : ∀ r, res = some r → (∀ c, r.conflictIndex = some c → c ≤ req.prevLogIndex) ∧
      (r.success = true → ∃ m, r.matchIndex = some m ∧ m ≤ (A.history req.term).length ∧
        ∀ i, i ≤ m → A.acked f req.term ((A.history req.term).take i))) :
    Reaches A (w.onAppend v proposal req f attempts rest res) := by
  obtain ⟨p, hp, hr, hid, hterm, hprev, hsend, hfs, hall⟩ := h.task v _ htask
  have hrest : Followers w.group.voters v rest := fun u hu => hfs u (mem_cons_of_mem f hu)
  cases res with
  | none => exact (h.but v).nextFollower hrest hall
  | some r =>
    obtain ⟨hconf, hacked⟩ := hres r rfl
    unfold RpcNetwork.onAppend
    dsimp only
    rw [modifyPeer_eq hp, modifyPeer_eq hp, modifyPeer_eq hp]
    have hset : ∀ q, ∀ u, u ≠ v → (w.group.setPeer v q).peers u = w.group.peers u :=
      fun q u hu => setPeer_of_ne w.group q hu
    by_cases hhigher : r.term > req.term
    · -- the follower is in a higher term
      rw [if_pos hhigher]
      rw [hterm] at hhigher
      obtain ⟨hcalm, hs⟩ : _ ∧ Sim (w.group.setPeer v (stepDown r.term p)) _ :=
        h.sim.yield_calm hp rfl hhigher.le rfl rfl rfl fun heq => absurd heq hhigher.ne'
      have hbut := (h.but v).setGroup hcalm.onward hs.flush rfl (hset _)
      split
      · exact ⟨_, hcalm.onward, hbut.pushCommits hrest hall⟩
      · exact ⟨_, hcalm.onward, hbut.finish⟩
    rw [if_neg hhigher]
    by_cases hsucc : r.success = true
    · -- the follower has accepted
      rw [if_pos hsucc]
      obtain ⟨m, hm, hlen, hack⟩ := hacked hsucc
      rw [hterm, ← (h.sim.leader_history hp hr).2] at hlen hack
      rw [hm, getD_some]
      have hs := h.sim.setMatch hp hr hlen fun i _ hi => hack i hi
      exact ((h.but v).setGroup (.refl A) hs rfl (hset _)).nextFollower hrest hall
    -- the follower has refused, and the leader backs off
    rw [if_neg hsucc]
    have hn := h.sim.next_bound hp hr f
    have hs : Sim (w.group.setPeer v (backOff f r.conflictIndex p)) A := by
      refine h.sim.setNext hp hr ?_
      have hle : r.conflictIndex.getD ((p.nextIndex f).getD 1 - 1) ≤ p.log.length := by
        cases hc : r.conflictIndex with
        | none =>
          rw [getD_none]
          omega
        | some c => exact (hconf c hc).trans hprev
      split_ifs <;> omega
    have hbut := (h.but v).setGroup (.refl A) hs rfl (hset _)
    cases hrep : (w.setGroup (w.group.setPeer v (backOff f r.conflictIndex p))).replicateTo
        v proposal f rest attempts with
    | none => exact hbut.nextFollower hrest hall
    | some w' => exact ⟨A, .refl A, hbut.replicateTo hfs hall hrep⟩

end RpcSim

end Residiuum.Cluster
