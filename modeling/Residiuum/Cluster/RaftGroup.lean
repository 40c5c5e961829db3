import Residiuum.Cluster.RaftPropose

/-!
# Safety of the in-process group

Every run of elections, proposals and applications of a group with fixed voters is a run of the
replication protocol, whatever nodes are online and whichever flushes fail.

* `Sim.new`: a new group and the initial state of the protocol agree.
* **`Sim.run`**: calls are protocol steps, and what they return has happened in the protocol.
* **`run_safe`**: terms have one winner, logs match, committed entries are in the logs of later
  leaders, and applied entries agree.
* **`Sim.durable`**: what was committed once is so in every later state.
-/

namespace Residiuum.Cluster

open List Option PartitionRaft

open RaftLib (Inv Majority State)

variable {g g' : PartitionRaft} {A A' : State NodeId LogEntry} {v w : NodeId} {p q : RaftPeer}

/-! ## Application -/

theorem applyLoop_eq (log : List LogEntry) (steps lastApplied : ℕ) :
    applyLoop log steps lastApplied =
      (((log.drop lastApplied).take steps).filter fun e => e.command.subject ≠ SNAPSHOT_BASE,
        lastApplied + ((log.drop lastApplied).take steps).length) := by
  induction steps generalizing lastApplied with
  | zero => simp [applyLoop]
  | succ steps ih =>
    unfold applyLoop
    rw [entryAtPos_succ]
    cases he : log[lastApplied]? with
    | none =>
      have hdrop : log.drop lastApplied = [] :=
        drop_of_length_le (List.getElem?_eq_none_iff.mp he)
      simp [hdrop]
    | some e =>
      have hdrop : log.drop lastApplied = e :: log.drop (lastApplied + 1) := by
        obtain ⟨hlt, rfl⟩ := List.getElem?_eq_some_iff.mp he
        exact drop_eq_getElem_cons hlt
      rw [ih, hdrop, take_succ_cons, filter_cons, length_cons]
      simp only [decide_eq_true_eq]
      rw [Nat.add_assoc, Nat.add_comm 1]

variable {e : LogEntry} {i : ℕ} {voters : List NodeId} {P : NodeId → Prop} {ret : RaftReturn}
  {e' : LogEntry}

theorem mem_applyLoop {log : List LogEntry} {commit lastApplied : ℕ}
    (h : e ∈ (applyLoop log (commit - lastApplied) lastApplied).1) :
    ∃ i, i ≤ commit ∧ entryAtPos log i = some e := by
  rw [applyLoop_eq] at h
  obtain ⟨i, hi⟩ := getElem?_of_mem (mem_of_mem_filter h)
  rw [getElem?_take] at hi
  split at hi
  · rw [getElem?_drop] at hi
    exact ⟨lastApplied + i + 1, by omega, by rw [entryAtPos_succ, hi]⟩
  · cases hi

namespace Sim

theorem takeApplyBatch (hs : Sim g A) {out : List LogEntry} (h : g.takeApplyBatch v = (out, g')) :
    g'.voters = g.voters ∧ Sim g' A ∧ ∀ e ∈ out, Settled A e.index e := by
  unfold PartitionRaft.takeApplyBatch at h
  cases hp : g.peers v with
  | none =>
    rw [hp] at h
    cases h
    exact ⟨rfl, hs, nofun⟩
  | some p =>
    rw [hp] at h
    cases h
    have hsim : ∀ n, Sim (g.setPeer v { p with lastApplied := n }) A := fun n =>
      hs.note hp rfl rfl fun hr =>
        have hl := hs.leader v p hp hr
        ⟨hl.vote, hl.next, hl.matched, hl.own⟩
    refine ⟨rfl, (hsim _).flush, fun e he => ?_⟩
    obtain ⟨i, hi, hentry⟩ := mem_applyLoop he
    rw [(hs.indexed_log hp).entryAtPos hentry]
    exact hs.settled hp hi hentry

end Sim

/-! ## Runs -/

/-- What a call returned has happened. -/
def Recorded (A : State NodeId LogEntry) : RaftReturn → Prop
  | .elected res => ∀ v t, res = .ok (v, t) → A.winner t = some v
  | .proposed res => Proposed res A
  | .applied _ batch => ∀ e ∈ batch, Settled A e.index e

/-- Who was reported as a leader leads. -/
def ReportedLeads (A : State NodeId LogEntry) (ret : RaftReturn) : Prop :=
  ∀ v t, ret = .elected (.ok (v, t)) → (A.node v).role = .leader

theorem Recorded.mono (h : Recorded A ret)
    (hg : RaftLib.Grows A.toHistory A'.toHistory) : Recorded A' ret := by
  cases ret with
  | elected res => exact fun v t hres => hg.winner t v (h v t hres)
  | proposed res => exact fun r hres hc => (h r hres hc).mono hg
  | applied node batch => exact fun e he => (h e he).mono hg

theorem entryAtPos_of_initial {l l' : List LogEntry} (hl : l <+: l')
    (he : entryAtPos l i = some e) : entryAtPos l' i = some e := by
  unfold entryAtPos at he ⊢
  split_ifs at he ⊢
  obtain ⟨r, rfl⟩ := hl
  rw [getElem?_append_left (List.getElem?_eq_some_iff.mp he).1, he]

theorem Sim.settled_unique (hs : Sim g A) (h : Settled A i e) (h' : Settled A i e') : e = e' := by
  obtain ⟨t, l, hl, he⟩ := h
  obtain ⟨t', l', hl', he'⟩ := h'
  obtain hle | hle := hs.inv.committed_comparable hl hl'
  · exact some.inj ((entryAtPos_of_initial hle he).symm.trans he')
  · exact some.inj (he.symm.trans (entryAtPos_of_initial hle he'))

namespace Sim

theorem new (voters : List NodeId) (epoch : ℕ) (flushes : List Bool) :
    Sim (new voters epoch flushes) (State.init voters) := by
  have hpeers : ∀ v, (PartitionRaft.new voters epoch flushes).peers v =
      if v ∈ voters then some (RaftPeer.new v) else none :=
    foldl_update voters RaftPeer.new fun _ => none
  have hnew : ∀ v p, (PartitionRaft.new voters epoch flushes).peers v = some p →
      p = RaftPeer.new v := by
    intro v p hp
    rw [hpeers] at hp
    split_ifs at hp
    exact (some.inj hp).symm
  refine ⟨Inv.init voters, rfl, fun v => ?_, fun v hv => ?_, fun _ => .nil, fun v p hp => ?_,
    fun v p hp hr => ?_⟩
  · rw [PartitionRaft.node, hpeers]
    split_ifs <;> rfl
  · have hv : v ∈ voters := hv
    rw [hpeers, if_pos hv]
    exact some_ne_none _
  · rw [hnew v p hp]
    rfl
  · rw [hnew v p hp] at hr
    cases hr

section

variable (hs : Sim g A) {c : RaftCall}

include hs

theorem elected (hi : Idle A) {res : Except ElectError (NodeId × ℕ)}
    (h : g.call c = (.elected res, g')) : Follows A g g' (Elected A res) := by
  cases c with
  | elect candidate online =>
    cases h
    exact hs.elect hi (Prod.mk.eta (p := g.elect candidate online)).symm
  | ensureLeaderPreferring online preferred =>
    cases h
    exact hs.ensureLeaderPreferring hi
      (Prod.mk.eta (p := g.ensureLeaderPreferring online preferred)).symm
  | propose leader command online => cases h
  | takeApplyBatch node => cases h

theorem leader_peer (hr : (A.node v).role = .leader) : ∃ p, g.peers v = some p ∧ p.role = .leader :=
    by
  rw [hs.node v, PartitionRaft.node] at hr
  cases hp : g.peers v with
  | none =>
    rw [hp] at hr
    cases hr
  | some p =>
    rw [hp] at hr
    exact ⟨p, rfl, hr⟩

/-- **A call is a sequence of protocol steps**, what it returns has happened, and whoever has won a
term leads it. -/
theorem call (hi : Idle A) (h : g.call c = (ret, g')) : Follows A
    g g' fun A' => Recorded A' ret ∧ ReportedLeads A' ret ∧ WinnersLead A A' := by
  cases ret with
  | elected res =>
    obtain ⟨hvoters, A', hsteps, hs', hi', hwon⟩ := hs.elected hi h
    exact ⟨hvoters, A', hsteps, hs', hi', fun v t hres => (hwon.leads v t hres).1,
      fun v t hres => (hwon.leads v t (RaftReturn.elected.inj hres)).2.1, hwon.winnersLead⟩
  | proposed res =>
    cases c with
    | propose leader command online =>
      cases h
      obtain ⟨hvoters, A', hsteps, hs', hi', hprop, hwinner⟩ :=
        hs.propose hi (Prod.mk.eta (p := g.propose leader command online)).symm
      exact ⟨hvoters, A', hsteps, hs', hi', hprop, fun v t hres => (by cases hres), .of_eq hwinner⟩
    | _ => cases h
  | applied node batch =>
    cases c with
    | takeApplyBatch node =>
      cases h
      obtain ⟨hvoters, hs', hout⟩ :=
        hs.takeApplyBatch (Prod.mk.eta (p := g.takeApplyBatch node)).symm
      exact ⟨hvoters, A, .refl, hs', hi, hout, fun v t hres => (by cases hres), .of_eq rfl⟩
    | _ => cases h

theorem run (hi : Idle A) {calls : List RaftCall} {rets : List RaftReturn}
    (h : g.run calls = (rets, g')) : Follows A g g' fun A' => ∀ ret ∈ rets, Recorded A' ret := by
  induction calls generalizing g A rets with
  | nil =>
    cases h
    exact ⟨rfl, A, .refl, hs, hi, nofun⟩
  | cons c calls ih =>
    unfold run at h
    obtain ⟨⟨ret, g₁⟩, hc⟩ : ∃ r, g.call c = r := ⟨_, rfl⟩
    obtain ⟨⟨rets₁, g₂⟩, hrun⟩ : ∃ r, g₁.run calls = r := ⟨_, rfl⟩
    obtain ⟨hvoters₁, A₁, hsteps₁, hs₁, hi₁, hret, -⟩ := hs.call hi hc
    rw [hc] at h
    dsimp only at h
    rw [hrun] at h
    cases h
    obtain ⟨hvoters, A', hsteps, hs', hi', hrets⟩ := ih hs₁ hi₁ hrun
    refine ⟨hvoters.trans hvoters₁, A', hsteps₁.trans hsteps, hs', hi', fun x hx => ?_⟩
    obtain rfl | hx := mem_cons.mp hx
    · exact hret.mono (hsteps.grows hs₁.inv)
    · exact hrets x hx

theorem log_matching (hp : g.peers v = some p) (hq : g.peers w = some q) (he : e ∈ p.log)
    (he' : e' ∈ q.log) (hindex : e.index = e'.index) (hterm : e.term = e'.term) :
    p.log.take e.index = q.log.take e.index := by
  obtain ⟨i, hi⟩ := getElem?_of_mem he
  obtain ⟨j, hj⟩ := getElem?_of_mem he'
  have hei : e.index = i + 1 := hs.indexed_log hp i e hi
  have hej : e'.index = j + 1 := hs.indexed_log hq j e' hj
  obtain rfl : i = j := by omega
  have hv : (A.node v).log[i]? = some e := by rw [hs.node_of_peer hp]; exact hi
  have hw : (A.node w).log[i]? = some e' := by rw [hs.node_of_peer hq]; exact hj
  have hmatch := hs.inv.log_matching hv hw hterm
  rw [hs.node_of_peer hp, hs.node_of_peer hq] at hmatch
  rw [hei]
  exact hmatch

theorem leader_entryAt (hi : Idle A) (hp : g.peers v = some p) (hr : p.role = .leader)
    (he : Settled A i e) : p.entryAt i = some e := by
  obtain ⟨t, l, hl, hentry⟩ := he
  have hn : A.node v = p.node := hs.node_of_peer hp
  have hrole : (A.node v).role = .leader := by rw [hn]; exact hr
  have hle : t ≤ (A.node v).term :=
    hi.latest v hrole t (hs.inv.hist.committed_history t l hl).1
  have hlog := hs.inv.leader_contains hrole hl hle
  rw [hn] at hlog
  exact entryAtPos_of_initial hlog hentry

end

end Sim

/-! ## Storage -/

/-- A node has an entry of the index and term of `e` at `i`. -/
def Stores (g : PartitionRaft) (v : NodeId) (i : ℕ) (e : LogEntry) : Prop :=
  ∃ p ∈ g.peers v, ∃ x ∈ p.entryAt i, x.index = e.index ∧ x.term = e.term

instance decidableStores (g : PartitionRaft) (v : NodeId) (i : ℕ) (e : LogEntry) :
    Decidable (Stores g v i e) :=
  inferInstanceAs (Decidable (∃ p ∈ g.peers v, _))

theorem quorum_le_of_majority [DecidablePred P]
    (h : Majority voters P) : voters.length / 2 + 1 ≤ (voters.filter fun u => P u).length := by
  obtain ⟨l, hsub, hlen, hP⟩ := h
  have hl : l.filter (fun u => P u) = l := filter_eq_self.mpr fun u hu =>
    decide_eq_true (hP u hu)
  have := (hsub.filter fun u => P u).length_le
  rw [hl] at this
  omega

theorem majority_of_quorum_le [DecidablePred P]
    (h : voters.length / 2 + 1 ≤ (voters.filter fun u => P u).length) : Majority voters P :=
  ⟨voters.filter fun u => P u, filter_sublist, by omega,
    fun _ hu => decide_eq_true_eq.mp (mem_filter.mp hu).2⟩

theorem Sim.quorum_stores (hs : Sim g A) (he : Settled A i e) :
    g.quorum ≤ (g.voters.filter fun u => Stores g u i e).length := by
  obtain ⟨t, l, hl, hentry⟩ := he
  have hmaj := hs.inv.committed_stored hl
  rw [hs.voters] at hmaj
  refine quorum_le_of_majority (hmaj.mono fun u hu hlog => ?_)
  obtain ⟨q, hq⟩ := ne_none_iff_exists'.mp (hs.known u hu)
  rw [hs.node_of_peer hq] at hlog
  exact ⟨q, hq, e, entryAtPos_of_initial hlog hentry, rfl, rfl⟩

theorem Sim.commit_agree (hs : Sim g A) (hp : g.peers v = some p) (hq : g.peers w = some q)
    (hi : i ≤ p.commitIndex) (hi' : i ≤ q.commitIndex) : p.entryAt i = q.entryAt i := by
  have hv : A.node v = p.node := hs.node_of_peer hp
  have hw : A.node w = q.node := hs.node_of_peer hq
  have htake := hs.inv.commit_agree (v := v) (w := w) (i := i) (by rw [hv]; exact hi)
    (by rw [hw]; exact hi')
  rw [hv, hw] at htake
  unfold RaftPeer.entryAt entryAtPos
  split_ifs with hzero
  · rfl
  · have hlt : i - 1 < i := by omega
    rw [← getElem?_take_of_lt hlt, ← getElem?_take_of_lt (l := q.log) hlt]
    exact congrArg (fun l : List LogEntry => l[i - 1]?) htake

/-- **Safety of a group with fixed voters**, for every run of calls with any nodes online and any
flushes failing: one winner per term; logs with the same term at an index agree up to it; a
committed entry is in the log of every leader elected later; and no two peers apply different
entries of one index. -/
theorem run_safe (voters : List NodeId) (epoch : ℕ) (flushes : List Bool) (calls : List RaftCall) :
    let (rets, g) := (PartitionRaft.new voters epoch flushes).run calls
    (∀ c c' t, .elected (.ok (c, t)) ∈ rets → .elected (.ok (c', t)) ∈ rets → c = c') ∧
      (∀ v w p q, g.peers v = some p → g.peers w = some q → ∀ e ∈ p.log, ∀ e' ∈ q.log,
        e.index = e'.index → e.term = e'.term → p.log.take e.index = q.log.take e.index) ∧
      (∀ r, .proposed (.ok r) ∈ rets → r.committed = true → ∀ call c t g',
        g.call call = (.elected (.ok (c, t)), g') → ∃ p, g'.peers c = some p ∧ p.role = .leader ∧
          p.entryAt r.position = some r.entry) ∧
      ∀ v w b b', .applied v b ∈ rets → .applied w b' ∈ rets → ∀ e ∈ b, ∀ e' ∈ b',
        e.index = e'.index → e = e' := by
  obtain ⟨⟨rets, g⟩, hrun⟩ : ∃ r, (new voters epoch flushes).run calls = r := ⟨_, rfl⟩
  rw [hrun]
  have hi : Idle (State.init (N := NodeId) (E := LogEntry) voters) := ⟨nofun, nofun⟩
  obtain ⟨-, A, -, hs, hidle, hrec⟩ := (Sim.new voters epoch flushes).run hi hrun
  refine ⟨fun c c' t hc hc' => ?_, fun v w p q hp hq e he e' he' => hs.log_matching hp hq he he',
    fun r hr hcom call c t g' hcall => ?_, fun v w b b' hb hb' e he e' he' hindex => ?_⟩
  · exact some.inj ((hrec _ hc c t rfl).symm.trans (hrec _ hc' c' t rfl))
  · obtain ⟨-, A', hsteps, hs', hi', hwon⟩ := hs.elected hidle hcall
    obtain ⟨p, hp, hrole⟩ := hs'.leader_peer (hwon.leads c t rfl).2.1
    have hset := (hrec _ hr r rfl hcom).mono (hsteps.grows hs.inv)
    exact ⟨p, hp, hrole, hs'.leader_entryAt hi' hp hrole hset⟩
  · refine hs.settled_unique (hrec _ hb e he) ?_
    rw [hindex]
    exact hrec _ hb' e' he'

/-- A leader is elected, commits a put while a voter is offline, and that voter then fails to be
elected. -/
def sampleCalls : List RaftCall :=
  [.elect 0 [0, 1, 2], .propose 0 (.put "k" [1]) [0, 1], .elect 2 [1, 2]]

def sampleEntry : LogEntry := ⟨1, 1, .put "k" [1]⟩

/-- The follower that has the put is elected after it. -/
theorem run_safe_sample : ∃ p,
    (((PartitionRaft.new [0, 1, 2] 1 [true, false]).run sampleCalls).2.elect 1 [1, 2]).2.peers 1 =
      some p ∧ p.role = .leader ∧ p.entryAt 1 = some sampleEntry := by
  have hsafe := (run_safe [0, 1, 2] 1 [true, false] sampleCalls).2.2.1
  exact hsafe ⟨sampleEntry, 1, 1, 2, [0, 1], true, 1⟩ (mem_of_getElem? (i := 1) rfl) rfl
    (.elect 1 [1, 2]) 1 3 _ rfl

/-! ## Durability -/

/-- What `p` takes for committed is in a quorum of `g`, in its leaders from the term of `p` on, and
wherever the index is taken for committed. -/
def Durable (p : RaftPeer) (g : PartitionRaft) : Prop :=
  ∀ i ≤ p.commitIndex, ∀ e, p.entryAt i = some e →
    g.quorum ≤ (g.voters.filter fun u => Stores g u i e).length ∧
      ∀ u q, g.peers u = some q → i ≤ q.commitIndex ∨ q.role = .leader ∧
        p.currentTerm ≤ q.currentTerm → q.entryAt i = some e

theorem Sim.durable (hs : Sim g A) (hs' : Sim g' A')
    (hg : RaftLib.Grows A.toHistory A'.toHistory) (hp : g.peers v = some p) : Durable p g' := by
  rintro (- | i) hi e he
  · cases he
  have hset := (hs.settled hp hi he).mono hg
  refine ⟨hs'.quorum_stores hset, fun u q hq hor => ?_⟩
  obtain hi' | ⟨hr, hle⟩ := hor
  · have hlt : i < q.log.length := hi'.trans (hs'.commit_le_length hq)
    have he' := (entryAtPos_succ q.log i).trans (getElem?_eq_getElem hlt)
    rw [RaftPeer.entryAt, he', hs'.settled_unique (hs'.settled hq hi' he') hset]
  · have hv := hs.node_of_peer hp
    have hu := hs'.node_of_peer hq
    obtain ⟨t, l, hl, ht, hlog⟩ := hs.inv.take_commit (v := v) (hv ▸ hi) i.succ_pos
    rw [hv] at ht hlog
    have hlead := hs'.inv.leader_contains (v := u) (hu.symm ▸ hr) (hg.committed t l hl)
      (hu.symm ▸ ht.trans hle)
    rw [hu] at hlead
    refine entryAtPos_of_initial (hlog.trans hlead) ?_
    rw [entryAtPos_succ, getElem?_take_of_lt i.lt_succ_self, ← entryAtPos_succ]
    exact he

end Residiuum.Cluster
