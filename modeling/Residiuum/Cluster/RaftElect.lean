import Residiuum.Cluster.RaftSim

/-!
# Elections of the in-process group

An election is one call: the candidate starts a term, the online voters answer, and with a majority
of the configured voters the candidate leads while every other leader steps down. So between calls
nobody is a candidate, and a leader's term is the latest one that was won.

* **`Sim.elect`**, **`Sim.ensureLeaderPreferring`**: elections are protocol steps, and a reported
  leader won its term.
-/

namespace Residiuum.Cluster

open Function List LogEntry Option PartitionRaft

open RaftLib (Majority Node State Step Steps)

variable {g : PartitionRaft} {A A' : State NodeId LogEntry} {c v : NodeId} {p : RaftPeer}

/-! ## Between calls -/

/-- Nobody is a candidate, and a leader's term is the latest that was won. -/
structure Idle (A : State NodeId LogEntry) : Prop where
  quiet : ∀ v, (A.node v).role ≠ .candidate
  latest : ∀ v, (A.node v).role = .leader → ∀ t, A.winner t ≠ none → t ≤ (A.node v).term

/-- A call takes the group on by protocol steps, to a state with `P`. -/
def Follows (A : State NodeId LogEntry) (g g' : PartitionRaft) (P : State NodeId LogEntry → Prop) :
    Prop :=
  g'.voters = g.voters ∧ ∃ A', Steps LogEntry.term A A' ∧ Sim g' A' ∧ Idle A' ∧ P A'

/-- Who is reported as a leader won the term and leads it, and nobody else has won a term. -/
structure Elected (A : State NodeId LogEntry) (res : Except ElectError (NodeId × ℕ))
    (A' : State NodeId LogEntry) : Prop where
  leads : ∀ v t, res = .ok (v, t) →
    A'.winner t = some v ∧ (A'.node v).role = .leader ∧ (A'.node v).term = t
  winner : ∀ t c, A'.winner t = some c → A.winner t = some c ∨ res = .ok (c, t)

variable {e : ElectError} {vs : List NodeId} {t : ℕ} {res : Except ElectError (NodeId × ℕ)}
  {best : Option (NodeId × ℕ)} {online : List NodeId} {g' : PartitionRaft}

theorem Elected.error (h : A'.winner = A.winner) : Elected A (.error e) A' :=
  ⟨fun _ _ hres => (by cases hres), fun _ _ hw => .inl (h ▸ hw)⟩

theorem Elected.trans
    {A'' : State NodeId LogEntry} (h : Elected A (.error e) A') (h' : Elected A' res A'') :
    Elected A res A'' where
  leads := h'.leads
  winner t c hw := by
    obtain hw | hres := h'.winner t c hw
    · refine .inl ((h.winner t c hw).resolve_right fun hres => ?_)
      cases hres
    · exact .inr hres

/-- Whoever has won a term meanwhile leads it. -/
def WinnersLead (A A' : State NodeId LogEntry) : Prop :=
  ∀ t c, A'.winner t = some c →
    A.winner t = some c ∨ (A'.node c).role = .leader ∧ (A'.node c).term = t

theorem WinnersLead.of_eq (h : A'.winner = A.winner) : WinnersLead A A' :=
  fun _ _ hw => .inl (h ▸ hw)

theorem Elected.winnersLead (h : Elected A res A') : WinnersLead A A' :=
  fun t c hw => (h.winner t c hw).imp_right fun hres => (h.leads c t hres).2

theorem Calm.idle (h : Calm A A') (hi : Idle A) : Idle A' where
  quiet v hr := hi.quiet v (h.candidate v hr)
  latest v hr t ht := by
    obtain ⟨hr', heq⟩ := h.leader v hr
    rw [heq]
    exact hi.latest v hr' t (h.winner ▸ ht)

theorem foldl_update {α β : Type} [DecidableEq α] (l : List α) (f : α → β) (m : α → Option β)
    (i : α) : l.foldl (fun m v => Function.update m v (some (f v))) m i =
      if i ∈ l then some (f i) else m i := by
  induction l generalizing m with
  | nil => simp
  | cons a l ih =>
    rw [foldl_cons, ih]
    by_cases hi : i ∈ l
    · rw [if_pos hi, if_pos (mem_cons_of_mem a hi)]
    · by_cases ha : i = a
      · subst ha
        simp [hi]
      · rw [if_neg hi, if_neg (by simp [ha, hi]), update_of_ne ha]

namespace Sim

theorem timeout (hs : Sim g A) (hp : g.peers c = some p) (hc : c ∈ g.voters) :
    ∃ A', Step term A A' ∧ Sim (g.setPeer c (p.becomeCandidate c)) A' ∧
      (∀ w, w ≠ c → A'.node w = A.node w) ∧ A'.winner = A.winner ∧
      (∀ w t d l, A.ballot w t d l → A'.ballot w t d l) ∧
      A'.ballot c (p.currentTerm + 1) c p.log := by
  have hn : A.node c = p.node := hs.node_of_peer hp
  have hstep := Step.timeout (τ := term) (s := A) c (hs.voters ▸ hc)
  rw [hn] at hstep
  have hsim : Sim (g.setPeer c (p.becomeCandidate c)) (A.act c (p.becomeCandidate c).node
      (A.addBallot c (p.currentTerm + 1) c p.log)) :=
    hs.act (hstep.inv hs.inv) (hs.id c p hp) hs.indexed (fun _ _ _ h => h) (fun hr => by cases hr)
  exact ⟨_, hstep, hsim, fun w hw => A.act_node_of_ne _ _ hw, rfl, fun _ _ _ _ hb => .inl hb,
    .inr ⟨rfl, rfl, rfl, rfl⟩⟩

theorem win (hs : Sim g A) (hp : g.peers c = some p) (hrole : p.role = .candidate)
    (hq : Majority g.voters fun v => ∃ l, A.ballot v p.currentTerm c l) :
    let h := (A.addWinner c p.currentTerm p.log).addAcked c p.currentTerm p.log
    Step term A (A.act c (p.becomeLeader g.voters).node h) ∧
      Sim (g.setPeer c (p.becomeLeader g.voters)) (A.act c (p.becomeLeader g.voters).node h) := by
  intro h
  have hn : A.node c = p.node := hs.node_of_peer hp
  have hstep := Step.win (τ := term) (s := A) c (by rw [hn]; exact hrole)
    (by rw [hn, hs.voters]; exact hq)
  rw [hn] at hstep
  have hvote : p.votedFor = some c := by
    have := ((hs.inv.node c).candidate (by rw [hn]; exact hrole)).2.1
    rwa [hn] at this
  have hlast : p.lastLogIndex = p.log.length := (hs.indexed_log hp).lastIndex_eq
  have hid : p.nodeId = c := hs.id c p hp
  have hown : ∀ i, A.act c (p.becomeLeader g.voters).node h |>.acked c p.currentTerm
      (p.log.take i) := fun i => .inr ⟨rfl, rfl, take_prefix _ _⟩
  refine ⟨hstep, hs.act (hstep.inv hs.inv) hid (fun t => ?_) (fun _ _ _ ha => .inl ha)
    fun _ => ⟨hvote, fun f n hf => ?_, fun f m hf => ?_, fun i _ _ => hown i⟩⟩
  · by_cases ht : t = p.currentTerm
    · subst ht
      have hself : h.history p.currentTerm = p.log := update_self ..
      rw [hself]
      exact hs.indexed_log hp
    · have hother : h.history t = A.history t := update_of_ne ht ..
      rw [hother]
      exact hs.indexed t
  · simp only [RaftPeer.becomeLeader, update_apply, foldl_update, hlast] at hf ⊢
    split_ifs at hf
    all_goals
      cases hf
      omega
  · simp only [RaftPeer.becomeLeader, update_apply, foldl_update, hlast, hid] at hf ⊢
    by_cases hfc : f = c
    · subst hfc
      rw [if_pos rfl] at hf
      cases hf
      exact ⟨le_rfl, fun i _ _ => hown i⟩
    · rw [if_neg hfc] at hf
      split_ifs at hf
      cases hf
      exact ⟨Nat.zero_le _, fun i hi hle => absurd hle (by omega)⟩

end Sim

theorem exists_sublist_insert {voters l : List NodeId} (hc : c ∈ voters)
    (hl : l.Sublist (voters.filter fun v => v ≠ c)) :
    ∃ l' : List NodeId, l'.Sublist voters ∧ l'.length = l.length + 1 ∧ ∀ v ∈ l', v = c ∨ v ∈ l := by
  induction voters generalizing l with
  | nil => cases hc
  | cons a voters ih =>
    by_cases ha : a = c
    · subst ha
      rw [filter_cons_of_neg (by simp)] at hl
      exact ⟨a :: l, (hl.trans filter_sublist).cons_cons a, rfl,
        fun v hv => (mem_cons.mp hv)⟩
    have hc' : c ∈ voters := (mem_cons.mp hc).resolve_left (Ne.symm ha)
    rw [filter_cons_of_pos (by simpa using ha)] at hl
    cases hl with
    | cons _ hl =>
      obtain ⟨l', hsub, hlen, hmem⟩ := ih hc' hl
      exact ⟨l', hsub.cons a, hlen, hmem⟩
    | cons_cons _ hl =>
      obtain ⟨l', hsub, hlen, hmem⟩ := ih hc' hl
      refine ⟨a :: l', hsub.cons_cons a, by simp [hlen], fun v hv => ?_⟩
      obtain rfl | hv := mem_cons.mp hv
      · exact .inr mem_cons_self
      · exact (hmem v hv).imp_right (mem_cons_of_mem _)

namespace Sim

theorem solicitVotes (hs : Sim g A) {n : Node NodeId LogEntry} (hn : A.node c = n)
    (hc : n.role = .candidate) (hvs : ∀ v ∈ vs, v ∈ g.voters) {votes : ℕ} {res : Except ℕ ℕ}
    (h : solicitVotes c n.term n.log.length (RaftLib.lastTerm term n.log)
      online vs votes g = (res, g')) :
    g'.voters = g.voters ∧ ∃ A', Calm A A' ∧ Sim g' A' ∧ A'.node c = n ∧
      (∀ higher, res = .error higher → n.term < higher) ∧
      ∀ k, res = .ok k → (∀ w, (A.node w).term = n.term → (A'.node w).term = n.term) ∧
        ∃ l : List NodeId, l.Sublist (vs.filter fun v => v ≠ c) ∧ k = votes + l.length ∧
          ∀ v ∈ l, (∃ b, A'.ballot v n.term c b) ∧ (A'.node v).term = n.term := by
  induction vs generalizing g A votes with
  | nil =>
    cases h
    refine ⟨rfl, A, .refl A, hs, hn, (fun _ hk => by cases hk), fun k hk => ?_⟩
    cases hk
    exact ⟨fun _ hw => hw, [], .slnil, rfl, fun _ hw => by cases hw⟩
  | cons v vs ih =>
    unfold solicitVotes at h
    by_cases hskip : v = c ∨ v ∉ online
    · -- the voter is not asked
      rw [if_pos hskip] at h
      obtain ⟨hvoters, A', hcalm, hs', hn', herr, hok⟩ :=
        ih hs hn (fun w hw => hvs w (mem_cons_of_mem _ hw)) h
      refine ⟨hvoters, A', hcalm, hs', hn', herr, fun k hk => ?_⟩
      obtain ⟨hterm, l, hl, hlen, hballot⟩ := hok k hk
      exact ⟨hterm, l, hl.trans ((sublist_cons_self v vs).filter _), hlen, hballot⟩
    rw [if_neg hskip] at h
    obtain ⟨hne, -⟩ := not_or.mp hskip
    obtain ⟨⟨r, g₁⟩, hr⟩ : ∃ r, g.requestVote v c n.term n.log.length
      (RaftLib.lastTerm term n.log) = r := ⟨_, rfl⟩
    rw [hr] at h
    dsimp only at h
    subst hn
    obtain ⟨hvoters₁, A₁, hcalm₁, hs₁, hother₁, hterm₁, hballot₁⟩ :=
      hs.requestVote (hvs v mem_cons_self) hne hc hr
    have hn₁ : A₁.node c = A.node c := hother₁ c (Ne.symm hne)
    by_cases hhigher : r.term > (A.node c).term
    · rw [if_pos hhigher] at h
      cases h
      refine ⟨hvoters₁, A₁, hcalm₁, hs₁, hn₁, fun higher hres => ?_, fun _ hres => by cases hres⟩
      cases hres
      exact hhigher
    rw [if_neg hhigher] at h
    obtain ⟨hvoters, A', hcalm, hs', hn', herr, hok⟩ := ih hs₁ hn₁
      (fun w hw => hvoters₁ ▸ hvs w (mem_cons_of_mem _ hw)) h
    refine ⟨hvoters.trans hvoters₁, A', hcalm₁.trans hcalm, hs', hn', herr, fun k hk => ?_⟩
    obtain ⟨hterm, l, hl, hlen, hballot⟩ := hok k hk
    have hvterm : (A₁.node v).term = (A.node c).term := hterm₁ (not_lt.mp hhigher)
    refine ⟨fun w hw => hterm w ?_, ?_⟩
    · by_cases hwv : w = v
      · rw [hwv]
        exact hvterm
      · rw [hother₁ w hwv]
        exact hw
    · rw [filter_cons_of_pos (by simpa using hne)]
      by_cases hgrant : r.voteGranted = true
      · refine ⟨v :: l, hl.cons_cons v, ?_, fun w hw => ?_⟩
        · rw [hlen, if_pos hgrant, length_cons]
          omega
        · obtain rfl | hw := mem_cons.mp hw
          · obtain ⟨b, hb⟩ := hballot₁ hgrant
            exact ⟨⟨b, hcalm.ballot _ _ _ _ hb⟩, hterm _ hvterm⟩
          · exact hballot w hw
      · exact ⟨l, hl.cons v, by rw [hlen, if_neg hgrant], hballot⟩

theorem stepDownOthers (hs : Sim g A) (c : NodeId) (t : ℕ) (vs : List NodeId) :
    ∃ A', Calm A A' ∧ Sim (stepDownOthers c t vs g) A' ∧
      (stepDownOthers c t vs g).voters = g.voters ∧
      (stepDownOthers c t vs g).peers c = g.peers c ∧
      (∀ w, (A'.node w).term = (A.node w).term) ∧
      ∀ w ∈ vs, w ≠ c → (A'.node w).role = .leader → t < (A'.node w).term := by
  induction vs generalizing g A with
  | nil => exact ⟨A, .refl A, hs, rfl, rfl, fun _ => rfl, nofun⟩
  | cons v vs ih =>
    unfold stepDownOthers
    by_cases hvc : v = c
    · rw [if_pos hvc]
      obtain ⟨A', hcalm, hs', hvoters, hpeer, hterm, hrole⟩ := ih hs
      refine ⟨A', hcalm, hs', hvoters, hpeer, hterm, fun w hw hwc => ?_⟩
      obtain rfl | hw := mem_cons.mp hw
      · exact absurd hvc hwc
      · exact hrole w hw hwc
    rw [if_neg hvc]
    obtain ⟨A₁, hcalm₁, hs₁, hvoters₁, hpeer₁, hterm₁, hrole₁⟩ : ∃ A₁, Calm A A₁ ∧
        Sim (g.modifyPeer v (demote t)) A₁ ∧ (g.modifyPeer v (demote t)).voters = g.voters ∧
        (g.modifyPeer v (demote t)).peers c = g.peers c ∧
        (∀ w, (A₁.node w).term = (A.node w).term) ∧
        ((A₁.node v).role = .leader → t < (A₁.node v).term) := by
      cases hp : g.peers v with
      | none =>
        have heq : g.modifyPeer v (demote t) = g := by rw [modifyPeer, hp]
        rw [heq]
        refine ⟨A, .refl A, hs, rfl, rfl, fun _ => rfl, fun hr => ?_⟩
        rw [hs.node v, PartitionRaft.node, hp] at hr
        cases hr
      | some p =>
        rw [modifyPeer_eq hp]
        have hpeer : ∀ q, (g.setPeer v q).peers c = g.peers c := fun q =>
          g.setPeer_of_ne q (Ne.symm hvc)
        by_cases hdem : (p.role = .leader ∨ p.role = .candidate) ∧ p.currentTerm ≤ t
        · rw [demote, if_pos hdem]
          obtain ⟨hcalm, hs'⟩ := hs.stepDown hp
          refine ⟨_, hcalm, hs', rfl, hpeer _, fun w => ?_, fun hr => ?_⟩
          · by_cases hw : w = v
            · rw [hw, A.act_node_self, hs.node_of_peer hp]
              rfl
            · rw [A.act_node_of_ne _ _ hw]
          · rw [A.act_node_self] at hr
            cases hr
        · rw [demote, if_neg hdem, setPeer_same hp]
          refine ⟨A, .refl A, hs, rfl, rfl, fun _ => rfl, fun hr => ?_⟩
          rw [hs.node_of_peer hp] at hr ⊢
          by_contra hnot
          exact hdem ⟨.inl hr, not_lt.mp hnot⟩
    obtain ⟨A', hcalm, hs', hvoters, hpeer, hterm, hrole⟩ := ih hs₁
    refine ⟨A', hcalm₁.trans hcalm, hs', hvoters.trans hvoters₁, hpeer.trans hpeer₁,
      fun w => (hterm w).trans (hterm₁ w), fun w hw hwc hr => ?_⟩
    obtain rfl | hw := mem_cons.mp hw
    · rw [hterm w]
      exact hrole₁ (hcalm.leader w hr).1
    · exact hrole w hw hwc hr

end Sim

/-! ## Elections -/

/-- Nobody else is a candidate, and a leader's term is the latest that was won. -/
structure IdleBut (c : NodeId) (A : State NodeId LogEntry) : Prop where
  quiet : ∀ v, v ≠ c → (A.node v).role ≠ .candidate
  latest : ∀ v, (A.node v).role = .leader → ∀ t, A.winner t ≠ none → t ≤ (A.node v).term

theorem Calm.idleBut (h : Calm A A') (hi : IdleBut c A) : IdleBut c A' where
  quiet v hv hr := hi.quiet v hv (h.candidate v hr)
  latest v hr t ht := by
    obtain ⟨hr', heq⟩ := h.leader v hr
    rw [heq]
    exact hi.latest v hr' t (h.winner ▸ ht)

theorem Calm.idle_of_but (h : Calm A A') (hi : IdleBut c A) (hc : (A'.node c).role = .follower) :
    Idle A' where
  quiet v hr := by
    by_cases hv : v = c
    · rw [hv, hc] at hr
      cases hr
    · exact (h.idleBut hi).quiet v hv hr
  latest := (h.idleBut hi).latest

namespace Sim

theorem winner_le_of_majority (hs : Sim g A) (hc : c ∈ g.voters)
    (hq : Majority g.voters fun v => (A.node v).term = (A.node c).term)
    (ht : A.winner t ≠ none) : t ≤ (A.node c).term := by
  obtain ⟨w, hw⟩ := ne_none_iff_exists'.mp ht
  obtain hpast | hwon := hs.inv.won t w hw
  · exact (hpast c (hs.voters ▸ hc)).1
  · rw [hs.voters] at hwon
    obtain ⟨v, -, hv, l, hb⟩ := hq.meet hwon
    rw [← hv]
    exact ((hs.inv.node v).ballot_le t w l hb).2

theorem takeOver (hs : Sim g A) (hp : g.peers c = some p) (hrole : p.role = .candidate)
    (hi : IdleBut c A) (hq : Majority g.voters fun v =>
      (∃ l, A.ballot v p.currentTerm c l) ∧ (A.node v).term = p.currentTerm) :
    ∃ A', Steps term A A' ∧
      Sim ((PartitionRaft.stepDownOthers c p.currentTerm g.voters g).setPeer c
        (p.becomeLeader g.voters)) A' ∧
      Idle A' ∧ A'.winner = Function.update A.winner p.currentTerm (some c) ∧
      (A'.node c).role = .leader ∧ (A'.node c).term = p.currentTerm := by
  obtain ⟨A₁, hcalm₁, hs₁, hvoters₁, hpeer₁, hterm₁, hrole₁⟩ :=
    hs.stepDownOthers c p.currentTerm g.voters
  have hp₁ := hpeer₁.trans hp
  have hn₁ : A₁.node c = p.node := hs₁.node_of_peer hp₁
  have hcv : c ∈ g.voters := by
    have := ((hs.inv.node c).candidate (by rw [hs.node_of_peer hp]; exact hrole)).1
    rwa [hs.voters] at this
  have hq₁ : Majority (PartitionRaft.stepDownOthers c p.currentTerm g.voters g).voters fun v =>
      ∃ l, A₁.ballot v p.currentTerm c l := by
    rw [hvoters₁]
    exact hq.mono fun v _ ⟨⟨l, hb⟩, _⟩ => ⟨l, hcalm₁.ballot _ _ _ _ hb⟩
  have hmax : ∀ t, A₁.winner t ≠ none → t ≤ p.currentTerm := by
    intro t ht
    have := hs₁.winner_le_of_majority (c := c) (by rw [hvoters₁]; exact hcv) (by
      rw [hvoters₁, hn₁]
      exact hq.mono fun v _ hv => (hterm₁ v).trans hv.2) ht
    rwa [hn₁] at this
  obtain ⟨hstep, hs₂⟩ := hs₁.win hp₁ hrole hq₁
  rw [hvoters₁] at hstep hs₂
  have hwin : ∀ {t}, t ≠ p.currentTerm → (A₁.act c (p.becomeLeader g.voters).node
      ((A₁.addWinner c p.currentTerm p.log).addAcked c p.currentTerm p.log)).winner t =
        A₁.winner t := fun hne => update_of_ne hne ..
  refine ⟨_, hcalm₁.steps.tail hstep, hs₂, ⟨fun v hr => ?_, fun v hr t ht => ?_⟩, ?_, ?_, ?_⟩
  · by_cases hv : v = c
    · rw [hv, A₁.act_node_self] at hr
      cases hr
    · rw [A₁.act_node_of_ne _ _ hv] at hr
      exact hi.quiet v hv (hcalm₁.candidate v hr)
  · -- the new leader has the latest term, and any other leader has a later one
    by_cases hv : v = c
    · rw [hv, A₁.act_node_self]
      by_cases heq : t = p.currentTerm
      · exact heq.le
      · exact hmax t (hwin heq ▸ ht)
    rw [A₁.act_node_of_ne _ _ hv] at hr ⊢
    have hvv : v ∈ g.voters := by
      have := ((hs₁.inv.node v).leader hr).1
      rwa [hs₁.voters, hvoters₁] at this
    by_cases heq : t = p.currentTerm
    · rw [heq]
      exact (hrole₁ v hvv hv hr).le
    · rw [hwin heq, hcalm₁.winner] at ht
      rw [hterm₁ v]
      exact hi.latest v (hcalm₁.leader v hr).1 t ht
  · rw [← hcalm₁.winner]
    rfl
  · rw [A₁.act_node_self]
    rfl
  · rw [A₁.act_node_self]
    rfl

theorem elect (hs : Sim g A) (hi : Idle A) (h : g.elect c online = (res, g')) :
    Follows A g g' (Elected A res) := by
  unfold PartitionRaft.elect at h
  by_cases hvoter : c ∉ g.voters
  · rw [if_pos hvoter] at h
    cases h
    exact ⟨rfl, A, .refl, hs, hi, .error rfl⟩
  rw [if_neg hvoter] at h
  by_cases honline : c ∉ online
  · rw [if_pos honline] at h
    cases h
    exact ⟨rfl, A, .refl, hs, hi, .error rfl⟩
  rw [if_neg honline] at h
  cases hp : g.peers c with
  | none =>
    rw [hp] at h
    cases h
    exact ⟨rfl, A, .refl, hs, hi, .error rfl⟩
  | some p =>
    rw [hp] at h
    dsimp only at h
    obtain ⟨A₁, hstep, hs₁, hother₁, hwin₁, -, hself⟩ := hs.timeout hp (not_not.mp hvoter)
    have hp₁ := g.setPeer_self c (p.becomeCandidate c)
    have hn₁ : A₁.node c = (p.becomeCandidate c).node := hs₁.node_of_peer hp₁
    have hi₁ : IdleBut c A₁ := by
      refine ⟨fun v hv hr => hi.quiet v (hother₁ v hv ▸ hr), fun v hr t ht => ?_⟩
      have hv : v ≠ c := by
        rintro rfl
        rw [hn₁] at hr
        cases hr
      rw [hother₁ v hv] at hr ⊢
      exact hi.latest v hr t (hwin₁ ▸ ht)
    by_cases hflush : (g.setPeer c (p.becomeCandidate c)).flushPeer.1 = false
    · -- the vote for itself was not persisted
      have hp₁' : (g.setPeer c (p.becomeCandidate c)).flushPeer.2.peers c =
          some (p.becomeCandidate c) := hp₁
      rw [if_pos hflush, modifyPeer_eq hp₁'] at h
      cases h
      obtain ⟨hcalm, hs₂⟩ := hs₁.flush.stepDown hp₁'
      exact ⟨rfl, _, (Relation.ReflTransGen.single hstep).trans hcalm.steps, hs₂,
        hcalm.idle_of_but hi₁ (by rw [A₁.act_node_self]; rfl), .error (hcalm.winner.trans hwin₁)⟩
    rw [if_neg hflush] at h
    have hlast : (p.becomeCandidate c).lastLogIndex = (p.becomeCandidate c).node.log.length :=
      (hs.indexed_log hp).lastIndex_eq
    rw [hlast] at h
    obtain ⟨⟨votes, g₂⟩, hvotes⟩ : ∃ r, PartitionRaft.solicitVotes c
      (p.becomeCandidate c).currentTerm (p.becomeCandidate c).node.log.length
      (p.becomeCandidate c).lastLogTerm online g.voters 1
      (g.setPeer c (p.becomeCandidate c)).flushPeer.2 = r := ⟨_, rfl⟩
    obtain ⟨hvoters₂, A₂, hcalm₂, hs₂, hn₂, herr, hok⟩ := hs₁.flush.solicitVotes hn₁ rfl
      (fun _ hv => hv) hvotes
    have hsteps₂ := (Relation.ReflTransGen.single hstep).trans hcalm₂.steps
    have hi₂ := hcalm₂.idleBut hi₁
    have hwin₂ := hcalm₂.winner.trans hwin₁
    have hcv : c ∈ g₂.voters := hvoters₂ ▸ not_not.mp hvoter
    obtain ⟨q, hq⟩ := ne_none_iff_exists'.mp (hs₂.known c hcv)
    have hqn : q.node = (p.becomeCandidate c).node := (hs₂.node_of_peer hq).symm.trans hn₂
    have hqterm : q.currentTerm = (p.becomeCandidate c).currentTerm := congrArg Node.term hqn
    have hqrole : q.role = .candidate := congrArg Node.role hqn
    rw [flushPeer_voters, setPeer_voters, hvotes] at h
    cases votes with
    | error higher =>
      -- a higher term was seen
      dsimp only at h
      rw [modifyPeer_eq hq] at h
      cases h
      obtain ⟨hcalm, hs₃⟩ := hs₂.becomeFollower hq (by rw [hqterm]; exact herr higher rfl)
      exact ⟨hvoters₂, _, hsteps₂.trans hcalm.steps, hs₃,
        hcalm.idle_of_but hi₂ (by rw [A₂.act_node_self]; rfl), .error (hcalm.winner.trans hwin₂)⟩
    | ok votes =>
      dsimp only at h
      unfold countVotes at h
      by_cases hquorum : votes ≥ g₂.quorum
      · rw [if_pos hquorum] at h
        dsimp only at h
        obtain ⟨hterm, l, hl, hlen, hballot⟩ := hok votes rfl
        obtain ⟨l', hsub, hlen', hmem⟩ := exists_sublist_insert (not_not.mp hvoter) hl
        have hmaj : Majority g₂.voters fun v =>
            (∃ b, A₂.ballot v q.currentTerm c b) ∧ (A₂.node v).term = q.currentTerm := by
          refine ⟨l', hvoters₂ ▸ hsub, ?_, fun v hv => ?_⟩
          · rw [quorum] at hquorum
            omega
          · rw [hqterm]
            obtain rfl | hv := hmem v hv
            · exact ⟨⟨_, hcalm₂.ballot _ _ _ _ hself⟩, by rw [hn₂]; rfl⟩
            · exact hballot v hv
        obtain ⟨A₃, hsteps, hs₃, hi₃, hwon, hlead, hterm₃⟩ :=
          hs₂.takeOver hq hqrole hi₂ hmaj
        obtain ⟨-, -, -, hvoters₃, hpeer₃, -⟩ := hs₂.stepDownOthers c q.currentTerm g₂.voters
        rw [← hqterm, modifyPeer_eq (hpeer₃.trans hq), hvoters₃] at h
        cases h
        refine ⟨hvoters₃.trans hvoters₂, A₃, hsteps₂.trans hsteps, hs₃.flush, hi₃,
          fun v t hvt => ?_, fun t d hw => ?_⟩
        · cases hvt
          rw [hwon, update_self]
          exact ⟨rfl, hlead, hterm₃⟩
        · rw [hwon] at hw
          by_cases ht : t = q.currentTerm
          · rw [ht, update_self] at hw
            rw [ht, some.inj hw]
            exact .inr rfl
          · rw [update_of_ne ht, hwin₂] at hw
            exact .inl hw
      · -- too few votes
        rw [if_neg hquorum, modifyPeer_eq hq] at h
        cases h
        obtain ⟨hcalm, hs₃⟩ := hs₂.stepDown hq
        exact ⟨hvoters₂, _, hsteps₂.trans hcalm.steps, hs₃.flush,
          hcalm.idle_of_but hi₂ (by rw [A₂.act_node_self]; rfl), .error (hcalm.winner.trans hwin₂)⟩

end Sim

/-! ## Choosing a leader -/

theorem leaderAmong_eq_some (h : g.leaderAmong vs best = some (v, t)) :
    best = some (v, t) ∨ ∃ p, g.peers v = some p ∧ p.role = .leader ∧ p.currentTerm = t := by
  induction vs generalizing best with
  | nil => exact .inl h
  | cons w vs ih =>
    unfold leaderAmong at h
    cases hp : g.peers w with
    | none => simp [hp] at h
    | some p =>
      rw [hp] at h
      dsimp only at h
      by_cases hr : p.role = .leader
      · rw [if_pos hr] at h
        -- the peer becomes the best so far, or the best so far stays
        have hnew : some (w, p.currentTerm) = some (v, t) →
            ∃ p, g.peers v = some p ∧ p.role = .leader ∧ p.currentTerm = t := by
          intro heq
          cases heq
          exact ⟨p, hp, hr, rfl⟩
        cases best with
        | none => exact .inr ((ih h).elim hnew fun h => h)
        | some b =>
          dsimp only at h
          by_cases hgt : p.currentTerm > b.2
          · rw [if_pos hgt] at h
            exact .inr ((ih h).elim hnew fun h => h)
          · rw [if_neg hgt] at h
            exact ih h
      · rw [if_neg hr] at h
        exact ih h

theorem currentLeader_eq_some (h : g.currentLeader = some (v, t)) :
    ∃ p, g.peers v = some p ∧ p.role = .leader ∧ p.currentTerm = t :=
  (leaderAmong_eq_some h).resolve_left nofun

theorem leaderAmong_eq_none (hknown : ∀ v ∈ vs, g.peers v ≠ none)
    (h : g.leaderAmong vs best = none) :
    best = none ∧ ∀ v ∈ vs, ∀ p, g.peers v = some p → p.role ≠ .leader := by
  induction vs generalizing best with
  | nil => exact ⟨h, fun v hv => absurd hv not_mem_nil⟩
  | cons w vs ih =>
    obtain ⟨q, hq⟩ := ne_none_iff_exists'.mp (hknown w mem_cons_self)
    have hvs : ∀ v ∈ vs, g.peers v ≠ none := fun v hv => hknown v (mem_cons_of_mem w hv)
    unfold leaderAmong at h
    rw [hq] at h
    dsimp only at h
    by_cases hr : q.role = .leader
    · -- once a leader was found there is one
      rw [if_pos hr] at h
      cases best with
      | none => cases (ih hvs h).1
      | some bt =>
        dsimp only at h
        split at h <;> cases (ih hvs h).1
    · rw [if_neg hr] at h
      refine ⟨(ih hvs h).1, fun v hv p hp => ?_⟩
      obtain rfl | hv := mem_cons.mp hv
      · rwa [← some.inj (hq.symm.trans hp)]
      · exact (ih hvs h).2 v hv p hp

theorem role_of_currentLeader_eq_none (hknown : ∀ v ∈ g.voters, g.peers v ≠ none)
    (h : g.currentLeader = none) (hv : v ∈ g.voters) (hp : g.peers v = some p) : p.role ≠ .leader :=
  (leaderAmong_eq_none hknown h).2 v hv p hp

namespace Sim

variable {online : List NodeId} {res : Except ElectError (NodeId × ℕ)} {g' : PartitionRaft}
  {preferred : Option NodeId}

theorem electFirst (hs : Sim g A) (hi : Idle A) {cands : List NodeId}
    (h : electFirst online cands e g = (res, g')) : Follows A g g' (Elected A res) := by
  induction cands generalizing g A e with
  | nil =>
    cases h
    exact ⟨rfl, A, .refl, hs, hi, .error rfl⟩
  | cons c cands ih =>
    unfold electFirst at h
    obtain ⟨⟨r, g₁⟩, hr⟩ : ∃ r, g.elect c online = r := ⟨_, rfl⟩
    obtain ⟨hvoters₁, A₁, hsteps₁, hs₁, hi₁, hwon₁⟩ := hs.elect hi hr
    rw [hr] at h
    cases r with
    | ok lt =>
      cases h
      exact ⟨hvoters₁, A₁, hsteps₁, hs₁, hi₁, hwon₁⟩
    | error e' =>
      obtain ⟨hvoters, A', hsteps, hs', hi', hwon⟩ := ih hs₁ hi₁ h
      exact ⟨hvoters.trans hvoters₁, A', hsteps₁.trans hsteps, hs', hi', hwon₁.trans hwon⟩

theorem electAmong (hs : Sim g A) (hi : Idle A) (h : g.electAmong online preferred = (res, g')) :
    Follows A g g' (Elected A res) := by
  unfold PartitionRaft.electAmong at h
  dsimp only at h
  split at h
  · cases h
    exact ⟨rfl, A, .refl, hs, hi, .error rfl⟩
  · exact hs.electFirst hi h

theorem ensureLeaderPreferring (hs : Sim g A) (hi : Idle A)
    (h : g.ensureLeaderPreferring online preferred = (res, g')) :
    Follows A g g' (Elected A res) := by
  unfold PartitionRaft.ensureLeaderPreferring at h
  cases hlead : g.currentLeader with
  | none =>
    rw [hlead] at h
    exact hs.electAmong hi h
  | some lt =>
    obtain ⟨leader, term⟩ := lt
    obtain ⟨p, hp, hrole, hterm⟩ := currentLeader_eq_some hlead
    rw [hlead] at h
    dsimp only at h
    split at h
    · -- the leader is online and stays
      cases h
      have hn : A.node leader = p.node := hs.node_of_peer hp
      refine ⟨rfl, A, .refl, hs, hi, fun v t hvt => ?_, fun _ _ hw => .inl hw⟩
      cases hvt
      have hw := ((hs.inv.node leader).leader (by rw [hn]; exact hrole)).2.1
      rw [hn] at hw ⊢
      rw [← hterm]
      exact ⟨hw, hrole, rfl⟩
    · rw [modifyPeer_eq hp] at h
      obtain ⟨hcalm, hs₁⟩ := hs.stepDown hp
      obtain ⟨hvoters, A', hsteps, hs', hi', hwon⟩ := hs₁.electAmong (hcalm.idle hi) h
      exact ⟨hvoters, A', hcalm.steps.trans hsteps, hs', hi', hwon.leads,
        fun t c hw => (hwon.winner t c hw).imp_left fun hw => hcalm.winner ▸ hw⟩

end Sim

end Residiuum.Cluster
