import Residiuum.Cluster.RaftElect

/-!
# Proposals of the in-process group

A leader appends an entry, sends every online follower the part of its log from the next index on,
and commits the entry once a majority of the configured voters has acknowledged it.

* `Sim.replicateTo`: what a leader sends is a part of its log, and what it notes as matched was
  acknowledged.
* **`Sim.propose`**: proposals are protocol steps, and an entry reported committed is committed.
-/

namespace Residiuum.Cluster

open Function List Option

open RaftLib (Inv Majority Node State Step Steps)
open PartitionRaft

variable {g : PartitionRaft} {A A' : State NodeId LogEntry} {f v leader : NodeId} {p p' : RaftPeer}

/-! ## Parts of a log -/

variable {log : List LogEntry} {i : ℕ} {e : LogEntry} {g' : PartitionRaft} {n : ℕ}

theorem filter_index_eq_drop (h : Indexed log) (hn : 1 ≤ n) :
    (log.filter fun e => e.index ≥ n) = log.drop (n - 1) := by
  have hlow : ((log.take (n - 1)).filter fun e => e.index ≥ n) = [] := by
    rw [filter_eq_nil_iff]
    intro e he
    obtain ⟨i, hi⟩ := getElem?_of_mem he
    rw [getElem?_take] at hi
    split at hi
    · rw [h i e hi]
      simp only [ge_iff_le, decide_eq_true_eq]
      omega
    · cases hi
  have hhigh : ((log.drop (n - 1)).filter fun e => e.index ≥ n) = log.drop (n - 1) := by
    rw [filter_eq_self]
    intro e he
    obtain ⟨i, hi⟩ := getElem?_of_mem he
    rw [getElem?_drop] at hi
    rw [h _ e hi]
    simp only [ge_iff_le, decide_eq_true_eq]
    omega
  conv_lhs => rw [← take_append_drop (n - 1) log, filter_append, hlow, hhigh]
  rfl

theorem getElem?_take_concat
    (he : log[i]? = some e) : log.take (i + 1) = log.take i ++ [e] := by
  rw [take_add_one, he]
  rfl

theorem termAt_eq_lastTerm (p : RaftPeer) (hi : i ≤ p.log.length) :
    (p.termAt i).getD 0 = RaftLib.lastTerm LogEntry.term (p.log.take i) := by
  cases i with
  | zero => simp [RaftPeer.termAt]
  | succ i =>
    have he : p.log[i]? = some (p.log.get ⟨i, hi⟩) := getElem?_eq_getElem hi
    rw [getElem?_take_concat he, RaftLib.lastTerm_append_singleton]
    simp [RaftPeer.termAt, he]

theorem matchIdx_eq (h : Indexed log) {k : ℕ} (hk : k ≤ log.length) :
    ((log.drop k).getLast?.map LogEntry.index).getD k = log.length := by
  obtain hlt | hge := Nat.lt_or_ge k log.length
  · have hlast : (log.drop k).getLast? = log.getLast? := by
      rw [getLast?_drop, if_neg (not_le.mpr hlt)]
    have hne : log ≠ [] := ne_nil_of_length_pos (by omega)
    have := h.lastIndex_eq
    rw [lastIndex, getLast?_eq_some_getLast hne] at this
    rw [hlast, getLast?_eq_some_getLast hne]
    exact this
  · rw [drop_of_length_le hge]
    exact le_antisymm hk hge

theorem backOff_le {next : ℕ} (hnext : 1 ≤ next) (conflict : Option ℕ) (entries : List LogEntry)
    (prevIdx : ℕ) : 1 ≤ (backOff next conflict entries prevIdx).1 ∧
      (backOff next conflict entries prevIdx).1 ≤ next := by
  unfold backOff
  dsimp only
  split_ifs
  · exact ⟨by omega, by omega⟩
  · exact ⟨by omega, min_le_right _ _⟩
  · exact ⟨le_rfl, hnext⟩

/-! ## Notes of a leader -/

section Notes

variable (p : RaftPeer) (n : ℕ) {w : NodeId}

theorem setNext_self : (setNext f n p).nextIndex f = some n := update_self ..

theorem setNext_of_ne (hw : w ≠ f) : (setNext f n p).nextIndex w = p.nextIndex w :=
  update_of_ne hw ..

theorem setMatch_next_self : (setMatch f n p).nextIndex f = some (n + 1) := update_self ..

theorem setMatch_next_of_ne (hw : w ≠ f) : (setMatch f n p).nextIndex w = p.nextIndex w :=
  update_of_ne hw ..

theorem setMatch_match_self : (setMatch f n p).matchIndex f = some n := update_self ..

theorem setMatch_match_of_ne (hw : w ≠ f) : (setMatch f n p).matchIndex w = p.matchIndex w :=
  update_of_ne hw ..

end Notes

namespace Sim

theorem act_self (A : State NodeId LogEntry) (v : NodeId) : A.act v (A.node v) A.toHistory = A := by
  rw [State.act, Function.update_eq_self]

variable (hs : Sim g A)

include hs

section

variable (hp : g.peers v = some p)

include hp

theorem note (hid : p'.nodeId = p.nodeId) (hnode : p'.node = p.node)
    (hleader : p'.role = .leader → LeaderSim A v p') : Sim (g.setPeer v p') A := by
  have hact : A.act v p'.node A.toHistory = A := by
    rw [hnode, ← hs.node_of_peer hp, act_self]
  have h : Sim (g.setPeer v p') (A.act v p'.node A.toHistory) :=
    hs.act (by rw [hact]; exact hs.inv) (hid.trans (hs.id v p hp)) hs.indexed (fun _ _ _ h => h)
      (by rw [hact]; exact hleader)
  rwa [hact] at h

theorem setNext (hr : p.role = .leader) (hn : 1 ≤ n ∧ n ≤ p.log.length + 1) :
    Sim (g.setPeer v (setNext f n p)) A := by
  have hl := hs.leader v p hp hr
  refine hs.note hp rfl rfl fun _ => ⟨hl.vote, fun w m hw => ?_, hl.matched, hl.own⟩
  by_cases hwf : w = f
  · subst hwf
    rw [setNext_self] at hw
    cases hw
    exact hn
  · rw [setNext_of_ne _ _ hwf] at hw
    exact hl.next w m hw

theorem setMatch (hr : p.role = .leader) {m : ℕ} (hm : m ≤ p.log.length)
    (hacked : ∀ i, 0 < i → i ≤ m → A.acked f p.currentTerm (p.log.take i)) :
    Sim (g.setPeer v (setMatch f m p)) A := by
  have hl := hs.leader v p hp hr
  refine hs.note hp rfl rfl fun _ => ⟨hl.vote, fun w n hw => ?_, fun w n hw => ?_, hl.own⟩
  · by_cases hwf : w = f
    · subst hwf
      rw [setMatch_next_self] at hw
      cases hw
      exact ⟨by omega, Nat.succ_le_succ hm⟩
    · rw [setMatch_next_of_ne _ _ hwf] at hw
      exact hl.next w n hw
  · by_cases hwf : w = f
    · subst hwf
      rw [setMatch_match_self] at hw
      cases hw
      exact ⟨hm, hacked⟩
    · rw [setMatch_match_of_ne _ _ hwf] at hw
      exact hl.matched w n hw

theorem next_bound (hr : p.role = .leader) (f : NodeId) :
    1 ≤ (p.nextIndex f).getD 1 ∧ (p.nextIndex f).getD 1 ≤ p.log.length + 1 := by
  cases hnext : p.nextIndex f with
  | none => exact ⟨le_rfl, Nat.le_add_left 1 _⟩
  | some n => exact (hs.leader v p hp hr).next f n hnext

end

section

variable (hp : g.peers leader = some p)

include hp

section

variable (hr : p.role = .leader)

include hr

theorem validAppend {pre entries : List LogEntry} (hlog : pre ++ entries <+: p.log) : ValidAppend A
    leader p.currentTerm pre entries p.commitIndex := by
  have hn : A.node leader = p.node := hs.node_of_peer hp
  obtain ⟨-, hw, hhist⟩ := (hs.inv.node leader).leader (by rw [hn]; exact hr)
  obtain ⟨hlen, hcommit⟩ := (hs.inv.node leader).commit_log
  rw [hn] at hw hhist hlen hcommit
  refine ⟨hw, hlog.trans (hhist ▸ prefix_refl _), hcommit.imp_right ?_⟩
  rintro ⟨t, q, hq, ht, hpre⟩
  exact ⟨t, q, hq, ht, hhist ▸ hlen, hhist ▸ hpre⟩

theorem sendEntries (hf : f ∈ g.voters) (hn : 1 ≤ n ∧ n ≤ p.log.length + 1) {r : AppendResult}
    (h : g.appendEntries f leader p.currentTerm (n - 1) ((p.termAt (n - 1)).getD 0)
      (p.log.filter fun e => e.index ≥ n) p.commitIndex = (r, g')) :
    g'.voters = g.voters ∧ (∀ w, w ≠ f → g'.peers w = g.peers w) ∧ ∃ A', Calm A A' ∧ Sim g' A' ∧
      (r.success = true → ∀ i, A'.acked f p.currentTerm (p.log.take i)) := by
  obtain ⟨q, hq⟩ := ne_none_iff_exists'.mp (hs.known f hf)
  have hlen : n - 1 ≤ p.log.length := by omega
  have hwhole : p.log.take (n - 1) ++ p.log.drop (n - 1) = p.log := take_append_drop _ _
  have hcommit : p.commitIndex ≤ p.log.length := hs.commit_le_length hp
  have hprev : (p.log.take (n - 1)).length = n - 1 := length_take_of_le hlen
  rw [filter_index_eq_drop (hs.indexed_log hp) hn.1, termAt_eq_lastTerm p hlen] at h
  have h' : g.appendEntries f leader p.currentTerm (p.log.take (n - 1)).length
      (RaftLib.lastTerm LogEntry.term (p.log.take (n - 1))) (p.log.drop (n - 1)) p.commitIndex =
        (r, g') := by
    rw [hprev]
    exact h
  have hvalid : ValidAppend A leader p.currentTerm (p.log.take (n - 1)) (p.log.drop (n - 1))
      p.commitIndex := hs.validAppend hp hr (by rw [hwhole])
  obtain ⟨hvoters, hpeers, -, A', q', hcalm, hs', -, hacked⟩ :=
    hs.appendEntries hq hvalid (fun _ _ => .inl (by rw [hwhole]; exact hcommit)) h'
  rw [hwhole] at hacked
  exact ⟨hvoters, hpeers, A', hcalm, hs',
    fun hok i => (hacked hok).2.2.2 _ (.inl ( take_prefix _ _))⟩

/-- **Replication is a sequence of protocol steps**, and without an error the leader still leads
with the same log. -/
theorem replicateLoop (hf : f ∈ g.voters) (hne : f ≠ leader) {attempts : ℕ}
    {res : Except ProposeError Unit}
    (h : PartitionRaft.replicateLoop leader f attempts g = (res, g')) :
    g'.voters = g.voters ∧
      (∃ p', g'.peers leader = some p' ∧ (res = .ok () → p'.node = p.node)) ∧
      ∃ A', Calm A A' ∧ Sim g' A' := by
  induction attempts generalizing g A p with
  | zero =>
    cases h
    exact ⟨rfl, ⟨p, hp, fun _ => rfl⟩, A, .refl A, hs⟩
  | succ attempts ih =>
    unfold PartitionRaft.replicateLoop at h
    rw [hp] at h
    dsimp only at h
    rw [if_neg (not_not.mpr hr)] at h
    have hn := hs.next_bound hp hr f
    generalize (p.nextIndex f).getD 1 = n at h hn
    obtain ⟨⟨r, g₁⟩, hsend⟩ : ∃ r, g.appendEntries f leader p.currentTerm (n - 1)
      ((p.termAt (n - 1)).getD 0) (p.log.filter fun e => e.index ≥ n) p.commitIndex = r := ⟨_, rfl⟩
    obtain ⟨hvoters₁, hpeers₁, A₁, hcalm₁, hs₁, hacked⟩ := hs.sendEntries hp hr hf hn hsend
    have hp₁ : g₁.peers leader = some p := (hpeers₁ leader hne.symm).trans hp
    rw [hsend] at h
    split_ifs at h with hhigher hok
    · -- the follower is in a higher term
      rw [modifyPeer_eq hp₁] at h
      cases h
      obtain ⟨hcalm, hs'⟩ := hs₁.becomeFollower hp₁ hhigher
      exact ⟨hvoters₁, ⟨_, g₁.setPeer_self _ _, nofun⟩, _, hcalm₁.trans hcalm, hs'⟩
    · -- the follower has accepted
      rw [modifyPeer_eq hp₁, filter_index_eq_drop (hs.indexed_log hp) hn.1,
        matchIdx_eq (hs.indexed_log hp) (by omega)] at h
      cases h
      exact ⟨hvoters₁, ⟨_, g₁.setPeer_self _ _, fun _ => rfl⟩, A₁, hcalm₁,
        hs₁.setMatch hp₁ hr le_rfl fun i _ _ => hacked hok i⟩
    · -- the follower has refused, and the leader backs off
      have hback := backOff_le hn.1 r.conflictIndex (p.log.filter fun e => e.index ≥ n) (n - 1)
      generalize backOff n r.conflictIndex (p.log.filter fun e => e.index ≥ n) (n - 1) = b
        at h hback
      obtain ⟨next, stop⟩ := b
      have hs₂ := hs₁.setNext (f := f) (n := next) hp₁ hr ⟨hback.1, hback.2.trans hn.2⟩
      cases stop with
      | true =>
        dsimp only at h
        rw [modifyPeer_eq hp₁] at h
        cases h
        exact ⟨hvoters₁, ⟨_, g₁.setPeer_self _ _, fun _ => rfl⟩, A₁, hcalm₁, hs₂⟩
      | false =>
        dsimp only at h
        rw [modifyPeer_eq hp₁] at h
        obtain ⟨hvoters, hpeer, A', hcalm, hs'⟩ := ih hs₂ (g₁.setPeer_self _ _) hr
          (hvoters₁ ▸ hf) h
        exact ⟨hvoters.trans hvoters₁, hpeer, A', hcalm₁.trans hcalm, hs'⟩

theorem replicateAll {newIndex : ℕ} {fs acked : List NodeId}
    (hfs : ∀ f ∈ fs, f ∈ g.voters ∧ f ≠ leader) {res : Except ProposeError (List NodeId)}
    (h : PartitionRaft.replicateAll leader newIndex fs acked g = (res, g')) :
    g'.voters = g.voters ∧ ∃ A', Calm A A' ∧ Sim g' A' ∧
      ∀ l, res = .ok l → ∃ p', g'.peers leader = some p' ∧ p'.node = p.node := by
  induction fs generalizing g A p acked with
  | nil =>
    cases h
    exact ⟨rfl, A, .refl A, hs, fun _ _ => ⟨p, hp, rfl⟩⟩
  | cons f fs ih =>
    obtain ⟨hf, hne⟩ := hfs f mem_cons_self
    unfold PartitionRaft.replicateAll at h
    obtain ⟨⟨r, g₁⟩, hrep⟩ : ∃ r, g.replicateTo leader f = r := ⟨_, rfl⟩
    obtain ⟨hvoters₁, ⟨p₁, hp₁, hok₁⟩, A₁, hcalm₁, hs₁⟩ := hs.replicateLoop hp hr hf hne hrep
    rw [hrep] at h
    cases r with
    | error e =>
      cases h
      exact ⟨hvoters₁, A₁, hcalm₁, hs₁, nofun⟩
    | ok u =>
      have hnode₁ : p₁.node = p.node := hok₁ rfl
      have hr₁ : p₁.role = .leader := (congrArg Node.role hnode₁).trans hr
      obtain ⟨hvoters, A', hcalm, hs', hok⟩ := ih hs₁ hp₁ hr₁
        (fun w hw => hvoters₁ ▸ hfs w (mem_cons_of_mem _ hw)) h
      refine ⟨hvoters.trans hvoters₁, A', hcalm₁.trans hcalm, hs', fun l hl => ?_⟩
      obtain ⟨p', hp', hnode'⟩ := hok l hl
      exact ⟨p', hp', hnode'.trans hnode₁⟩

end

theorem pushCommit (fs : List NodeId) (hfs : ∀ f ∈ fs, f ∈ g.voters ∧ f ≠ leader) :
    (PartitionRaft.pushCommit leader fs g).voters = g.voters ∧ ∃ A', Calm A A' ∧ Sim
    (PartitionRaft.pushCommit leader fs g) A' := by
  induction fs generalizing g A p with
  | nil => exact ⟨rfl, A, .refl A, hs⟩
  | cons f fs ih =>
    obtain ⟨hf, hne⟩ := hfs f mem_cons_self
    unfold PartitionRaft.pushCommit
    obtain ⟨⟨r, g₁⟩, hrep⟩ : ∃ r, g.replicateTo leader f = r := ⟨_, rfl⟩
    rw [hrep]
    obtain ⟨hvoters₁, ⟨p₁, hp₁⟩, A₁, hcalm₁, hs₁⟩ : g₁.voters = g.voters ∧
        (∃ p₁, g₁.peers leader = some p₁) ∧ ∃ A₁, Calm A A₁ ∧ Sim g₁ A₁ := by
      by_cases hr : p.role = .leader
      · obtain ⟨hvoters₁, ⟨p₁, hp₁, -⟩, hrest⟩ := hs.replicateLoop hp hr hf hne hrep
        exact ⟨hvoters₁, ⟨p₁, hp₁⟩, hrest⟩
      · -- the leader has stepped down
        have hsame : g.replicateTo leader f = (.error .notLeader, g) := by
          rw [PartitionRaft.replicateTo, PartitionRaft.replicateLoop, hp]
          exact if_pos hr
        cases hsame.symm.trans hrep
        exact ⟨rfl, ⟨p, hp⟩, A, .refl A, hs⟩
    obtain ⟨hvoters, A', hcalm, hs'⟩ := ih hs₁ hp₁ fun w hw =>
      hvoters₁ ▸ hfs w (mem_cons_of_mem _ hw)
    exact ⟨hvoters.trans hvoters₁, A', hcalm₁.trans hcalm, hs'⟩

theorem newCommit_spec (hr : p.role = .leader) (h : g.newCommit p = some n) : ∃ e,
    p.log.take n = p.log.take (n - 1) ++ [e] ∧ e.term = p.currentTerm ∧ p.commitIndex ≤ n ∧ n ≤
    p.log.length ∧ Majority g.voters fun v => A.acked v p.currentTerm (p.log.take n) := by
  have hprop := find?_some h
  have hmem := mem_of_find?_eq_some h
  rw [decide_eq_true_eq] at hprop
  rw [mem_reverse, mem_range'_1] at hmem
  have hpos : n ≠ 0 := by omega
  obtain ⟨hterm, hcount⟩ := hprop
  rw [RaftPeer.termAt, if_neg hpos, map_eq_some_iff] at hterm
  obtain ⟨e, he, heterm⟩ := hterm
  have hlt : n - 1 < p.log.length := (List.getElem?_eq_some_iff.mp he).1
  refine ⟨e, ?_, heterm, by omega, by omega, g.voters.filter fun v => (p.matchIndex v).getD 0 ≥ n,
    filter_sublist, ?_, fun v hv => ?_⟩
  · have := getElem?_take_concat he
    rwa [Nat.sub_add_cancel (Nat.pos_of_ne_zero hpos)] at this
  · rw [matchCount, PartitionRaft.quorum] at hcount
    omega
  · obtain ⟨-, hmatch⟩ := mem_filter.mp hv
    rw [decide_eq_true_eq] at hmatch
    cases hm : p.matchIndex v with
    | none =>
      rw [hm, getD_none] at hmatch
      omega
    | some m =>
      rw [hm] at hmatch
      exact ((hs.leader leader p hp hr).matched v m hm).2 n (Nat.pos_of_ne_zero hpos) hmatch

theorem advanceCommit (hr : p.role = .leader) :
    (g.advanceCommit leader).voters = g.voters ∧
      (∃ p', (g.advanceCommit leader).peers leader = some p' ∧ p'.log = p.log) ∧
      ∃ A', Calm A A' ∧ Sim (g.advanceCommit leader) A' := by
  unfold PartitionRaft.advanceCommit
  rw [hp]
  dsimp only
  rw [if_neg (not_not.mpr hr)]
  cases hnew : g.newCommit p with
  | none => exact ⟨rfl, ⟨p, hp, rfl⟩, A, .refl A, hs⟩
  | some n =>
    dsimp only
    rw [modifyPeer_eq hp]
    obtain ⟨e, htake, hterm, hle, hlen, hmaj⟩ := hs.newCommit_spec hp hr hnew
    have hn : A.node leader = p.node := hs.node_of_peer hp
    rw [htake] at hmaj
    have hstep := Step.commit (τ := LogEntry.term) (s := A) leader (p.log.take (n - 1)) e
      (by rw [hn]; exact hr) (by rw [hn, ← htake, length_take_of_le hlen]; exact hle)
      (by rw [hn, ← htake]; exact take_prefix _ _) (by rw [hn]; exact hterm)
      (by rw [hn, hs.voters]; exact hmaj)
    have hnode : { A.node leader with commit := (p.log.take (n - 1) ++ [e]).length } =
        { p with commitIndex := n }.node := by
      rw [hn, ← htake, length_take_of_le hlen]
      rfl
    rw [hnode] at hstep
    have hl := hs.leader leader p hp hr
    have hsim : Sim (g.setPeer leader { p with commitIndex := n }) _ :=
      hs.act (hstep.inv hs.inv) (hs.id leader p hp) hs.indexed (fun _ _ _ ha => ha)
        fun _ => ⟨hl.vote, hl.next, hl.matched, hl.own⟩
    exact ⟨rfl, ⟨_, g.setPeer_self _ _, rfl⟩, _,
      Calm.act hstep rfl (.inl (by rw [hn]; exact ⟨rfl, rfl⟩)) (fun _ _ _ _ hb => hb)
        (fun _ _ _ ha => ha) (by rw [hn]; exact le_rfl), hsim.flush⟩

theorem pushEntry (hr : p.role = .leader) (hterm : e.term = p.currentTerm)
    (hindex : e.index = p.log.length + 1) :
    ∃ A', Calm A A' ∧ Sim (g.setPeer leader (pushEntry leader e p)) A' := by
  have hn : A.node leader = p.node := hs.node_of_peer hp
  have hstep := Step.propose (τ := LogEntry.term) (s := A) leader e (by rw [hn]; exact hr)
    (by rw [hn]; exact hterm)
  rw [hn] at hstep
  have hl := hs.leader leader p hp hr
  -- what was acknowledged of the shorter log is a part of the longer one
  have htake : ∀ i, i ≤ p.log.length → (p.log ++ [e]).take i = p.log.take i := fun i hi =>
    take_append_of_le_length hi
  have hsim : Sim (g.setPeer leader (PartitionRaft.pushEntry leader e p))
      (A.act leader (PartitionRaft.pushEntry leader e p).node
        ((A.setHistory p.currentTerm (p.log ++ [e])).addAcked leader p.currentTerm
          (p.log ++ [e]))) := by
    refine hs.act (hstep.inv hs.inv) (hs.id leader p hp) (fun t => ?_) (fun _ _ _ ha => .inl ha)
      fun _ => ⟨hl.vote, fun w n hw => ?_, fun w m hw => ?_,
        fun i _ _ => .inr ⟨rfl, rfl, take_prefix _ _⟩⟩
    · by_cases ht : t = p.currentTerm
      · subst ht
        have hself : (A.setHistory p.currentTerm (p.log ++ [e])).history p.currentTerm =
            p.log ++ [e] := update_self ..
        show Indexed ((A.setHistory p.currentTerm (p.log ++ [e])).history p.currentTerm)
        rw [hself]
        exact (hs.indexed_log hp).concat hindex
      · have hother : (A.setHistory p.currentTerm (p.log ++ [e])).history t = A.history t :=
          update_of_ne ht ..
        show Indexed ((A.setHistory p.currentTerm (p.log ++ [e])).history t)
        rw [hother]
        exact hs.indexed t
    · simp only [PartitionRaft.pushEntry, update_apply, length_append,
        length_singleton] at hw ⊢
      split_ifs at hw
      · cases hw
        omega
      · have := hl.next w n hw
        omega
    · simp only [PartitionRaft.pushEntry, update_apply, length_append,
        length_singleton] at hw ⊢
      split_ifs at hw with hself
      · cases hw
        exact ⟨hindex.le, fun i _ _ => .inr ⟨hself, rfl, take_prefix _ _⟩⟩
      · obtain ⟨hle, hm⟩ := hl.matched w m hw
        refine ⟨hle.trans (Nat.le_succ _), fun i hi him => ?_⟩
        rw [htake i (him.trans hle)]
        exact .inl (hm i hi him)
  exact ⟨_, Calm.act hstep rfl (.inl (by rw [hn]; exact ⟨rfl, rfl⟩)) (fun _ _ _ _ hb => hb)
    (fun _ _ _ ha => .inl ha) (by rw [hn]), hsim⟩

end

omit hs in
theorem popEntry_pushEntry (leader : NodeId) (e : LogEntry) (p : RaftPeer) :
    PartitionRaft.popEntry leader e.index (PartitionRaft.pushEntry leader e p) =
      { p with
        matchIndex := Function.update p.matchIndex leader (some (lastIndex p.log))
        nextIndex := Function.update p.nextIndex leader (some (lastIndex p.log + 1)) } := by
  have hlast : (PartitionRaft.pushEntry leader e p).lastLogIndex = e.index := by
    simp [RaftPeer.lastLogIndex, lastIndex, PartitionRaft.pushEntry]
  rw [PartitionRaft.popEntry, hlast, if_pos rfl]
  simp [PartitionRaft.pushEntry]

theorem popEntry (hp : g.peers leader = some p) (hr : p.role = .leader) (e : LogEntry) :
    Sim (g.setPeer leader (popEntry leader e.index (PartitionRaft.pushEntry leader e p))) A := by
  have hl := hs.leader leader p hp hr
  rw [popEntry_pushEntry, (hs.indexed_log hp).lastIndex_eq]
  refine hs.note hp rfl rfl fun _ => ⟨hl.vote, fun w n hw => ?_, fun w m hw => ?_, hl.own⟩
  · dsimp only at hw
    rw [update_apply] at hw
    split_ifs at hw
    · cases hw
      exact ⟨Nat.le_add_left 1 _, le_rfl⟩
    · exact hl.next w n hw
  · dsimp only at hw
    rw [update_apply] at hw
    split_ifs at hw with hself
    · cases hw
      exact ⟨le_rfl, fun i hi hle => hself ▸ hl.own i hi hle⟩
    · exact hl.matched w m hw

end Sim

def Settled (A : State NodeId LogEntry) (index : ℕ) (e : LogEntry) : Prop :=
  ∃ t q, A.committed t q ∧ entryAtPos q index = some e

def Proposed (res : Except ProposeError ProposeResult) (A : State NodeId LogEntry) : Prop :=
  ∀ r, res = .ok r → r.committed = true → Settled A r.position r.entry

theorem Settled.mono (h : Settled A i e)
    (hg : RaftLib.Grows A.toHistory A'.toHistory) : Settled A' i e := by
  obtain ⟨t, q, hq, he⟩ := h
  exact ⟨t, q, hg.committed t q hq, he⟩
namespace Sim

theorem settled (hs : Sim g A) (hp : g.peers v = some p)
    (hi : i ≤ p.commitIndex) (he : entryAtPos p.log i = some e) : Settled A i e := by
  have hpos : 0 < i := by
    refine Nat.pos_of_ne_zero fun hzero => ?_
    rw [hzero] at he
    cases he
  have hn : A.node v = p.node := hs.node_of_peer hp
  obtain ⟨t, q, hq, -, hlog⟩ := hs.inv.take_commit (v := v) (i := i) (by rw [hn]; exact hi) hpos
  refine ⟨t, q, hq, ?_⟩
  rw [hn] at hlog
  obtain ⟨j, rfl⟩ := Nat.exists_eq_add_of_lt hpos
  rw [Nat.zero_add] at he hlog ⊢
  rw [entryAtPos_succ] at he ⊢
  have htake : (p.node.log.take (j + 1))[j]? = some e := by
    rw [getElem?_take_of_lt (Nat.lt_succ_self j)]
    exact he
  obtain ⟨l, rfl⟩ := hlog
  rw [getElem?_append_left (List.getElem?_eq_some_iff.mp htake).1]
  exact htake

theorem propose (hs : Sim g A) (hi : Idle A) {command : LogCommand} {online : List NodeId}
    {res : Except ProposeError ProposeResult} (h : g.propose leader command online = (res, g')) :
    Follows A g g' fun A' => Proposed res A' ∧ A'.winner = A.winner := by
  unfold PartitionRaft.propose at h
  cases hp : g.peers leader with
  | none =>
    rw [hp] at h
    cases h
    exact ⟨rfl, A, .refl, hs, hi, (fun _ h => by cases h), rfl⟩
  | some p =>
    rw [hp] at h
    dsimp only at h
    by_cases hr : p.role ≠ .leader
    · rw [if_pos hr] at h
      cases h
      exact ⟨rfl, A, .refl, hs, hi, (fun _ h => by cases h), rfl⟩
    rw [if_neg hr] at h
    have hr : p.role = .leader := not_not.mp hr
    have hlast : p.lastLogIndex = p.log.length := (hs.indexed_log hp).lastIndex_eq
    rw [hlast] at h
    obtain ⟨e, he⟩ : ∃ e : LogEntry, e = ⟨p.currentTerm, p.log.length + 1, command⟩ := ⟨_, rfl⟩
    rw [← he] at h
    have hindex : e.index = p.log.length + 1 := by rw [he]
    have hterm : e.term = p.currentTerm := by rw [he]
    suffices hsuff : g'.voters = g.voters ∧ ∃ A', Calm A A' ∧ Sim g' A' ∧ Proposed res A' by
      obtain ⟨hvoters, A', hcalm, hs', hprop⟩ := hsuff
      exact ⟨hvoters, A', hcalm.steps, hs', hcalm.idle hi, hprop, hcalm.winner⟩
    have hp₁ : (g.setPeer leader (PartitionRaft.pushEntry leader e p)).flushPeer.2.peers leader =
        some (PartitionRaft.pushEntry leader e p) := g.setPeer_self _ _
    by_cases hflush : (g.setPeer leader (PartitionRaft.pushEntry leader e p)).flushPeer.1 = false
    · -- the entry was not persisted
      rw [if_pos hflush, modifyPeer_eq hp₁, ← hindex] at h
      cases h
      have hs₁ := (hs.popEntry hp hr e).flush
      exact ⟨rfl, A, .refl A,
        hs₁.congr (by simp [PartitionRaft.setPeer, PartitionRaft.flushPeer]) rfl,
        fun _ h => by cases h⟩
    rw [if_neg hflush] at h
    obtain ⟨A₁, hcalm₁, hs₁⟩ := hs.pushEntry hp hr hterm hindex
    have hfs : ∀ f ∈ g.voters.filter fun v => v ≠ leader ∧ v ∈ online,
        f ∈ g.voters ∧ f ≠ leader := by
      intro f hf
      obtain ⟨hf, hcond⟩ := mem_filter.mp hf
      exact ⟨hf, (decide_eq_true_eq.mp hcond).1⟩
    obtain ⟨⟨r, g₂⟩, hrep⟩ : ∃ r, PartitionRaft.replicateAll leader (p.log.length + 1)
      (g.voters.filter fun v => v ≠ leader ∧ v ∈ online) [leader]
      (g.setPeer leader (PartitionRaft.pushEntry leader e p)).flushPeer.2 = r := ⟨_, rfl⟩
    obtain ⟨hvoters₂, A₂, hcalm₂, hs₂, hok₂⟩ := hs₁.flush.replicateAll hp₁ hr hfs hrep
    rw [flushPeer_voters, setPeer_voters, hrep] at h
    cases r with
    | error err =>
      cases h
      exact ⟨hvoters₂, A₂, hcalm₁.trans hcalm₂, hs₂, fun _ h => by cases h⟩
    | ok acked =>
      obtain ⟨p₂, hp₂, hnode₂⟩ := hok₂ acked rfl
      have hr₂ : p₂.role = .leader := (congrArg Node.role hnode₂).trans hr
      have hlog₂ : p₂.log = p.log ++ [e] := congrArg Node.log hnode₂
      obtain ⟨hvoters₃, ⟨p₃, hp₃, hlog₃⟩, A₃, hcalm₃, hs₃⟩ := hs₂.advanceCommit hp₂ hr₂
      replace hvoters₃ : (g₂.advanceCommit leader).voters = g.voters := hvoters₃.trans hvoters₂
      have hcalm := (hcalm₁.trans hcalm₂).trans hcalm₃
      dsimp only at h
      rw [hp₃] at h
      by_cases hcommit : p₃.commitIndex ≥ p.log.length + 1
      · simp only [map_some, getD_some, hcommit, decide_true, if_true] at h
        cases h
        obtain ⟨hvoters₄, A₄, hcalm₄, hs₄⟩ := hs₃.pushCommit hp₃
          ((g₂.advanceCommit leader).voters.filter fun v => v ≠ leader ∧ v ∈ online)
          (by rw [hvoters₃]; exact hfs)
        refine ⟨hvoters₄.trans hvoters₃, A₄, hcalm.trans hcalm₄, hs₄, fun r hres _ => ?_⟩
        cases hres
        have hentry : entryAtPos p₃.log (p.log.length + 1) = some e := by
          rw [hlog₃, hlog₂, entryAtPos_succ, getElem?_append_cons]
        exact (hs₃.settled hp₃ hcommit hentry).mono (hcalm₄.steps.grows hs₃.inv)
      · simp only [map_some, getD_some, hcommit, decide_false, Bool.false_eq_true,
          if_false] at h
        cases h
        refine ⟨hvoters₃, A₃, hcalm, hs₃, fun r hres hcom => ?_⟩
        cases hres
        cases hcom

end Sim

end Residiuum.Cluster
